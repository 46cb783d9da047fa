import Favonius.Daemon.MerkleInputs
import Favonius.Sync.MerkleProofs

/-!
# The Merkle cache

A tree as bytes and the cache file that holds it.  What is read from an entry is the
tree that was written or nothing, also where the length of the tree does not fit
its field.
-/

namespace Favonius.Daemon

open ByteCodec Machine Sync List MerkleTree
open Option (bind_eq_some_iff bind_some map_eq_some_iff map_some some some_inj)

/-! ## Trees as bytes -/

lemma length_levelBytes (level : List (FixedBytes 32)) :
    (levelBytes level).length = 4 + 32 * level.length := by
  rw [levelBytes, length_append, length_leBytes, length_flatMap_val]

lemma leNat_leBytes (w n : ℕ) : leNat (leBytes w n) = n % 256 ^ w := by
  rw [leNat, leBytes, reverse_reverse, beNat_beBytes]

variable {data : Bytes} {w n off : ℕ}

lemma leAt_of_append_mod (before after : Bytes) (h : data = before ++ (leBytes w n ++ after))
    (hoff : before.length = off) : leAt w data off = some (n % 256 ^ w) := by
  have hlen : off + w ≤ data.length := by
    rw [h, length_append, length_append, length_leBytes]
    omega
  rw [leAt, range_of_le (Nat.le_add_right _ _) hlen, Nat.add_sub_cancel_left, map_some,
    slice_eq_of_append h hoff (length_leBytes w n), leNat_leBytes]

lemma leAt_of_append (before after : Bytes) (h : data = before ++ (leBytes w n ++ after))
    (hoff : before.length = off) (hn : n < 256 ^ w) : leAt w data off = some n := by
  rw [leAt_of_append_mod before after h hoff, Nat.mod_eq_of_lt hn]

variable {after : Bytes}

lemma leAt_of_drop (hw : 0 < w) (h : data.drop off = leBytes w n ++ after) :
    leAt w data off = some (n % 256 ^ w) ∧ data.drop (off + w) = after := by
  have hlen := congrArg List.length h
  rw [length_drop, length_append, length_leBytes] at hlen
  refine ⟨?_, ?_⟩
  · rw [leAt, range_of_le (Nat.le_add_right _ _) (by omega), Nat.add_sub_cancel_left, slice, h,
      take_left' (length_leBytes w n), map_some, leNat_leBytes]
  · rw [← drop_drop, h, drop_left' (length_leBytes w n)]

variable {xs : Bytes} {level : List (FixedBytes 32)} {a b c : ℕ}

lemma range_of_append (before after : Bytes) {start stop : ℕ} (h : data = before ++ (xs ++ after))
    (hstart : before.length = start) (hstop : start + xs.length = stop) :
    range data start stop = some xs := by
  have hlen : stop ≤ data.length := by
    rw [h, length_append, length_append]
    omega
  rw [range_of_le (by omega) hlen, slice_eq_of_append h hstart (by omega)]

variable {before : Bytes}

lemma readLevels_cons (hdata : data = before ++ (levelBytes level ++ after))
    (hlevel : level.length < 2 ^ 32) (hlen : data.length < 2 ^ 63) :
    readLevels data (n + 1) before.length =
      (readLevels data n (before ++ levelBytes level).length).map fun rest =>
        rest.map fun p => (level :: p.1, p.2) := by
  have hsize : data.length = before.length + (4 + 32 * level.length) + after.length := by
    rw [hdata, length_append, length_append, length_levelBytes]
    omega
  have hcount : leAt 4 data before.length = some level.length := by
    refine leAt_of_append before (level.flatMap Subtype.val ++ after) ?_ rfl (by omega)
    rw [hdata, levelBytes, append_assoc]
  have hhashes : range data (before.length + 4) (before.length + 4 + level.length * 32) =
      some (level.flatMap Subtype.val) := by
    refine range_of_append (before ++ leBytes 4 level.length) after ?_ ?_ ?_
    · rw [hdata, levelBytes, append_assoc, append_assoc]
    · rw [length_append, length_leBytes]
    · rw [length_flatMap_val, Nat.mul_comm]
  have hstop : (before ++ levelBytes level).length = before.length + 4 + level.length * 32 := by
    rw [length_append, length_levelBytes]
    omega
  rw [readLevels, add_of_lt (by omega), bind_some, if_neg (by omega), hcount,
    bind_some, mul_of_lt (by omega), bind_some, add_of_lt (by omega)]
  dsimp only
  rw [if_neg (by omega), hhashes, bind_some, hashesOf_flatMap, hstop]

variable {missing : Bytes}

lemma eq_append_of_cut (h : data ++ missing = before ++ xs)
    (hbefore : before.length ≤ data.length) :
    data = before ++ xs.take (data.length - before.length) := by
  have htake := congrArg (List.take data.length) h
  rwa [take_left, take_append, take_of_length_le hbefore] at htake

lemma readLevels_short {tail : Bytes}
    (hdata : data ++ missing = before ++ (levelBytes level ++ tail))
    (hbefore : before.length ≤ data.length)
    (hshort : data.length < (before ++ levelBytes level).length) (hlevel : level.length < 2 ^ 32)
    (hlen : data.length < 2 ^ 63) : readLevels data (n + 1) before.length = some none := by
  rw [length_append, length_levelBytes] at hshort
  rw [readLevels, add_of_lt (by omega), bind_some]
  split
  · rfl
  have hcount : leAt 4 data before.length = some level.length := by
    have hcut := eq_append_of_cut hdata hbefore
    rw [levelBytes, append_assoc, take_append,
      take_of_length_le (by rw [length_leBytes]; omega)] at hcut
    exact leAt_of_append before _ hcut rfl (by omega)
  rw [hcount, bind_some, mul_of_lt (by omega), bind_some, add_of_lt (by omega)]
  dsimp only
  rw [if_pos (by omega)]

lemma readLevels_cut {levels : List (List (FixedBytes 32))}
    (hdata : data ++ missing = before ++ levels.flatMap levelBytes)
    (hbefore : before.length ≤ data.length)
    (hlevels : ∀ level ∈ levels, level.length < 2 ^ 32) (hlen : data.length < 2 ^ 63) :
    readLevels data levels.length before.length =
      some (if missing = [] then some (levels, data.length) else none) := by
  have hsum := congrArg List.length hdata
  induction levels generalizing before with
  | nil =>
    simp only [length_append, flatMap_nil, length_nil] at hsum
    rw [if_pos (length_eq_zero_iff.mp (by omega)), length_nil, readLevels]
    congr 3
    omega
  | cons level levels ih =>
    have hlevel := hlevels level mem_cons_self
    rw [flatMap_cons] at hdata
    rcases Nat.lt_or_ge data.length (before ++ levelBytes level).length with hshort | hthere
    · rw [if_neg fun hnil => by simp [hnil] at hsum hshort; omega]
      exact readLevels_short hdata hbefore hshort hlevel hlen
    rw [← append_assoc] at hdata
    have hcut := eq_append_of_cut hdata hthere
    rw [append_assoc] at hcut
    rw [length_cons, readLevels_cons hcut hlevel hlen,
      ih hdata hthere (fun l hl => hlevels l (mem_cons_of_mem level hl))
        (congrArg List.length hdata)]
    split <;> rfl

/-! ## Bytes that are accepted -/

lemma length_hashesOf (bytes : Bytes) : (hashesOf bytes).length = bytes.length / 32 := by
  rw [hashesOf, length_ofFn]

lemma hashesOf_cons (h : FixedBytes 32) (rest : Bytes) :
    hashesOf (h.1 ++ rest) = h :: hashesOf rest := by
  have hlen : (hashesOf (h.1 ++ rest)).length = (h :: hashesOf rest).length := by
    rw [length_cons, length_hashesOf, length_hashesOf, length_append, h.2]
    omega
  refine ext_getElem hlen fun i hi hi' => ?_
  apply Subtype.ext
  cases i with
  | zero =>
    simp only [hashesOf, List.getElem_ofFn, getElem_cons_zero]
    exact @slice_eq_of_append _ _ _ _ [] _ _ rfl rfl h.2
  | succ i =>
    simp only [hashesOf, List.getElem_ofFn, getElem_cons_succ]
    show slice (h.1 ++ rest) (32 * (i + 1)) 32 = slice rest (32 * i) 32
    rw [Nat.mul_succ, Nat.add_comm, ← slice_append_right h.1 rest, h.2]

lemma leBytes_leNat {bs : Bytes} (hlen : bs.length = w) : leBytes w (leNat bs) = bs := by
  have hbytes := beBytes_beNat bs.reverse
  rw [length_reverse, hlen] at hbytes
  rw [leBytes, leNat, hbytes, reverse_reverse]

lemma flatMap_hashesOf {bytes : Bytes} (hlen : bytes.length = n * 32) :
    (hashesOf bytes).flatMap Subtype.val = bytes := by
  induction n generalizing bytes with
  | zero =>
    obtain rfl : bytes = [] := eq_nil_of_length_eq_zero (by omega)
    rfl
  | succ n ih =>
    have hsplit : bytes = bytes.take 32 ++ bytes.drop 32 := (take_append_drop 32 bytes).symm
    have hhead : (bytes.take 32).length = 32 := by
      rw [length_take]
      omega
    have hcons := hashesOf_cons ⟨bytes.take 32, hhead⟩ (bytes.drop 32)
    rw [← hsplit] at hcons
    rw [hcons, flatMap_cons, ih (by rw [length_drop]; omega), ← hsplit]

lemma eq_of_add_eq_some (h : add w a b = some c) : a + b = c := by
  rw [add] at h
  split at h
  · exact some.inj h
  · cases h

lemma eq_of_mul_eq_some (h : mul w a b = some c) : a * b = c := by
  rw [mul] at h
  split at h
  · exact some.inj h
  · cases h

lemma leBytes_of_leAt (h : leAt w data off = some n) :
    leBytes w n = slice data off w ∧ off + w ≤ data.length := by
  obtain ⟨bytes, hbytes, rfl⟩ := map_eq_some_iff.mp h
  rw [Machine.range] at hbytes
  split at hbytes
  · rename_i hrange
    obtain rfl := some.inj hbytes
    rw [Nat.add_sub_cancel_left]
    refine ⟨leBytes_leNat ?_, hrange.2⟩
    rw [length_slice]
    omega
  · cases hbytes

lemma flatMap_of_readLevels {offset : ℕ} {p : List (List (FixedBytes 32)) × ℕ}
    (hoffset : offset ≤ data.length) (h : readLevels data n offset = some (some p)) :
    p.1.length = n ∧ offset ≤ p.2 ∧ p.2 ≤ data.length ∧
      p.1.flatMap levelBytes = slice data offset (p.2 - offset) := by
  induction n generalizing offset p with
  | zero =>
    cases h
    exact ⟨rfl, le_rfl, hoffset, by simp [slice]⟩
  | succ n ih =>
    obtain ⟨start, hstart, h⟩ := bind_eq_some_iff.mp h
    obtain rfl := eq_of_add_eq_some hstart
    split at h
    · cases h
    obtain ⟨count, hcount, h⟩ := bind_eq_some_iff.mp h
    split at h
    · cases h
    rename_i stop hstop
    split at h
    · cases h
    obtain ⟨bytes, hbytes, h⟩ := bind_eq_some_iff.mp h
    obtain ⟨rest, hrest, h⟩ := map_eq_some_iff.mp h
    obtain ⟨q, rfl, rfl⟩ := map_eq_some_iff.mp h
    obtain ⟨hlevels, hle, hge, hflat⟩ := ih (by omega) hrest
    obtain ⟨byteLen, hmul, hadd⟩ := bind_eq_some_iff.mp hstop
    obtain rfl := eq_of_mul_eq_some hmul
    obtain rfl := eq_of_add_eq_some hadd
    rw [range_of_le (Nat.le_add_right _ _) (by omega), Nat.add_sub_cancel_left, some_inj] at hbytes
    have hlen : bytes.length = count * 32 := by
      rw [← hbytes, length_slice]
      omega
    have hlevel : levelBytes (hashesOf bytes) = slice data offset (4 + count * 32) := by
      rw [levelBytes, length_hashesOf, hlen, Nat.mul_div_cancel _ (by norm_num),
        (leBytes_of_leAt hcount).1, flatMap_hashesOf hlen, ← hbytes, slice_append_slice rfl]
    refine ⟨by rw [length_cons, hlevels], by dsimp only; omega, hge, ?_⟩
    rw [flatMap_cons, hflat, hlevel, slice_append_slice (by omega)]
    congr 1
    omega

lemma toBytes_of_treeFromBytes {tree : MerkleTree} (h : treeFromBytes data = some (some tree)) :
    tree.toBytes = data := by
  rw [treeFromBytes] at h
  split at h
  · cases h
  obtain ⟨leafCount, hleaf, h⟩ := bind_eq_some_iff.mp h
  obtain ⟨numLevels, hnum, h⟩ := bind_eq_some_iff.mp h
  split at h
  · cases h
  obtain ⟨levels, hlevels, hread⟩ := map_eq_some_iff.mp h
  obtain ⟨p, rfl, hcheck⟩ := bind_eq_some_iff.mp hread
  dsimp only at hcheck
  split at hcheck
  · cases hcheck
  rename_i hexact
  obtain rfl := some.inj hcheck
  obtain ⟨hend, hcount⟩ : p.2 = data.length ∧ (⟨p.1⟩ : MerkleTree).leafCount = leafCount := by
    simpa using hexact
  obtain ⟨hn, hle, -, hflat⟩ := flatMap_of_readLevels (by omega) hlevels
  rw [toBytes, hcount, (leBytes_of_leAt hleaf).1, hn, (leBytes_of_leAt hnum).1, hflat,
    slice_append_slice rfl, slice_append_slice rfl, hend, slice, drop_zero,
    take_of_length_le (by omega)]

/-! ## Trees that are written -/

section Written

variable (blake3 : Bytes → FixedBytes 32) {leaves : List (FixedBytes 32)}
  (hleaves : leaves.length < 2 ^ 32)
include hleaves

lemma length_level_lt :
    ∀ level ∈ (fromLeaves blake3 leaves).levels, level.length < 2 ^ 32 := by
  intro level hlevel
  obtain ⟨l, hl⟩ := mem_iff_getElem?.mp hlevel
  rw [getElem?_levels_fromLeaves] at hl
  split at hl
  · obtain rfl := some.inj hl
    refine lt_of_le_of_lt (Nat.le_of_not_lt fun hlt => ?_) hleaves
    have hmul := (HashTree.lt_length_level (hashPair blake3)).mp hlt
    have hpos := Nat.le_mul_of_pos_right leaves.length (Nat.two_pow_pos l)
    omega
  · cases hl

lemma length_levels_le : (fromLeaves blake3 leaves).levels.length ≤ 33 := by
  rw [length_levels_fromLeaves]
  exact Nat.succ_le_succ (Nat.clog_le_of_le_pow hleaves.le)

lemma length_toBytes_lt :
    (fromLeaves blake3 leaves).toBytes.length < 2 ^ 63 := by
  have hsum : ((fromLeaves blake3 leaves).levels.flatMap levelBytes).length ≤
      (fromLeaves blake3 leaves).levels.length * (4 + 32 * 2 ^ 32) := by
    rw [length_flatMap, ← smul_eq_mul]
    refine (sum_le_card_nsmul _ (4 + 32 * 2 ^ 32) fun n hn => ?_).trans_eq (by simp)
    obtain ⟨level, hlevel, rfl⟩ := List.mem_map.mp hn
    have hlt := length_level_lt blake3 hleaves level hlevel
    rw [length_levelBytes]
    omega
  have hcount := length_levels_le blake3 hleaves
  rw [toBytes, length_append, length_append, length_leBytes, length_leBytes]
  omega

/-- A serialised tree is read back if it is whole, and is corrupt if it is cut off. -/
theorem treeFromBytes_cut (hdata : data ++ missing = (fromLeaves blake3 leaves).toBytes) :
    treeFromBytes data =
      some (if missing = [] then some (fromLeaves blake3 leaves) else none) := by
  have hlevels := length_level_lt blake3 hleaves
  have hnum := length_levels_le blake3 hleaves
  have hleaf : (fromLeaves blake3 leaves).leafCount < 2 ^ 32 := by
    rwa [leafCount_fromLeaves]
  have hpos : 0 < (fromLeaves blake3 leaves).levels.length := by simp
  have hlen : data.length < 2 ^ 63 := by
    have hlt := length_toBytes_lt blake3 hleaves
    rw [← hdata, length_append] at hlt
    omega
  generalize fromLeaves blake3 leaves = tree at *
  rw [toBytes] at hdata
  have hheader : (leBytes 4 tree.leafCount ++ leBytes 4 tree.levels.length).length = 8 := by
    rw [length_append, length_leBytes, length_leBytes]
  rw [treeFromBytes]
  split
  · have hsum := congrArg List.length hdata
    rw [length_append, length_append, hheader] at hsum
    rw [if_neg fun hnil => by rw [hnil, length_nil] at hsum; omega]
  · have hcut := eq_append_of_cut hdata (by omega)
    have hleafCount : leAt 4 data 0 = some tree.leafCount :=
      leAt_of_append [] _ hcut rfl (by omega)
    have hnumLevels : leAt 4 data 4 = some tree.levels.length :=
      leAt_of_append (leBytes 4 tree.leafCount) _ hcut (length_leBytes _ _) (by omega)
    rw [hleafCount, bind_some, hnumLevels, bind_some, if_neg (by rw [maxLevels]; omega)]
    have hread := readLevels_cut hdata (by omega) hlevels hlen
    rw [hheader] at hread
    rw [hread]
    by_cases hmissing : missing = [] <;> simp [hmissing]

end Written

/-! ## Cache entries -/

structure SystemTime where
  sec : ℤ
  nsec : ℕ
  sec_lt : sec < 2 ^ 63
  nsec_lt : nsec < 10 ^ 9

def SystemTime.sinceEpoch (t : SystemTime) : Option (ℕ × ℕ) :=
  if 0 ≤ t.sec then some (t.sec.toNat, t.nsec) else none

/-- What an entry has for the time of the last change; minus one second, as an `i64`, if it is
not known or lies before the epoch. -/
def stamp (mtime : Option SystemTime) : ℕ × ℕ :=
  (mtime.bind SystemTime.sinceEpoch).getD (2 ^ 64 - 1, 0)

def encodeMerkleCache (tree : MerkleTree) (fileSize : ℕ) (mtime : Option (ℕ × ℕ))
    (fingerprint : FixedBytes 32) : Bytes :=
  let treeBytes := tree.toBytes
  let stamp := mtime.getD (2 ^ 64 - 1, 0)
  merkleCacheMagic ++ leBytes 8 fileSize ++ leBytes 8 stamp.1 ++ leBytes 4 stamp.2 ++
    fingerprint.1 ++ leBytes 4 treeBytes.length ++ treeBytes

lemma encodeMerkleCache_eq (tree : MerkleTree) (fileSize : ℕ) (mtime : Option SystemTime)
    (fingerprint : FixedBytes 32) :
    encodeMerkleCache tree fileSize (mtime.bind SystemTime.sinceEpoch) fingerprint =
      merkleCacheMagic ++ leBytes 8 fileSize ++ leBytes 8 (stamp mtime).1 ++
        leBytes 4 (stamp mtime).2 ++ fingerprint.1 ++ leBytes 4 tree.toBytes.length ++
          tree.toBytes := rfl

def cacheEntry (blake3 : Bytes → FixedBytes 32) (tree : MerkleTree)
    (mtime : Option SystemTime) (data : Bytes) : Option Bytes :=
  (contentFingerprint blake3 data).map
    (encodeMerkleCache tree data.length (mtime.bind SystemTime.sinceEpoch))

lemma stamp_lt (mtime : Option SystemTime) :
    (stamp mtime).1 < 2 ^ 64 ∧ (stamp mtime).2 < 2 ^ 32 := by
  rw [stamp]
  cases h : mtime.bind SystemTime.sinceEpoch with
  | none => simp
  | some d =>
    obtain ⟨t, rfl, ht⟩ := bind_eq_some_iff.mp h
    rw [SystemTime.sinceEpoch] at ht
    split at ht
    · obtain rfl := some.inj ht
      have hsec := t.sec_lt
      have hnsec := t.nsec_lt
      dsimp only [Option.getD_some]
      omega
    · cases ht

lemma stamp_matches (mtime : Option SystemTime) :
    ¬((stamp mtime).1 < 2 ^ 63 ∧
      mtime.bind SystemTime.sinceEpoch ≠ some ((stamp mtime).1, (stamp mtime).2)) := by
  rintro ⟨hsec, hne⟩
  apply hne
  rw [stamp] at hsec ⊢
  cases h : mtime.bind SystemTime.sinceEpoch with
  | none =>
    rw [h] at hsec
    simp at hsec
  | some d => rfl

lemma cacheEnvelope_encode (tree : MerkleTree) {fileSize : ℕ} (hsize : fileSize < 2 ^ 64)
    (mtime : Option SystemTime) (fp : FixedBytes 32) :
    cacheEnvelope (encodeMerkleCache tree fileSize (mtime.bind SystemTime.sinceEpoch) fp) =
      some (some (fileSize, (stamp mtime).1, (stamp mtime).2, fp.1,
        tree.toBytes.take (tree.toBytes.length % 2 ^ 32))) := by
  have hstamp := stamp_lt mtime
  have hmagic : merkleCacheMagic.length = 4 := by decide
  have hmod : tree.toBytes.length % 256 ^ 4 ≤ tree.toBytes.length := Nat.mod_le _ _
  have hlen : (encodeMerkleCache tree fileSize (mtime.bind SystemTime.sinceEpoch) fp).length =
      60 + tree.toBytes.length := by
    simp only [encodeMerkleCache_eq, length_append, length_leBytes, hmagic, fp.2]
  have hmagicAt :
      range (encodeMerkleCache tree fileSize (mtime.bind SystemTime.sinceEpoch) fp) 0 4 =
        some merkleCacheMagic := by
    refine range_of_append [] (leBytes 8 fileSize ++ (leBytes 8 (stamp mtime).1 ++
      (leBytes 4 (stamp mtime).2 ++ (fp.1 ++ (leBytes 4 tree.toBytes.length ++
        tree.toBytes))))) ?_ rfl (by rw [hmagic])
    simp only [encodeMerkleCache_eq, append_assoc, nil_append]
  have hdrop : (encodeMerkleCache tree fileSize (mtime.bind SystemTime.sinceEpoch) fp).drop 4 =
      leBytes 8 fileSize ++ (leBytes 8 (stamp mtime).1 ++ (leBytes 4 (stamp mtime).2 ++
        (fp.1 ++ (leBytes 4 tree.toBytes.length ++ tree.toBytes)))) := by
    simp only [encodeMerkleCache_eq, append_assoc]
    exact drop_left' hmagic
  generalize encodeMerkleCache tree fileSize (mtime.bind SystemTime.sinceEpoch) fp = raw at *
  obtain ⟨hsizeAt, hdrop⟩ := leAt_of_drop (by norm_num) hdrop
  obtain ⟨hsecAt, hdrop⟩ := leAt_of_drop (by norm_num) hdrop
  obtain ⟨hnsecAt, hdrop⟩ := leAt_of_drop (by norm_num) hdrop
  have hfpAt : range raw 24 56 = some fp.1 := by
    rw [range_of_le (by norm_num) (by omega), slice, hdrop]
    exact congrArg some (take_left' fp.2)
  have hdrop := congrArg (List.drop 32) hdrop
  rw [drop_drop, drop_left' fp.2] at hdrop
  obtain ⟨htreeAt, hdrop⟩ := leAt_of_drop (by norm_num) hdrop
  rw [Nat.mod_eq_of_lt (by omega)] at hsizeAt
  rw [Nat.mod_eq_of_lt (by omega)] at hsecAt
  rw [Nat.mod_eq_of_lt (by omega)] at hnsecAt
  norm_num only at hsecAt hnsecAt htreeAt hdrop hmod
  have htreeLen : tree.toBytes.length % 4294967296 < 4294967296 :=
    Nat.mod_lt _ (by norm_num)
  rw [cacheEnvelope, if_neg (by omega), hmagicAt, bind_some, if_neg (by simp), hsizeAt,
    bind_some, hsecAt, bind_some, hnsecAt, bind_some, hfpAt,
    bind_some, htreeAt, bind_some, add_of_lt (by omega), map_some,
    if_neg (by omega), slice, hdrop]
  norm_num only

lemma treeFromBytes_kept (blake3 : Bytes → FixedBytes 32) {leaves : List (FixedBytes 32)}
    (hleaves : leaves.length < 2 ^ 32) :
    treeFromBytes ((fromLeaves blake3 leaves).toBytes.take
        ((fromLeaves blake3 leaves).toBytes.length % 2 ^ 32)) =
      some (if (fromLeaves blake3 leaves).toBytes.length < 2 ^ 32 then
        some (fromLeaves blake3 leaves) else none) := by
  rw [treeFromBytes_cut blake3 hleaves (take_append_drop _ _)]
  congr 1
  by_cases hsmall : (fromLeaves blake3 leaves).toBytes.length < 2 ^ 32
  · rw [if_pos hsmall, if_pos]
    rw [Nat.mod_eq_of_lt hsmall, drop_length]
  · rw [if_neg hsmall, if_neg]
    rw [drop_eq_nil_iff]
    omega

lemma contentFingerprint_congr (blake3 : Bytes → FixedBytes 32) {now : Bytes}
    (hfirst : now.take cacheFingerprintWindow = data.take cacheFingerprintWindow)
    (hlast : now.drop (now.length - cacheFingerprintWindow) =
      data.drop (data.length - cacheFingerprintWindow)) :
    contentFingerprint blake3 now = contentFingerprint blake3 data := by
  have hfp (bs : Bytes) : contentFingerprint blake3 bs =
      some (blake3 (bs.take cacheFingerprintWindow ++
        bs.drop (bs.length - cacheFingerprintWindow))) := by
    have hhead : bs.take (min bs.length cacheFingerprintWindow) =
        bs.take cacheFingerprintWindow := by
      rw [Nat.min_comm, ← take_take, take_length]
    have htail : (bs.drop (bs.length - cacheFingerprintWindow)).take
        (bs.length - (bs.length - cacheFingerprintWindow)) =
          bs.drop (bs.length - cacheFingerprintWindow) :=
      take_of_length_le (by rw [length_drop])
    rw [contentFingerprint, range_of_le (Nat.zero_le _) (min_le_left _ _), bind_some,
      range_of_le (Nat.sub_le _ _) le_rfl, map_some, slice, slice, drop_zero,
      Nat.sub_zero, hhead, htail]
  rw [hfp, hfp, hfirst, hlast]

section Read

variable (blake3 : Bytes → FixedBytes 32) {leaves : List (FixedBytes 32)}
  (hleaves : leaves.length < 2 ^ 32) {data : Bytes} (hdata : data.length < 2 ^ 63)
  {mtime : Option SystemTime} {dest : Dest}
  (hcache : dest.cache =
    cacheEntry blake3 (fromLeaves blake3 leaves) mtime data)
include hleaves hdata hcache

lemma readMerkleCache_written : ∃ fp, contentFingerprint blake3 data = some fp ∧
    readMerkleCache blake3 dest =
      if dest.size ≠ some data.length then some none
      else if (stamp mtime).1 < 2 ^ 63 ∧ dest.mtime ≠ some (stamp mtime) then some none
      else
        match dest.content with
        | none => some none
        | some existing =>
          (contentFingerprint blake3 existing).bind fun now =>
            if now.1 ≠ fp.1 then some none
            else some (if (fromLeaves blake3 leaves).toBytes.length < 2 ^ 32
              then some (fromLeaves blake3 leaves) else none) := by
  obtain ⟨fp, hfp⟩ := exists_contentFingerprint blake3 data
  refine ⟨fp, hfp, ?_⟩
  rw [cacheEntry, hfp, map_some] at hcache
  rw [readMerkleCache, hcache]
  dsimp only
  rw [cacheEnvelope_encode _ (by omega), bind_some]
  dsimp only
  rewrite [treeFromBytes_kept blake3 hleaves]
  rfl

lemma readMerkleCache_eq_or : readMerkleCache blake3 dest = some none ∨
    readMerkleCache blake3 dest = some (some (fromLeaves blake3 leaves)) := by
  obtain ⟨fp, -, hread⟩ := readMerkleCache_written blake3 hleaves hdata hcache
  rw [hread]
  split
  · exact .inl rfl
  split
  · exact .inl rfl
  cases dest.content with
  | none => exact .inl rfl
  | some existing =>
    obtain ⟨now, hnow⟩ := exists_contentFingerprint blake3 existing
    dsimp only
    rw [hnow, bind_some]
    split
    · exact .inl rfl
    split
    · exact .inr rfl
    · exact .inl rfl

lemma readMerkleCache_hit {now : Bytes} (hnow : dest.content = some now)
    (hlen : now.length = data.length) (hmtime : dest.mtime = mtime.bind SystemTime.sinceEpoch)
    (hfirst : now.take cacheFingerprintWindow = data.take cacheFingerprintWindow)
    (hlast : now.drop (now.length - cacheFingerprintWindow) =
      data.drop (data.length - cacheFingerprintWindow))
    (hsmall : (fromLeaves blake3 leaves).toBytes.length < 2 ^ 32) :
    readMerkleCache blake3 dest = some (some (fromLeaves blake3 leaves)) := by
  obtain ⟨fp, hfp, hread⟩ := readMerkleCache_written blake3 hleaves hdata hcache
  have hsize : dest.size = some data.length := by
    rw [dest.size_content now hnow, hlen]
  have hstamp : ¬((stamp mtime).1 < 2 ^ 63 ∧ dest.mtime ≠ some (stamp mtime)) := by
    rw [hmtime]
    exact stamp_matches mtime
  rw [hread, if_neg (not_not.mpr hsize), if_neg hstamp, hnow]
  dsimp only
  rw [contentFingerprint_congr blake3 hfirst hlast, hfp, bind_some, if_neg (by simp), if_pos hsmall]

end Read

/-- A tree of fewer than `2 ^ 32` leaves is read back from its bytes, accepted bytes are the
bytes of the tree they are read as, and a cache entry gives the tree it was written with or
nothing; the tree, if nothing that it is checked against has changed. -/
theorem merkle_cache_round_trip (blake3 : Bytes → FixedBytes 32) :
    (∀ leaves : List (FixedBytes 32), leaves.length < 2 ^ 32 →
      treeFromBytes (fromLeaves blake3 leaves).toBytes =
        some (some (fromLeaves blake3 leaves))) ∧
    (∀ data tree, treeFromBytes data = some (some tree) → tree.toBytes = data) ∧
    ∀ (leaves : List (FixedBytes 32)) (data : Bytes) (mtime : Option SystemTime) (dest : Dest),
      leaves.length < 2 ^ 32 → data.length < 2 ^ 63 →
      dest.cache = cacheEntry blake3 (fromLeaves blake3 leaves) mtime data →
      (readMerkleCache blake3 dest = some none ∨
        readMerkleCache blake3 dest = some (some (fromLeaves blake3 leaves))) ∧
      ∀ now, dest.content = some now → now.length = data.length →
        dest.mtime = mtime.bind SystemTime.sinceEpoch →
        now.take cacheFingerprintWindow = data.take cacheFingerprintWindow →
        now.drop (now.length - cacheFingerprintWindow) =
          data.drop (data.length - cacheFingerprintWindow) →
        (fromLeaves blake3 leaves).toBytes.length < 2 ^ 32 →
        readMerkleCache blake3 dest = some (some (fromLeaves blake3 leaves)) := by
  refine ⟨fun leaves hleaves => ?_, fun data tree => toBytes_of_treeFromBytes,
    fun leaves data mtime dest hleaves hdata hcache => ⟨?_, ?_⟩⟩
  · rw [treeFromBytes_cut blake3 hleaves (append_nil _), if_pos rfl]
  · exact readMerkleCache_eq_or blake3 hleaves hdata hcache
  · intro now hnow hlen hmtime hfirst hlast hsmall
    exact readMerkleCache_hit blake3 hleaves hdata hcache hnow hlen hmtime hfirst hlast hsmall

def sampleMtime : SystemTime := ⟨1700000000, 5, by norm_num, by norm_num⟩

def cachedLeaves : List (FixedBytes 32) := [sampleLeaf 7, sampleLeaf 8, sampleLeaf 9]

def cachedDest : Dest where
  size := some 3
  content := some [1, 2, 3]
  mtime := some (1700000000, 5)
  cache := cacheEntry sampleDigest (.fromLeaves sampleDigest cachedLeaves)
    (some sampleMtime) [1, 2, 3]
  size_content := by
    intro data hdata
    cases hdata
    rfl
  cache_length := by
    intro raw hraw
    have hlen : (cacheEntry sampleDigest (.fromLeaves sampleDigest cachedLeaves)
        (some sampleMtime) [1, 2, 3]).map List.length = some 272 := by
      decide +kernel
    rw [hraw, map_some, some_inj] at hlen
    omega

theorem merkle_cache_round_trip_sample :
    readMerkleCache sampleDigest cachedDest =
      some (some (fromLeaves sampleDigest cachedLeaves)) :=
  ((merkle_cache_round_trip sampleDigest).2.2 cachedLeaves [1, 2, 3] (some sampleMtime)
    cachedDest (by decide) (by decide) rfl).2 [1, 2, 3] rfl rfl rfl rfl rfl (by decide +kernel)

end Favonius.Daemon
