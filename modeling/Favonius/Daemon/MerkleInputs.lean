import Favonius.Lib.Machine
import Favonius.Lib.Utf8Text
import Favonius.Sync.Resume

/-!
# What a Merkle resume reads

The root a MANIFEST carries as text, and the tree that a cache file next to the destination
holds.  Both are parsed from bytes the daemon did not write itself; `none` is a panic.
-/

namespace Favonius.Daemon

open ByteCodec Machine Sync List Utf8Text
open Option (bind_some map_some)

def hexDigit (c : Char) : Option ℕ :=
  if '0' ≤ c ∧ c ≤ '9' then some (c.toNat - '0'.toNat)
  else if 'a' ≤ c ∧ c ≤ 'f' then some (c.toNat - 'a'.toNat + 10)
  else if 'A' ≤ c ∧ c ≤ 'F' then some (c.toNat - 'A'.toNat + 10)
  else none

def hexDigits (text : List Char) : Option UInt8 :=
  (text.foldlM (fun acc c => (hexDigit c).bind fun d =>
    if acc * 16 + d < 256 then some (acc * 16 + d) else none) 0).map UInt8.ofNat

/-- `u8::from_str_radix(text, 16)`: digits after an optional plus sign. -/
def fromStrRadix16 : List Char → Option UInt8
  | [] => none
  | '+' :: d :: ds => hexDigits (d :: ds)
  | text => hexDigits text

/-- The loop over the pairs of the root, from pair `i` on; the inner `none` is its early
return. -/
def parsePairs (text : List Char) : ℕ → ℕ → Option (Option Bytes)
  | 0, _ => some (some [])
  | n + 1, i =>
    (Utf8Text.slice text (2 * i) (2 * i + 2)).bind fun pair =>
      match fromStrRadix16 pair with
      | none => some none
      | some b => (parsePairs text n (i + 1)).map fun bytes => bytes.map (b :: ·)

variable {n i : ℕ} {data : Bytes}

lemma length_parsePairs {text : List Char} {bytes : Bytes}
    (h : parsePairs text n i = some (some bytes)) : bytes.length = n := by
  induction n generalizing i bytes with
  | zero =>
    cases h
    rfl
  | succ n ih =>
    obtain ⟨pair, -, hpair⟩ := Option.bind_eq_some_iff.mp h
    split at hpair
    · cases hpair
    · obtain ⟨rest, hrest, heq⟩ := Option.map_eq_some_iff.mp hpair
      obtain ⟨tail, rfl, rfl⟩ := Option.map_eq_some_iff.mp heq
      rw [length_cons, ih hrest]

def parseRoot (text : String) : Option (Option (FixedBytes 32)) :=
  if Utf8Text.byteLength text.toList ≠ 64 then some none
  else
    match h : parsePairs text.toList 32 0 with
    | none => none
    | some none => some none
    | some (some bytes) => some (some ⟨bytes, length_parsePairs h⟩)

/-- Only hex pairs come before a character that lies across an even byte offset. -/
def misaligned : List Char → Bool
  | c :: d :: rest =>
    if c.utf8Size = 1 then
      if d.utf8Size = 1 then (fromStrRadix16 [c, d]).isSome && misaligned rest else true
    else decide (2 < c.utf8Size)
  | [c] => decide (2 < c.utf8Size)
  | [] => false

variable {c : Char}

lemma utf8Size_of_hexDigit {d : ℕ} (h : hexDigit c = some d) : c.utf8Size = 1 := by
  have hle : c.toNat ≤ 127 := by
    unfold hexDigit at h
    split at h
    · rename_i hrange
      exact (show c.toNat ≤ '9'.toNat from hrange.2).trans (by decide)
    split at h
    · rename_i hrange
      exact (show c.toNat ≤ 'f'.toNat from hrange.2).trans (by decide)
    · split at h
      · rename_i hrange
        exact (show c.toNat ≤ 'F'.toNat from hrange.2).trans (by decide)
      · cases h
  exact Char.utf8Size_eq_one_iff.mpr hle

lemma fromStrRadix16_singleton (hc : c.utf8Size ≠ 1) : fromStrRadix16 [c] = none := by
  have hdigit : hexDigit c = none := by
    cases h : hexDigit c with
    | none => rfl
    | some d => exact (hc (utf8Size_of_hexDigit h)).elim
  have htext : fromStrRadix16 [c] = hexDigits [c] := by
    unfold fromStrRadix16
    split
    · rename_i h
      cases h
    · rename_i h
      cases h
    · rfl
  rw [htext, hexDigits, foldlM_cons, hdigit]
  rfl

lemma misaligned_cons_of_ne_one (hone : c.utf8Size ≠ 1) (rest : List Char) :
    misaligned (c :: rest) = decide (2 < c.utf8Size) := by
  cases rest with
  | nil => rfl
  | cons d rest => rw [misaligned, if_neg hone]

lemma parsePairs_cons_of_ne_one {done rest : List Char} (hdone : Utf8Text.byteLength done = 2 * i)
    (hone : c.utf8Size ≠ 1) :
    parsePairs (done ++ c :: rest) (n + 1) i = none ↔ misaligned (c :: rest) = true := by
  have hpos := c.utf8Size_pos
  have hslice := slice_append done (c :: rest) 2
  rw [hdone] at hslice
  rw [parsePairs, hslice, Utf8Text.splitAtByte_cons c rest two_ne_zero,
    misaligned_cons_of_ne_one hone]
  by_cases hsize : c.utf8Size = 2
  · -- one two-byte character is a pair, and no digit
    rw [hsize, if_pos le_rfl]
    simp [fromStrRadix16_singleton hone]
  · rw [if_neg (by omega)]
    simp only [Option.map_none, Option.bind_none, true_iff, decide_eq_true_eq]
    omega

lemma parsePairs_eq_none_iff (n i : ℕ) (done rest : List Char)
    (hdone : Utf8Text.byteLength done = 2 * i) (hrest : Utf8Text.byteLength rest = 2 * n) :
    parsePairs (done ++ rest) n i = none ↔ misaligned rest = true := by
  induction n generalizing i done rest with
  | zero =>
    cases rest with
    | nil => simp [parsePairs, misaligned]
    | cons c rest =>
      have hpos := c.utf8Size_pos
      rw [byteLength_cons] at hrest
      omega
  | succ n ih =>
    cases rest with
    | nil =>
      rw [byteLength_nil] at hrest
      omega
    | cons c rest =>
      by_cases hone : c.utf8Size = 1
      · cases rest with
        | nil =>
          rw [byteLength_cons, byteLength_nil] at hrest
          omega
        | cons d rest =>
          have hdpos := d.utf8Size_pos
          have hslice := slice_append done (c :: d :: rest) 2
          rw [hdone] at hslice
          rw [byteLength_cons, byteLength_cons] at hrest
          rw [parsePairs, hslice, Utf8Text.splitAtByte_cons c _ two_ne_zero, hone,
            if_pos one_le_two, Utf8Text.splitAtByte_cons d rest (by norm_num), misaligned,
            if_pos hone]
          by_cases hd : d.utf8Size = 1
          · -- two one-byte characters: the pair is parsed or the loop returns
            rw [hd, if_pos le_rfl, if_pos rfl]
            simp only [Nat.reduceSub, Utf8Text.splitAtByte_zero, map_some, bind_some]
            cases hpair : fromStrRadix16 [c, d] with
            | none => simp
            | some b =>
              have hnext := ih (i + 1) (done ++ [c, d]) rest
                (by simp [hdone, hone, hd]; omega) (by omega)
              rw [append_assoc] at hnext
              simp only [Option.map_eq_none_iff, Option.isSome_some, Bool.true_and]
              exact hnext
          · rw [if_neg (by omega), if_neg hd]
            simp
      · exact parsePairs_cons_of_ne_one hdone hone

lemma parseRoot_eq_none_iff (text : String) :
    parseRoot text = none ↔
      Utf8Text.byteLength text.toList = 64 ∧ misaligned text.toList = true := by
  unfold parseRoot
  split
  · rename_i hlen
    simp [hlen]
  rename_i hlen
  have hlen' := not_not.mp hlen
  have hpairs := parsePairs_eq_none_iff 32 0 [] text.toList rfl hlen'
  split
  · rename_i hnone
    simp [hlen', hpairs.mp hnone]
  · rename_i hsome
    simp [← hpairs, hsome]
  · rename_i hsome
    simp [← hpairs, hsome]

structure Dest where
  size : Option ℕ
  /-- What a mapping of the file shows; none if it cannot be opened or mapped. -/
  content : Option Bytes
  mtime : Option (ℕ × ℕ)
  cache : Option Bytes
  size_content : ∀ data, content = some data → size = some data.length
  /-- No buffer is longer than `isize::MAX`. -/
  cache_length : ∀ raw, cache = some raw → raw.length < 2 ^ 63

def leAt (w : ℕ) (buf : Bytes) (off : ℕ) : Option ℕ := (range buf off (off + w)).map leNat

lemma exists_leAt (w off : ℕ) (buf : Bytes) (h : off + w ≤ buf.length) :
    ∃ n, leAt w buf off = some n := by
  rw [leAt, range_of_le (Nat.le_add_right _ _) h]
  exact ⟨_, rfl⟩

/-- The levels of a serialised tree from the given offset on, and where they end; the inner
`none` means corrupt bytes. -/
def readLevels (data : Bytes) : ℕ → ℕ → Option (Option (List (List (FixedBytes 32)) × ℕ))
  | 0, offset => some (some ([], offset))
  | n + 1, offset =>
    (add 64 offset 4).bind fun start =>
      if data.length < start then some none
      else
        (leAt 4 data offset).bind fun count =>
          -- `checked_mul` and `checked_add`
          match (mul 64 count 32).bind (add 64 start) with
          | none => some none
          | some stop =>
            if data.length < stop then some none
            else
              (range data start stop).bind fun bytes =>
                (readLevels data n stop).map fun rest =>
                  rest.map fun p => (hashesOf bytes :: p.1, p.2)

def maxLevels : ℕ := 64

def treeFromBytes (data : Bytes) : Option (Option MerkleTree) :=
  if data.length < 8 then some none
  else
    (leAt 4 data 0).bind fun leafCount => (leAt 4 data 4).bind fun numLevels =>
      if numLevels = 0 ∨ maxLevels < numLevels then some none
      else
        (readLevels data numLevels 8).map fun levels => levels.bind fun p =>
          let tree : MerkleTree := ⟨p.1⟩
          if p.2 ≠ data.length ∨ tree.leafCount ≠ leafCount then none else some tree

lemma exists_readLevels (hlen : data.length + 4 < 2 ^ 64) (n offset : ℕ)
    (hoffset : offset ≤ data.length) : ∃ levels, readLevels data n offset = some levels := by
  induction n generalizing offset with
  | zero => exact ⟨_, rfl⟩
  | succ n ih =>
    rw [readLevels, add_of_lt (by omega), bind_some]
    split
    · exact ⟨_, rfl⟩
    rename_i hstart
    obtain ⟨count, hcount⟩ := exists_leAt 4 offset data (Nat.not_lt.mp hstart)
    rw [hcount, bind_some]
    cases hstop : (mul 64 count 32).bind (add 64 (offset + 4)) with
    | none => exact ⟨_, rfl⟩
    | some stop =>
      dsimp only
      split
      · exact ⟨_, rfl⟩
      rename_i hend
      obtain ⟨byteLen, -, hadd⟩ := Option.bind_eq_some_iff.mp hstop
      have hle : offset + 4 ≤ stop := by
        unfold add at hadd
        split at hadd
        · cases hadd
          omega
        · cases hadd
      obtain ⟨levels, hlevels⟩ := ih stop (Nat.not_lt.mp hend)
      rw [range_of_le hle (Nat.not_lt.mp hend), bind_some, hlevels]
      exact ⟨_, rfl⟩

lemma exists_treeFromBytes (hlen : data.length + 4 < 2 ^ 64) :
    ∃ tree, treeFromBytes data = some tree := by
  unfold treeFromBytes
  split
  · exact ⟨_, rfl⟩
  obtain ⟨leafCount, hleaf⟩ := exists_leAt 4 0 data (by omega)
  obtain ⟨numLevels, hnum⟩ := exists_leAt 4 4 data (by omega)
  rw [hleaf, bind_some, hnum, bind_some]
  split
  · exact ⟨_, rfl⟩
  · obtain ⟨levels, hlevels⟩ := exists_readLevels hlen numLevels 8 (by omega)
    rw [hlevels]
    exact ⟨_, rfl⟩

def merkleCacheMagic : Bytes := "HMC1".toList.map fun c => UInt8.ofNat c.toNat

def cacheFingerprintWindow : ℕ := 4096

def contentFingerprint (blake3 : Bytes → FixedBytes 32) (data : Bytes) : Option (FixedBytes 32) :=
  (range data 0 (min data.length cacheFingerprintWindow)).bind fun first =>
    (range data (data.length - cacheFingerprintWindow) data.length).map fun last =>
      blake3 (first ++ last)

/-- The envelope of a cache file: size, seconds (an `i64`, negative if unknown) and nanoseconds
of the last change, fingerprint and tree.  The inner `none` means old format or garbage. -/
def cacheEnvelope (raw : Bytes) : Option (Option (ℕ × ℕ × ℕ × Bytes × Bytes)) :=
  if raw.length < 60 then some none
  else
    (range raw 0 4).bind fun magic =>
      if magic ≠ merkleCacheMagic then some none
      else
        (leAt 8 raw 4).bind fun storedSize => (leAt 8 raw 12).bind fun mtimeSec =>
        (leAt 4 raw 20).bind fun mtimeNsec => (range raw 24 56).bind fun storedFp =>
        (leAt 4 raw 56).bind fun treeLen => (add 64 60 treeLen).map fun stop =>
          if raw.length < stop then none
          else some (storedSize, mtimeSec, mtimeNsec, storedFp, slice raw 60 treeLen)

def readMerkleCache (blake3 : Bytes → FixedBytes 32) (dest : Dest) : Option (Option MerkleTree) :=
  match dest.cache with
  | none => some none
  | some raw =>
    (cacheEnvelope raw).bind fun
      | none => some none
      | some (storedSize, mtimeSec, mtimeNsec, storedFp, treeBytes) =>
        if dest.size ≠ some storedSize then some none
        else if mtimeSec < 2 ^ 63 ∧ dest.mtime ≠ some (mtimeSec, mtimeNsec) then some none
        else
          match dest.content with
          | none => some none
          | some existing =>
            (contentFingerprint blake3 existing).bind fun fp =>
              if fp.1 ≠ storedFp then some none else treeFromBytes treeBytes

variable (blake3 : Bytes → FixedBytes 32)

lemma exists_contentFingerprint (data : Bytes) :
    ∃ fp, contentFingerprint blake3 data = some fp := by
  rw [contentFingerprint, range_of_le (Nat.zero_le _) (min_le_left _ _), bind_some,
    range_of_le (Nat.sub_le _ _) le_rfl]
  exact ⟨_, rfl⟩

lemma exists_cacheEnvelope {raw : Bytes} (hlen : raw.length < 2 ^ 63) :
    ∃ envelope, cacheEnvelope raw = some envelope ∧
      ∀ e, envelope = some e → e.2.2.2.2.length + 4 < 2 ^ 64 := by
  rw [cacheEnvelope]
  by_cases h60 : raw.length < 60
  · rw [if_pos h60]
    exact ⟨none, rfl, fun e he => by cases he⟩
  rw [if_neg h60, range_of_le (Nat.zero_le _) (by omega), bind_some]
  by_cases hmagic : slice raw 0 (4 - 0) ≠ merkleCacheMagic
  · rw [if_pos hmagic]
    exact ⟨none, rfl, fun e he => by cases he⟩
  rw [if_neg hmagic]
  obtain ⟨storedSize, hsize⟩ := exists_leAt 8 4 raw (by omega)
  obtain ⟨mtimeSec, hsec⟩ := exists_leAt 8 12 raw (by omega)
  obtain ⟨mtimeNsec, hnsec⟩ := exists_leAt 4 20 raw (by omega)
  have htree : ∃ treeLen, leAt 4 raw 56 = some treeLen ∧ treeLen < 2 ^ 32 := by
    rw [leAt, range_of_le (Nat.le_add_right _ _) (by omega)]
    refine ⟨_, rfl, (beNat_lt _).trans_le ?_⟩
    rw [length_reverse, length_slice, show (2 : ℕ) ^ 32 = 256 ^ 4 by norm_num]
    exact Nat.pow_le_pow_right (by norm_num) (by omega)
  obtain ⟨treeLen, htreeLen, hsmall⟩ := htree
  rw [hsize, bind_some, hsec, bind_some, hnsec, bind_some,
    range_of_le (by norm_num) (by omega), bind_some, htreeLen, bind_some,
    add_of_lt (by omega), map_some]
  refine ⟨_, rfl, fun e he => ?_⟩
  split at he
  · cases he
  · cases he
    rw [length_slice]
    omega

lemma exists_readMerkleCache (dest : Dest) : ∃ tree, readMerkleCache blake3 dest = some tree := by
  unfold readMerkleCache
  cases hcache : dest.cache with
  | none => exact ⟨none, rfl⟩
  | some raw =>
    obtain ⟨envelope, henvelope, htree⟩ := exists_cacheEnvelope (dest.cache_length raw hcache)
    dsimp only
    rw [henvelope, bind_some]
    cases envelope with
    | none => exact ⟨none, rfl⟩
    | some e =>
      dsimp only
      split_ifs
      · exact ⟨none, rfl⟩
      · exact ⟨none, rfl⟩
      cases dest.content with
      | none => exact ⟨none, rfl⟩
      | some existing =>
        obtain ⟨fp, hfp⟩ := exists_contentFingerprint blake3 existing
        dsimp only
        rw [hfp, bind_some]
        split_ifs
        · exact ⟨none, rfl⟩
        · exact exists_treeFromBytes (htree _ rfl)

end Favonius.Daemon
