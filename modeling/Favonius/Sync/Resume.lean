import Favonius.Daemon.Manifest
import Favonius.Sync.Merkle

/-!
# Merkle resume

After the MANIFEST the daemon compares the sender's root with the tree it holds
for its own copy.  Equal roots mean that all chunks are there.  Otherwise it sends
one level of its tree, and the sender works out which chunks to send.
-/

namespace Favonius.Sync

open ByteCodec FlagBits HashTree Transfer Daemon List Option
open Subtype (val)

/-- `encode_all` and `decode_all` on buffers. -/
structure Zstd where
  encodeAll : Bytes → Option Bytes
  decodeAll : Bytes → Option Bytes
  encodeAll_isSome : ∀ data, (encodeAll data).isSome = true
  decodeAll_encodeAll : ∀ {data frame}, encodeAll data = some frame → decodeAll frame = some data
  /-- A frame starts with its magic number. -/
  encodeAll_ne_nil : ∀ {data frame}, encodeAll data = some frame → frame ≠ []

namespace Zstd

variable (z : Zstd)

def pack (data : Bytes) : Bytes := (z.encodeAll data).getD data

def unpack (data : Bytes) : Bytes := (z.decodeAll data).getD data

@[simp] lemma unpack_pack (data : Bytes) : z.unpack (z.pack data) = data := by
  obtain ⟨frame, hframe⟩ := isSome_iff_exists.mp (z.encodeAll_isSome data)
  rw [pack, hframe, getD_some, unpack, z.decodeAll_encodeAll hframe, getD_some]

lemma pack_ne_nil (data : Bytes) : z.pack data ≠ [] := by
  obtain ⟨frame, hframe⟩ := isSome_iff_exists.mp (z.encodeAll_isSome data)
  rw [pack, hframe, getD_some]
  exact z.encodeAll_ne_nil hframe

end Zstd

def merkleDiff (tree : MerkleTree) : Bytes :=
  let level := tree.strategicLevel.1
  [UInt8.ofNat level] ++ leBytes 4 tree.leafCount ++ (tree.level level).flatMap val

inductive MerkleResumeResult where
  | bitmap (bm : Bytes)
  | merkleDiff (payload : Bytes)

section Daemon

variable (blake3 : Bytes → FixedBytes 32) (z : Zstd)

/-- `existing` is what the destination holds, `cached` the tree of a cache entry that was
found valid for it. -/
def buildMerkleResume (m : FileManifest) (senderRoot : FixedBytes 32) (existing : Option Bytes)
    (cached : Option MerkleTree) : Option MerkleResumeResult :=
  match existing with
  | none => none
  | some data =>
    if data.length ≠ m.fileSize then none
    else
      let tree := cached.getD (buildFileMerkle blake3 data m.payloadSize)
      if tree.root = senderRoot then some (.bitmap (fullBitmap m.totalChunks))
      else some (.merkleDiff (z.pack (merkleDiff tree)))

def resumeAck : MerkleResumeResult → Bytes
  | .bitmap bm => 0x01 :: z.pack bm
  | .merkleDiff payload => 0x02 :: payload

end Daemon

def hashesOf (data : Bytes) : List (FixedBytes 32) :=
  ofFn fun i : Fin (data.length / 32) => fixedSlice data (32 * i.1) 32 (by omega)

/-- Where two levels differ or only one has a node. -/
def diffNodes (ours theirs : List (FixedBytes 32)) : List ℕ :=
  (List.range (max ours.length theirs.length)).filter fun i => decide (ours[i]? ≠ theirs[i]?)

/-- All bits set but those of the chunks below a differing node. -/
def diffBitmap (tree : MerkleTree) (totalChunks level : ℕ) (theirs : List (FixedBytes 32)) :
    Bytes :=
  (tree.expandDiffsToLeaves level (diffNodes (tree.level level) theirs)).foldl clearBit
    (fullBitmap totalChunks)

/-- The bitmap that a ResumeAck leads to, with whether it is reported back. -/
def onResumeAck (z : Zstd) (tree : Option MerkleTree) (totalChunks : ℕ) :
    Bytes → Option Bytes × Bool
  | kind :: data =>
    if data.isEmpty then (none, false)
    else if kind = 0x01 then (some (z.unpack data), false)
    else if kind = 0x02 then
      let diff := tree.bind fun tree =>
        match z.unpack data with
        | level :: _ :: _ :: _ :: _ :: hashData =>
          some (diffBitmap tree totalChunks level.toNat (hashesOf hashData))
        | _ => none
      (some (diff.getD (List.replicate ((totalChunks + 7) / 8) 0)), true)
    else (none, false)
  | [] => (none, false)

/-- The chunks that a resume skips: what the sender makes of the daemon's answer. -/
def resumeBitmap (blake3 : Bytes → FixedBytes 32) (z : Zstd) (m : FileManifest)
    (source : Bytes) (existing : Option Bytes) (cached : Option MerkleTree) : Option Bytes :=
  let tree := buildFileMerkle blake3 source m.payloadSize
  (buildMerkleResume blake3 z m tree.root existing cached).bind fun r =>
    (onResumeAck z (some tree) m.totalChunks (resumeAck z r)).1

lemma length_flatMap_val (hs : List (FixedBytes 32)) :
    (hs.flatMap val).length = 32 * hs.length := by
  induction hs with
  | nil => rfl
  | cons h hs ih =>
    rw [flatMap_cons, length_append, ih, h.2, length_cons]
    omega

lemma drop_flatMap_val (i : ℕ) (hs : List (FixedBytes 32)) :
    (hs.flatMap val).drop (32 * i) = (hs.drop i).flatMap val := by
  induction i generalizing hs with
  | zero => rfl
  | succ i ih =>
    cases hs with
    | nil => simp
    | cons h hs =>
      rw [flatMap_cons, Nat.mul_succ, Nat.add_comm, ← drop_drop, drop_left' h.2, ih, drop_succ_cons]

lemma hashesOf_flatMap (hs : List (FixedBytes 32)) : hashesOf (hs.flatMap val) = hs := by
  have hlen : (hashesOf (hs.flatMap val)).length = hs.length := by
    rw [hashesOf, length_ofFn, length_flatMap_val]
    omega
  refine ext_getElem hlen fun i hi hi' => ?_
  simp only [hashesOf, List.getElem_ofFn]
  apply Subtype.ext
  show slice _ (32 * i) 32 = _
  rw [slice, drop_flatMap_val, drop_eq_getElem_cons hi', flatMap_cons]
  exact take_left' hs[i].2

variable {blake3 : Bytes → FixedBytes 32}

/-- The sender ends up with the full bitmap or with the comparison at the level that the
daemon chose. -/
theorem resumeBitmap_eq (z : Zstd) {m : FileManifest} {source dest : Bytes} {held : MerkleTree}
    (hsize : dest.length = m.fileSize) (hlevel : held.strategicLevel.1 < 256) :
    resumeBitmap blake3 z m source (some dest) (some held) =
      some (if held.root = (buildFileMerkle blake3 source m.payloadSize).root then
          fullBitmap m.totalChunks
        else diffBitmap (buildFileMerkle blake3 source m.payloadSize) m.totalChunks
          held.strategicLevel.1 (held.level held.strategicLevel.1)) := by
  simp only [resumeBitmap, buildMerkleResume, hsize, ne_eq, not_true_eq_false, if_false, getD_some]
  split
  · simp [resumeAck, onResumeAck, z.pack_ne_nil]
  obtain ⟨a, b, c, d, hcount⟩ : ∃ a b c d, leBytes 4 held.leafCount = [a, b, c, d] :=
    ⟨_, _, _, _, rfl⟩
  have hbyte : (UInt8.ofNat held.strategicLevel.1).toNat = held.strategicLevel.1 := by
    simpa using hlevel
  simp only [bind_some, resumeAck, onResumeAck, List.isEmpty_iff, z.pack_ne_nil, if_false,
    z.unpack_pack, merkleDiff, hcount, cons_append, nil_append, hashesOf_flatMap, hbyte]
  simp

lemma mem_diffNodes {ours theirs : List (FixedBytes 32)} {i : ℕ} (hi : i < ours.length) :
    i ∈ diffNodes ours theirs ↔ ours[i]? ≠ theirs[i]? := by
  simp [diffNodes, hi]

lemma mem_leavesBelow {t : MerkleTree} {l node c : ℕ} (hmany : t.leafCount < 2 ^ 64) :
    c ∈ t.leavesBelow l node ↔ c / 2 ^ l = node ∧ c < t.leafCount := by
  have hdiv : c / 2 ^ l = node ↔ node * 2 ^ l ≤ c ∧ c < node * 2 ^ l + 2 ^ l := by
    rw [Nat.div_eq_iff (Nat.two_pow_pos l), mul_comm node]
    have := Nat.two_pow_pos l
    omega
  rw [hdiv, MerkleTree.leavesBelow]
  split
  · simp only [not_mem_nil, false_iff]
    omega
  · simp only [mem_range'_1]
    omega

lemma bitSet_diffBitmap {leaves theirs : List (FixedBytes 32)} {l c : ℕ}
    (hl : l ≤ Nat.clog 2 leaves.length) (hmany : leaves.length ≤ maxTotalChunks)
    (hc : c < leaves.length) :
    bitSet (diffBitmap (.fromLeaves blake3 leaves) leaves.length l theirs) c = true ↔
      (HashTree.level (hashPair blake3) l leaves)[c / 2 ^ l]? = theirs[c / 2 ^ l]? := by
  have hchunks : leaves.length ≤ 2 ^ 26 := hmany
  have hclog : Nat.clog 2 leaves.length ≤ 26 := Nat.clog_le_of_le_pow hchunks
  have hnode : c / 2 ^ l < (HashTree.level (hashPair blake3) l leaves).length :=
    (lt_length_level _).mpr ((Nat.div_mul_le_self c _).trans_lt hc)
  rw [diffBitmap, bitSet_foldl_clearBit, bitSet_fullBitmap, decide_eq_true hc, Bool.true_and,
    decide_eq_true_eq, MerkleTree.level_fromLeaves _ _ hl, ← not_iff_not, not_not,
    ← ne_eq, ← mem_diffNodes hnode, MerkleTree.expandDiffsToLeaves, MerkleTree.depth_fromLeaves]
  split
  · rename_i hzero
    rw [hzero, pow_zero, Nat.div_one]
  rw [if_neg (by omega), mem_flatMap]
  constructor
  · rintro ⟨node, hdiff, hbelow⟩
    rw [mem_leavesBelow (by rw [MerkleTree.leafCount_fromLeaves]; omega)] at hbelow
    rwa [hbelow.1]
  · intro hdiff
    refine ⟨_, hdiff, (mem_leavesBelow ?_).mpr ⟨rfl, ?_⟩⟩ <;>
      rw [MerkleTree.leafCount_fromLeaves] <;> omega

section SamePayload

variable {payloadSize : ℕ} {source dest : Bytes}

variable (blake3) in
def hashedInputs (file : Bytes) (payloadSize : ℕ) : List Bytes :=
  let leaves := fileLeaves blake3 file payloadSize
  (List.range leaves.length).map (chunkAt file payloadSize) ++
    (List.range (Nat.clog 2 leaves.length)).flatMap fun l =>
      (pairs (HashTree.level (hashPair blake3) l leaves)).map fun p => p.1.1 ++ p.2.1

variable (blake3) in
def CollisionFree (inputs : List Bytes) : Prop :=
  ∀ a ∈ inputs, ∀ b ∈ inputs, blake3 a = blake3 b → a = b

instance (inputs : List Bytes) : Decidable (CollisionFree blake3 inputs) :=
  inferInstanceAs (Decidable (∀ a ∈ inputs, ∀ b ∈ inputs, blake3 a = blake3 b → a = b))

variable {file : Bytes} {c : ℕ}

lemma mem_hashedInputs_chunk (hc : c < (fileLeaves blake3 file payloadSize).length) :
    chunkAt file payloadSize c ∈ hashedInputs blake3 file payloadSize :=
  mem_append_left _ (mem_map_of_mem (mem_range.mpr hc))

lemma mem_hashedInputs_pair {l : ℕ}
    (hl : l < Nat.clog 2 (fileLeaves blake3 file payloadSize).length)
    {p : FixedBytes 32 × FixedBytes 32}
    (hp : p ∈ pairs (HashTree.level (hashPair blake3) l (fileLeaves blake3 file payloadSize))) :
    p.1.1 ++ p.2.1 ∈ hashedInputs blake3 file payloadSize :=
  mem_append_right _ (mem_flatMap.mpr ⟨l, mem_range.mpr hl,
    mem_map_of_mem (f := fun p => p.1.1 ++ p.2.1) hp⟩)

lemma length_fileLeaves (file : Bytes) (payloadSize : ℕ) :
    (fileLeaves blake3 file payloadSize).length =
      (file.length + payloadSize - 1) / payloadSize := by
  simp [fileLeaves]

lemma getElem?_fileLeaves (hc : c < (fileLeaves blake3 file payloadSize).length) :
    (fileLeaves blake3 file payloadSize)[c]? = some (blake3 (chunkAt file payloadSize c)) := by
  rw [length_fileLeaves] at hc
  simp [fileLeaves, hc]

lemma length_fileLeaves_eq (hlen : source.length = dest.length) :
    (fileLeaves blake3 source payloadSize).length =
      (fileLeaves blake3 dest payloadSize).length := by
  rw [length_fileLeaves, length_fileLeaves, hlen]

variable (h : CollisionFree blake3
  (hashedInputs blake3 source payloadSize ++ hashedInputs blake3 dest payloadSize))
  (hlen : source.length = dest.length)
include h hlen

lemma separates_of_collisionFree {n : ℕ}
    (hn : n ≤ Nat.clog 2 (fileLeaves blake3 source payloadSize).length) :
    Separates (hashPair blake3) n (fileLeaves blake3 source payloadSize)
      (fileLeaves blake3 dest payloadSize) := by
  intro l hl p hp q hq heq
  have hl' : l < Nat.clog 2 (fileLeaves blake3 dest payloadSize).length := by
    rw [← length_fileLeaves_eq hlen]
    omega
  have hsame := h _ (mem_append_left _ (mem_hashedInputs_pair (by omega) hp)) _
    (mem_append_right _ (mem_hashedInputs_pair hl' hq)) heq
  obtain ⟨hleft, hright⟩ := append_inj hsame (p.1.2.trans q.1.2.symm)
  exact Prod.ext (Subtype.ext hleft) (Subtype.ext hright)

lemma chunkAt_eq_of_leaf (hc : c < (fileLeaves blake3 source payloadSize).length)
    (heq : (fileLeaves blake3 source payloadSize)[c]? = (fileLeaves blake3 dest payloadSize)[c]?) :
    chunkAt source payloadSize c = chunkAt dest payloadSize c := by
  have hc' : c < (fileLeaves blake3 dest payloadSize).length := by
    rwa [← length_fileLeaves_eq hlen]
  rw [getElem?_fileLeaves hc, getElem?_fileLeaves hc', some.injEq] at heq
  exact h _ (mem_append_left _ (mem_hashedInputs_chunk hc)) _
    (mem_append_right _ (mem_hashedInputs_chunk hc')) heq

lemma fileLeaves_eq_of_root (hne : fileLeaves blake3 source payloadSize ≠ [])
    (hroot : (MerkleTree.fromLeaves blake3 (fileLeaves blake3 dest payloadSize)).root =
      (MerkleTree.fromLeaves blake3 (fileLeaves blake3 source payloadSize)).root) :
    fileLeaves blake3 source payloadSize = fileLeaves blake3 dest payloadSize := by
  have hleaves : (fileLeaves blake3 source payloadSize).length =
      (fileLeaves blake3 dest payloadSize).length := length_fileLeaves_eq hlen
  have hne' : fileLeaves blake3 dest payloadSize ≠ [] := by
    rwa [← length_pos_iff, ← hleaves, length_pos_iff]
  refine level_inj (separates_of_collisionFree h hlen le_rfl) hleaves ?_
  rw [MerkleTree.level_root blake3 hne, hleaves, MerkleTree.level_root blake3 hne', hroot]

lemma leaf_eq_of_node {l : ℕ} (hl : l ≤ Nat.clog 2 (fileLeaves blake3 source payloadSize).length)
    (heq : (HashTree.level (hashPair blake3) l (fileLeaves blake3 source payloadSize))[c / 2 ^ l]? =
      (HashTree.level (hashPair blake3) l (fileLeaves blake3 dest payloadSize))[c / 2 ^ l]?) :
    (fileLeaves blake3 source payloadSize)[c]? = (fileLeaves blake3 dest payloadSize)[c]? := by
  have hblock := (getElem?_level_eq_iff (separates_of_collisionFree h hlen hl)
    (length_fileLeaves_eq hlen) _).mp heq
  have hget := congrArg (fun b => b[c % 2 ^ l]?) hblock
  simp only [getElem?_block, Nat.mod_lt c (Nat.two_pow_pos l), if_true, Nat.div_add_mod'] at hget
  exact hget

end SamePayload

end Favonius.Sync
