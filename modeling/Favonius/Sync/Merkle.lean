import Favonius.Lib.HashTree
import Favonius.Transfer.Geometry

/-!
# Merkle trees over file chunks

The tree that sender and daemon build over a file, and the level of it that a
resume exchanges.  BLAKE3 is a parameter.
-/

namespace Favonius.Sync

open ByteCodec HashTree Transfer List

/-- `levels` from the leaves to the root. -/
structure MerkleTree where
  levels : List (List (FixedBytes 32))
  deriving DecidableEq

section Build

variable (blake3 : Bytes → FixedBytes 32)

def hashPair (left right : FixedBytes 32) : FixedBytes 32 := blake3 (left.1 ++ right.1)

namespace MerkleTree

/-- The last node of a level of odd length is paired with itself. -/
def fromLeaves (leaves : List (FixedBytes 32)) : MerkleTree :=
  if leaves.isEmpty then ⟨[[]]⟩ else ⟨levelsFrom (hashPair blake3) leaves.length leaves⟩

end MerkleTree

def fileLeaves (fileData : Bytes) (payloadSize : ℕ) : List (FixedBytes 32) :=
  let totalChunks := (fileData.length + payloadSize - 1) / payloadSize
  (List.range totalChunks).map fun ci => blake3 (chunkAt fileData payloadSize ci)

/-- A zero payload size gives an empty tree. -/
def buildFileMerkle (fileData : Bytes) (payloadSize : ℕ) : MerkleTree :=
  if payloadSize = 0 then .fromLeaves blake3 []
  else .fromLeaves blake3 (fileLeaves blake3 fileData payloadSize)

end Build

namespace MerkleTree

variable (t : MerkleTree)

def root : FixedBytes 32 :=
  (t.levels.getLast?.bind List.head?).getD (.fill 32 0)

def leafCount : ℕ := (t.levels.head?.map List.length).getD 0

def depth : ℕ := t.levels.length - 1

/-- The count of a level, cut to 32 bits, and its hashes. -/
def levelBytes (level : List (FixedBytes 32)) : Bytes :=
  leBytes 4 level.length ++ level.flatMap Subtype.val

def toBytes : Bytes :=
  leBytes 4 t.leafCount ++ leBytes 4 t.levels.length ++ t.levels.flatMap levelBytes

def level (l : ℕ) : List (FixedBytes 32) := t.levels.getD l []

def maxHashes : ℕ := 43

/-- The lowest level that fits into one packet, and its node count; else the root level. -/
def strategicLevel : ℕ × ℕ :=
  match t.levels.zipIdx.find? fun p => decide (p.1.length ≤ maxHashes ∧ 1 < p.1.length) with
  | some (nodes, i) => (i, nodes.length)
  | none => (t.depth, 1)

/-- The leaves below one node, in 64-bit arithmetic; none if its first leaf has no index. -/
def leavesBelow (l nodeIdx : ℕ) : List ℕ :=
  let span := 2 ^ l
  let startLeaf := nodeIdx * span
  if 2 ^ 64 ≤ startLeaf then []
  else
    let endLeaf := min (min (startLeaf + span) (2 ^ 64 - 1)) t.leafCount
    List.range' startLeaf (endLeaf - startLeaf)

/-- Levels that this tree does not have give no leaves. -/
def expandDiffsToLeaves (l : ℕ) (diffNodes : List ℕ) : List ℕ :=
  if l = 0 then diffNodes
  else if t.depth < l ∨ 64 ≤ l then []
  else diffNodes.flatMap (t.leavesBelow l)

variable (blake3 : Bytes → FixedBytes 32) (leaves : List (FixedBytes 32))

lemma getElem?_levels_fromLeaves (l : ℕ) :
    (fromLeaves blake3 leaves).levels[l]? = if l ≤ Nat.clog 2 leaves.length then
      some (HashTree.level (hashPair blake3) l leaves) else none := by
  cases leaves with
  | nil => cases l <;> simp [fromLeaves, HashTree.level]
  | cons x xs => exact getElem?_levelsFrom _ le_rfl l

@[simp] lemma length_levels_fromLeaves :
    (fromLeaves blake3 leaves).levels.length = Nat.clog 2 leaves.length + 1 := by
  cases leaves with
  | nil => simp [fromLeaves]
  | cons x xs => exact length_levelsFrom _ le_rfl

@[simp] lemma depth_fromLeaves : (fromLeaves blake3 leaves).depth = Nat.clog 2 leaves.length := by
  simp [depth]

@[simp] lemma leafCount_fromLeaves : (fromLeaves blake3 leaves).leafCount = leaves.length := by
  rw [leafCount, head?_eq_getElem?, getElem?_levels_fromLeaves, if_pos (Nat.zero_le _)]
  rfl

variable {l : ℕ}

lemma level_fromLeaves (hl : l ≤ Nat.clog 2 leaves.length) :
    (fromLeaves blake3 leaves).level l = HashTree.level (hashPair blake3) l leaves := by
  rw [level, getD_eq_getElem?_getD, getElem?_levels_fromLeaves, if_pos hl, Option.getD_some]

lemma level_root {leaves : List (FixedBytes 32)} (hne : leaves ≠ []) :
    HashTree.level (hashPair blake3) (Nat.clog 2 leaves.length) leaves =
      [(fromLeaves blake3 leaves).root] := by
  have hlast : (fromLeaves blake3 leaves).levels.getLast? =
      some (HashTree.level (hashPair blake3) (Nat.clog 2 leaves.length) leaves) := by
    rw [getLast?_eq_getElem?, length_levels_fromLeaves, Nat.add_sub_cancel,
      getElem?_levels_fromLeaves, if_pos le_rfl]
  have hlen : (HashTree.level (hashPair blake3) (Nat.clog 2 leaves.length) leaves).length = 1 := by
    have hpos : 0 < leaves.length := length_pos_iff.mpr hne
    have hle : leaves.length ≤ 2 ^ Nat.clog 2 leaves.length := Nat.le_pow_clog (by norm_num) _
    rw [length_level, Nat.div_eq_iff (by positivity)]
    omega
  obtain ⟨r, hr⟩ := length_eq_one_iff.mp hlen
  rw [root, hlast, hr]
  rfl

lemma strategicLevel_le_depth : (fromLeaves blake3 leaves).strategicLevel.1 ≤
    Nat.clog 2 leaves.length := by
  rw [strategicLevel]
  split
  · rename_i nodes i hfind
    have hmem := mem_of_find?_eq_some hfind
    obtain ⟨hi, -⟩ := List.getElem?_eq_some_iff.mp (mem_zipIdx_iff_getElem?.mp hmem)
    rw [length_levels_fromLeaves] at hi
    omega
  · simp

lemma strategicLevel_eq_pair
    (hfit : (HashTree.level (hashPair blake3) l leaves).length ≤ maxHashes)
    (htwo : 1 < (HashTree.level (hashPair blake3) l leaves).length)
    (hlow : ∀ m < l, maxHashes < (HashTree.level (hashPair blake3) m leaves).length) :
    (fromLeaves blake3 leaves).strategicLevel =
      (l, (HashTree.level (hashPair blake3) l leaves).length) := by
  have hdepth : l ≤ Nat.clog 2 leaves.length := by
    by_contra! hgt
    have hle : leaves.length ≤ 2 ^ l :=
      (Nat.le_pow_clog (by norm_num) _).trans (Nat.pow_le_pow_right (by norm_num) hgt.le)
    have hlt := (lt_length_level (hashPair blake3)).mp htwo
    omega
  have hget {m : ℕ} (hm : m ≤ l) : (fromLeaves blake3 leaves).levels.zipIdx[m]? =
      some (HashTree.level (hashPair blake3) m leaves, m) := by
    rw [getElem?_zipIdx, getElem?_levels_fromLeaves, if_pos (by omega)]
    simp
  have hfind : (fromLeaves blake3 leaves).levels.zipIdx.find?
      (fun p => decide (p.1.length ≤ maxHashes ∧ 1 < p.1.length)) =
        some (HashTree.level (hashPair blake3) l leaves, l) := by
    obtain ⟨hl, heq⟩ := List.getElem?_eq_some_iff.mp (hget le_rfl)
    refine find?_eq_some_iff_getElem.mpr ⟨by simp [hfit, htwo], l, hl, heq, ?_⟩
    intro m hm
    obtain ⟨_, hmeq⟩ := List.getElem?_eq_some_iff.mp (hget hm.le)
    rw [hmeq]
    have := hlow m hm
    simp only [Bool.not_eq_true', decide_eq_false_iff_not]
    omega
  rw [strategicLevel, hfind]

lemma strategicLevel_eq (hfit : (HashTree.level (hashPair blake3) l leaves).length ≤ maxHashes)
    (htwo : 1 < (HashTree.level (hashPair blake3) l leaves).length)
    (hlow : ∀ m < l, maxHashes < (HashTree.level (hashPair blake3) m leaves).length) :
    (fromLeaves blake3 leaves).strategicLevel.1 = l := by
  rw [strategicLevel_eq_pair blake3 leaves hfit htwo hlow]

lemma strategicLevel_pos (hmany : maxHashes < leaves.length) :
    0 < (fromLeaves blake3 leaves).strategicLevel.1 := by
  have h43 : 43 < leaves.length := hmany
  rw [strategicLevel]
  split
  · rename_i nodes i hfind
    have hnodes := find?_some hfind
    have hget := mem_zipIdx_iff_getElem?.mp (mem_of_find?_eq_some hfind)
    rw [getElem?_levels_fromLeaves] at hget
    by_contra! hzero
    obtain rfl : i = 0 := by simpa using hzero
    obtain rfl : leaves = nodes := Option.some.inj hget
    have hfit := (of_decide_eq_true hnodes).1
    dsimp only at hfit
    omega
  · rw [depth_fromLeaves]
    exact Nat.clog_pos (by norm_num) (by omega)

end MerkleTree

section Collisions

variable (blake3 : Bytes → FixedBytes 32)

def pairsHashed (leaves : List (FixedBytes 32)) : List (FixedBytes 32 × FixedBytes 32) :=
  (List.range (Nat.clog 2 leaves.length)).flatMap fun l =>
    pairs (HashTree.level (hashPair blake3) l leaves)

/-- No pair on the one side has the hash of a different pair on the other. -/
def NoCollision (ps qs : List (FixedBytes 32 × FixedBytes 32)) : Prop :=
  ∀ p ∈ ps, ∀ q ∈ qs, hashPair blake3 p.1 p.2 = hashPair blake3 q.1 q.2 → p = q

instance (ps qs : List (FixedBytes 32 × FixedBytes 32)) : Decidable (NoCollision blake3 ps qs) :=
  inferInstanceAs (Decidable (∀ p ∈ ps, ∀ q ∈ qs, _ → _))

variable {blake3} {xs ys : List (FixedBytes 32)}

lemma mem_pairsHashed {l : ℕ} (hl : l < Nat.clog 2 xs.length)
    {p : FixedBytes 32 × FixedBytes 32} (hp : p ∈ pairs (HashTree.level (hashPair blake3) l xs)) :
    p ∈ pairsHashed blake3 xs :=
  mem_flatMap.mpr ⟨l, mem_range.mpr hl, hp⟩

lemma NoCollision.symm {ps qs : List (FixedBytes 32 × FixedBytes 32)}
    (h : NoCollision blake3 ps qs) : NoCollision blake3 qs ps :=
  fun q hq p hp heq => (h p hp q hq heq.symm).symm

lemma NoCollision.separates {l : ℕ}
    (h : NoCollision blake3 (pairsHashed blake3 xs) (pairsHashed blake3 ys))
    (hx : l ≤ Nat.clog 2 xs.length) (hy : l ≤ Nat.clog 2 ys.length) :
    Separates (hashPair blake3) l xs ys := by
  intro m hm p hp q hq
  exact h p (mem_pairsHashed (by omega) hp) q (mem_pairsHashed (by omega) hq)

end Collisions

end Favonius.Sync
