import Favonius.Lib.HashPaths
import Favonius.Sync.Merkle

/-!
# Merkle proofs

A proof lists the siblings of the nodes above a leaf.  It is checked without the
tree, against the root alone.
-/

namespace Favonius.Sync

open ByteCodec HashTree List

def withDup (level : List (FixedBytes 32)) : List (FixedBytes 32) :=
  if level.length % 2 ≠ 0 then level ++ level.getLast?.toList else level

/-- The siblings from the given levels; `none` is an index past the end of a level. -/
def proofFrom : List (List (FixedBytes 32)) → ℕ → Option (List (Bool × FixedBytes 32))
  | [], _ => some []
  | level :: levels, idx =>
    if idx % 2 = 0 then
      let sibling := (withDup level)[idx + 1]?.toList.map fun s => (true, s)
      (proofFrom levels (idx / 2)).map fun proof => sibling ++ proof
    else
      (withDup level)[idx - 1]?.bind fun s =>
        (proofFrom levels (idx / 2)).map fun proof => (false, s) :: proof

namespace MerkleTree

def proof (t : MerkleTree) (leafIndex : ℕ) : Option (List (Bool × FixedBytes 32)) :=
  if t.leafCount ≤ 1 then some [] else proofFrom t.levels.dropLast leafIndex

end MerkleTree

section Verify

variable (blake3 : Bytes → FixedBytes 32)

def verifyProof (root leaf : FixedBytes 32) (proof : List (Bool × FixedBytes 32)) : Bool :=
  let current := proof.foldl (fun current p =>
    if p.1 then hashPair blake3 current p.2 else hashPair blake3 p.2 current) leaf
  decide (current = root)

variable {leaf : FixedBytes 32} {proof : List (Bool × FixedBytes 32)}

lemma verifyProof_iff {root : FixedBytes 32} :
    verifyProof blake3 root leaf proof = true ↔ climb (hashPair blake3) leaf proof = root := by
  have hstep : (fun (current : FixedBytes 32) (p : Bool × FixedBytes 32) =>
      if p.1 then hashPair blake3 current p.2 else hashPair blake3 p.2 current) =
        fun current p => hashPair blake3 (joined current p).1 (joined current p).2 := by
    funext current p
    cases hp : p.1 <;> simp [joined, hp]
  rw [verifyProof, hstep, decide_eq_true_eq, climb]

variable {level : List (FixedBytes 32)} {i : ℕ}

lemma getElem?_withDup_sibling (hi : i < level.length) (heven : i % 2 = 0) :
    (withDup level)[i + 1]? = level[min (i + 1) (level.length - 1)]? := by
  rw [withDup]
  split
  · rcases Nat.lt_or_ge (i + 1) level.length with hlt | hge
    · rw [getElem?_append_left hlt, min_eq_left (by omega)]
    · obtain rfl : i = level.length - 1 := by omega
      rw [getElem?_append_right hge, min_eq_right (by omega), getLast?_eq_getElem?,
        getElem?_eq_getElem hi, Nat.sub_add_cancel (by omega), Nat.sub_self]
      rfl
  · rw [min_eq_left (by omega)]

lemma getElem?_withDup (hi : i < level.length) : (withDup level)[i]? = level[i]? := by
  rw [withDup]
  split
  · rw [getElem?_append_left hi]
  · rfl

lemma proofFrom_cons (hi : i < level.length) :
    ∃ s, level[if i % 2 = 0 then min (i + 1) (level.length - 1) else i - 1]? = some s ∧
      ∀ levels, proofFrom (level :: levels) i =
        (proofFrom levels (i / 2)).map fun proof => (decide (i % 2 = 0), s) :: proof := by
  rcases Nat.mod_two_eq_zero_or_one i with heven | hodd
  · have hs := getElem?_eq_getElem
      (show min (i + 1) (level.length - 1) < level.length by omega)
    refine ⟨_, by rw [if_pos heven]; exact hs, fun levels => ?_⟩
    rw [proofFrom, if_pos heven, getElem?_withDup_sibling hi heven, hs, decide_eq_true heven]
    rfl
  · have hne : ¬ i % 2 = 0 := by omega
    have hs := getElem?_eq_getElem (show i - 1 < level.length by omega)
    refine ⟨_, by rw [if_neg hne]; exact hs, fun levels => ?_⟩
    rw [proofFrom, if_neg hne, getElem?_withDup (by omega), hs, decide_eq_false hne]
    rfl

lemma proofFrom_climb {levels : List (List (FixedBytes 32))} {xs : List (FixedBytes 32)}
    {x : FixedBytes 32}
    (hlevels : ∀ l < levels.length, levels[l]? = some (HashTree.level (hashPair blake3) l xs))
    (hx : xs[i]? = some x) :
    ∃ proof, proofFrom levels i = some proof ∧
      (HashTree.level (hashPair blake3) levels.length xs)[i / 2 ^ levels.length]? =
        some (climb (hashPair blake3) x proof) := by
  induction levels generalizing xs i x with
  | nil => exact ⟨[], rfl, by simpa [HashTree.level, climb] using hx⟩
  | cons level levels ih =>
    obtain rfl : level = xs := by simpa [HashTree.level] using hlevels 0 (by simp)
    obtain ⟨s, hs, hcons⟩ := proofFrom_cons (List.getElem?_eq_some_iff.mp hx).1
    have hnext : ∀ l < levels.length, levels[l]? =
        some (HashTree.level (hashPair blake3) l (parents (hashPair blake3) level)) := by
      intro l hl
      rw [level_parents, ← hlevels (l + 1) (by simpa using hl), getElem?_cons_succ]
    obtain ⟨proof, hproof, hroot⟩ := ih hnext (getElem?_parents_div_two hx hs)
    refine ⟨(decide (i % 2 = 0), s) :: proof, by rw [hcons, hproof]; rfl, ?_⟩
    rw [level_parents, Nat.div_div_eq_div_mul, ← pow_succ'] at hroot
    exact hroot

variable {leaves : List (FixedBytes 32)}

lemma getElem?_dropLast_levels {l : ℕ}
    (hl : l < (MerkleTree.fromLeaves blake3 leaves).levels.dropLast.length) :
    (MerkleTree.fromLeaves blake3 leaves).levels.dropLast[l]? =
      some (HashTree.level (hashPair blake3) l leaves) := by
  rw [length_dropLast, MerkleTree.length_levels_fromLeaves, Nat.add_sub_cancel] at hl
  rw [dropLast_eq_take, getElem?_take_of_lt (by simpa using hl),
    MerkleTree.getElem?_levels_fromLeaves, if_pos hl.le]

lemma getElem?_level_clog (hne : leaves ≠ []) :
    (HashTree.level (hashPair blake3) (Nat.clog 2 leaves.length) leaves)[0]? =
      some (MerkleTree.fromLeaves blake3 leaves).root := by
  rw [MerkleTree.level_root blake3 hne]
  rfl

lemma exists_proof (hleaf : leaves[i]? = some leaf) :
    ∃ proof, (MerkleTree.fromLeaves blake3 leaves).proof i = some proof ∧
      verifyProof blake3 (MerkleTree.fromLeaves blake3 leaves).root leaf proof = true := by
  have hi : i < leaves.length := (List.getElem?_eq_some_iff.mp hleaf).1
  have hne : leaves ≠ [] := length_pos_iff.mp (by omega)
  have hroot := getElem?_level_clog blake3 hne
  rw [MerkleTree.proof, MerkleTree.leafCount_fromLeaves]
  split
  · rename_i hone
    obtain rfl : i = 0 := by omega
    refine ⟨[], rfl, (verifyProof_iff blake3).mpr ?_⟩
    rw [Nat.clog_of_right_le_one hone, HashTree.level, hleaf] at hroot
    exact Option.some.inj hroot
  · obtain ⟨proof, hproof, hclimb⟩ := proofFrom_climb blake3
      (fun l hl => getElem?_dropLast_levels blake3 hl) hleaf
    refine ⟨proof, hproof, (verifyProof_iff blake3).mpr ?_⟩
    have hzero : i / 2 ^ Nat.clog 2 leaves.length = 0 :=
      Nat.div_eq_of_lt (hi.trans_le (Nat.le_pow_clog (by norm_num) _))
    rw [length_dropLast, MerkleTree.length_levels_fromLeaves, Nat.add_sub_cancel, hzero,
      hroot] at hclimb
    exact (Option.some.inj hclimb).symm

/-- The leaf that a proof of full length leads down to from the root: right where the sibling
stands on the left, a node that is missing being the one that it copies. -/
def provenLeaf (leaves : List (FixedBytes 32)) (proof : List (Bool × FixedBytes 32)) : ℕ :=
  leafUnder leaves.length (Nat.clog 2 leaves.length) 0 (place proof)

lemma leaf_of_verifyProof (hne : leaves ≠ [])
    (hlen : proof.length = (MerkleTree.fromLeaves blake3 leaves).depth)
    (hfree : NoCollision blake3 (climbed (hashPair blake3) leaf proof) (pairsHashed blake3 leaves))
    (haccept : verifyProof blake3 (MerkleTree.fromLeaves blake3 leaves).root leaf proof = true) :
    leaves[provenLeaf leaves proof]? = some leaf := by
  rw [MerkleTree.depth_fromLeaves] at hlen
  rw [verifyProof_iff] at haccept
  rw [provenLeaf, ← hlen]
  refine @climb_sound _ (hashPair blake3) _ _ _ _ (fun l hl p hp q hq => ?_) ?_
  · exact hfree q hq p (mem_pairsHashed (by omega) hp)
  · rw [hlen, haccept]
    exact getElem?_level_clog blake3 hne

/-- Every leaf has a proof that is accepted.  A proof as long as the tree is deep that is
accepted in a tree with leaves is one of the leaf that it leads down to. -/
theorem merkle_proofs_complete_sound (leaves : List (FixedBytes 32)) :
    (∀ i leaf, leaves[i]? = some leaf →
      ∃ proof, (MerkleTree.fromLeaves blake3 leaves).proof i = some proof ∧
        verifyProof blake3 (MerkleTree.fromLeaves blake3 leaves).root leaf proof = true) ∧
    (leaves ≠ [] → ∀ leaf proof, proof.length = (MerkleTree.fromLeaves blake3 leaves).depth →
      NoCollision blake3 (climbed (hashPair blake3) leaf proof) (pairsHashed blake3 leaves) →
      verifyProof blake3 (MerkleTree.fromLeaves blake3 leaves).root leaf proof = true →
      leaves[provenLeaf leaves proof]? = some leaf) :=
  ⟨fun _ _ hleaf => exists_proof blake3 hleaf,
    fun hne _ _ hlen hfree haccept => leaf_of_verifyProof blake3 hne hlen hfree haccept⟩

end Verify

def sampleDigest (data : Bytes) : FixedBytes 32 :=
  ⟨(data.filter (· ≠ 0) ++ List.replicate 32 0).take 32, by simp⟩

def sampleLeaf (b : UInt8) : FixedBytes 32 := ⟨b :: List.replicate 31 0, by simp⟩

theorem merkle_proofs_three_leaves :
    ([sampleLeaf 1, sampleLeaf 2, sampleLeaf 3])[provenLeaf
      [sampleLeaf 1, sampleLeaf 2, sampleLeaf 3]
      [(false, sampleLeaf 3), (false, sampleDigest ((sampleLeaf 1).1 ++ (sampleLeaf 2).1))]]? =
        some (sampleLeaf 3) :=
  (merkle_proofs_complete_sound sampleDigest [sampleLeaf 1, sampleLeaf 2, sampleLeaf 3]).2
    (by decide) _ _ (by decide +kernel) (by decide +kernel) (by decide +kernel)

/-- A tree without leaves has thirty-two zeros for its root, which the empty proof proves. -/
theorem empty_tree_proves_zeros :
    ([] : List (Bool × FixedBytes 32)).length = (MerkleTree.fromLeaves sampleDigest []).depth ∧
      NoCollision sampleDigest (climbed (hashPair sampleDigest) (sampleLeaf 0) [])
        (pairsHashed sampleDigest []) ∧
      verifyProof sampleDigest (MerkleTree.fromLeaves sampleDigest []).root (sampleLeaf 0) [] =
        true ∧
      sampleLeaf 0 ∉ ([] : List (FixedBytes 32)) := by
  refine ⟨?_, ?_, ?_, not_mem_nil⟩
  · decide +kernel
  · decide
  · decide +kernel

end Favonius.Sync
