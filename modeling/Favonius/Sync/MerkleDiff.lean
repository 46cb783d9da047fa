import Favonius.Sync.MerkleProofs

/-!
# Which leaves of two trees differ

The comparison goes down from the root of the deeper tree and leaves out the nodes
that are equal in both.  Equal nodes of trees with different numbers of leaves need
not have the same leaves below them: the shorter tree fills up with copies.
-/

namespace Favonius.Sync

open ByteCodec HashTree List List.Pairwise
open Nat (clog)

namespace MerkleTree

variable (t other : MerkleTree)

def node (l i : ℕ) : Option (FixedBytes 32) := t.levels[l]?.bind fun level => level[i]?

def hashesMatch : Option (FixedBytes 32) → Option (FixedBytes 32) → Bool
  | some a, some b => decide (a = b)
  | _, _ => false

def leavesInRange (l nodeIdx : ℕ) : List ℕ :=
  let start := nodeIdx * 2 ^ l
  let stop := min (start + 2 ^ l) t.leafCount
  List.range' start (stop - start)

/-- A tree that has the level but not the node has no leaves in its range; one that lacks the
level may have some. -/
def diffRecurse : ℕ → ℕ → List ℕ
  | 0, nodeIdx =>
    if hashesMatch (t.node 0 nodeIdx) (other.node 0 nodeIdx) then []
    else if (t.node 0 nodeIdx).isSome || (other.node 0 nodeIdx).isSome then [nodeIdx]
    else []
  | level + 1, nodeIdx =>
    let selfHash := t.node (level + 1) nodeIdx
    let otherHash := other.node (level + 1) nodeIdx
    if hashesMatch selfHash otherHash then []
    else if t.levels[level + 1]?.isSome && selfHash.isNone then
      other.leavesInRange (level + 1) nodeIdx
    else if other.levels[level + 1]?.isSome && otherHash.isNone then
      t.leavesInRange (level + 1) nodeIdx
    else diffRecurse level (nodeIdx * 2) ++ diffRecurse level (nodeIdx * 2 + 1)

def diffLeaves : List ℕ :=
  if t.leafCount = 0 ∨ other.leafCount = 0 then List.range (max t.leafCount other.leafCount)
  else if t.leafCount = other.leafCount ∧ t.root = other.root then []
  else t.diffRecurse other (max t.depth other.depth) 0

end MerkleTree

/-- The places where two lists differ or only one of them goes on. -/
def differing (xs ys : List (FixedBytes 32)) : List ℕ :=
  (List.range (max xs.length ys.length)).filter fun k => decide (xs[k]? ≠ ys[k]?)

lemma mem_differing {xs ys : List (FixedBytes 32)} {k : ℕ} :
    k ∈ differing xs ys ↔ xs[k]? ≠ ys[k]? := by
  rw [differing, mem_filter, mem_range, decide_eq_true_eq, and_iff_right_iff_imp]
  intro hne
  by_contra! hge
  apply hne
  rw [getElem?_eq_none (by omega), getElem?_eq_none (by omega)]

lemma pairwise_differing (xs ys : List (FixedBytes 32)) : (differing xs ys).Pairwise (· < ·) :=
  pairwise_lt_range.filter _

lemma differing_comm (xs ys : List (FixedBytes 32)) : differing xs ys = differing ys xs := by
  refine (pairwise_differing xs ys).eq_of_mem_iff (pairwise_differing ys xs) fun k => ?_
  rw [mem_differing, mem_differing, ne_comm]

section Recursion

variable {blake3 : Bytes → FixedBytes 32} {xs ys : List (FixedBytes 32)}

variable {l i : ℕ}

lemma node_fromLeaves :
    (MerkleTree.fromLeaves blake3 xs).node l i =
      if l ≤ clog 2 xs.length then (HashTree.level (hashPair blake3) l xs)[i]? else none := by
  rw [MerkleTree.node, MerkleTree.getElem?_levels_fromLeaves]
  split <;> rfl

lemma node_isSome {l i : ℕ} : ((MerkleTree.fromLeaves blake3 xs).node l i).isSome = true ↔
    l ≤ clog 2 xs.length ∧ i * 2 ^ l < xs.length := by
  rw [node_fromLeaves]
  split
  · rename_i hl
    simp [hl, ← lt_length_level (hashPair blake3), isSome_getElem?]
  · rename_i hl
    simp [hl]

lemma lacks_node_iff : ((MerkleTree.fromLeaves blake3 xs).levels[l]?.isSome &&
    ((MerkleTree.fromLeaves blake3 xs).node l i).isNone) = true ↔
      l ≤ clog 2 xs.length ∧ xs.length ≤ i * 2 ^ l := by
  have hlevel : (MerkleTree.fromLeaves blake3 xs).levels[l]?.isSome = true ↔
      l ≤ clog 2 xs.length := by
    rw [MerkleTree.getElem?_levels_fromLeaves]
    split <;> simp_all
  rw [Bool.and_eq_true, hlevel, ← Option.not_isSome, Bool.not_eq_true', ← Bool.not_eq_true,
    node_isSome, not_and, not_lt]
  exact ⟨fun h => ⟨h.1, h.2 h.1⟩, fun h => ⟨h.1, fun _ => h.2⟩⟩

lemma hashesMatch_iff {a b : Option (FixedBytes 32)} :
    MerkleTree.hashesMatch a b = true ↔ a.isSome = true ∧ a = b := by
  cases a <;> cases b <;> simp [MerkleTree.hashesMatch]

variable {k : ℕ}

lemma div_two_pow_eq_iff : k / 2 ^ l = i ↔ i * 2 ^ l ≤ k ∧ k < i * 2 ^ l + 2 ^ l := by
  rw [Nat.div_eq_iff (Nat.two_pow_pos l), mul_comm i]
  have := Nat.two_pow_pos l
  omega

lemma mem_leavesInRange : k ∈ (MerkleTree.fromLeaves blake3 xs).leavesInRange l i ↔
    k / 2 ^ l = i ∧ k < xs.length := by
  rw [MerkleTree.leavesInRange, MerkleTree.leafCount_fromLeaves, mem_range'_1, div_two_pow_eq_iff]
  omega

variable (blake3 xs ys) in
def SameNode (l i : ℕ) : Prop :=
  MerkleTree.hashesMatch ((MerkleTree.fromLeaves blake3 xs).node l i)
    ((MerkleTree.fromLeaves blake3 ys).node l i) = true

lemma SameNode.lt_left (h : SameNode blake3 xs ys l i) : i * 2 ^ l < xs.length :=
  (node_isSome.mp (hashesMatch_iff.mp h).1).2

lemma SameNode.lt_right (h : SameNode blake3 xs ys l i) : i * 2 ^ l < ys.length := by
  obtain ⟨hsome, heq⟩ := hashesMatch_iff.mp h
  rw [heq] at hsome
  exact (node_isSome.mp hsome).2

lemma div_two_pow_succ_eq_iff :
    k / 2 ^ (l + 1) = i ↔ k / 2 ^ l = i * 2 ∨ k / 2 ^ l = i * 2 + 1 := by
  rw [pow_succ, ← Nat.div_div_eq_div_mul]
  omega

lemma not_sameNode_below {m : ℕ} (hk : k / 2 ^ l = i) (hm : m ≤ l)
    (hpast : xs.length ≤ i * 2 ^ l ∨ ys.length ≤ i * 2 ^ l) :
    ¬SameNode blake3 xs ys m (k / 2 ^ m) := by
  intro hsame
  have hle : i * 2 ^ l ≤ k / 2 ^ m * 2 ^ m := by
    have hpow : 2 ^ l = 2 ^ (l - m) * 2 ^ m := by rw [← pow_add, Nat.sub_add_cancel hm]
    rw [← hk, hpow, Nat.mul_comm (2 ^ (l - m)), ← Nat.div_div_eq_div_mul, ← mul_assoc,
      Nat.mul_right_comm]
    exact Nat.mul_le_mul_right _ (Nat.div_mul_le_self _ _)
  have hleft := hsame.lt_left
  have hright := hsame.lt_right
  omega

lemma mem_diffRecurse_zero :
    k ∈ (MerkleTree.fromLeaves blake3 xs).diffRecurse (.fromLeaves blake3 ys) 0 i ↔
      k = i ∧ (k < xs.length ∨ k < ys.length) ∧ ¬SameNode blake3 xs ys 0 k := by
  have hleaf : (((MerkleTree.fromLeaves blake3 xs).node 0 i).isSome ||
      ((MerkleTree.fromLeaves blake3 ys).node 0 i).isSome) = true ↔
        i < xs.length ∨ i < ys.length := by
    simp [node_isSome]
  rw [MerkleTree.diffRecurse]
  split
  · rename_i hsame
    simp only [not_mem_nil, false_iff]
    rintro ⟨rfl, -, hdiff⟩
    exact hdiff hsame
  · rename_i hdiff
    split
    · rename_i hsome
      rw [mem_singleton]
      refine ⟨?_, fun h => h.1⟩
      rintro rfl
      exact ⟨rfl, hleaf.mp hsome, hdiff⟩
    · rename_i hsome
      simp only [not_mem_nil, false_iff]
      rintro ⟨rfl, hlt, -⟩
      exact hsome (hleaf.mpr hlt)

lemma mem_leavesInRange_of_past {zs : List (FixedBytes 32)}
    (hpast : xs.length ≤ i * 2 ^ l ∨ ys.length ≤ i * 2 ^ l)
    (hother : i * 2 ^ l ≤ k → (k < zs.length ↔ k < xs.length ∨ k < ys.length)) :
    k ∈ (MerkleTree.fromLeaves blake3 zs).leavesInRange l i ↔
      k / 2 ^ l = i ∧ (k < xs.length ∨ k < ys.length) ∧
        ∀ m ≤ l, ¬SameNode blake3 xs ys m (k / 2 ^ m) := by
  rw [mem_leavesInRange]
  refine and_congr_right fun hk => ?_
  rw [hother (div_two_pow_eq_iff.mp hk).1]
  exact ⟨fun hlt => ⟨hlt, fun m hm => not_sameNode_below hk hm hpast⟩, fun h => h.1⟩

/-- A leaf of one of the trees is reported if no node above it is the same in both. -/
theorem mem_diffRecurse :
    k ∈ (MerkleTree.fromLeaves blake3 xs).diffRecurse (.fromLeaves blake3 ys) l i ↔
      k / 2 ^ l = i ∧ (k < xs.length ∨ k < ys.length) ∧
        ∀ m ≤ l, ¬SameNode blake3 xs ys m (k / 2 ^ m) := by
  induction l generalizing i with
  | zero =>
    rw [mem_diffRecurse_zero]
    simp
  | succ l ih =>
    rw [MerkleTree.diffRecurse]
    split
    · rename_i hsame
      simp only [not_mem_nil, false_iff]
      rintro ⟨rfl, -, hnone⟩
      exact hnone (l + 1) le_rfl hsame
    rename_i hdiff
    split
    · rename_i hlacks
      have hpast := (lacks_node_iff.mp hlacks).2
      exact mem_leavesInRange_of_past (.inl hpast) (by omega)
    split
    · rename_i hlacks
      have hpast := (lacks_node_iff.mp hlacks).2
      exact mem_leavesInRange_of_past (.inr hpast) (by omega)
    rw [mem_append, ih, ih, ← or_and_right, ← div_two_pow_succ_eq_iff]
    refine and_congr_right fun hk => and_congr_right fun _ => ?_
    refine ⟨fun h m hm => ?_, fun h m hm => h m (by omega)⟩
    rcases Nat.lt_or_eq_of_le hm with hlt | rfl
    · exact h m (by omega)
    · rw [hk]
      exact hdiff

lemma pairwise_diffRecurse (l i : ℕ) :
    ((MerkleTree.fromLeaves blake3 xs).diffRecurse (.fromLeaves blake3 ys) l i).Pairwise
      (· < ·) := by
  induction l generalizing i with
  | zero =>
    rw [MerkleTree.diffRecurse]
    split
    · exact nil
    · split
      · exact pairwise_singleton _ _
      · exact nil
  | succ l ih =>
    rw [MerkleTree.diffRecurse]
    split
    · exact nil
    split
    · exact pairwise_lt_range'
    split
    · exact pairwise_lt_range'
    refine pairwise_append.mpr ⟨ih _, ih _, fun a ha b hb => ?_⟩
    have hleft := div_two_pow_eq_iff.mp (mem_diffRecurse.mp ha).1
    have hright := div_two_pow_eq_iff.mp (mem_diffRecurse.mp hb).1
    rw [Nat.add_mul, Nat.one_mul] at hright
    omega

/-- With leaves on both sides the report is the leaves that no common node covers. -/
theorem mem_diffLeaves (hx : xs ≠ []) (hy : ys ≠ []) (hroots : ¬(xs.length = ys.length ∧
      (MerkleTree.fromLeaves blake3 xs).root = (MerkleTree.fromLeaves blake3 ys).root)) :
    k ∈ (MerkleTree.fromLeaves blake3 xs).diffLeaves (.fromLeaves blake3 ys) ↔
      (k < xs.length ∨ k < ys.length) ∧ ∀ l, ¬SameNode blake3 xs ys l (k / 2 ^ l) := by
  have hxpos := length_pos_iff.mpr hx
  have hypos := length_pos_iff.mpr hy
  rw [MerkleTree.diffLeaves, MerkleTree.leafCount_fromLeaves, MerkleTree.leafCount_fromLeaves,
    if_neg (by omega), if_neg hroots, mem_diffRecurse, MerkleTree.depth_fromLeaves,
    MerkleTree.depth_fromLeaves]
  have hxle : xs.length ≤ 2 ^ clog 2 xs.length := Nat.le_pow_clog (by norm_num) _
  have hyle : ys.length ≤ 2 ^ clog 2 ys.length := Nat.le_pow_clog (by norm_num) _
  have hxpow : 2 ^ clog 2 xs.length ≤
      2 ^ max (clog 2 xs.length) (clog 2 ys.length) :=
    Nat.pow_le_pow_right (by norm_num) (le_max_left _ _)
  have hypow : 2 ^ clog 2 ys.length ≤
      2 ^ max (clog 2 xs.length) (clog 2 ys.length) :=
    Nat.pow_le_pow_right (by norm_num) (le_max_right _ _)
  constructor
  · rintro ⟨-, hk, hnone⟩
    refine ⟨hk, fun l hsame => ?_⟩
    have hl := (node_isSome.mp (hashesMatch_iff.mp hsame).1).1
    exact hnone l (by omega) hsame
  · rintro ⟨hk, hnone⟩
    exact ⟨Nat.div_eq_of_lt (by omega), hk, fun l _ => hnone l⟩

lemma pairwise_diffLeaves :
    ((MerkleTree.fromLeaves blake3 xs).diffLeaves (.fromLeaves blake3 ys)).Pairwise (· < ·) := by
  rw [MerkleTree.diffLeaves]
  split
  · exact pairwise_lt_range
  · split
    · exact nil
    · exact pairwise_diffRecurse _ _

/-- A node that both trees have lies across the end of the shorter list and has the same leaf
at every place in both trees, copies included. -/
def EndHidden (xs ys : List (FixedBytes 32)) : Prop :=
  xs.length < ys.length ∧ ∃ l ≤ clog 2 xs.length, ∃ i,
    i * 2 ^ l < xs.length ∧ xs.length < i * 2 ^ l + 2 ^ l ∧
      ∀ k < 2 ^ l, xs[leafUnder xs.length l i k]? = ys[leafUnder ys.length l i k]?

lemma not_endHidden_of_new {leaf : FixedBytes 32} (hleaf : ys[xs.length]? = some leaf)
    (hnew : leaf ∉ xs) : ¬EndHidden xs ys := by
  rintro ⟨hlt, l, -, i, hin, hout, hall⟩
  have hplace : i * 2 ^ l + (xs.length - i * 2 ^ l) = xs.length := by omega
  have hk := hall (xs.length - i * 2 ^ l) (by omega)
  rw [leafUnder_eq (by omega) (by omega : i * 2 ^ l + (xs.length - i * 2 ^ l) < ys.length),
    hplace, hleaf] at hk
  exact hnew (mem_of_getElem? hk)

lemma not_endHidden_of_length_le (hle : ys.length ≤ xs.length) : ¬EndHidden xs ys :=
  fun h => absurd h.1 (by omega)

variable (hfree : NoCollision blake3 (pairsHashed blake3 xs) (pairsHashed blake3 ys))
include hfree

lemma sameNode_iff : SameNode blake3 xs ys l i ↔
    (l ≤ clog 2 xs.length ∧ i * 2 ^ l < xs.length) ∧
      (l ≤ clog 2 ys.length ∧ i * 2 ^ l < ys.length) ∧
        ∀ k < 2 ^ l, xs[leafUnder xs.length l i k]? = ys[leafUnder ys.length l i k]? := by
  rw [SameNode, hashesMatch_iff, node_isSome]
  refine and_congr_right fun hx => ?_
  have hnodes (hy : l ≤ clog 2 ys.length ∧ i * 2 ^ l < ys.length) :
      (MerkleTree.fromLeaves blake3 xs).node l i = (MerkleTree.fromLeaves blake3 ys).node l i ↔
        ∀ k < 2 ^ l, xs[leafUnder xs.length l i k]? = ys[leafUnder ys.length l i k]? := by
    rw [node_fromLeaves, node_fromLeaves, if_pos hx.1, if_pos hy.1]
    exact node_eq_iff (hfree.separates hx.1 hy.1) (lt_width.mpr hx.2) (lt_width.mpr hy.2)
  constructor
  · intro heq
    have hy : l ≤ clog 2 ys.length ∧ i * 2 ^ l < ys.length := by
      rw [← @node_isSome blake3, ← heq, node_isSome]
      exact hx
    exact ⟨hy, (hnodes hy).mp heq⟩
  · rintro ⟨hy, hall⟩
    exact (hnodes hy).mpr hall

/-- A common node above a difference lies across the end of the shorter list. -/
theorem endHidden_of_sameNode (hsame : SameNode blake3 xs ys l (k / 2 ^ l))
    (hdiff : xs[k]? ≠ ys[k]?) : EndHidden xs ys ∨ EndHidden ys xs := by
  obtain ⟨hx, hy, hall⟩ := (sameNode_iff hfree).mp hsame
  have hmod : k % 2 ^ l < 2 ^ l := Nat.mod_lt _ (Nat.two_pow_pos l)
  have hplace : k / 2 ^ l * 2 ^ l + k % 2 ^ l = k := Nat.div_add_mod' k (2 ^ l)
  -- where both lists have the leaf, the node would show the difference
  have hshort : xs.length ≤ k ∨ ys.length ≤ k := by
    by_contra! hboth
    apply hdiff
    have hk := hall _ hmod
    rwa [leafUnder_eq hmod (by omega), leafUnder_eq hmod (by omega), hplace] at hk
  rcases Nat.lt_trichotomy xs.length ys.length with hlt | heq | hgt
  · exact .inl ⟨hlt, l, hx.1, _, hx.2, by omega, hall⟩
  · exact absurd (by rw [getElem?_eq_none (by omega), getElem?_eq_none (by omega)]) hdiff
  · exact .inr ⟨hgt, l, hy.1, _, hy.2, by omega, fun k hk => (hall k hk).symm⟩

/-- The node that hides the end is common, and stands above the first leaf that is missing. -/
theorem exists_sameNode_of_endHidden (h : EndHidden xs ys) :
    ∃ l, SameNode blake3 xs ys l (xs.length / 2 ^ l) := by
  obtain ⟨hlt, l, hl, i, hin, hout, hall⟩ := h
  obtain rfl : xs.length / 2 ^ l = i := div_two_pow_eq_iff.mpr ⟨hin.le, hout⟩
  have hclog : clog 2 xs.length ≤ clog 2 ys.length := Nat.clog_mono_right 2 hlt.le
  exact ⟨l, (sameNode_iff hfree).mpr ⟨⟨hl, hin⟩, ⟨by omega, by omega⟩, hall⟩⟩

lemma eq_of_root_eq (hx : xs ≠ []) (hlen : xs.length = ys.length)
    (hroot : (MerkleTree.fromLeaves blake3 xs).root = (MerkleTree.fromLeaves blake3 ys).root) :
    xs = ys := by
  have hy : ys ≠ [] := by
    rwa [← length_pos_iff, ← hlen, length_pos_iff]
  refine level_inj (hfree.separates le_rfl (by rw [hlen])) hlen ?_
  rw [MerkleTree.level_root blake3 hx, hlen, MerkleTree.level_root blake3 hy, hroot]

lemma diffLeaves_eq_differing (hxy : ¬EndHidden xs ys) (hyx : ¬EndHidden ys xs) :
    (MerkleTree.fromLeaves blake3 xs).diffLeaves (.fromLeaves blake3 ys) = differing xs ys := by
  refine pairwise_diffLeaves.eq_of_mem_iff (pairwise_differing xs ys) fun k => ?_
  rw [mem_differing]
  by_cases hempty : xs = [] ∨ ys = []
  · rw [MerkleTree.diffLeaves, MerkleTree.leafCount_fromLeaves, MerkleTree.leafCount_fromLeaves,
      if_pos (by simpa [length_eq_zero_iff] using hempty), mem_range]
    rcases hempty with rfl | rfl
    · simp
    · simp
  obtain ⟨hx, hy⟩ : xs ≠ [] ∧ ys ≠ [] := by simpa using hempty
  by_cases hroots : xs.length = ys.length ∧
      (MerkleTree.fromLeaves blake3 xs).root = (MerkleTree.fromLeaves blake3 ys).root
  · obtain rfl := eq_of_root_eq hfree hx hroots.1 hroots.2
    simp [MerkleTree.diffLeaves, hx]
  rw [mem_diffLeaves hx hy hroots]
  constructor
  · rintro ⟨hk, hnone⟩ heq
    apply hnone 0
    rw [SameNode, pow_zero, Nat.div_one, hashesMatch_iff, node_fromLeaves, node_fromLeaves,
      if_pos (Nat.zero_le _), if_pos (Nat.zero_le _)]
    refine ⟨?_, heq⟩
    rcases hk with hk | hk
    · simpa [HashTree.level] using hk
    · simpa [HashTree.level, heq] using hk
  · intro hdiff
    refine ⟨?_, fun l hsame => ?_⟩
    · by_contra! hge
      exact hdiff (by rw [getElem?_eq_none hge.1, getElem?_eq_none hge.2])
    · rcases endHidden_of_sameNode hfree hsame hdiff with h | h
      · exact hxy h
      · exact hyx h

lemma not_mem_diffLeaves_of_endHidden (h : EndHidden xs ys) :
    xs.length ∉ (MerkleTree.fromLeaves blake3 xs).diffLeaves (.fromLeaves blake3 ys) := by
  obtain ⟨hlt, l, -, i, hin, -, -⟩ := id h
  have hx : xs ≠ [] := length_pos_iff.mp (by omega)
  have hy : ys ≠ [] := length_pos_iff.mp (by omega)
  rw [mem_diffLeaves hx hy (by omega)]
  rintro ⟨-, hnone⟩
  obtain ⟨l, hsame⟩ := exists_sameNode_of_endHidden hfree h
  exact hnone l hsame

omit hfree in
lemma mem_differing_of_length_lt (hlt : xs.length < ys.length) :
    xs.length ∈ differing xs ys := by
  rw [mem_differing, getElem?_eq_none le_rfl, getElem?_eq_getElem hlt]
  simp

/-- Two trees are compared exactly, from either side, unless the copies in the shorter one hide
where it ends. -/
theorem diff_leaves_exact_iff :
    ((MerkleTree.fromLeaves blake3 xs).diffLeaves (.fromLeaves blake3 ys) = differing xs ys ∧
      (MerkleTree.fromLeaves blake3 ys).diffLeaves (.fromLeaves blake3 xs) =
        (MerkleTree.fromLeaves blake3 xs).diffLeaves (.fromLeaves blake3 ys)) ↔
      ¬EndHidden xs ys ∧ ¬EndHidden ys xs := by
  constructor
  · rintro ⟨hexact, hswap⟩
    refine ⟨fun h => ?_, fun h => ?_⟩
    · apply not_mem_diffLeaves_of_endHidden hfree h
      rw [hexact]
      exact mem_differing_of_length_lt h.1
    · apply not_mem_diffLeaves_of_endHidden hfree.symm h
      rw [hswap, hexact, differing_comm]
      exact mem_differing_of_length_lt h.1
  · rintro ⟨hxy, hyx⟩
    rw [diffLeaves_eq_differing hfree hxy hyx, diffLeaves_eq_differing hfree.symm hyx hxy]
    exact ⟨rfl, differing_comm ys xs⟩

end Recursion

theorem diff_leaves_exact_new_leaf :
    (MerkleTree.fromLeaves sampleDigest [sampleLeaf 1, sampleLeaf 2, sampleLeaf 3]).diffLeaves
        (.fromLeaves sampleDigest [sampleLeaf 1, sampleLeaf 2, sampleLeaf 3, sampleLeaf 4]) =
      differing [sampleLeaf 1, sampleLeaf 2, sampleLeaf 3]
        [sampleLeaf 1, sampleLeaf 2, sampleLeaf 3, sampleLeaf 4] :=
  ((@diff_leaves_exact_iff sampleDigest _ _ (by decide +kernel)).mpr
    ⟨not_endHidden_of_new rfl (by decide), not_endHidden_of_length_le (by decide)⟩).1

/-- A fourth leaf that repeats the third is what the tree of three leaves is filled up with. -/
theorem diff_leaves_misses_repeated_leaf :
    NoCollision sampleDigest
        (pairsHashed sampleDigest [sampleLeaf 1, sampleLeaf 2, sampleLeaf 3])
        (pairsHashed sampleDigest [sampleLeaf 1, sampleLeaf 2, sampleLeaf 3, sampleLeaf 3]) ∧
      (MerkleTree.fromLeaves sampleDigest [sampleLeaf 1, sampleLeaf 2, sampleLeaf 3]).diffLeaves
        (.fromLeaves sampleDigest [sampleLeaf 1, sampleLeaf 2, sampleLeaf 3, sampleLeaf 3]) = [] ∧
      differing [sampleLeaf 1, sampleLeaf 2, sampleLeaf 3]
        [sampleLeaf 1, sampleLeaf 2, sampleLeaf 3, sampleLeaf 3] = [3] := by
  refine ⟨?_, ?_, ?_⟩
  · decide +kernel
  · decide +kernel
  · decide +kernel

end Favonius.Sync
