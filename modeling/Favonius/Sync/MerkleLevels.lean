import Favonius.Sync.MerkleProofs
import Favonius.Sync.Resume

/-!
# One level of two trees

What the nodes of a level say about the leaves below them, for two trees over the
same number of leaves, and which level is chosen to be sent.
-/

namespace Favonius.Sync

open ByteCodec HashTree List MerkleTree

variable {blake3 : Bytes → FixedBytes 32} {xs ys : List (FixedBytes 32)}

lemma length_level_succ (l : ℕ) : (HashTree.level (hashPair blake3) (l + 1) xs).length =
    ((HashTree.level (hashPair blake3) l xs).length + 1) / 2 := by
  rw [HashTree.level, parents, length_map, length_pairs]

/-- Halving cannot jump over the levels with two to 43 nodes. -/
theorem exists_strategicLevel (htwo : 2 ≤ xs.length) :
    ∃ l, (HashTree.level (hashPair blake3) l xs).length ≤ maxHashes ∧
      1 < (HashTree.level (hashPair blake3) l xs).length ∧
        ∀ m < l, maxHashes < (HashTree.level (hashPair blake3) m xs).length := by
  have hsome : ∃ l, (HashTree.level (hashPair blake3) l xs).length ≤ maxHashes := by
    refine ⟨Nat.clog 2 xs.length, ?_⟩
    rw [level_root blake3 (length_pos_iff.mp (by omega))]
    exact (by norm_num : 1 ≤ 43)
  obtain ⟨l, hfit, hlow⟩ := Nat.findX hsome
  refine ⟨l, hfit, ?_, fun m hm => Nat.lt_of_not_le (hlow m hm)⟩
  cases l with
  | zero => exact htwo
  | succ l =>
    have habove : 43 < (HashTree.level (hashPair blake3) l xs).length :=
      Nat.lt_of_not_le (hlow l (Nat.lt_succ_self l))
    rw [length_level_succ]
    omega

variable {l : ℕ}

lemma block_eq_iff (hlen : xs.length = ys.length) {i : ℕ} :
    block l i xs = block l i ys ↔
      ∀ k, i * 2 ^ l ≤ k → k < min ((i + 1) * 2 ^ l) xs.length → xs[k]? = ys[k]? := by
  rw [List.ext_getElem?_iff]
  simp only [getElem?_block]
  constructor
  · intro h k hlow hhigh
    have hk := h (k - i * 2 ^ l)
    rw [Nat.add_mul, Nat.one_mul] at hhigh
    rwa [if_pos (by omega), if_pos (by omega), Nat.add_sub_cancel' hlow] at hk
  · intro h j
    by_cases hj : j < 2 ^ l
    · rw [if_pos hj, if_pos hj]
      rcases Nat.lt_or_ge (i * 2 ^ l + j) xs.length with hlt | hge
      · refine h _ (by omega) ?_
        rw [Nat.add_mul, Nat.one_mul]
        omega
      · rw [getElem?_eq_none hge, getElem?_eq_none (by omega)]
    · rw [if_neg hj, if_neg hj]

lemma pairwise_leavesBelow (t : MerkleTree) (l node : ℕ) :
    (t.leavesBelow l node).Pairwise (· < ·) := by
  rw [leavesBelow]
  split
  · exact List.Pairwise.nil
  · exact pairwise_lt_range'

lemma clog_lt_of_addressable (haddr : 32 * xs.length < 2 ^ 63) : Nat.clog 2 xs.length < 64 :=
  Nat.lt_succ_of_le (Nat.clog_le_of_le_pow (by omega))

variable {t : MerkleTree} {nodes : List ℕ}

lemma mem_expandDiffsToLeaves (hmany : t.leafCount < 2 ^ 64) {c : ℕ} (hl : l ≤ t.depth)
    (hshift : l < 64) (hnodes : l = 0 → ∀ node ∈ nodes, node < t.leafCount) :
    c ∈ t.expandDiffsToLeaves l nodes ↔ c < t.leafCount ∧ c / 2 ^ l ∈ nodes := by
  rw [expandDiffsToLeaves]
  split
  · rename_i hzero
    subst hzero
    rw [pow_zero, Nat.div_one]
    exact ⟨fun hc => ⟨hnodes rfl c hc, hc⟩, fun hc => hc.2⟩
  · rw [if_neg (by omega), mem_flatMap]
    constructor
    · rintro ⟨node, hnode, hbelow⟩
      obtain ⟨rfl, hc⟩ := (mem_leavesBelow hmany).mp hbelow
      exact ⟨hc, hnode⟩
    · rintro ⟨hc, hnode⟩
      exact ⟨_, hnode, (mem_leavesBelow hmany).mpr ⟨rfl, hc⟩⟩

lemma pairwise_expandDiffsToLeaves (hmany : t.leafCount < 2 ^ 64)
    (hnodes : nodes.Pairwise (· < ·)) : (t.expandDiffsToLeaves l nodes).Pairwise (· < ·) := by
  rw [expandDiffsToLeaves]
  split
  · exact hnodes
  split
  · exact List.Pairwise.nil
  rw [pairwise_flatMap]
  refine ⟨fun node _ => pairwise_leavesBelow _ _ _, hnodes.imp fun {a b} hab c hc d hd => ?_⟩
  obtain ⟨rfl, -⟩ := (mem_leavesBelow hmany).mp hc
  obtain ⟨rfl, -⟩ := (mem_leavesBelow hmany).mp hd
  by_contra! hge
  have := Nat.div_le_div_right (c := 2 ^ l) hge
  omega

lemma pairwise_diffNodes (ours theirs : List (FixedBytes 32)) :
    (diffNodes ours theirs).Pairwise (· < ·) :=
  pairwise_lt_range.filter _

lemma expandDiffsToLeaves_diffNodes (hlen : xs.length = ys.length)
    (haddr : 32 * xs.length < 2 ^ 63) (hl : l ≤ Nat.clog 2 xs.length) :
    (fromLeaves blake3 xs).expandDiffsToLeaves l
        (diffNodes (HashTree.level (hashPair blake3) l xs)
          (HashTree.level (hashPair blake3) l ys)) =
      (List.range xs.length).filter fun c =>
        decide ((HashTree.level (hashPair blake3) l xs)[c / 2 ^ l]? ≠
          (HashTree.level (hashPair blake3) l ys)[c / 2 ^ l]?) := by
  have hwidth : (HashTree.level (hashPair blake3) l xs).length =
      (HashTree.level (hashPair blake3) l ys).length := by
    rw [length_level, length_level, hlen]
  have hmany : (fromLeaves blake3 xs).leafCount < 2 ^ 64 := by
    rw [leafCount_fromLeaves]
    omega
  have hshift := clog_lt_of_addressable haddr
  have hnodes : l = 0 → ∀ node ∈ diffNodes (HashTree.level (hashPair blake3) l xs)
      (HashTree.level (hashPair blake3) l ys),
        node < (fromLeaves blake3 xs).leafCount := by
    rintro rfl node hnode
    have hrange := mem_range.mp (mem_filter.mp hnode).1
    rw [leafCount_fromLeaves]
    exact hrange.trans_eq (by rw [← hwidth, max_self, HashTree.level])
  refine (pairwise_expandDiffsToLeaves hmany (pairwise_diffNodes _ _)).eq_of_mem_iff
    (pairwise_lt_range.filter _) fun c => ?_
  rw [mem_expandDiffsToLeaves hmany (by rwa [depth_fromLeaves]) (by omega) hnodes,
    leafCount_fromLeaves, mem_filter, mem_range, decide_eq_true_eq]
  refine and_congr_right fun hc => mem_diffNodes ?_
  rw [lt_length_level]
  exact (Nat.div_mul_le_self _ _).trans_lt hc

/-- Two trees over the same number of leaves: how many nodes a level has, what equal nodes
mean, which leaves the differing nodes stand for, and which level is sent. -/
theorem merkle_levels_bind_leaves (hlen : xs.length = ys.length) (haddr : 32 * xs.length < 2 ^ 63)
    (hfree : NoCollision blake3 (pairsHashed blake3 xs) (pairsHashed blake3 ys)) :
    (∀ l ≤ (fromLeaves blake3 xs).depth, ((fromLeaves blake3 xs).level l).length =
        (xs.length + (2 ^ l - 1)) / 2 ^ l ∧
      ((fromLeaves blake3 ys).level l).length =
        (xs.length + (2 ^ l - 1)) / 2 ^ l ∧
      (∀ i < ((fromLeaves blake3 xs).level l).length, ((fromLeaves blake3 xs).level l)[i]? =
            ((fromLeaves blake3 ys).level l)[i]? ↔
          ∀ k, i * 2 ^ l ≤ k → k < min ((i + 1) * 2 ^ l) xs.length → xs[k]? = ys[k]?) ∧
      (fromLeaves blake3 xs).expandDiffsToLeaves l
          (diffNodes ((fromLeaves blake3 xs).level l)
            ((fromLeaves blake3 ys).level l)) =
        (List.range xs.length).filter fun c =>
          decide (((fromLeaves blake3 xs).level l)[c / 2 ^ l]? ≠
            ((fromLeaves blake3 ys).level l)[c / 2 ^ l]?)) ∧
    (2 ≤ xs.length → ∃ l ≤ (fromLeaves blake3 xs).depth, (fromLeaves blake3 xs).strategicLevel =
        (l, ((fromLeaves blake3 xs).level l).length) ∧
      2 ≤ ((fromLeaves blake3 xs).level l).length ∧
      ((fromLeaves blake3 xs).level l).length ≤ 43 ∧
      ∀ m < l, 43 < ((fromLeaves blake3 xs).level m).length) := by
  refine ⟨fun l hl => ?_, fun htwo => ?_⟩
  · rw [depth_fromLeaves] at hl
    have hl' : l ≤ Nat.clog 2 ys.length := by rwa [← hlen]
    rw [level_fromLeaves blake3 xs hl, level_fromLeaves blake3 ys hl']
    refine ⟨length_level _ _ _, by rw [length_level, hlen], fun i _ => ?_,
      expandDiffsToLeaves_diffNodes hlen haddr hl⟩
    rw [getElem?_level_eq_iff (hfree.separates hl hl') hlen, block_eq_iff hlen]
  · obtain ⟨l, hfit, hmany, hlow⟩ := @exists_strategicLevel blake3 xs htwo
    have hpair := strategicLevel_eq_pair blake3 xs hfit hmany hlow
    have hdepth := strategicLevel_le_depth blake3 xs
    rw [hpair] at hdepth
    refine ⟨l, by rwa [depth_fromLeaves], ?_, ?_, ?_, fun m hm => ?_⟩
    · rw [level_fromLeaves blake3 xs hdepth, hpair]
    · rwa [level_fromLeaves blake3 xs hdepth]
    · rwa [level_fromLeaves blake3 xs hdepth]
    · rw [level_fromLeaves blake3 xs (hm.le.trans hdepth)]
      exact hlow m hm

theorem merkle_levels_bind_three_leaves :
    (fromLeaves sampleDigest
      [sampleLeaf 1, sampleLeaf 2, sampleLeaf 3]).expandDiffsToLeaves 1
        (diffNodes ((fromLeaves sampleDigest
            [sampleLeaf 1, sampleLeaf 2, sampleLeaf 3]).level 1)
          ((fromLeaves sampleDigest
            [sampleLeaf 1, sampleLeaf 2, sampleLeaf 4]).level 1)) = [2] := by
  obtain ⟨-, -, -, hexpand⟩ := (@merkle_levels_bind_leaves sampleDigest
    [sampleLeaf 1, sampleLeaf 2, sampleLeaf 3] [sampleLeaf 1, sampleLeaf 2, sampleLeaf 4] rfl
    (by decide) (by decide +kernel)).1 1 (by decide +kernel)
  exact hexpand.trans (by decide +kernel)

end Favonius.Sync
