import Favonius.Lib.Machine
import Favonius.Sync.MerkleLevels

/-!
# A ResumeAck from any peer

The sender's handling of a ResumeAck, written with the operations that can stop the
program: `none` is an access out of range, a shift that is too wide or an
arithmetic overflow.  What the decompression returns is a parameter.
-/

namespace Favonius.Client

open ByteCodec FlagBits Machine Sync List Option MerkleTree

def leavesBelowChecked (t : MerkleTree) (level nodeIdx : ℕ) : Option (List ℕ) :=
  (shl 64 1 level).map fun span =>
    -- `checked_mul`
    match mul 64 nodeIdx span with
    | none => []
    | some startLeaf =>
      let endLeaf := min (saturatingAdd 64 startLeaf span) t.leafCount
      List.range' startLeaf (endLeaf - startLeaf)

def expandDiffsChecked (t : MerkleTree) (level : ℕ) (diffNodes : List ℕ) : Option (List ℕ) :=
  if level = 0 then some diffNodes
  else if t.depth < level ∨ 64 ≤ level then some []
  else (diffNodes.mapM (leavesBelowChecked t level)).map List.flatten

lemma leavesBelowChecked_eq (t : MerkleTree) {level : ℕ} (hlevel : level < 64) (node : ℕ) :
    leavesBelowChecked t level node = some (t.leavesBelow level node) := by
  have hspan : 1 * 2 ^ level < 2 ^ 64 := by
    rw [one_mul]
    exact Nat.pow_lt_pow_right (by norm_num) hlevel
  rw [leavesBelowChecked, shl_of_lt hlevel hspan, map_some, one_mul, mul, leavesBelow]
  congr 1
  by_cases hstart : node * 2 ^ level < 2 ^ 64
  · rw [if_pos hstart, if_neg (by omega)]
    rfl
  · rw [if_neg hstart, if_pos (by omega)]

lemma expandDiffsChecked_eq (t : MerkleTree) (level : ℕ) (nodes : List ℕ) :
    expandDiffsChecked t level nodes = some (t.expandDiffsToLeaves level nodes) := by
  rw [expandDiffsChecked, expandDiffsToLeaves]
  split
  · rfl
  · split
    · rfl
    · rw [mapM_eq_some nodes fun node _ => leavesBelowChecked_eq t (by omega) node, map_some,
        flatMap_def]

def clearBitChecked (bm : Bytes) (li : ℕ) : Option Bytes :=
  if li / 8 < bm.length then
    (shl 8 1 (li % 8)).bind fun bit => (index bm (li / 8)).bind fun b =>
      setAt bm (li / 8) (b &&& ~~~UInt8.ofNat bit)
  else some bm

def fullBitmapChecked (totalChunks : ℕ) : Option Bytes :=
  (add 64 totalChunks 7).bind fun rounded =>
    let bitmapBytes := rounded / 8
    let bm := List.replicate bitmapBytes 0xFF
    let trailing := totalChunks % 8
    if trailing ≠ 0 then
      (sub bitmapBytes 1).bind fun last => (shl 8 1 trailing).bind fun bit =>
        (sub bit 1).bind fun mask => setAt bm last (UInt8.ofNat mask)
    else some bm

lemma one_shl_of_lt {k : ℕ} (hk : k < 8) : shl 8 1 k = some (2 ^ k) := by
  have hpow : 1 * 2 ^ k < 2 ^ 8 := by
    rw [one_mul]
    exact Nat.pow_lt_pow_right (by norm_num) hk
  rw [shl_of_lt hk hpow, one_mul]

lemma ofNat_two_pow {k : ℕ} (hk : k < 8) : UInt8.ofNat (2 ^ k) = 1 <<< UInt8.ofNat k := by
  apply UInt8.toNat_inj.mp
  rw [toNat_one_shiftLeft hk, UInt8.toNat_ofNat']
  exact Nat.mod_eq_of_lt (Nat.pow_lt_pow_right (by norm_num) hk)

lemma clearBitChecked_eq (bm : Bytes) (li : ℕ) : clearBitChecked bm li = some (clearBit bm li) := by
  have hbit : li % 8 < 8 := Nat.mod_lt _ (by norm_num)
  rw [clearBitChecked, clearBit]
  split
  · rename_i hlt
    rw [one_shl_of_lt hbit, bind_some, index, getElem?_eq_getElem hlt,
      bind_some, setAt_of_lt hlt, ofNat_two_pow hbit, modify_eq_set_getElem?,
      getElem?_eq_getElem hlt]
    rfl
  · rename_i hge
    rw [modify_eq_set_getElem?, getElem?_eq_none (Nat.not_lt.mp hge)]
    rfl

lemma fullBitmapChecked_eq {totalChunks : ℕ} (htotal : totalChunks + 7 < 2 ^ 64) :
    fullBitmapChecked totalChunks = some (fullBitmap totalChunks) := by
  rw [fullBitmapChecked, add_of_lt htotal, bind_some, fullBitmap]
  dsimp only
  split
  · have hbit : totalChunks % 8 < 8 := Nat.mod_lt _ (by norm_num)
    have hmask : UInt8.ofNat (2 ^ (totalChunks % 8) - 1) =
        (1 <<< UInt8.ofNat (totalChunks % 8)) - 1 := by
      have hall : ∀ k : Fin 8, UInt8.ofNat (2 ^ k.1 - 1) = (1 <<< UInt8.ofNat k.1) - 1 := by decide
      exact hall ⟨_, hbit⟩
    rw [sub_of_le (by omega), bind_some, one_shl_of_lt hbit, bind_some,
      sub_of_le Nat.one_le_two_pow, bind_some, setAt_of_lt, hmask]
    rw [length_replicate]
    omega
  · rfl

/-- The comparison with the hashes of one level; the inner `none` means too few bytes. -/
def levelDiffChecked (t : MerkleTree) (totalChunks : ℕ) (decompressed : Bytes) :
    Option (Option Bytes) :=
  if 5 ≤ decompressed.length then
    (index decompressed 0).bind fun level =>
    ([1, 2, 3, 4].mapM (index decompressed)).bind fun _daemonLeafCount =>
    (range decompressed 5 decompressed.length).bind fun hashData =>
    let daemonHashes := hashesOf hashData
    (expandDiffsChecked t level.toNat
      (diffNodes (t.level level.toNat) daemonHashes)).bind fun diffLeaves =>
    (sub totalChunks diffLeaves.length).bind fun _matchingCount =>
    (fullBitmapChecked totalChunks).bind fun bm =>
    (diffLeaves.foldlM clearBitChecked bm).map some
  else some none

/-- `decoded` is what the decompression of the data returns. -/
def onResumeAckChecked (decoded : Option Bytes) (tree : Option MerkleTree) (totalChunks : ℕ)
    (payload : Bytes) : Option (Option Bytes × Bool) :=
  if 1 < payload.length then
    (index payload 0).bind fun kind => (range payload 1 payload.length).bind fun data =>
      if kind = 0x01 then some (some (decoded.getD data), false)
      else if kind = 0x02 then
        let diff := match tree with
          | none => some none
          | some t => levelDiffChecked t totalChunks (decoded.getD data)
        diff.map fun bm => (some (bm.getD (List.replicate ((totalChunks + 7) / 8) 0)), true)
      else some (none, false)
  else some (none, false)

def agreeing (ours theirs : List (FixedBytes 32)) : ℕ :=
  (ours.zip theirs).countP fun p => decide (p.1 = p.2)

/-- Hashes of level 0 that are so many more than our leaves that those which differ are more
than there are chunks. -/
def SurplusLeaves (t : MerkleTree) (decompressed : Bytes) : Prop :=
  5 ≤ decompressed.length ∧ decompressed[0]? = some 0 ∧
    t.leafCount + agreeing (t.level 0) (hashesOf (decompressed.drop 5)) <
      (hashesOf (decompressed.drop 5)).length

lemma length_level_zero (t : MerkleTree) : (t.level 0).length = t.leafCount := by
  rw [level, leafCount, head?_eq_getElem?, getD_eq_getElem?_getD]
  cases t.levels[0]? <;> rfl

lemma length_diffNodes_cons (a b : FixedBytes 32) (ours theirs : List (FixedBytes 32)) :
    (diffNodes (a :: ours) (b :: theirs)).length =
      (if a = b then 0 else 1) + (diffNodes ours theirs).length := by
  have hmax : max (a :: ours).length (b :: theirs).length =
      max ours.length theirs.length + 1 := by
    simp only [length_cons]
    omega
  rw [diffNodes, diffNodes, hmax, range_succ_eq_map, filter_cons]
  simp only [getElem?_cons_zero, ne_eq, some_inj, decide_not, Bool.not_eq_true',
    decide_eq_false_iff_not, List.filter_map, Function.comp_def, getElem?_cons_succ]
  by_cases hab : a = b
  · simp [hab]
  · simp [hab, Nat.add_comm]

lemma length_diffNodes_add_agreeing (ours theirs : List (FixedBytes 32)) :
    (diffNodes ours theirs).length + agreeing ours theirs = max ours.length theirs.length := by
  induction ours generalizing theirs with
  | nil =>
    have hall : diffNodes [] theirs = List.range theirs.length := by
      rw [diffNodes, length_nil, Nat.zero_max, filter_eq_self]
      intro i hi
      simpa using mem_range.mp hi
    simp [hall, agreeing]
  | cons a ours ih =>
    cases theirs with
    | nil =>
      have hall : diffNodes (a :: ours) [] = List.range (a :: ours).length := by
        rw [diffNodes, length_nil, Nat.max_zero, filter_eq_self]
        intro i hi
        simpa using mem_range.mp hi
      simp [hall, agreeing]
    | cons b theirs =>
      have hagree : agreeing (a :: ours) (b :: theirs) =
          agreeing ours theirs + if a = b then 1 else 0 := by
        rw [agreeing, zip_cons_cons, countP_cons]
        simp [agreeing]
      have hrest := ih theirs
      rw [length_diffNodes_cons, hagree]
      simp only [length_cons]
      split <;> omega

lemma length_expandDiffsToLeaves_le {t : MerkleTree} (hmany : t.leafCount < 2 ^ 64) {l : ℕ}
    (hl : l ≠ 0) {nodes : List ℕ} (hnodes : nodes.Pairwise (· < ·)) :
    (t.expandDiffsToLeaves l nodes).length ≤ t.leafCount := by
  have hsorted := pairwise_expandDiffsToLeaves (l := l) hmany hnodes
  have hlt : ∀ c ∈ t.expandDiffsToLeaves l nodes, c < t.leafCount := by
    intro c hc
    rw [expandDiffsToLeaves, if_neg hl] at hc
    split at hc
    · exact absurd hc not_mem_nil
    · obtain ⟨node, -, hbelow⟩ := mem_flatMap.mp hc
      exact ((mem_leavesBelow hmany).mp hbelow).2
  have hnodup : (t.expandDiffsToLeaves l nodes).Nodup := hsorted.imp fun h => Nat.ne_of_lt h
  have hsub : (t.expandDiffsToLeaves l nodes) ⊆ List.range t.leafCount :=
    fun c hc => mem_range.mpr (hlt c hc)
  have hle := (hnodup.subperm hsub).length_le
  rwa [length_range] at hle

lemma length_foldl_clearBit (bm : Bytes) (is : List ℕ) :
    (is.foldl clearBit bm).length = bm.length := by
  induction is generalizing bm with
  | nil => rfl
  | cons i is ih => rw [foldl_cons, ih, clearBit, length_modify]

/-- One bit for each chunk and none beyond. -/
def BitmapFits (totalChunks : ℕ) (bm : Bytes) : Prop :=
  bm.length = (totalChunks + 7) / 8 ∧ ∀ i, totalChunks ≤ i → bitSet bm i = false

lemma bitmapFits_diffBitmap (t : MerkleTree) (totalChunks l : ℕ) (theirs : List (FixedBytes 32)) :
    BitmapFits totalChunks (diffBitmap t totalChunks l theirs) := by
  refine ⟨?_, fun i hi => ?_⟩
  · rw [diffBitmap, length_foldl_clearBit, fullBitmap]
    split <;> simp
  · rw [diffBitmap, bitSet_foldl_clearBit, bitSet_fullBitmap, decide_eq_false (by omega),
      Bool.false_and]

lemma bitmapFits_replicate (totalChunks : ℕ) :
    BitmapFits totalChunks (List.replicate ((totalChunks + 7) / 8) 0) :=
  ⟨length_replicate, fun i _ => bitSet_replicate _ i⟩

section Handler

variable {t : MerkleTree} {totalChunks : ℕ} (htotal : t.leafCount = totalChunks)
  (haddr : 32 * totalChunks < 2 ^ 63)
include htotal haddr

/-- More differing leaves than chunks come from level 0 only, where the nodes are not cut to
the leaves of the tree. -/
theorem lt_length_expandDiffs_iff (l : ℕ) (theirs : List (FixedBytes 32)) :
    totalChunks < (t.expandDiffsToLeaves l (diffNodes (t.level l) theirs)).length ↔
      l = 0 ∧ t.leafCount + agreeing (t.level 0) theirs < theirs.length := by
  by_cases hl : l = 0
  · subst hl
    have hcount := length_diffNodes_add_agreeing (t.level 0) theirs
    have hzero := length_level_zero t
    rw [expandDiffsToLeaves, if_pos rfl]
    omega
  · have hle := length_expandDiffsToLeaves_le (by omega : t.leafCount < 2 ^ 64) hl
      (pairwise_diffNodes (t.level l) theirs)
    omega

lemma levelDiffChecked_eq {d : Bytes} {level : UInt8} (hlen : 5 ≤ d.length)
    (hlevel : d[0]? = some level) :
    levelDiffChecked t totalChunks d =
      (sub totalChunks (t.expandDiffsToLeaves level.toNat (diffNodes (t.level level.toNat)
        (hashesOf (d.drop 5)))).length).map fun _ =>
          some (diffBitmap t totalChunks level.toNat (hashesOf (d.drop 5))) := by
  have hcount : [1, 2, 3, 4].mapM (index d) = some ([1, 2, 3, 4].map fun i => d.getD i 0) := by
    refine mapM_eq_some _ fun i hi => index_of_lt ?_ 0
    simp only [mem_cons, not_mem_nil, or_false] at hi
    omega
  have hdata : range d 5 d.length = some (d.drop 5) := by
    rw [range_of_le hlen le_rfl, slice, take_of_length_le (by rw [length_drop])]
  rw [levelDiffChecked, if_pos hlen, index, hlevel, bind_some, hcount, bind_some, hdata, bind_some]
  dsimp only
  rw [expandDiffsChecked_eq, bind_some]
  cases sub totalChunks (t.expandDiffsToLeaves level.toNat
      (diffNodes (t.level level.toNat) (hashesOf (d.drop 5)))).length with
  | none => rfl
  | some matching =>
    have hclear (leaves : List ℕ) (bm : Bytes) :
        leaves.foldlM clearBitChecked bm = some (leaves.foldl clearBit bm) :=
      foldlM_eq_some (I := fun _ _ => True)
        (fun bm li _ _ => ⟨clearBitChecked_eq bm li, trivial⟩) leaves bm trivial
    rw [bind_some, fullBitmapChecked_eq (by omega), bind_some, hclear]
    rfl

lemma levelDiffChecked_eq_none_iff (d : Bytes) :
    levelDiffChecked t totalChunks d = none ↔ SurplusLeaves t d := by
  by_cases hlen : 5 ≤ d.length
  · obtain ⟨level, hlevel⟩ : ∃ level, d[0]? = some level :=
      ⟨_, getElem?_eq_getElem (by omega)⟩
    have hzero : level.toNat = 0 ↔ level = 0 := by
      rw [← UInt8.toNat_inj]
      rfl
    rw [levelDiffChecked_eq htotal haddr hlen hlevel, map_eq_none_iff, sub,
      SurplusLeaves, hlevel, some_inj]
    have hlt := lt_length_expandDiffs_iff htotal haddr level.toNat (hashesOf (d.drop 5))
    rw [hzero] at hlt
    simp only [hlen, true_and, ← hlt, ite_eq_right_iff, reduceCtorEq, imp_false, not_le]
  · rw [levelDiffChecked, if_neg hlen, SurplusLeaves]
    simp [hlen]

lemma bitmapFits_of_levelDiffChecked {d bm : Bytes}
    (h : levelDiffChecked t totalChunks d = some (some bm)) : BitmapFits totalChunks bm := by
  by_cases hlen : 5 ≤ d.length
  · obtain ⟨level, hlevel⟩ : ∃ level, d[0]? = some level :=
      ⟨_, getElem?_eq_getElem (by omega)⟩
    rw [levelDiffChecked_eq htotal haddr hlen hlevel, map_eq_some_iff] at h
    obtain ⟨-, -, heq⟩ := h
    cases heq
    exact bitmapFits_diffBitmap t totalChunks _ _
  · rw [levelDiffChecked, if_neg hlen] at h
    cases h

omit htotal haddr in
lemma onResumeAckChecked_cons (decoded : Option Bytes) (kind : UInt8) {data : Bytes}
    (hdata : data ≠ []) :
    onResumeAckChecked decoded (some t) totalChunks (kind :: data) =
      if kind = 0x01 then some (some (decoded.getD data), false)
      else if kind = 0x02 then
        (levelDiffChecked t totalChunks (decoded.getD data)).map fun bm =>
          (some (bm.getD (List.replicate ((totalChunks + 7) / 8) 0)), true)
      else some (none, false) := by
  have hlen : 1 < (kind :: data).length := by
    exact Nat.succ_lt_succ (length_pos_iff.mpr hdata)
  have hrange : range (kind :: data) 1 (kind :: data).length = some data := by
    rw [range_of_le hlen.le le_rfl, slice]
    simp
  rw [onResumeAckChecked, if_pos hlen, hrange]
  rfl

def ResumeAckRobust (decoded : Option Bytes) (t : MerkleTree) (totalChunks : ℕ)
    (payload : Bytes) : Prop :=
  ∃ bitmap report, onResumeAckChecked decoded (some t) totalChunks payload =
      some (bitmap, report) ∧
    (report = true → ∀ bm, bitmap = some bm → BitmapFits totalChunks bm)

/-- Whatever comes in and whatever it decompresses to, the handler stops only on a level 0 with
so many foreign leaves that the count of matching chunks would be negative. -/
theorem resume_ack_robust_iff (decoded : Option Bytes) (payload : Bytes) :
    ResumeAckRobust decoded t totalChunks payload ↔
      ¬(1 < payload.length ∧ payload[0]? = some 0x02 ∧
        SurplusLeaves t (decoded.getD (payload.drop 1))) := by
  rcases payload with - | ⟨kind, data⟩
  · simp [ResumeAckRobust, onResumeAckChecked]
  by_cases hdata : data = []
  · subst hdata
    simp [ResumeAckRobust, onResumeAckChecked]
  have hlen : 1 < (kind :: data).length := by
    rw [length_cons]
    exact Nat.succ_lt_succ (length_pos_iff.mpr hdata)
  rw [ResumeAckRobust, onResumeAckChecked_cons decoded kind hdata, getElem?_cons_zero,
    some_inj, drop_one, tail_cons]
  by_cases hone : kind = 0x01
  · subst hone
    simp
  by_cases htwo : kind = 0x02
  · subst htwo
    rw [if_neg hone, if_pos rfl, ← levelDiffChecked_eq_none_iff htotal haddr]
    constructor
    · rintro ⟨bitmap, report, heq, -⟩ ⟨-, -, hnone⟩
      rw [hnone] at heq
      cases heq
    · intro h
      obtain ⟨diff, hdiff⟩ := ne_none_iff_exists'.mp fun hnone => h ⟨hlen, rfl, hnone⟩
      refine ⟨_, _, by rw [hdiff]; rfl, fun _ bm hbm => ?_⟩
      obtain rfl := some.inj hbm
      cases diff with
      | none => exact bitmapFits_replicate totalChunks
      | some bm => exact bitmapFits_of_levelDiffChecked htotal haddr hdiff
  · rw [if_neg hone, if_neg htwo]
    simp [htwo]

end Handler

lemma exists_five_of_le_length {l : Bytes} (h : 5 ≤ l.length) :
    ∃ a b c d e rest, l = a :: b :: c :: d :: e :: rest := by
  rcases l with - | ⟨a, - | ⟨b, - | ⟨c, - | ⟨d, - | ⟨e, rest⟩⟩⟩⟩⟩
  all_goals simp at h ⊢

/-- Where the checked handler does not stop, the plain one returns the same. -/
theorem onResumeAck_of_checked {t : MerkleTree} {totalChunks : ℕ}
    (htotal : t.leafCount = totalChunks) (haddr : 32 * totalChunks < 2 ^ 63) (z : Zstd)
    {payload : Bytes} {r : Option Bytes × Bool}
    (h : onResumeAckChecked (z.decodeAll (payload.drop 1)) (some t) totalChunks payload = some r) :
    onResumeAck z (some t) totalChunks payload = r := by
  rcases payload with - | ⟨kind, data⟩
  · simpa [onResumeAckChecked, onResumeAck] using h
  by_cases hdata : data = []
  · subst hdata
    simpa [onResumeAckChecked, onResumeAck] using h
  rw [onResumeAckChecked_cons _ kind hdata, drop_one, tail_cons, ← Zstd.unpack] at h
  rw [onResumeAck, if_neg (by simpa using hdata)]
  split at h
  · rename_i hone
    rw [if_pos hone]
    exact some.inj h
  rename_i hone
  rw [if_neg hone]
  split at h
  · rename_i htwo
    rw [if_pos htwo]
    obtain ⟨diff, hdiff, rfl⟩ := map_eq_some_iff.mp h
    split
    · rename_i level a b c e hashData hunpack
      rw [hunpack, levelDiffChecked_eq htotal haddr (by simp) rfl] at hdiff
      obtain ⟨-, -, rfl⟩ := map_eq_some_iff.mp hdiff
      rfl
    · rename_i hshort
      have hlen : ¬5 ≤ (z.unpack data).length := by
        intro hlong
        obtain ⟨level, a, b, c, e, hashData, hunpack⟩ := exists_five_of_le_length hlong
        exact hshort level a b c e hashData hunpack
      rw [levelDiffChecked, if_neg hlen] at hdiff
      cases hdiff
      rfl
  · rename_i htwo
    rw [if_neg htwo]
    exact some.inj h

theorem resume_ack_robust_two_chunks :
    ResumeAckRobust none (fromLeaves sampleDigest [sampleLeaf 1, sampleLeaf 2]) 2
      (0x02 :: 0 :: leBytes 4 2 ++ (sampleLeaf 1).1 ++ (sampleLeaf 2).1) := by
  refine (resume_ack_robust_iff rfl (by decide) none _).mpr ?_
  rintro ⟨-, -, -, -, hmany⟩
  revert hmany
  decide +kernel

/-- One chunk, and two foreign hashes of level 0: one chunk less two leaves. -/
theorem surplus_leaves_underflow :
    (fromLeaves sampleDigest [sampleLeaf 1]).leafCount = 1 ∧
      ¬ResumeAckRobust none (fromLeaves sampleDigest [sampleLeaf 1]) 1
        (0x02 :: 0 :: leBytes 4 2 ++ (sampleLeaf 2).1 ++ (sampleLeaf 3).1) := by
  have hstop : onResumeAckChecked none
      (some (fromLeaves sampleDigest [sampleLeaf 1])) 1
        (0x02 :: 0 :: leBytes 4 2 ++ (sampleLeaf 2).1 ++ (sampleLeaf 3).1) = none := by
    decide +kernel
  refine ⟨rfl, ?_⟩
  rintro ⟨bitmap, report, heq, -⟩
  rw [hstop] at heq
  cases heq

end Favonius.Client
