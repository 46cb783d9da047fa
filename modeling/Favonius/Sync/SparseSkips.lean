import Favonius.Daemon.ManifestIntake
import Favonius.Sync.ZeroRuns

/-!
# Holes that are not sent

The sender lists the chunks inside the holes of its file, the daemon zeroes their bytes and
marks them received.  Both ends compute with chunks, holes and mappings with bytes.
-/

namespace Favonius.Sync

open ByteCodec Machine Runs ZeroRuns Daemon Transfer List Checked

lemma mem_zeroRunChunks {runs : List (ℕ × ℕ)} {c : ℕ} :
    c ∈ zeroRunChunks runs ↔ Covers runs c := by
  simp [zeroRunChunks, Covers, mem_range'_1]

lemma length_zeroRunChunks (runs : List (ℕ × ℕ)) :
    (zeroRunChunks runs).length = (runs.map Prod.snd).sum := by
  rw [zeroRunChunks, length_flatMap]
  congr 1
  apply map_congr_left
  intro r _
  exact length_range'

section Ranges

variable {fileSize payloadSize : ℕ} {runs : List (ℕ × ℕ)}

lemma divCeil_le_self (hpos : 0 < payloadSize) (a : ℕ) : divCeil a payloadSize ≤ a :=
  (divCeil_le_iff hpos).mpr (Nat.le_mul_of_pos_right a hpos)

lemma byteRange_of_fits (hpos : 0 < payloadSize) (hfile : fileSize < 2 ^ 64) {r : ℕ × ℕ}
    (hr : 0 < r.2) (hfits : r.1 + r.2 ≤ divCeil fileSize payloadSize) :
    byteRange fileSize payloadSize r =
      some (r.1 * payloadSize, min ((r.1 + r.2) * payloadSize) fileSize - r.1 * payloadSize) := by
  have hstart : r.1 * payloadSize < fileSize := (lt_divCeil_iff hpos).mp (by omega)
  have hend : r.1 + r.2 < 2 ^ 64 := (hfits.trans (divCeil_le_self hpos fileSize)).trans_lt hfile
  have hle : r.1 * payloadSize ≤ (r.1 + r.2) * payloadSize :=
    Nat.mul_le_mul_right _ (Nat.le_add_right _ _)
  have hadd : saturatingAdd 64 r.1 r.2 = r.1 + r.2 := min_eq_left (by omega)
  have hfirst : min (saturatingMul 64 r.1 payloadSize) fileSize = r.1 * payloadSize := by
    rw [saturatingMul]
    omega
  have hstop : min (saturatingMul 64 (r.1 + r.2) payloadSize) fileSize =
      min ((r.1 + r.2) * payloadSize) fileSize := by
    rw [saturatingMul]
    omega
  rw [byteRange, hadd, hfirst, hstop, sub_of_le (by omega)]
  rfl

lemma exists_byteRanges_of_ascending (hfile : fileSize < 2 ^ 64)
    (h : Ascending (divCeil fileSize payloadSize) runs) :
    ∃ ranges, byteRanges runs fileSize payloadSize = some ranges ∧
      ∀ i, Covers ranges i ↔ i < fileSize ∧ Covers runs (i / payloadSize) := by
  rcases Nat.eq_zero_or_pos payloadSize with rfl | hpos
  · have hnil : runs = [] := by
      apply eq_nil_iff_forall_not_mem.mpr
      intro r hr
      have hr' := h.pos r hr
      have hfits : r.1 + r.2 ≤ 0 := by simpa [divCeil] using h.fits r hr
      omega
    subst hnil
    exact ⟨[], rfl, fun i => by simp [not_covers_nil]⟩
  rw [byteRanges, mapM_eq_some runs
    fun r hr => byteRange_of_fits hpos hfile (h.pos r hr) (h.fits r hr)]
  refine ⟨_, rfl, fun i => ?_⟩
  have hin : ∀ r : ℕ × ℕ, (r.1 * payloadSize ≤ i ∧ i < r.1 * payloadSize +
      (min ((r.1 + r.2) * payloadSize) fileSize - r.1 * payloadSize)) ↔
        i < fileSize ∧ r.1 ≤ i / payloadSize ∧ i / payloadSize < r.1 + r.2 := by
    intro r
    rw [Nat.le_div_iff_mul_le hpos, Nat.div_lt_iff_lt_mul hpos]
    omega
  constructor
  · rintro ⟨range, hrange, hi⟩
    obtain ⟨r, hr, rfl⟩ := List.mem_map.mp (mem_of_mem_filter hrange)
    obtain ⟨hlt, hchunk⟩ := (hin r).mp hi
    exact ⟨hlt, r, hr, hchunk⟩
  · rintro ⟨hlt, r, hr, hchunk⟩
    have hi := (hin r).mpr ⟨hlt, hchunk⟩
    refine ⟨_, mem_filter.mpr ⟨mem_map_of_mem hr, ?_⟩, hi⟩
    simp only [decide_eq_true_eq]
    omega

end Ranges

/-- The bytes in `S` read as zero afterwards, and only they have changed. -/
structure ZeroedOn (S : ℕ → Prop) (old new : Bytes) : Prop where
  length_eq : new.length = old.length
  inside : ∀ i, S i → new[i]? = some 0
  outside : ∀ i, ¬S i → new[i]? = old[i]?

variable {S : ℕ → Prop} {a b : Bytes} {T : ℕ → Prop} {m : FileManifest}

lemma ZeroedOn.trans {c : Bytes} (hab : ZeroedOn S a b) (hbc : ZeroedOn T b c) :
    ZeroedOn (fun i => S i ∨ T i) a c where
  length_eq := hbc.length_eq.trans hab.length_eq
  inside i hi := by
    by_cases hT : T i
    · exact hbc.inside i hT
    · rw [hbc.outside i hT]
      exact hab.inside i (hi.resolve_right hT)
  outside i hi := by
    rw [hbc.outside i fun hT => hi (.inr hT)]
    exact hab.outside i fun hS => hi (.inl hS)

lemma ZeroedOn.congr (h : ZeroedOn S a b) (hST : ∀ i, S i ↔ T i) :
    ZeroedOn T a b where
  length_eq := h.length_eq
  inside i hi := h.inside i ((hST i).mpr hi)
  outside i hi := h.outside i fun hS => hi ((hST i).mp hS)

variable {mmap : Bytes} (punched : ℕ → Bool)

lemma exists_zeroExistingRange (hlen : mmap.length < 2 ^ 64) {r : ℕ × ℕ}
    (hr : r.1 + r.2 ≤ mmap.length) :
    ∃ zeroed, zeroExistingRange punched mmap r = some zeroed ∧
      ZeroedOn (fun i => r.1 ≤ i ∧ i < r.1 + r.2) mmap zeroed := by
  unfold zeroExistingRange
  split
  · refine ⟨_, rfl, length_mapIdx, ?_, ?_⟩
    · intro i hi
      rw [getElem?_mapIdx, getElem?_eq_getElem (by omega), Option.map_some, if_pos hi]
    · intro i hi
      rw [getElem?_mapIdx]
      cases mmap[i]? with
      | none => rfl
      | some b => rw [Option.map_some, if_neg hi]
  · rw [add_of_lt (by omega), Option.bind_some, if_pos hr,
      copyInto_of_le (Nat.le_add_right _ _) hr length_replicate, Nat.add_sub_cancel_left]
    refine ⟨_, rfl, ?_, ?_, ?_⟩
    · simp only [length_append, length_take, length_replicate, length_drop]
      omega
    · intro i hi
      rw [append_assoc, getElem?_append_right (by simp; omega),
        getElem?_append_left (by simp; omega), getElem?_replicate, if_pos (by simp; omega)]
    · intro i hi
      rw [append_assoc]
      by_cases hbefore : i < r.1
      · rw [getElem?_append_left (by simp; omega), getElem?_take_of_lt hbefore]
      rw [getElem?_append_right (by simp; omega),
        getElem?_append_right (by simp; omega), getElem?_drop]
      simp only [length_take, length_replicate]
      congr 1
      omega

lemma exists_zeroExistingRanges_zeroedOn {ranges : List (ℕ × ℕ)} (hlen : mmap.length < 2 ^ 64)
    (hranges : ∀ r ∈ ranges, r.1 + r.2 ≤ mmap.length) :
    ∃ zeroed, zeroExistingRanges punched mmap ranges = some zeroed ∧
      ZeroedOn (Covers ranges) mmap zeroed := by
  induction ranges generalizing mmap with
  | nil =>
    refine ⟨mmap, rfl, rfl, fun i hi => ?_, fun _ _ => rfl⟩
    exact absurd hi (not_covers_nil i)
  | cons r ranges ih =>
    obtain ⟨after, hafter, hzero⟩ :=
      exists_zeroExistingRange punched hlen (hranges r mem_cons_self)
    rw [← hzero.length_eq] at hlen hranges
    obtain ⟨zeroed, hzeroed, hrest⟩ := ih hlen fun q hq => hranges q (mem_cons_of_mem _ hq)
    refine ⟨zeroed, ?_, (hzero.trans hrest).congr fun i => ?_⟩
    · rw [zeroExistingRanges, foldlM_cons, hafter]
      exact hzeroed
    · simp only [Covers, mem_cons, or_and_right, exists_or, exists_eq_left]

lemma ZeroedOn.append (h : ZeroedOn S a b) {rest : Bytes} (hS : ∀ i, S i → i < a.length) :
    ZeroedOn S (a ++ rest) (b ++ rest) where
  length_eq := by rw [length_append, length_append, h.length_eq]
  inside i hi := by
    rw [getElem?_append_left (by rw [h.length_eq]; exact hS i hi)]
    exact h.inside i hi
  outside i hi := by
    rw [getElem?_append, getElem?_append, h.length_eq, h.outside i hi]

/-- The byte is in a chunk of one of the runs. -/
def InRuns (m : FileManifest) (i : ℕ) : Prop :=
  i < m.fileSize ∧ i / m.payloadSize ∈ zeroRunChunks m.zeroRuns

lemma exists_zeroHoles_zeroedOn (env : Surroundings) (hfile : m.fileSize < 2 ^ 64)
    (h : Ascending (divCeil m.fileSize m.payloadSize) m.zeroRuns)
    (hlen : m.fileSize ≤ mmap.length) :
    ∃ after, zeroHoles env m true mmap = some after ∧ ZeroedOn (InRuns m) mmap after := by
  obtain ⟨ranges, hranges, hcovers⟩ := exists_byteRanges_of_ascending hfile h
  have hcovers' : ∀ i, Covers ranges i ↔ InRuns m i := by
    intro i
    rw [hcovers, InRuns, mem_zeroRunChunks]
  have hfits : ∀ r ∈ ranges, r.1 + r.2 ≤ (mmap.take m.fileSize).length := by
    obtain ⟨ranges', hranges', hfits⟩ :=
      exists_byteRanges m.zeroRuns m.fileSize m.payloadSize
    cases hranges.symm.trans hranges'
    rw [length_take, min_eq_left hlen]
    exact hfits
  have hview : (mmap.take m.fileSize).length < 2 ^ 64 := by
    rw [length_take]
    omega
  obtain ⟨zeroed, hzeroed, hon⟩ :=
    exists_zeroExistingRanges_zeroedOn env.punched hview hfits
  have hrange : range mmap 0 m.fileSize = some (mmap.take m.fileSize) :=
    range_of_le (Nat.zero_le _) hlen
  have happend : ZeroedOn (InRuns m) mmap (zeroed ++ mmap.drop m.fileSize) := by
    nth_rewrite 1 [← take_append_drop m.fileSize mmap]
    apply (hon.congr hcovers').append
    intro i hi
    rw [length_take, min_eq_left hlen]
    exact hi.1
  unfold zeroHoles
  split
  · rw [hranges, Option.bind_some, hrange, Option.bind_some, hzeroed]
    exact ⟨_, rfl, happend⟩
  rename_i hempty
  have hnil : m.zeroRuns = [] := by simpa using hempty
  refine ⟨mmap, rfl, rfl, fun i hi => ?_, fun _ _ => rfl⟩
  have hmem := hi.2
  rw [hnil] at hmem
  cases hmem

lemma exists_daemonSkips_received (totalChunks numStreams : ℕ) (bitmap : Option Bytes)
    (runs : List (ℕ × ℕ)) :
    ∃ recv, daemonSkips totalChunks numStreams bitmap runs = some recv ∧
      recv.1.map (fun s => (s.chunkBase, s.chunkCount)) =
        streamRanges totalChunks (max numStreams 1) (max numStreams 1) 0 0 ∧
      ∀ s ∈ recv.1, s.received =
        (List.range s.chunkCount).map fun i => skipped bitmap runs (s.chunkBase + i) := by
  obtain ⟨resumed, zeroMarked, hrecv⟩ := exists_daemonSkips bitmap runs totalChunks numStreams
  refine ⟨_, hrecv, ?_, ?_⟩
  · dsimp only
    rw [buildRecvStreams, map_map, map_map]
    refine (map_congr_left fun r _ => ?_).trans (map_id _)
    obtain ⟨hbase, hcount, -⟩ := resumedDaemon_new bitmap r.1 r.2
    have hrange := daemonMarking.range_foldl_markOwn (zeroRunChunks runs)
      (resumedDaemon bitmap (.new r.1 r.2))
    exact Prod.ext (hrange.1.trans hbase) (hrange.2.trans hcount)
  · intro s hs
    dsimp only at hs
    rw [buildRecvStreams, map_map] at hs
    obtain ⟨r, -, rfl⟩ := List.mem_map.mp hs
    have hstep := inStep_new bitmap runs 0 r.1 r.2
    have hacked := hstep.received.trans hstep.acked
    rw [hstep.base, hstep.count] at hacked
    exact hacked

lemma validateManifest_zeroRuns {runs : List (ℕ × ℕ)} {covered : ℕ}
    (hlen : runs.length ≤ maxZeroRuns)
    (hruns : m.totalChunks = (m.fileSize + m.payloadSize - 1) / m.payloadSize →
      validateZeroRuns m.totalChunks runs 0 0 = .ok covered) (maxFileSize : Option ℕ) :
    validateManifest { m with zeroRuns := runs } maxFileSize =
      validateManifest { m with zeroRuns := [] } maxFileSize := by
  unfold validateManifest
  cases maxFileSize.filter (· < m.fileSize) with
  | some maxSize => rfl
  | none =>
    by_cases hexpected : m.totalChunks = (m.fileSize + m.payloadSize - 1) / m.payloadSize
    · rw [hruns hexpected, if_neg (not_not.mpr hexpected), if_neg (not_not.mpr hexpected),
        if_neg (not_lt.mpr hlen)]
      rfl
    · rw [if_pos hexpected, if_pos hexpected]

structure SparseSkipSound (holes : List (ℕ × ℕ)) (m : FileManifest) : Prop where
  /-- A chunk is in a computed run just if its bytes lie inside one hole. -/
  chunk_iff : ∀ c, c ∈ zeroRunChunks (runsInHoles holes m.fileSize m.payloadSize) ↔
    c < divCeil m.fileSize m.payloadSize ∧
      ∃ h ∈ holes, InHole m.fileSize m.payloadSize h c
  kept_subset : m.zeroRuns ⊆ runsInHoles holes m.fileSize m.payloadSize
  /-- The runs are no reason to reject the manifest. -/
  accepted : ∀ maxFileSize, validateManifest m maxFileSize =
    validateManifest { m with zeroRuns := [] } maxFileSize
  covered : validateZeroRuns (divCeil m.fileSize m.payloadSize) m.zeroRuns 0 0 =
    .ok (zeroRunChunks m.zeroRuns).length
  /-- The byte ranges are the bytes of the run chunks. -/
  ranges : ∃ ranges, byteRanges m.zeroRuns m.fileSize m.payloadSize = some ranges ∧
    ∀ i, Covers ranges i ↔ InRuns m i
  /-- A source that reads as zeros in its holes does so in the run chunks. -/
  source_zero : ∀ source : Bytes, source.length = m.fileSize →
    (∀ h ∈ holes, ∀ i < source.length, h.1 ≤ i → i < h.1 + h.2 → source[i]? = some 0) →
      ∀ i, InRuns m i → source[i]? = some 0
  /-- A resumed destination has zeros there, whatever it held, and is otherwise unchanged. -/
  zeroed : ∀ (env : Surroundings) (mmap : Bytes), m.fileSize ≤ mmap.length →
    ∃ after, zeroHoles env m true mmap = some after ∧ ZeroedOn (InRuns m) mmap after
  /-- The daemon counts the chunks of the runs, and those of the bitmap, as received. -/
  marked : ∀ (numStreams : ℕ) (bitmap : Option Bytes),
    ∃ recv, daemonSkips (divCeil m.fileSize m.payloadSize) numStreams bitmap m.zeroRuns =
        some recv ∧
      recv.1.map (fun s => (s.chunkBase, s.chunkCount)) = streamRanges
        (divCeil m.fileSize m.payloadSize) (max numStreams 1) (max numStreams 1) 0 0 ∧
      ∀ s ∈ recv.1, s.received =
        (List.range s.chunkCount).map fun i => skipped bitmap m.zeroRuns (s.chunkBase + i)

lemma mem_hole_of_inHole {fileSize payloadSize i : ℕ} {hole : ℕ × ℕ} (hpos : 0 < payloadSize)
    (hlt : i < fileSize) (hin : InHole fileSize payloadSize hole (i / payloadSize)) :
    hole.1 ≤ i ∧ i < hole.1 + hole.2 := by
  obtain ⟨hstart, hstop⟩ := hin
  have hlow : i / payloadSize * payloadSize ≤ i := Nat.div_mul_le_self i payloadSize
  have hhigh : i < (i / payloadSize + 1) * payloadSize :=
    (Nat.div_lt_iff_lt_mul hpos).mp (Nat.lt_succ_self _)
  omega

/-- For disjoint holes in ascending order and any budget, the runs that the sender announces are
whole chunks inside holes, pass the daemon's check and stand for just their bytes. -/
theorem sparse_skip_sound {holes : List (ℕ × ℕ)}
    (hholes : holes.Pairwise fun a b => a.1 + a.2 < b.1) {m : FileManifest}
    (hfile : m.fileSize < 2 ^ 64) (budget : ℕ)
    (hkept : m.zeroRuns = fit (runsInHoles holes m.fileSize m.payloadSize) budget) :
    SparseSkipSound holes m := by
  have hfound := found_runsInHoles hfile m.payloadSize hholes
  obtain ⟨hascending, hsubset, hlen⟩ := fit_spec budget hfound.ascending
  rw [← hkept] at hascending hsubset hlen
  have hchunk : ∀ c, c ∈ zeroRunChunks (runsInHoles holes m.fileSize m.payloadSize) ↔
      c < divCeil m.fileSize m.payloadSize ∧
        ∃ h ∈ holes, InHole m.fileSize m.payloadSize h c := by
    intro c
    rw [mem_zeroRunChunks, hfound.covers_iff]
  have hcovered : validateZeroRuns (divCeil m.fileSize m.payloadSize) m.zeroRuns 0 0 =
      .ok (zeroRunChunks m.zeroRuns).length := by
    have htotal : divCeil m.fileSize m.payloadSize < 2 ^ 64 := by
      rcases Nat.eq_zero_or_pos m.payloadSize with hzero | hpos
      · simp [divCeil, hzero]
      · exact (divCeil_le_self hpos _).trans_lt hfile
    rw [validateZeroRuns_of_ascending htotal hascending 0 0 (fun _ _ => Nat.zero_le _),
      length_zeroRunChunks, Nat.zero_add]
  refine ⟨hchunk, hsubset, ?_, hcovered, ?_, ?_, ?_, ?_⟩
  · intro maxFileSize
    have hruns : m.totalChunks = (m.fileSize + m.payloadSize - 1) / m.payloadSize →
        validateZeroRuns m.totalChunks m.zeroRuns 0 0 = .ok (zeroRunChunks m.zeroRuns).length := by
      intro hexpected
      rw [hexpected]
      exact hcovered
    exact validateManifest_zeroRuns hlen hruns maxFileSize
  · obtain ⟨ranges, hranges, hcovers⟩ := exists_byteRanges_of_ascending hfile hascending
    refine ⟨ranges, hranges, fun i => ?_⟩
    rw [hcovers, InRuns, mem_zeroRunChunks]
  · intro source hlength hzero i hi
    obtain ⟨hlt, hmem⟩ := hi
    have hcovers := (mem_zeroRunChunks.mp hmem).mono hsubset
    obtain ⟨hc, h, hh, hin⟩ := (hfound.covers_iff _).mp hcovers
    have hpos : 0 < m.payloadSize := by
      rcases Nat.eq_zero_or_pos m.payloadSize with hzero | hpos
      · simp [divCeil, hzero] at hc
      · exact hpos
    obtain ⟨hstart, hstop⟩ := mem_hole_of_inHole hpos hlt hin
    exact hzero h hh i (by omega) hstart hstop
  · intro env mmap hmmap
    exact exists_zeroHoles_zeroedOn env hfile hascending hmmap
  · intro numStreams bitmap
    exact exists_daemonSkips_received _ numStreams bitmap m.zeroRuns

def sparseHoles : List (ℕ × ℕ) := [(150, 300), (800, 150)]

def sparseManifest (budget : ℕ) : FileManifest where
  fileSize := 950
  payloadSize := 100
  totalChunks := 10
  numStreams := 1
  zeroRuns := fit (runsInHoles sparseHoles 950 100) budget

theorem sparse_skip_sound_two_holes :
    runsInHoles sparseHoles 950 100 = [(2, 2), (8, 2)] ∧
      SparseSkipSound sparseHoles (sparseManifest 16) := by
  refine ⟨by decide, ?_⟩
  exact sparse_skip_sound (by decide) (by decide) 16 rfl

example : fit [(2, 1), (8, 2)] 9 = [(8, 2)] := by decide +kernel

end Favonius.Sync
