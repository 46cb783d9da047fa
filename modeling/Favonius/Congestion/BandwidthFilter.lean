import Favonius.Congestion.RttEstimator
import Favonius.Lib.MonotoneWindow

/-!
# The bandwidth filter

The largest bandwidth within a number of RTTs.  The estimator discards a sample as soon as a later
one reaches it; the reference keeps all of them until they are older than the window.
-/

namespace Favonius.Congestion

open Execution MonotoneWindow List Duration

structure BandwidthEstimator where
  maxBandwidth : ℕ
  currentBandwidth : ℕ
  samples : List (ℕ × ℕ)
  windowCount : ℕ
  rttEstimate : ℕ

/-- The count is cut to 32 bits. -/
def windowLength (windowCount rttEstimate : ℕ) : Option ℕ :=
  mul rttEstimate (windowCount % 2 ^ 32)

def inWindow (now window : ℕ) (sample : ℕ × ℕ) : Bool :=
  match checkedSub now window with
  | some cutoff => decide (cutoff ≤ sample.1)
  | none => true

namespace BandwidthEstimator

def new (windowCount : ℕ) : BandwidthEstimator := ⟨0, 0, [], windowCount, millis 100⟩

variable (b : BandwidthEstimator)

def windowDuration : Option ℕ := windowLength b.windowCount b.rttEstimate

def expireOld (now : ℕ) : Option BandwidthEstimator :=
  b.windowDuration.map fun window =>
    let samples :=
      match checkedSub now window with
      | some cutoff => b.samples.dropWhile fun sample => decide (sample.1 < cutoff)
      | none => b.samples
    { b with
      samples := samples
      maxBandwidth := (samples.head?.map Prod.snd).getD 0 }

def addSample (bandwidth now : ℕ) : Option BandwidthEstimator :=
  let kept := b.samples.rdropWhile fun sample => decide (sample.2 ≤ bandwidth)
  { b with
    currentBandwidth := bandwidth
    samples := kept ++ [(now, bandwidth)] : BandwidthEstimator }.expireOld now

def updateRtt (rtt : ℕ) : BandwidthEstimator := if rtt ≠ 0 then { b with rttEstimate := rtt } else b

def windowedMaxBandwidth (now : ℕ) : Option ℕ :=
  b.windowDuration.map fun window =>
    ((b.samples.find? (inWindow now window)).map Prod.snd).getD 0

end BandwidthEstimator

inductive BandwidthEvent where
  | sample (bandwidth now : ℕ)
  | rtt (rtt : ℕ)
  deriving DecidableEq

namespace BandwidthEvent

def time : BandwidthEvent → Option ℕ
  | sample _ now => some now
  | rtt _ => none

end BandwidthEvent

def BandwidthEstimator.step (b : BandwidthEstimator) : BandwidthEvent → Option BandwidthEstimator
  | .sample bandwidth now => b.addSample bandwidth now
  | .rtt rtt => some (b.updateRtt rtt)

/-- Every sample that was not older than the window at an addition since. -/
structure BandwidthReference where
  samples : List (ℕ × ℕ)
  windowCount : ℕ
  rtt : ℕ

namespace BandwidthReference

def new (windowCount : ℕ) : BandwidthReference := ⟨[], windowCount, millis 100⟩

def step (r : BandwidthReference) : BandwidthEvent → Option BandwidthReference
  | .sample bandwidth now => (windowLength r.windowCount r.rtt).map fun window =>
      { r with samples := (r.samples ++ [(now, bandwidth)]).filter (inWindow now window) }
  | .rtt rtt => some (if rtt ≠ 0 then { r with rtt := rtt } else r)

end BandwidthReference

/-- The estimator holds the samples of the reference that no later one reaches. -/
structure Filters (r : BandwidthReference) (b : BandwidthEstimator) : Prop where
  windowCount : b.windowCount = r.windowCount
  rtt : b.rttEstimate = r.rtt
  inOrder : InOrder r.samples
  samples : b.samples = leaders r.samples
  maxBandwidth : b.maxBandwidth = maximum r.samples

namespace Filters

variable {r r' : BandwidthReference} {b b' : BandwidthEstimator}

lemma new (windowCount : ℕ) :
    Filters (BandwidthReference.new windowCount) (BandwidthEstimator.new windowCount) :=
  ⟨rfl, rfl, List.Pairwise.nil, rfl, rfl⟩

lemma windowDuration (h : Filters r b) :
    b.windowDuration = windowLength r.windowCount r.rtt := by
  rw [BandwidthEstimator.windowDuration, h.windowCount, h.rtt]

lemma dropOld (xs : List (ℕ × ℕ)) (hxs : InOrder xs) (now window : ℕ) :
    (match checkedSub now window with
      | some cutoff => (leaders xs).dropWhile fun sample => decide (sample.1 < cutoff)
      | none => leaders xs) = leaders (xs.filter (inWindow now window)) := by
  unfold inWindow
  cases checkedSub now window with
  | none => rw [filter_eq_self.mpr fun _ _ => rfl]
  | some cutoff => exact dropWhile_leaders hxs cutoff

lemma sample (h : Filters r b) {bandwidth now : ℕ} (hlate : ∀ x ∈ r.samples, x.1 ≤ now)
    (hb : b.addSample bandwidth now = some b') :
    ∃ r', r.step (.sample bandwidth now) = some r' ∧ Filters r' b' := by
  obtain ⟨window, hwindow, rfl⟩ := Option.map_eq_some_iff.mp hb
  have hlength : windowLength r.windowCount r.rtt = some window := h.windowDuration ▸ hwindow
  have hall : InOrder (r.samples ++ [(now, bandwidth)]) := by
    refine pairwise_append.mpr ⟨h.inOrder, pairwise_singleton _ _, ?_⟩
    intro x hx y hy
    rw [mem_singleton.mp hy]
    exact hlate x hx
  have hpushed : b.samples.rdropWhile (fun sample => decide (sample.2 ≤ bandwidth)) ++
      [(now, bandwidth)] = leaders (r.samples ++ [(now, bandwidth)]) := by
    rw [h.samples, leaders_concat]
  have hstep : r.step (.sample bandwidth now) = some { r with
      samples := (r.samples ++ [(now, bandwidth)]).filter (inWindow now window) } := by
    rw [BandwidthReference.step, hlength]
    rfl
  refine ⟨_, hstep, h.windowCount, h.rtt, hall.sublist filter_sublist, ?_, ?_⟩
  · dsimp only
    rw [hpushed, dropOld _ hall]
  · dsimp only
    rw [hpushed, dropOld _ hall, maximum_eq_head]
    rfl

lemma updateRtt (h : Filters r b) (rtt : ℕ) :
    ∃ r', r.step (.rtt rtt) = some r' ∧ Filters r' (b.updateRtt rtt) := by
  refine ⟨_, rfl, ?_⟩
  unfold BandwidthEstimator.updateRtt
  split
  · exact ⟨h.windowCount, rfl, h.inOrder, h.samples, h.maxBandwidth⟩
  · exact h

lemma windowedMaxBandwidth (h : Filters r b) (now : ℕ) :
    b.windowedMaxBandwidth now = (windowLength r.windowCount r.rtt).map fun window =>
      maximum (r.samples.filter (inWindow now window)) := by
  rw [BandwidthEstimator.windowedMaxBandwidth, h.windowDuration, h.samples]
  congr 1
  funext window
  have hfilter : (leaders r.samples).filter (inWindow now window) =
      leaders (r.samples.filter (inWindow now window)) := by
    unfold inWindow
    cases checkedSub now window with
    | none => rw [filter_eq_self.mpr fun _ _ => rfl, filter_eq_self.mpr fun _ _ => rfl]
    | some cutoff => exact filter_leaders h.inOrder cutoff
  rw [maximum_eq_head, ← head?_filter, hfilter]
  rfl

lemma step (h : Filters r b) {e : BandwidthEvent}
    (hlate : ∀ x ∈ r.samples, ∀ now ∈ e.time, x.1 ≤ now) (hb : b.step e = some b') :
    ∃ r', r.step e = some r' ∧ Filters r' b' := by
  cases e with
  | sample bandwidth now => exact h.sample (fun x hx => hlate x hx now rfl) hb
  | rtt rtt =>
    cases hb
    exact h.updateRtt rtt

end Filters

lemma BandwidthReference.mem_samples_step {r r' : BandwidthReference} {e : BandwidthEvent}
    (h : r.step e = some r') {x : ℕ × ℕ} (hx : x ∈ r'.samples) :
    x ∈ r.samples ∨ e.time = some x.1 := by
  cases e with
  | sample bandwidth now =>
    obtain ⟨window, -, rfl⟩ := Option.map_eq_some_iff.mp h
    have hmem := mem_of_mem_filter hx
    rw [mem_append, mem_singleton] at hmem
    rcases hmem with hmem | rfl
    · exact .inl hmem
    · exact .inr rfl
  | rtt rtt =>
    cases h
    split at hx <;> exact .inl hx

lemma filters_exec {windowCount : ℕ} {es : List BandwidthEvent}
    (hordered : (es.filterMap BandwidthEvent.time).Pairwise (· ≤ ·)) {b : BandwidthEstimator}
    (hrun : exec BandwidthEstimator.step (.new windowCount) es = some b) :
    ∃ r, exec BandwidthReference.step (.new windowCount) es = some r ∧ Filters r b ∧
      ∀ x ∈ r.samples, x.1 ∈ es.filterMap BandwidthEvent.time := by
  induction es using reverseRecOn generalizing b with
  | nil =>
    cases hrun
    exact ⟨_, rfl, Filters.new windowCount, nofun⟩
  | append_singleton es e ih =>
    obtain ⟨before, hbefore, hlast⟩ := exec_concat_eq_some.mp hrun
    rw [filterMap_append, pairwise_append] at hordered
    obtain ⟨hes, -, hlater⟩ := hordered
    obtain ⟨r, hr, hfilters, htimes⟩ := ih hes hbefore
    have hlate : ∀ x ∈ r.samples, ∀ now ∈ e.time, x.1 ≤ now := by
      intro x hx now hnow
      exact hlater x.1 (htimes x hx) now (mem_filterMap.mpr ⟨e, by simp, hnow⟩)
    obtain ⟨r', hr', hfilters'⟩ := hfilters.step hlate hlast
    refine ⟨r', exec_concat_eq_some.mpr ⟨r, hr, hr'⟩, hfilters', ?_⟩
    intro x hx
    rw [filterMap_append, mem_append]
    rcases BandwidthReference.mem_samples_step hr' hx with hold | hnew
    · exact .inl (htimes x hold)
    · exact .inr (mem_filterMap.mpr ⟨e, by simp, hnew⟩)

/-- Nothing is lost by discarding a sample that a later one reaches, however the window changes. -/
theorem bandwidth_filter_exact {windowCount : ℕ} {es : List BandwidthEvent}
    (hordered : (es.filterMap BandwidthEvent.time).Pairwise (· ≤ ·)) {b : BandwidthEstimator}
    (hrun : exec BandwidthEstimator.step (.new windowCount) es = some b) :
    ∃ r, exec BandwidthReference.step (.new windowCount) es = some r ∧
      b.samples.Pairwise (fun x y => x.1 ≤ y.1 ∧ y.2 < x.2) ∧
      b.maxBandwidth = maximum r.samples ∧
      ∀ now, b.windowedMaxBandwidth now = (windowLength r.windowCount r.rtt).map fun window =>
        maximum (r.samples.filter (inWindow now window)) := by
  obtain ⟨r, hr, hfilters, -⟩ := filters_exec hordered hrun
  refine ⟨r, hr, ?_, hfilters.maxBandwidth, hfilters.windowedMaxBandwidth⟩
  rw [hfilters.samples]
  exact (inOrder_leaders hfilters.inOrder).and (decreasing_leaders r.samples)

theorem bandwidth_filter_exact_three :
    let es := [BandwidthEvent.sample 900 0, .sample 500 20000000, .rtt 10000000,
      .sample 600 30000000]
    ∃ b, exec BandwidthEstimator.step (.new 2) es = some b ∧
      b.samples = [(30000000, 600)] ∧ b.maxBandwidth = 600 ∧
      ∃ r, exec BandwidthReference.step (.new 2) es = some r ∧
        r.samples = [(20000000, 500), (30000000, 600)] ∧
        b.maxBandwidth = maximum r.samples := by
  intro es
  refine ⟨_, rfl, rfl, rfl, ?_⟩
  obtain ⟨r, hr, -, hmax, -⟩ := @bandwidth_filter_exact 2 es (by decide) _ rfl
  refine ⟨r, hr, ?_, hmax⟩
  cases hr
  rfl

end Favonius.Congestion
