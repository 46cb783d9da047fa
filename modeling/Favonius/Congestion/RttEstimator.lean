import Favonius.Lib.Execution

/-!
# The RTT estimator

Durations are whole nanoseconds.  The minimum and the smoothed RTT are updated from a single sample
or from the mean and the minimum of a batch; arithmetic on durations panics beyond their range.
-/

namespace Favonius.Congestion

open Execution List

namespace Duration

def limit : ℕ := 2 ^ 64 * 10 ^ 9

def millis (ms : ℕ) : ℕ := ms * 10 ^ 6

/-- `none` stands for the panic on overflow. -/
def add (a b : ℕ) : Option ℕ := if a + b < limit then some (a + b) else none

def mul (a k : ℕ) : Option ℕ := if a * k < limit then some (a * k) else none

def checkedSub (now d : ℕ) : Option ℕ := if d ≤ now then some (now - d) else none

variable {a : ℕ}

lemma add_eq_some {b c : ℕ} (h : add a b = some c) : c = a + b := by
  rw [add, Option.ite_none_right_eq_some] at h
  exact (Option.some.inj h.2).symm

lemma mul_eq_some {k c : ℕ} (h : mul a k = some c) : c = a * k := by
  rw [mul, Option.ite_none_right_eq_some] at h
  exact (Option.some.inj h.2).symm

lemma add_of_lt {b : ℕ} (h : a + b < limit) : add a b = some (a + b) := if_pos h

lemma mul_of_lt {k : ℕ} (h : a * k < limit) : mul a k = some (a * k) := if_pos h

end Duration

structure RttEstimator where
  smoothedRtt : Option ℕ
  rttVar : ℕ
  minRtt : Option ℕ
  latestRtt : ℕ
  deriving DecidableEq

def lowered (known : Option ℕ) (x : ℕ) : ℕ :=
  match known with
  | some m => min m x
  | none => x

namespace RttEstimator

def new : RttEstimator := ⟨none, 0, none, 0⟩

/-- The first sample is taken as it is; later ones move the mean by an eighth and the deviation by
a quarter of the way. -/
def update (e : RttEstimator) (rtt : ℕ) : Option RttEstimator :=
  let minRtt := some (lowered e.minRtt rtt)
  match e.smoothedRtt with
  | none => some ⟨some rtt, rtt / 2, minRtt, rtt⟩
  | some srtt => do
      let diff := if rtt < srtt then srtt - rtt else rtt - srtt
      let var ← (Duration.mul e.rttVar 3).bind (Duration.add · diff)
      let smoothed ← (Duration.mul srtt 7).bind (Duration.add · rtt)
      return ⟨some (smoothed / 8), var / 4, minRtt, rtt⟩

/-- The mean of a batch moves the smoothed RTT, and its minimum the minimum as well. -/
def updateBatch (e : RttEstimator) (mean least : ℕ) : Option RttEstimator :=
  (e.update mean).map fun e => { e with minRtt := some (lowered e.minRtt least) }

def rtoWithMin (e : RttEstimator) (floor : ℕ) : Option ℕ :=
  match e.smoothedRtt with
  | some srtt => do
      let spread ← Duration.mul (max e.rttVar (Duration.millis 1)) 4
      let rto ← Duration.add srtt spread
      return max rto floor
  | none => some floor

def rto (e : RttEstimator) : Option ℕ :=
  match e.smoothedRtt with
  | some _ => e.rtoWithMin (Duration.millis 200)
  | none => some (Duration.millis 1000)

end RttEstimator

inductive RttUpdate where
  | single (rtt : ℕ)
  | batch (mean least : ℕ)
  deriving DecidableEq

namespace RttUpdate

def given : RttUpdate → List ℕ
  | single rtt => [rtt]
  | batch mean least => [mean, least]

def smoothing : RttUpdate → ℕ
  | single rtt => rtt
  | batch mean _ => mean

end RttUpdate

namespace RttEstimator

def apply (e : RttEstimator) : RttUpdate → Option RttEstimator
  | .single rtt => e.update rtt
  | .batch mean least => e.updateBatch mean least

def movedBy (smoothed : Option ℕ) (rtt : ℕ) : ℕ :=
  match smoothed with
  | none => rtt
  | some srtt => (srtt * 7 + rtt) / 8

variable {e e' : RttEstimator}

lemma update_eq_some {rtt : ℕ} (h : e.update rtt = some e') :
    e'.minRtt = some (lowered e.minRtt rtt) ∧
      e'.smoothedRtt = some (movedBy e.smoothedRtt rtt) := by
  unfold update at h
  cases hsmoothed : e.smoothedRtt with
  | none =>
    rw [hsmoothed] at h
    cases h
    exact ⟨rfl, rfl⟩
  | some srtt =>
    rw [hsmoothed] at h
    obtain ⟨var, -, h⟩ := Option.bind_eq_some_iff.mp h
    obtain ⟨smoothed, hsum, h⟩ := Option.bind_eq_some_iff.mp h
    obtain ⟨seven, hseven, hsum⟩ := Option.bind_eq_some_iff.mp hsum
    cases h
    rw [Duration.add_eq_some hsum, Duration.mul_eq_some hseven]
    exact ⟨rfl, rfl⟩

variable {u : RttUpdate} {xs : List ℕ}

lemma apply_smoothedRtt (h : e.apply u = some e') :
    e'.smoothedRtt = some (movedBy e.smoothedRtt u.smoothing) := by
  cases u with
  | single rtt => exact (update_eq_some h).2
  | batch mean least =>
    obtain ⟨moved, hupdate, rfl⟩ := Option.map_eq_some_iff.mp h
    exact (update_eq_some hupdate).2

lemma min?_concat {x : ℕ} : (xs ++ [x]).min? = some (lowered xs.min? x) := by
  rw [min?_eq_some_iff]
  cases hmin : xs.min? with
  | none =>
    rw [min?_eq_none_iff.mp hmin]
    simp [lowered]
  | some m =>
    obtain ⟨hmem, hle⟩ := min?_eq_some_iff.mp hmin
    simp only [lowered, mem_append, mem_singleton]
    refine ⟨?_, ?_⟩
    · rcases le_total m x with h | h
      · rw [min_eq_left h]
        exact .inl hmem
      · rw [min_eq_right h]
        exact .inr rfl
    · rintro b (hb | rfl)
      · exact (min_le_left m x).trans (hle b hb)
      · exact min_le_right m b

lemma apply_minRtt (hmin : e.minRtt = xs.min?) (h : e.apply u = some e') :
    e'.minRtt = (xs ++ u.given).min? := by
  cases u with
  | single rtt => rw [(update_eq_some h).1, hmin, RttUpdate.given, min?_concat]
  | batch mean least =>
    obtain ⟨moved, hupdate, rfl⟩ := Option.map_eq_some_iff.mp h
    have happend : xs ++ RttUpdate.given (.batch mean least) = (xs ++ [mean]) ++ [least] := by
      simp [RttUpdate.given]
    rw [happend, min?_concat, min?_concat, ← hmin]
    rw [(update_eq_some hupdate).1]

lemma le_rtoWithMin {floor t : ℕ} (h : e.rtoWithMin floor = some t) :
    floor ≤ t ∧ ∀ srtt, e.smoothedRtt = some srtt → srtt + Duration.millis 4 ≤ t := by
  unfold rtoWithMin at h
  cases hsmoothed : e.smoothedRtt with
  | none =>
    rw [hsmoothed] at h
    cases h
    exact ⟨le_rfl, nofun⟩
  | some srtt =>
    rw [hsmoothed] at h
    obtain ⟨spread, hspread, h⟩ := Option.bind_eq_some_iff.mp h
    obtain ⟨rto, hrto, h⟩ := Option.bind_eq_some_iff.mp h
    cases h
    refine ⟨le_max_right _ _, ?_⟩
    rintro _ ⟨⟩
    rw [Duration.add_eq_some hrto, Duration.mul_eq_some hspread]
    have hfour : Duration.millis 4 = Duration.millis 1 * 4 := rfl
    omega

variable {us : List RttUpdate}

section

variable (h : exec apply new us = some e)
include h

lemma minRtt_exec :
    e.minRtt = (us.flatMap RttUpdate.given).min? := by
  induction us using reverseRecOn generalizing e with
  | nil =>
    cases h
    rfl
  | append_singleton us u ih =>
    obtain ⟨before, hbefore, hlast⟩ := exec_concat_eq_some.mp h
    rw [flatMap_append, flatMap_singleton]
    exact apply_minRtt (ih hbefore) hlast

lemma smoothedRtt_exec {lo hi : ℕ}
    (hlo : ∀ u ∈ us, lo ≤ u.smoothing) (hhi : ∀ u ∈ us, u.smoothing ≤ hi) :
    ∀ srtt, e.smoothedRtt = some srtt → lo ≤ srtt ∧ srtt ≤ hi := by
  induction us using reverseRecOn generalizing e with
  | nil =>
    cases h
    exact nofun
  | append_singleton us u ih =>
    obtain ⟨before, hbefore, hlast⟩ := exec_concat_eq_some.mp h
    have hold := ih hbefore (fun v hv => hlo v (mem_append_left _ hv))
      (fun v hv => hhi v (mem_append_left _ hv))
    have hu : u ∈ us ++ [u] := by simp
    rintro srtt hsrtt
    rw [apply_smoothedRtt hlast] at hsrtt
    obtain rfl := Option.some.inj hsrtt
    unfold movedBy
    cases hsmoothed : before.smoothedRtt with
    | none => exact ⟨hlo u hu, hhi u hu⟩
    | some prev =>
      obtain ⟨hprev, hprev'⟩ := hold prev hsmoothed
      have := hlo u hu
      have := hhi u hu
      dsimp only
      omega

lemma smoothedRtt_isSome :
    e.smoothedRtt.isSome = true ↔ us ≠ [] := by
  rcases eq_nil_or_concat' us with rfl | ⟨us, u, rfl⟩
  · cases h
    simp [new]
  · obtain ⟨before, -, hlast⟩ := exec_concat_eq_some.mp h
    rw [apply_smoothedRtt hlast]
    simp

lemma exists_le_smoothedRtt {srtt : ℕ} (hsrtt : e.smoothedRtt = some srtt) :
    (∃ u ∈ us, u.smoothing ≤ srtt) ∧ ∃ u ∈ us, srtt ≤ u.smoothing := by
  have hsum : ∀ u ∈ us, u.smoothing ≤ (us.map RttUpdate.smoothing).sum := fun u hu =>
    single_le_sum (fun _ _ => Nat.zero_le _) _ (mem_map_of_mem hu)
  constructor
  · by_contra hnone
    push Not at hnone
    exact absurd (smoothedRtt_exec h hnone hsum srtt hsrtt).1 (lt_irrefl srtt)
  · by_contra hnone
    push Not at hnone
    have hle := (smoothedRtt_exec h (fun _ _ => Nat.zero_le _)
      (fun u hu => Nat.le_sub_one_of_lt (hnone u hu)) srtt hsrtt).2
    obtain ⟨u, hu⟩ := exists_mem_of_ne_nil us ((smoothedRtt_isSome h).mp (by simp [hsrtt]))
    have := hnone u hu
    omega

end

lemma exists_exec (h : ∀ u ∈ us, 8 * u.smoothing < Duration.limit) :
    ∃ e, exec apply new us = some e ∧ 8 * e.rttVar < Duration.limit ∧
      ∀ srtt, e.smoothedRtt = some srtt → 8 * srtt < Duration.limit := by
  induction us using reverseRecOn with
  | nil => exact ⟨new, rfl, by decide, nofun⟩
  | append_singleton us u ih =>
    obtain ⟨e, hrun, hvar, hsmoothed⟩ := ih fun v hv => h v (mem_append_left _ hv)
    have hu := h u (by simp)
    have hupdate : ∃ e', e.update u.smoothing = some e' ∧ 8 * e'.rttVar < Duration.limit := by
      unfold update
      cases hprev : e.smoothedRtt with
      | none => exact ⟨_, rfl, by dsimp only; omega⟩
      | some srtt =>
        have hsrtt := hsmoothed srtt hprev
        dsimp only
        rw [Duration.mul_of_lt (by omega), Duration.mul_of_lt (by omega), Option.bind_some,
          Option.bind_some, Duration.add_of_lt (by split <;> omega),
          Duration.add_of_lt (by omega)]
        refine ⟨_, rfl, ?_⟩
        dsimp only
        split <;> omega
    obtain ⟨moved, hmoved, hvar'⟩ := hupdate
    have happly : ∃ e', e.apply u = some e' ∧ e'.rttVar = moved.rttVar := by
      cases u with
      | single rtt => exact ⟨moved, hmoved, rfl⟩
      | batch mean least => exact ⟨_, congrArg (Option.map _) hmoved, rfl⟩
    obtain ⟨e', he', hvar''⟩ := happly
    have hrun' := exec_concat_eq_some.mpr ⟨e, hrun, he'⟩
    refine ⟨e', hrun', by rw [hvar'']; exact hvar', ?_⟩
    intro srtt hsrtt
    have hle := (smoothedRtt_exec hrun' (fun v _ => Nat.zero_le _)
      (fun v hv => Nat.le_div_iff_mul_le (by norm_num) |>.mpr
        (by have := h v hv; omega : v.smoothing * 8 ≤ Duration.limit - 1)) srtt hsrtt).2
    omega

end RttEstimator

end Favonius.Congestion
