import Favonius.Daemon.Manifest
import Favonius.Lib.Machine
import Favonius.Lib.Runs

/-!
# Zero runs

The chunks of a sparse file that lie inside its holes, and the selection of runs that fits
into the MANIFEST.
-/

namespace Favonius.Sync.ZeroRuns

open Machine Runs Daemon List

def divCeil (a b : ℕ) : ℕ := (a + b - 1) / b

/-- A run that starts where the last one ends is joined to it. -/
def pushRun (runs : List (ℕ × ℕ)) (first stop : ℕ) : List (ℕ × ℕ) :=
  match runs.getLast? with
  | some r =>
    if r.1 + r.2 = first then runs.dropLast ++ [(r.1, r.2 + (stop - first))]
    else runs ++ [(first, stop - first)]
  | none => runs ++ [(first, stop - first)]

def pushHole (fileSize payloadSize : ℕ) (runs : List (ℕ × ℕ)) (hole : ℕ × ℕ) : List (ℕ × ℕ) :=
  let stop := min (saturatingAdd 64 hole.1 hole.2) fileSize
  if stop ≤ hole.1 then runs
  else
    let first := divCeil hole.1 payloadSize
    -- a hole up to the end of the file has the short last chunk in it
    let lastExclusive :=
      if stop = fileSize then divCeil fileSize payloadSize else stop / payloadSize
    if first < lastExclusive then pushRun runs first lastExclusive else runs

def runsInHoles (holes : List (ℕ × ℕ)) (fileSize payloadSize : ℕ) : List (ℕ × ℕ) :=
  if payloadSize = 0 then [] else holes.foldl (pushHole fileSize payloadSize) []

/-- The length of `[first,count],`. -/
def cost (r : ℕ × ℕ) : ℕ := (Nat.toDigits 10 r.1).length + (Nat.toDigits 10 r.2).length + 4

/-- The longest runs first, the earlier one of two that are equally long. -/
def BySize (a b : ℕ × ℕ) : Prop := b.2 < a.2 ∨ b.2 = a.2 ∧ a.1 ≤ b.1

instance : DecidableRel BySize := fun a b => inferInstanceAs (Decidable (b.2 < a.2 ∨ _))

def keep (budget : ℕ) (acc : List (ℕ × ℕ) × ℕ) (r : ℕ × ℕ) : List (ℕ × ℕ) × ℕ :=
  if maxZeroRuns ≤ acc.1.length then acc
  else if acc.2 + cost r ≤ budget then (acc.1 ++ [r], acc.2 + cost r)
  else acc

def fit (runs : List (ℕ × ℕ)) (budget : ℕ) : List (ℕ × ℕ) :=
  sortByFirst ((runs.insertionSort BySize).foldl (keep budget) ([], 2)).1

/-- The bytes of the chunk, up to the end of the file, are in the hole. -/
def InHole (fileSize payloadSize : ℕ) (hole : ℕ × ℕ) (c : ℕ) : Prop :=
  hole.1 ≤ c * payloadSize ∧ min ((c + 1) * payloadSize) fileSize ≤ hole.1 + hole.2

variable {fileSize payloadSize : ℕ}

variable {c : ℕ}

lemma divCeil_le_iff (hpos : 0 < payloadSize) {a : ℕ} :
    divCeil a payloadSize ≤ c ↔ a ≤ c * payloadSize := by
  rw [← not_lt, ← not_lt, divCeil, Transfer.lt_totalChunks_iff hpos]

lemma lt_divCeil_iff (hpos : 0 < payloadSize) {a : ℕ} :
    c < divCeil a payloadSize ↔ c * payloadSize < a :=
  Transfer.lt_totalChunks_iff hpos

lemma min_saturatingAdd (hfile : fileSize < 2 ^ 64) (a b : ℕ) :
    min (saturatingAdd 64 a b) fileSize = min (a + b) fileSize := by
  rw [saturatingAdd, min_assoc, min_eq_right (by omega : fileSize ≤ 2 ^ 64 - 1)]

variable {hole : ℕ × ℕ}

lemma InHole.lt_stop (hpos : 0 < payloadSize) (hc : c * payloadSize < fileSize)
    (h : InHole fileSize payloadSize hole c) : hole.1 < min (hole.1 + hole.2) fileSize := by
  obtain ⟨hstart, hstop⟩ := h
  rw [Nat.succ_mul] at hstop
  omega

lemma between_iff_inHole (hpos : 0 < payloadSize) {stop : ℕ}
    (hstop : stop = min (hole.1 + hole.2) fileSize) (c : ℕ) :
    (divCeil hole.1 payloadSize ≤ c ∧
        c < if stop = fileSize then divCeil fileSize payloadSize else stop / payloadSize) ↔
      c < divCeil fileSize payloadSize ∧ InHole fileSize payloadSize hole c := by
  rw [divCeil_le_iff hpos, InHole, lt_divCeil_iff hpos]
  split
  · rw [lt_divCeil_iff hpos]
    have hle : fileSize ≤ hole.1 + hole.2 := by omega
    have hmin : min ((c + 1) * payloadSize) fileSize ≤ hole.1 + hole.2 :=
      (min_le_right _ _).trans hle
    tauto
  · have hsum : stop = hole.1 + hole.2 := by omega
    rw [← Nat.succ_le_iff, Nat.le_div_iff_mul_le hpos, ← hsum, Nat.succ_mul]
    omega

structure Found (fileSize payloadSize : ℕ) (holes runs : List (ℕ × ℕ)) : Prop where
  ascending : Ascending (divCeil fileSize payloadSize) runs
  covers_iff : ∀ c, Covers runs c ↔
    c < divCeil fileSize payloadSize ∧ ∃ h ∈ holes, InHole fileSize payloadSize h c

lemma found_nil (fileSize payloadSize : ℕ) : Found fileSize payloadSize [] [] where
  ascending := ascending_nil _
  covers_iff c := by simp [not_covers_nil]

variable {holes : List (ℕ × ℕ)} {r : ℕ × ℕ}

lemma Found.run_end_lt (hpos : 0 < payloadSize) {runs : List (ℕ × ℕ)}
    (h : Found fileSize payloadSize holes runs) (hafter : ∀ a ∈ holes, a.1 + a.2 < hole.1)
    (hin : hole.1 < fileSize) (hr : r ∈ runs) : r.1 + r.2 < divCeil hole.1 payloadSize := by
  obtain ⟨-, a, ha, -, hstop⟩ := (h.covers_iff _).mp (h.ascending.covers_last hr)
  have hlast := h.ascending.pos r hr
  have hgap := hafter a ha
  rw [show r.1 + r.2 - 1 + 1 = r.1 + r.2 by omega] at hstop
  rw [lt_divCeil_iff hpos]
  omega

lemma pushRun_of_lt {runs : List (ℕ × ℕ)} {first : ℕ} (h : ∀ r ∈ runs, r.1 + r.2 < first)
    (stop : ℕ) : pushRun runs first stop = runs ++ [(first, stop - first)] := by
  unfold pushRun
  cases hlast : runs.getLast? with
  | none => rfl
  | some r =>
    have hlt := h r (mem_of_getLast? hlast)
    dsimp only
    rw [if_neg (by omega)]

lemma Found.pushHole (hpos : 0 < payloadSize) (hfile : fileSize < 2 ^ 64) {runs : List (ℕ × ℕ)}
    (h : Found fileSize payloadSize holes runs) (hafter : ∀ a ∈ holes, a.1 + a.2 < hole.1) :
    Found fileSize payloadSize (holes ++ [hole]) (pushHole fileSize payloadSize runs hole) := by
  have hnew : ∀ c, (c < divCeil fileSize payloadSize ∧
      ∃ a ∈ holes ++ [hole], InHole fileSize payloadSize a c) ↔ Covers runs c ∨
        (c < divCeil fileSize payloadSize ∧ InHole fileSize payloadSize hole c) := by
    intro c
    rw [h.covers_iff, ← and_or_left]
    simp only [mem_append, mem_singleton, or_and_right, exists_or, exists_eq_left]
  unfold ZeroRuns.pushHole
  dsimp only
  rw [min_saturatingAdd hfile]
  generalize hstop : min (hole.1 + hole.2) fileSize = stop
  have hbetween := between_iff_inHole hpos hstop.symm
  split
  · -- nothing of the hole is in the file
    refine ⟨h.ascending, fun c => ?_⟩
    rw [hnew]
    apply (or_iff_left _).symm
    rintro ⟨hc, hin⟩
    have hlt := hin.lt_stop hpos ((lt_divCeil_iff hpos).mp hc)
    omega
  · generalize (if stop = fileSize then divCeil fileSize payloadSize else stop / payloadSize) =
      last at hbetween ⊢
    split
    · rename_i hlt hfirst
      have hend : ∀ r ∈ runs, r.1 + r.2 < divCeil hole.1 payloadSize :=
        fun r hr => h.run_end_lt hpos hafter (by omega) hr
      rw [pushRun_of_lt hend]
      refine ⟨h.ascending.concat ?_ (fun r hr => (hend r hr).le) ?_, fun c => ?_⟩
      · dsimp only
        omega
      · have hlast := ((hbetween (last - 1)).mp ⟨by omega, by omega⟩).1
        dsimp only
        omega
      · rw [covers_concat, hnew, ← hbetween]
        dsimp only
        rw [Nat.add_sub_cancel' hfirst.le]
    · -- no chunk is wholly in the hole
      rename_i hlt hfirst
      refine ⟨h.ascending, fun c => ?_⟩
      rw [hnew, ← hbetween]
      apply (or_iff_left _).symm
      omega

lemma found_runsInHoles (hfile : fileSize < 2 ^ 64) (payloadSize : ℕ)
    (hholes : holes.Pairwise fun a b => a.1 + a.2 < b.1) :
    Found fileSize payloadSize holes (runsInHoles holes fileSize payloadSize) := by
  rcases Nat.eq_zero_or_pos payloadSize with rfl | hpos
  · -- without a payload there are no chunks
    refine ⟨ascending_nil _, fun c => ?_⟩
    simp [runsInHoles, not_covers_nil, divCeil]
  rw [runsInHoles, if_neg hpos.ne']
  induction holes using reverseRecOn with
  | nil => exact found_nil fileSize payloadSize
  | append_singleton holes hole ih =>
    obtain ⟨hinit, -, hafter⟩ := pairwise_append.mp hholes
    rw [foldl_append]
    apply (ih hinit).pushHole hpos hfile
    intro a ha
    exact hafter a ha hole (mem_singleton_self hole)

lemma keep_cases (budget : ℕ) (acc : List (ℕ × ℕ) × ℕ) (r : ℕ × ℕ) :
    keep budget acc r = acc ∨
      acc.1.length < maxZeroRuns ∧ acc.2 + cost r ≤ budget ∧
        keep budget acc r = (acc.1 ++ [r], acc.2 + cost r) := by
  unfold keep
  split_ifs with hfull hroom
  · exact .inl rfl
  · exact .inr ⟨not_le.mp hfull, hroom, rfl⟩
  · exact .inl rfl

variable {budget : ℕ}

/-- A run that is passed over with slots left has no room. -/
theorem keep_dropped {acc : List (ℕ × ℕ) × ℕ} (hdrop : (keep budget acc r).1 = acc.1) :
    maxZeroRuns ≤ acc.1.length ∨ budget < acc.2 + cost r := by
  by_contra! hroom
  rw [keep, if_neg (not_le.mpr hroom.1), if_pos hroom.2] at hdrop
  simp at hdrop

lemma foldl_keep (budget : ℕ) (rs : List (ℕ × ℕ)) (acc : List (ℕ × ℕ) × ℕ)
    (hlen : acc.1.length ≤ maxZeroRuns) :
    ∃ selected, (rs.foldl (keep budget) acc).1 = acc.1 ++ selected ∧ selected.Sublist rs ∧
      (acc.1 ++ selected).length ≤ maxZeroRuns := by
  induction rs generalizing acc with
  | nil => exact ⟨[], by simp, .slnil, by simpa using hlen⟩
  | cons r rs ih =>
    rw [foldl_cons]
    rcases keep_cases budget acc r with hkeep | ⟨hroom, -, hkeep⟩
    · obtain ⟨selected, heq, hsub, hle⟩ := ih acc hlen
      rw [hkeep]
      exact ⟨selected, heq, hsub.cons r, hle⟩
    · obtain ⟨selected, heq, hsub, hle⟩ := ih (acc.1 ++ [r], acc.2 + cost r) (by simpa using hroom)
      rw [hkeep]
      refine ⟨r :: selected, ?_, hsub.cons_cons r, ?_⟩
      · simpa using heq
      · simpa using hle

def considered (budget : ℕ) (before : List (ℕ × ℕ)) : List (ℕ × ℕ) × ℕ :=
  before.foldl (keep budget) ([], 2)

lemma considered_append (budget : ℕ) (before : List (ℕ × ℕ)) (r : ℕ × ℕ) :
    considered budget (before ++ [r]) = keep budget (considered budget before) r :=
  foldl_append

lemma considered_used (budget : ℕ) (before : List (ℕ × ℕ)) :
    (considered budget before).2 = 2 + ((considered budget before).1.map cost).sum ∧
      ((considered budget before).1 ≠ [] → (considered budget before).2 ≤ budget) := by
  induction before using reverseRecOn with
  | nil => exact ⟨rfl, fun hne => absurd rfl hne⟩
  | append_singleton before r ih =>
    rw [considered_append]
    rcases keep_cases budget (considered budget before) r with hkeep | ⟨-, hroom, hkeep⟩
    · rw [hkeep]
      exact ih
    · rw [hkeep]
      refine ⟨?_, fun _ => hroom⟩
      simp only [map_append, map_singleton, sum_append, sum_singleton, ih.1]
      omega

lemma considered_sublist (budget : ℕ) (before : List (ℕ × ℕ)) :
    (considered budget before).1.Sublist before ∧
      (considered budget before).1.length ≤ maxZeroRuns := by
  obtain ⟨selected, heq, hsub, hle⟩ := foldl_keep budget before ([], 2) (Nat.zero_le _)
  rw [considered, heq]
  exact ⟨hsub, hle⟩

lemma considered_full {before : List (ℕ × ℕ)}
    (hfull : maxZeroRuns ≤ (considered budget before).1.length) (rest : List (ℕ × ℕ)) :
    considered budget (before ++ rest) = considered budget before := by
  induction rest using reverseRecOn with
  | nil => rw [append_nil]
  | append_singleton rest r ih =>
    rw [← append_assoc, considered_append, ih, keep, if_pos hfull]

instance : Std.Total BySize := ⟨fun a b => by unfold BySize; omega⟩

instance : IsTrans (ℕ × ℕ) BySize := ⟨fun a b c hab hbc => by unfold BySize at *; omega⟩

variable {limit : ℕ} {runs : List (ℕ × ℕ)}

lemma perm_fit (runs : List (ℕ × ℕ)) (budget : ℕ) :
    (fit runs budget).Perm (considered budget (runs.insertionSort BySize)).1 :=
  perm_sortByFirst _

lemma length_fit_le (runs : List (ℕ × ℕ)) (budget : ℕ) :
    (fit runs budget).length ≤ maxZeroRuns := by
  rw [(perm_fit runs budget).length_eq]
  exact (considered_sublist budget _).2

lemma fit_spec (budget : ℕ) (h : Ascending limit runs) :
    Ascending limit (fit runs budget) ∧ fit runs budget ⊆ runs ∧
      (fit runs budget).length ≤ maxZeroRuns := by
  have hsub := (considered_sublist budget (runs.insertionSort BySize)).1
  have hperm : (runs.insertionSort BySize).Perm runs := perm_insertionSort BySize runs
  refine ⟨h.sortByFirst_of_sublist hperm hsub, ?_, length_fit_le runs budget⟩
  intro r hr
  exact hperm.subset (hsub.subset ((perm_fit runs budget).subset hr))

lemma pairwise_fit (runs : List (ℕ × ℕ)) (budget : ℕ) :
    (fit runs budget).Pairwise fun a b => a.1 ≤ b.1 :=
  pairwise_insertionSort (fun a b : ℕ × ℕ => a.1 ≤ b.1) _

lemma fit_cost_le (hne : fit runs budget ≠ []) :
    2 + ((fit runs budget).map cost).sum ≤ budget := by
  have hperm := perm_fit runs budget
  obtain ⟨hused, hle⟩ := considered_used budget (runs.insertionSort BySize)
  rw [(hperm.map cost).sum_eq, ← hused]
  apply hle
  intro hnil
  rw [hnil] at hperm
  exact hne hperm.eq_nil

/-- A run passed over for lack of slots is followed by no kept one, so a longer run than a
kept one was passed over for lack of bytes. -/
theorem fit_dropped {before after : List (ℕ × ℕ)} {k : ℕ × ℕ}
    (horder : runs.insertionSort BySize = before ++ r :: after)
    (hdrop : (keep budget (considered budget before) r).1 = (considered budget before).1)
    (hk : k ∈ fit runs budget) (hlt : k.2 < r.2) :
    budget < (considered budget before).2 + cost r := by
  apply (keep_dropped hdrop).resolve_left
  intro hfull
  have hkept := (perm_fit runs budget).subset hk
  rw [horder, considered_full hfull] at hkept
  have hbefore : k ∈ before := (considered_sublist budget before).1.subset hkept
  have hsorted := pairwise_insertionSort BySize runs
  rw [horder] at hsorted
  have hsize := (pairwise_append.mp hsorted).2.2 k hbefore r mem_cons_self
  unfold BySize at hsize
  omega

lemma validateZeroRuns_of_ascending {total : ℕ} (htotal : total < 2 ^ 64)
    (h : Ascending total runs) (nextFree covered : ℕ) (hnext : ∀ r ∈ runs, nextFree ≤ r.1) :
    validateZeroRuns total runs nextFree covered =
      .ok (covered + (runs.map Prod.snd).sum) := by
  induction runs generalizing nextFree covered with
  | nil => simp [validateZeroRuns]
  | cons r runs ih =>
    have hpos := h.pos r mem_cons_self
    have hfits := h.fits r mem_cons_self
    have hfree := hnext r mem_cons_self
    rw [validateZeroRuns, if_neg (by omega), if_neg (by omega), if_neg (by omega),
      if_neg (by omega), ih h.tail]
    · rw [map_cons, sum_cons, Nat.add_assoc]
    · exact (pairwise_cons.mp h.sorted).1

end Favonius.Sync.ZeroRuns
