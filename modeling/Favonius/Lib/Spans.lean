import Mathlib.Data.List.Sort
import Mathlib.Tactic

/-!
# Maximal runs

Spans of numbers, first and last number included.  A list of ascending spans that do not touch is
determined by the numbers it covers: its members are the maximal runs of those numbers.  A scan
from left to right finds the maximal runs of a predicate in a window.
-/

namespace Spans

open List Option

def Covers (spans : List (ℕ × ℕ)) (x : ℕ) : Prop := ∃ p ∈ spans, p.1 ≤ x ∧ x ≤ p.2

variable {x : ℕ}

lemma covers_append {a b : List (ℕ × ℕ)} : Covers (a ++ b) x ↔ Covers a x ∨ Covers b x := by
  simp only [Covers, mem_append, or_and_right, exists_or]

lemma covers_singleton {p : ℕ × ℕ} : Covers [p] x ↔ p.1 ≤ x ∧ x ≤ p.2 := by
  simp only [Covers, mem_singleton, exists_eq_left]

/-- Non-empty spans in ascending order, with a number between any two of them. -/
structure Separated (spans : List (ℕ × ℕ)) : Prop where
  nonempty : ∀ p ∈ spans, p.1 ≤ p.2
  sorted : spans.Pairwise fun p q => p.2 + 1 < q.1

structure MaximalRun (S : ℕ → Prop) (p : ℕ × ℕ) : Prop where
  nonempty : p.1 ≤ p.2
  inside : ∀ x, p.1 ≤ x → x ≤ p.2 → S x
  before : ∀ x, x + 1 = p.1 → ¬S x
  after : ¬S (p.2 + 1)

variable {S : ℕ → Prop} {p q : ℕ × ℕ} {spans : List (ℕ × ℕ)}

lemma MaximalRun.first_le (hp : MaximalRun S p) (hq : MaximalRun S q) (h : p.1 ≤ q.2) :
    p.1 ≤ q.1 := by
  by_contra hlt
  exact hp.before (p.1 - 1) (by omega) (hq.inside (p.1 - 1) (by omega) (by omega))

lemma MaximalRun.last_le (hp : MaximalRun S p) (hq : MaximalRun S q) (h : q.1 ≤ p.2) :
    q.2 ≤ p.2 := by
  by_contra hlt
  exact hp.after (hq.inside (p.2 + 1) (by omega) (by omega))

lemma MaximalRun.eq_of_meet (hp : MaximalRun S p) (hq : MaximalRun S q) (hpq : p.1 ≤ q.2)
    (hqp : q.1 ≤ p.2) : p = q :=
  Prod.ext (le_antisymm (hp.first_le hq hpq) (hq.first_le hp hqp))
    (le_antisymm (hq.last_le hp hpq) (hp.last_le hq hqp))

lemma Separated.eq_or_apart (h : Separated spans) (hp : p ∈ spans) (hq : q ∈ spans) :
    p = q ∨ p.2 + 1 < q.1 ∨ q.2 + 1 < p.1 := by
  obtain ⟨i, hi, rfl⟩ := getElem_of_mem hp
  obtain ⟨j, hj, rfl⟩ := getElem_of_mem hq
  have hsorted := pairwise_iff_getElem.mp h.sorted
  rcases lt_trichotomy i j with hlt | rfl | hlt
  · exact .inr (.inl (hsorted i j hi hj hlt))
  · exact .inl rfl
  · exact .inr (.inr (hsorted j i hj hi hlt))

/-- The spans are the maximal runs of the numbers they cover. -/
theorem Separated.mem_iff_maximalRun (h : Separated spans) (hS : ∀ x, S x ↔ Covers spans x) :
    p ∈ spans ↔ MaximalRun S p := by
  have hrun : ∀ q ∈ spans, MaximalRun S q := by
    intro q hq
    have houtside : ∀ x, x + 1 = q.1 ∨ x = q.2 + 1 → ¬S x := by
      rintro x hx hSx
      obtain ⟨r, hr, hfirst, hlast⟩ := (hS x).mp hSx
      have hnonempty := h.nonempty q hq
      rcases h.eq_or_apart hq hr with rfl | hlt | hlt
      · omega
      · omega
      · omega
    exact ⟨h.nonempty q hq, fun x hfirst hlast => (hS x).mpr ⟨q, hq, hfirst, hlast⟩,
      fun x hx => houtside x (.inl hx), houtside _ (.inr rfl)⟩
  refine ⟨hrun p, fun hp => ?_⟩
  obtain ⟨q, hq, hfirst, hlast⟩ := (hS p.1).mp (hp.inside p.1 le_rfl hp.nonempty)
  rwa [hp.eq_of_meet (hrun q hq) hlast (hfirst.trans hp.nonempty)]

lemma Separated.nodup (h : Separated spans) : spans.Nodup := by
  refine h.sorted.imp_of_mem ?_
  rintro p q hp - hlt rfl
  have hnonempty := h.nonempty p hp
  omega

lemma Separated.take (h : Separated spans) (m : ℕ) : Separated (spans.take m) :=
  ⟨fun p hp => h.nonempty p (mem_of_mem_take hp), h.sorted.sublist (take_sublist _ _)⟩

/-- Separated spans that cover the same numbers are the same. -/
theorem Separated.eq_of_covers {spans' : List (ℕ × ℕ)} (h : Separated spans)
    (h' : Separated spans') (hsame : ∀ x, Covers spans x ↔ Covers spans' x) : spans = spans' := by
  have hperm : spans.Perm spans' := by
    rw [perm_ext_iff_of_nodup h.nodup h'.nodup]
    intro p
    rw [h.mem_iff_maximalRun fun _ => Iff.rfl, h'.mem_iff_maximalRun hsame]
  refine hperm.eq_of_pairwise ?_ h.sorted h'.sorted
  intro p q hp hq hpq hqp
  have hnonempty := h.nonempty p hp
  have hnonempty' := h'.nonempty q hq
  omega

def numbers (spans : List (ℕ × ℕ)) : List ℕ :=
  spans.flatMap fun p => List.range' p.1 (p.2 + 1 - p.1)

lemma numbers_cons (p : ℕ × ℕ) (spans : List (ℕ × ℕ)) :
    numbers (p :: spans) = List.range' p.1 (p.2 + 1 - p.1) ++ numbers spans :=
  flatMap_cons

lemma mem_numbers : x ∈ numbers spans ↔ Covers spans x := by
  rw [numbers, mem_flatMap]
  refine exists_congr fun p => and_congr_right fun _ => ?_
  rw [mem_range'_1]
  omega

lemma Separated.nodup_numbers (h : Separated spans) : (numbers spans).Nodup := by
  refine nodup_flatMap.mpr ⟨fun p _ => nodup_range' .., h.sorted.imp ?_⟩
  intro p q hlt x hp hq
  rw [mem_range'_1] at hp hq
  omega

/-- Where the runs of the marked numbers in `[lo, hi)` start. -/
def runStarts (mark : ℕ → Bool) (lo hi : ℕ) : List ℕ :=
  (List.range' lo (hi - lo)).filter fun x => mark x && (x == lo || !mark (x - 1))

section Starts

variable {mark : ℕ → Bool} {lo hi : ℕ}

lemma mem_runStarts : x ∈ runStarts mark lo hi ↔
    lo ≤ x ∧ x < hi ∧ mark x = true ∧ (x = lo ∨ mark (x - 1) = false) := by
  rw [runStarts, mem_filter, mem_range'_1, Bool.and_eq_true, Bool.or_eq_true, beq_iff_eq,
    Bool.not_eq_true']
  constructor
  · rintro ⟨⟨hlo, hlt⟩, hmark⟩
    exact ⟨hlo, by omega, hmark⟩
  · rintro ⟨hlo, hlt, hmark⟩
    exact ⟨⟨hlo, by omega⟩, hmark⟩

lemma runStarts_congr {mark' : ℕ → Bool} (h : ∀ x, lo ≤ x → x < hi → mark x = mark' x) :
    runStarts mark lo hi = runStarts mark' lo hi := by
  refine filter_congr fun x hx => ?_
  rw [mem_range'_1] at hx
  rw [h x hx.1 (by omega)]
  rcases eq_or_ne x lo with rfl | hne
  · simp
  · rw [h (x - 1) (by omega) (by omega)]

variable (h : Separated spans)
  (hcovers : ∀ x, Covers spans x ↔ lo ≤ x ∧ x < hi ∧ mark x = true)
include h hcovers

/-- Separated spans start where the runs of the numbers that they cover start. -/
theorem Separated.map_fst : spans.map Prod.fst = runStarts mark lo hi := by
  have hmem : ∀ x, x ∈ spans.map Prod.fst ↔ x ∈ runStarts mark lo hi := by
    intro x
    rw [List.mem_map, mem_runStarts]
    constructor
    · rintro ⟨p, hp, rfl⟩
      have hrun := (h.mem_iff_maximalRun fun x => (hcovers x).symm).mp hp
      obtain ⟨hlo, hhi, hmark⟩ := hrun.inside p.1 le_rfl hrun.nonempty
      refine ⟨hlo, hhi, hmark,
        or_iff_not_imp_left.mpr fun hne => Bool.not_eq_true _ ▸ fun hprev => ?_⟩
      exact hrun.before (p.1 - 1) (by omega) ⟨by omega, by omega, hprev⟩
    · rintro ⟨hlo, hhi, hmark, hfirst⟩
      obtain ⟨p, hp, hle, hge⟩ := (hcovers x).mpr ⟨hlo, hhi, hmark⟩
      refine ⟨p, hp, le_antisymm hle (not_lt.mp fun hlt => ?_)⟩
      -- the number before would be in the same span
      obtain ⟨hlow, -, hprev⟩ := (hcovers (x - 1)).mp ⟨p, hp, by omega, by omega⟩
      rcases hfirst with rfl | hgap
      · omega
      · rw [hprev] at hgap
        cases hgap
  have hsorted : (spans.map Prod.fst).Pairwise (· < ·) := by
    refine pairwise_map.mpr (h.sorted.imp_of_mem fun {p q} hp _ hlt => ?_)
    have hnonempty := h.nonempty p hp
    omega
  have hsorted' : (runStarts mark lo hi).Pairwise (· < ·) := (pairwise_lt_range' ..).filter _
  have hperm := (perm_ext_iff_of_nodup (hsorted.imp ne_of_lt) (hsorted'.imp ne_of_lt)).mpr hmem
  exact hperm.eq_of_pairwise (fun a b _ _ hab hba => absurd hab (not_lt.mpr hba.le)) hsorted
    hsorted'

/-- The first `m` spans are those before the start of the next run. -/
theorem Separated.covers_take {m : ℕ} : Covers (spans.take m) x ↔
    Covers spans x ∧ ∀ first ∈ (runStarts mark lo hi)[m]?, x < first := by
  rw [← h.map_fst hcovers, getElem?_map]
  have hsorted := pairwise_iff_getElem.mp h.sorted
  constructor
  · rintro ⟨p, hp, hfirst, hlast⟩
    refine ⟨⟨p, mem_of_mem_take hp, hfirst, hlast⟩, fun first hnext => ?_⟩
    obtain ⟨q, hq, rfl⟩ := map_eq_some_iff.mp hnext
    obtain ⟨hm, rfl⟩ := List.getElem?_eq_some_iff.mp hq
    obtain ⟨i, hi, rfl⟩ := getElem_of_mem hp
    rw [length_take] at hi
    rw [getElem_take] at hlast
    have hlt := hsorted i m (by omega) hm (by omega)
    omega
  · rintro ⟨⟨p, hp, hfirst, hlast⟩, hbefore⟩
    obtain ⟨i, hi, rfl⟩ := getElem_of_mem hp
    refine ⟨spans[i], mem_take_iff_getElem.mpr ⟨i, ?_, rfl⟩, hfirst, hlast⟩
    by_contra hm
    have hge : m ≤ i := by omega
    have hx := hbefore _ (map_eq_some_iff.mpr ⟨spans[m], getElem?_eq_getElem (by omega), rfl⟩)
    rcases hge.eq_or_lt with rfl | hlt
    · omega
    · have hapart := hsorted m i (by omega) hi hlt
      have hnonempty := h.nonempty _ (getElem_mem (show m < spans.length by omega))
      omega

end Starts

abbrev Scan := List (ℕ × ℕ) × Option ℕ

def close (acc : Scan) (i : ℕ) : List (ℕ × ℕ) :=
  acc.1 ++ (acc.2.map fun first => (first, i - 1)).toList

def scanStep (mark : ℕ → Bool) (acc : Scan) (i : ℕ) : Scan :=
  if mark i then (acc.1, acc.2.or (some i)) else (close acc i, none)

def scan (mark : ℕ → Bool) (lo n : ℕ) : Scan :=
  (List.range' lo n).foldl (scanStep mark) ([], none)

lemma scan_succ (mark : ℕ → Bool) (lo n : ℕ) :
    scan mark lo (n + 1) = scanStep mark (scan mark lo n) (lo + n) := by
  rw [scan, range'_1_concat, foldl_concat]
  rfl

/-- What the scan has seen of `[lo, i)`; an open span reaches to its end. -/
structure Scanned (mark : ℕ → Bool) (lo i : ℕ) (acc : Scan) : Prop where
  separated : Separated acc.1
  before_open : ∀ p ∈ acc.1, p.2 + 1 < acc.2.getD i
  open_lt : ∀ first ∈ acc.2, first < i
  covers_iff : ∀ x, Covers acc.1 x ∨ acc.2.getD i ≤ x ∧ x < i ↔ lo ≤ x ∧ x < i ∧ mark x = true

variable {mark : ℕ → Bool} {lo i : ℕ} {acc : Scan}

lemma Scanned.close (h : Scanned mark lo i acc) : Separated (close acc i) ∧
    ∀ x, Covers (Spans.close acc i) x ↔ lo ≤ x ∧ x < i ∧ mark x = true := by
  obtain ⟨spans, _ | first⟩ := acc
  · rw [Spans.close, map_none, toList_none, append_nil]
    refine ⟨h.separated, fun x => ?_⟩
    rw [← h.covers_iff x]
    simp
  · have hlt : first < i := h.open_lt first rfl
    rw [Spans.close, map_some, toList_some]
    refine ⟨⟨?_, ?_⟩, fun x => ?_⟩
    · exact forall_mem_append.mpr ⟨h.separated.nonempty,
        forall_mem_singleton.mpr (Nat.le_sub_one_of_lt hlt)⟩
    · refine pairwise_append.mpr ⟨h.separated.sorted, pairwise_singleton _ _, ?_⟩
      intro p hp q hq
      rw [mem_singleton.mp hq]
      exact h.before_open p hp
    · rw [← h.covers_iff x, covers_append, covers_singleton]
      refine or_congr_right ?_
      dsimp only [getD_some]
      omega

lemma Scanned.extend (h : Scanned mark lo i acc) (hlo : lo ≤ i) (hmark : mark i = true) :
    Scanned mark lo (i + 1) (acc.1, acc.2.or (some i)) := by
  obtain ⟨spans, first⟩ := acc
  have hedge : (first.or (some i)).getD (i + 1) = first.getD i := by
    cases first <;> rfl
  have hle : first.getD i ≤ i := by
    cases first with
    | none => exact le_rfl
    | some first => exact (h.open_lt first rfl).le
  refine ⟨h.separated, ?_, ?_, fun x => ?_⟩
  · rw [hedge]
    exact h.before_open
  · intro start hstart
    cases first with
    | none =>
      obtain rfl : i = start := some.inj hstart
      exact Nat.lt_succ_self i
    | some first => exact (h.open_lt start hstart).trans (Nat.lt_succ_self i)
  · have hbelow := h.covers_iff x
    rw [hedge]
    by_cases hx : x = i
    · subst hx
      exact ⟨fun _ => ⟨hlo, Nat.lt_succ_self x, hmark⟩, fun _ => .inr ⟨hle, Nat.lt_succ_self x⟩⟩
    · have hlt : x < i + 1 ↔ x < i := by omega
      rw [hlt]
      exact hbelow

lemma Scanned.stop (h : Scanned mark lo i acc) (hmark : ¬mark i = true) :
    Scanned mark lo (i + 1) (Spans.close acc i, none) := by
  obtain ⟨hseparated, hcovers⟩ := h.close
  have hend : ∀ p ∈ Spans.close acc i, p.2 < i := by
    intro p hp
    exact ((hcovers p.2).mp ⟨p, hp, hseparated.nonempty p hp, le_rfl⟩).2.1
  refine ⟨hseparated, fun p hp => Nat.succ_lt_succ (hend p hp), nofun, fun x => ?_⟩
  have hnone : ¬(i + 1 ≤ x ∧ x < i + 1) := by omega
  rw [getD_none, or_iff_left hnone, hcovers x]
  by_cases hx : x = i
  · subst hx
    simp [hmark]
  · have hlt : x < i + 1 ↔ x < i := by omega
    rw [hlt]

lemma scanned_scan (mark : ℕ → Bool) (lo n : ℕ) : Scanned mark lo (lo + n) (scan mark lo n) := by
  induction n with
  | zero =>
    refine ⟨⟨forall_mem_nil _, .nil⟩, forall_mem_nil _, nofun, fun x => ?_⟩
    simp only [scan, range'_zero, foldl_nil, Covers, not_mem_nil, false_and,
      exists_false, getD_none, false_or]
    constructor
    · rintro ⟨hle, hlt⟩
      omega
    · rintro ⟨hle, hlt, -⟩
      omega
  | succ n ih =>
    rw [scan_succ, scanStep]
    split
    · rename_i hmark
      exact ih.extend (Nat.le_add_right lo n) hmark
    · rename_i hmark
      exact ih.stop hmark

end Spans
