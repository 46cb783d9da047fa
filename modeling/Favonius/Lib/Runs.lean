import Mathlib.Data.List.Sort
import Mathlib.Tactic

/-!
# Runs of numbers

Lists of runs, first number and count.  An ascending list has non-empty runs that do not
overlap and end below a limit.  What is selected from such a list in any order is ascending
again once it is sorted by its first numbers.
-/

namespace Runs

open List

def Covers (runs : List (ℕ × ℕ)) (c : ℕ) : Prop := ∃ r ∈ runs, r.1 ≤ c ∧ c < r.1 + r.2

lemma not_covers_nil (c : ℕ) : ¬Covers [] c := by
  rintro ⟨r, hr, -⟩
  cases hr

variable {r : ℕ × ℕ}

lemma covers_concat {runs : List (ℕ × ℕ)} {c : ℕ} :
    Covers (runs ++ [r]) c ↔ Covers runs c ∨ (r.1 ≤ c ∧ c < r.1 + r.2) := by
  simp only [Covers, mem_append, mem_singleton, or_and_right, exists_or, exists_eq_left]

lemma Covers.mono {runs runs' : List (ℕ × ℕ)} (h : runs ⊆ runs') {c : ℕ}
    (hc : Covers runs c) : Covers runs' c := by
  obtain ⟨r, hr, hin⟩ := hc
  exact ⟨r, h hr, hin⟩

structure Ascending (limit : ℕ) (runs : List (ℕ × ℕ)) : Prop where
  pos : ∀ r ∈ runs, 0 < r.2
  sorted : runs.Pairwise fun a b => a.1 + a.2 ≤ b.1
  fits : ∀ r ∈ runs, r.1 + r.2 ≤ limit

variable {limit : ℕ} {runs : List (ℕ × ℕ)}

lemma ascending_nil (limit : ℕ) : Ascending limit [] where
  pos := forall_mem_nil _
  sorted := .nil
  fits := forall_mem_nil _

lemma Ascending.concat (h : Ascending limit runs) (hpos : 0 < r.2)
    (hafter : ∀ a ∈ runs, a.1 + a.2 ≤ r.1) (hfits : r.1 + r.2 ≤ limit) :
    Ascending limit (runs ++ [r]) := by
  refine ⟨?_, ?_, ?_⟩
  · exact forall_mem_append.mpr ⟨h.pos, forall_mem_singleton.mpr hpos⟩
  · apply pairwise_append.mpr
    refine ⟨h.sorted, pairwise_singleton _ _, ?_⟩
    intro a ha b hb
    rw [mem_singleton.mp hb]
    exact hafter a ha
  · exact forall_mem_append.mpr ⟨h.fits, forall_mem_singleton.mpr hfits⟩

lemma Ascending.tail (h : Ascending limit (r :: runs)) : Ascending limit runs where
  pos a ha := h.pos a (mem_cons_of_mem _ ha)
  sorted := (pairwise_cons.mp h.sorted).2
  fits a ha := h.fits a (mem_cons_of_mem _ ha)

lemma Ascending.covers_last (h : Ascending limit runs) (hr : r ∈ runs) :
    Covers runs (r.1 + r.2 - 1) := by
  have hpos := h.pos r hr
  exact ⟨r, hr, by omega, by omega⟩

def sortByFirst (runs : List (ℕ × ℕ)) : List (ℕ × ℕ) :=
  runs.insertionSort fun a b => a.1 ≤ b.1

lemma perm_sortByFirst (runs : List (ℕ × ℕ)) : (sortByFirst runs).Perm runs :=
  perm_insertionSort _ _

/-- Runs of which one ends before the other starts, in either order. -/
def Apart (a b : ℕ × ℕ) : Prop := a.1 + a.2 ≤ b.1 ∨ b.1 + b.2 ≤ a.1

lemma Apart.symm {a b : ℕ × ℕ} (h : Apart a b) : Apart b a := Or.symm h

lemma Ascending.sortByFirst_of_sublist (h : Ascending limit runs)
    {arranged selected : List (ℕ × ℕ)} (hperm : arranged.Perm runs)
    (hsub : selected.Sublist arranged) : Ascending limit (sortByFirst selected) := by
  have hmem : ∀ r ∈ sortByFirst selected, r ∈ runs := by
    intro r hr
    exact hperm.subset (hsub.subset ((perm_sortByFirst selected).subset hr))
  have hfirst : (sortByFirst selected).Pairwise fun a b => a.1 ≤ b.1 :=
    pairwise_insertionSort (fun a b : ℕ × ℕ => a.1 ≤ b.1) selected
  have hapart : (sortByFirst selected).Pairwise Apart := by
    have hruns : runs.Pairwise Apart := h.sorted.imp fun hab => Or.inl hab
    have harranged := (hperm.pairwise_iff Apart.symm).mpr hruns
    exact ((perm_sortByFirst selected).pairwise_iff Apart.symm).mpr (harranged.sublist hsub)
  refine ⟨fun r hr => h.pos r (hmem r hr), ?_, fun r hr => h.fits r (hmem r hr)⟩
  apply (hfirst.and hapart).imp_of_mem
  rintro a b - hb ⟨hle, hab | hba⟩
  · exact hab
  · have hpos := h.pos b (hmem b hb)
    omega

end Runs
