import Mathlib.Data.List.DropRight
import Mathlib.Order.Lattice
import Mathlib.Tactic

/-!
# Maximum over a sliding window

Samples are pairs of a time and a value.  Of a list in the order of arrival only those matter for
a maximum that no later sample reaches.  Appending a sample and dropping the old ones act on these
from the two ends.
-/

namespace MonotoneWindow

open List

variable {τ ν : Type*} [LinearOrder ν]

/-- The samples greater than every later one. -/
def leaders : List (τ × ν) → List (τ × ν)
  | [] => []
  | x :: xs => if ∀ y ∈ xs, y.2 < x.2 then x :: leaders xs else leaders xs

def Decreasing (xs : List (τ × ν)) : Prop := xs.Pairwise fun x y => y.2 < x.2

variable {xs : List (τ × ν)}

@[simp] lemma leaders_nil : leaders ([] : List (τ × ν)) = [] := rfl

lemma sublist_leaders (xs : List (τ × ν)) : (leaders xs).Sublist xs := by
  induction xs with
  | nil => exact Sublist.slnil
  | cons x xs ih =>
    rw [leaders]
    split
    · exact ih.cons_cons x
    · exact ih.cons x

lemma decreasing_leaders (xs : List (τ × ν)) : Decreasing (leaders xs) := by
  induction xs with
  | nil => exact List.Pairwise.nil
  | cons x xs ih =>
    rw [leaders]
    split
    · rename_i hgreatest
      exact List.Pairwise.cons (fun y hy => hgreatest y ((sublist_leaders xs).subset hy)) ih
    · exact ih

lemma leaders_head (x : τ × ν) (xs : List (τ × ν)) :
    ∃ m rest, leaders (x :: xs) = m :: rest ∧ m ∈ x :: xs ∧ ∀ y ∈ x :: xs, y.2 ≤ m.2 := by
  induction xs generalizing x with
  | nil => exact ⟨x, [], by simp [leaders], by simp, by simp⟩
  | cons y ys ih =>
    rw [leaders]
    split
    · rename_i hgreatest
      refine ⟨x, _, rfl, mem_cons_self, ?_⟩
      exact forall_mem_cons.mpr ⟨le_rfl, fun z hz => (hgreatest z hz).le⟩
    · rename_i hnot
      push Not at hnot
      obtain ⟨z, hz, hxz⟩ := hnot
      obtain ⟨m, rest, heq, hmem, hmax⟩ := ih y
      refine ⟨m, rest, heq, mem_cons_of_mem x hmem, ?_⟩
      exact forall_mem_cons.mpr ⟨hxz.trans (hmax z hz), hmax⟩

lemma rdropWhile_of_decreasing (h : Decreasing xs) (v : ν) :
    xs.rdropWhile (fun y => decide (y.2 ≤ v)) = xs.filter fun y => decide (v < y.2) := by
  induction xs using reverseRecOn with
  | nil => rfl
  | append_singleton xs x ih =>
    obtain ⟨hxs, -, hbefore⟩ := pairwise_append.mp h
    rw [rdropWhile_concat, filter_append]
    split
    · rename_i hle
      have hx : ¬v < x.2 := not_lt.mpr (of_decide_eq_true hle)
      rw [ih hxs]
      simp [hx]
    · rename_i hle
      have hx : v < x.2 := by simpa using hle
      have hall : ∀ y ∈ xs, decide (v < y.2) = true := by
        intro y hy
        exact decide_eq_true (hx.trans (hbefore y hy x (mem_singleton_self x)))
      rw [filter_eq_self.mpr hall]
      simp [hx]

lemma leaders_concat (xs : List (τ × ν)) (x : τ × ν) :
    leaders (xs ++ [x]) = (leaders xs).rdropWhile (fun y => decide (y.2 ≤ x.2)) ++ [x] := by
  rw [rdropWhile_of_decreasing (decreasing_leaders xs)]
  induction xs with
  | nil => simp [leaders]
  | cons y ys ih =>
    rw [cons_append, leaders, leaders, ih]
    by_cases hgreatest : ∀ z ∈ ys, z.2 < y.2
    · by_cases hx : x.2 < y.2
      · have hall : ∀ z ∈ ys ++ [x], z.2 < y.2 := by
          simpa [or_imp, forall_and, hx] using hgreatest
        rw [if_pos hall, if_pos hgreatest, filter_cons_of_pos (by simpa using hx)]
        rfl
      · have hnot : ¬∀ z ∈ ys ++ [x], z.2 < y.2 := fun hall => hx (hall x (by simp))
        rw [if_neg hnot, if_pos hgreatest, filter_cons_of_neg (by simpa using hx)]
    · have hnot : ¬∀ z ∈ ys ++ [x], z.2 < y.2 :=
        fun hall => hgreatest fun z hz => hall z (mem_append_left _ hz)
      rw [if_neg hnot, if_neg hgreatest]

section Times

variable [LinearOrder τ]

def InOrder (xs : List (τ × ν)) : Prop := xs.Pairwise fun x y => x.1 ≤ y.1

omit [LinearOrder ν] in
lemma dropWhile_of_inOrder (h : InOrder xs) (cutoff : τ) :
    xs.dropWhile (fun y => decide (y.1 < cutoff)) = xs.filter fun y => decide (cutoff ≤ y.1) := by
  induction xs with
  | nil => rfl
  | cons x xs ih =>
    obtain ⟨hx, hxs⟩ := pairwise_cons.mp h
    by_cases hold : x.1 < cutoff
    · rw [dropWhile_cons_of_pos (by simpa using hold), ih hxs,
        filter_cons_of_neg (by simpa using hold)]
    have hall : ∀ y ∈ x :: xs, decide (cutoff ≤ y.1) = true := by
      rw [not_lt] at hold
      exact forall_mem_cons.mpr
        ⟨decide_eq_true hold, fun y hy => decide_eq_true (hold.trans (hx y hy))⟩
    rw [dropWhile_cons_of_neg (by simpa using hold), filter_eq_self.mpr hall]

lemma filter_leaders (h : InOrder xs) (cutoff : τ) :
    (leaders xs).filter (fun y => decide (cutoff ≤ y.1)) =
      leaders (xs.filter fun y => decide (cutoff ≤ y.1)) := by
  induction xs with
  | nil => rfl
  | cons x xs ih =>
    obtain ⟨hx, hxs⟩ := pairwise_cons.mp h
    by_cases hold : cutoff ≤ x.1
    · -- nothing later is dropped, so the same samples lead
      have hall : ∀ y ∈ x :: xs, decide (cutoff ≤ y.1) = true :=
        forall_mem_cons.mpr
          ⟨decide_eq_true hold, fun y hy => decide_eq_true (hold.trans (hx y hy))⟩
      rw [filter_eq_self.mpr hall, filter_eq_self.mpr]
      exact fun y hy => hall y ((sublist_leaders _).subset hy)
    · rw [filter_cons_of_neg (by simpa using hold), leaders, ← ih hxs]
      split
      · exact filter_cons_of_neg (by simpa using hold)
      · rfl

lemma inOrder_leaders (h : InOrder xs) : InOrder (leaders xs) := h.sublist (sublist_leaders xs)

lemma dropWhile_leaders (h : InOrder xs) (cutoff : τ) :
    (leaders xs).dropWhile (fun y => decide (y.1 < cutoff)) =
      leaders (xs.filter fun y => decide (cutoff ≤ y.1)) := by
  rw [dropWhile_of_inOrder (inOrder_leaders h), filter_leaders h]

end Times

section Maximum

variable [OrderBot ν]

/-- The greatest value, or the least of all if there are no samples. -/
def maximum (xs : List (τ × ν)) : ν := (xs.map Prod.snd).foldr max ⊥

lemma maximum_eq {m : ν} (hmem : m ∈ xs.map Prod.snd) (hmax : ∀ y ∈ xs, y.2 ≤ m) :
    maximum xs = m := by
  induction xs with
  | nil => simp at hmem
  | cons x xs ih =>
    obtain ⟨hx, hxs⟩ := forall_mem_cons.mp hmax
    have hle : ∀ ys : List (τ × ν), (∀ y ∈ ys, y.2 ≤ m) → maximum ys ≤ m := by
      intro ys hys
      induction ys with
      | nil => exact bot_le
      | cons y ys ihys =>
        obtain ⟨hy, hys⟩ := forall_mem_cons.mp hys
        exact max_le hy (ihys hys)
    rw [map_cons, mem_cons] at hmem
    change max x.2 (maximum xs) = m
    rcases hmem with rfl | hmem
    · exact max_eq_left (hle xs hxs)
    · rw [ih hmem hxs]
      exact max_eq_right hx

lemma maximum_eq_head (xs : List (τ × ν)) :
    maximum xs = ((leaders xs).head?.map Prod.snd).getD ⊥ := by
  cases xs with
  | nil => rfl
  | cons x xs =>
    obtain ⟨m, rest, heq, hmem, hmax⟩ := leaders_head x xs
    rw [heq, maximum_eq (mem_map_of_mem hmem) hmax]
    rfl

end Maximum

end MonotoneWindow
