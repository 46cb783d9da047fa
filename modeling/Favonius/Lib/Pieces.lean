import Mathlib.Data.List.Forall2
import Mathlib.Tactic

/-!
# Texts cut into pieces

A text is matched by a list of items when it can be cut into consecutive pieces, one for each item.
A table with one entry for every suffix of a text is a row.
-/

namespace Pieces

open List

variable {ι α : Type*}

/-- The text is made of pieces, one for each item in order, each fitting its item. -/
def Splits (fits : ι → List α → Prop) (items : List ι) (text : List α) : Prop :=
  ∃ pieces, List.Forall₂ fits items pieces ∧ pieces.flatten = text

variable {fits : ι → List α → Prop} {items : List ι} {text : List α}

@[simp] lemma splits_nil : Splits fits [] text ↔ text = [] := by
  constructor
  · rintro ⟨pieces, hpieces, rfl⟩
    cases hpieces
    rfl
  · rintro rfl
    exact ⟨[], .nil, rfl⟩

lemma splits_cons {i : ι} : Splits fits (i :: items) text ↔
    ∃ piece rest, text = piece ++ rest ∧ fits i piece ∧ Splits fits items rest := by
  constructor
  · rintro ⟨pieces, hpieces, rfl⟩
    cases hpieces with
    | cons hfirst hrest => exact ⟨_, _, rfl, hfirst, _, hrest, rfl⟩
  · rintro ⟨piece, rest, rfl, hfirst, pieces, hrest, rfl⟩
    exact ⟨piece :: pieces, .cons hfirst hrest, rfl⟩

def suffixRow (f : List α → Bool) : List α → List Bool
  | [] => [f []]
  | a :: text => f (a :: text) :: suffixRow f text

@[simp] lemma headD_suffixRow (f : List α → Bool) (text : List α) :
    (suffixRow f text).headD false = f text := by
  cases text <;> rfl

/-- A text is cut after the last occurrence of a symbol. -/
theorem exists_append_of_last [DecidableEq α] (a : α) (text : List α) :
    ∃ front back, text = front ++ back ∧ (front = [] ∨ front.getLast? = some a) ∧ a ∉ back := by
  induction text using reverseRecOn with
  | nil => exact ⟨[], [], rfl, .inl rfl, not_mem_nil⟩
  | append_singleton text b ih =>
    by_cases hb : b = a
    · subst hb
      exact ⟨text ++ [b], [], (append_nil _).symm, .inr (by simp), not_mem_nil⟩
    obtain ⟨front, back, rfl, hfront, hback⟩ := ih
    refine ⟨front, back ++ [b], (append_assoc front back [b]), hfront, ?_⟩
    rw [mem_append, mem_singleton]
    rintro (hmem | rfl)
    · exact hback hmem
    · exact hb rfl

end Pieces
