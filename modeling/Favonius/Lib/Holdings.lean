import Mathlib.Data.List.Nodup
import Mathlib.Data.List.Perm.Basic
import Mathlib.Tactic

/-!
# What a list of parties holds

Each party of a list holds some tokens.  When one party changes, the tokens of all of them
change by what that party gave up and took; if no token occurs twice, a token tells who holds it.
-/

namespace Holdings

open List

variable {α β : Type*}

variable {parties : List α} {k : ℕ} {new p : α} {j : ℕ} {old : α} {x : β}

lemma getElem?_set_cases (h : (parties.set k new)[j]? = some p) :
    j = k ∧ p = new ∨ j ≠ k ∧ parties[j]? = some p := by
  by_cases hj : j = k
  · subst hj
    have hlt : j < parties.length := by
      simpa using (List.getElem?_eq_some_iff.mp h).1
    rw [getElem?_set_self hlt] at h
    exact .inl ⟨rfl, (Option.some.inj h).symm⟩
  · rw [getElem?_set_ne (Ne.symm hj)] at h
    exact .inr ⟨hj, h⟩

lemma getElem?_concat_cases (h : (parties ++ [new])[k]? = some p) :
    parties[k]? = some p ∨ k = parties.length ∧ p = new := by
  rcases lt_or_ge k parties.length with hk | hk
  · rw [getElem?_append_left hk] at h
    exact .inl h
  · rw [getElem?_append_right hk, getElem?_singleton] at h
    split at h
    · exact .inr ⟨by omega, (Option.some.inj h).symm⟩
    · cases h

variable (held : α → List β)

/-- Replacing one party exchanges its tokens. -/
theorem flatMap_set_perm (hold : parties[k]? = some old) (new : α) :
    ((parties.set k new).flatMap held ++ held old).Perm (parties.flatMap held ++ held new) := by
  induction parties generalizing k with
  | nil => cases hold
  | cons party parties ih =>
    cases k with
    | zero =>
      cases hold
      rw [set_cons_zero, flatMap_cons, flatMap_cons, append_assoc, append_assoc]
      have hcomm : (parties.flatMap held ++ held old).Perm (held old ++ parties.flatMap held) :=
        perm_append_comm
      have hswap := perm_append_comm.trans (hcomm.append_right (held new))
      rwa [append_assoc (held old)] at hswap
    | succ k =>
      rw [set_cons_succ, flatMap_cons, flatMap_cons, append_assoc, append_assoc]
      exact (ih hold).append_left _

lemma flatMap_set_of_eq (hold : parties[k]? = some old) (heq : held new = held old) :
    (parties.set k new).flatMap held = parties.flatMap held := by
  induction parties generalizing k with
  | nil => cases hold
  | cons party parties ih =>
    cases k with
    | zero =>
      cases hold
      rw [set_cons_zero, flatMap_cons, flatMap_cons, heq]
    | succ k => rw [set_cons_succ, flatMap_cons, flatMap_cons, ih hold]

lemma mem_flatMap_of_getElem? {party : α} (hk : parties[k]? = some party) (hx : x ∈ held party) :
    x ∈ parties.flatMap held :=
  mem_flatMap.mpr ⟨party, mem_of_getElem? hk, hx⟩

lemma index_unique (hnodup : (parties.flatMap held).Nodup) {q : α} (hp : parties[j]? = some p)
    (hq : parties[k]? = some q) (hxp : x ∈ held p) (hxq : x ∈ held q) : j = k := by
  induction parties generalizing j k with
  | nil => cases hp
  | cons party parties ih =>
    rw [flatMap_cons, nodup_append'] at hnodup
    obtain ⟨-, hrest, hdisjoint⟩ := hnodup
    cases j with
    | zero =>
      cases k with
      | zero => rfl
      | succ k =>
        cases hp
        rw [getElem?_cons_succ] at hq
        exact (hdisjoint hxp (mem_flatMap_of_getElem? held hq hxq)).elim
    | succ j =>
      cases k with
      | zero =>
        cases hq
        rw [getElem?_cons_succ] at hp
        exact (hdisjoint hxq (mem_flatMap_of_getElem? held hp hxp)).elim
      | succ k => rw [ih hrest hp hq]

end Holdings
