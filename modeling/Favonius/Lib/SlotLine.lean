import Favonius.Lib.SlotBuffer

/-!
# Slots in use

Slots of a buffer go from hand to hand, and a state for each slot says who has it.  The slots in use
form a line, each with its state; every step moves one end of the line or one slot in it.
-/

namespace SlotLine

open Function List ByteCodec SlotBuffer

variable {σ : Type*} {n i : ℕ} {states : ℕ → σ} {line before after : List (ℕ × σ)} {x : σ}

structure Agrees (n : ℕ) (states : ℕ → σ) (line : List (ℕ × σ)) : Prop where
  nodup : (line.map Prod.fst).Nodup
  state : ∀ p ∈ line, p.1 < n ∧ states p.1 = p.2

namespace Agrees

lemma sublist {line' : List (ℕ × σ)} (h : Agrees n states line) (hsub : line' <+ line) :
    Agrees n states line' :=
  ⟨h.nodup.sublist (hsub.map _), fun p hp => h.state p (hsub.subset hp)⟩

lemma ne_of_mem (h : Agrees n states (before ++ (i, x) :: after)) {p : ℕ × σ}
    (hp : p ∈ before ++ after) : p.1 ≠ i := by
  have hnodup := (perm_middle.map Prod.fst).nodup_iff.mp h.nodup
  rw [map_cons, nodup_cons] at hnodup
  rintro rfl
  exact hnodup.1 (mem_map.mpr ⟨p, hp, rfl⟩)

lemma release (h : Agrees n states (before ++ (i, x) :: after)) (y : σ) :
    Agrees n (update states i y) (before ++ after) := by
  have hrest := h.sublist ((sublist_cons_self _ _).append_left before)
  refine ⟨hrest.nodup, fun p hp => ?_⟩
  rw [update_of_ne (h.ne_of_mem hp)]
  exact hrest.state p hp

lemma replace (h : Agrees n states (before ++ (i, x) :: after)) (y : σ) :
    Agrees n (update states i y) (before ++ (i, y) :: after) := by
  refine ⟨by simpa using h.nodup, fun p hp => ?_⟩
  rcases (perm_middle.mem_iff.trans mem_cons).mp hp with rfl | hp
  · exact ⟨(h.state (i, x) (by simp)).1, update_self ..⟩
  · exact (h.release y).state p hp

/-- A slot in a state that no slot of the line is in joins it. -/
theorem claim (h : Agrees n states line) (hi : i < n) (hfree : ∀ p ∈ line, p.2 ≠ states i) (y : σ) :
    Agrees n (update states i y) (line ++ [(i, y)]) := by
  have hne : ∀ p ∈ line, p.1 ≠ i := by
    rintro p hp rfl
    exact hfree p hp (h.state p hp).2.symm
  constructor
  · rw [map_append, nodup_append]
    refine ⟨h.nodup, nodup_singleton i, ?_⟩
    rintro _ hj _ hk rfl
    obtain ⟨p, hp, rfl⟩ := mem_map.mp hj
    exact hne p hp (mem_singleton.mp hk)
  · rw [forall_mem_append, forall_mem_singleton]
    refine ⟨fun p hp => ?_, hi, update_self ..⟩
    rw [update_of_ne (hne p hp)]
    exact h.state p hp

end Agrees

lemma slice_other {α : Type*} {buf data : List α} {size j len : ℕ} (hbuf : buf.length = n * size)
    (hi : i < n) (hdata : data.length ≤ size) (hne : j ≠ i) (hlen : len ≤ size) :
    slice (overwrite buf (i * size) data) (j * size) len = slice buf (j * size) len := by
  have hpos : i * size ≤ buf.length := by
    rw [hbuf]
    exact Nat.mul_le_mul_right _ hi.le
  rcases Nat.lt_or_gt_of_ne hne with hlt | hgt
  · exact slice_overwrite_of_le (Slots.slot_end_le hlt hlen) hpos
  · exact slice_overwrite_of_ge (Slots.slot_end_le hgt hdata) hpos _

end SlotLine
