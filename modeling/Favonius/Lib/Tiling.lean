import Favonius.Lib.ByteCodec

/-!
# Intervals in a row

Intervals that follow each other without a gap, and the pieces that they cut out of
a list: put together they are the whole again.
-/

namespace Tiling

open ByteCodec List

/-- The intervals lead from `a` to `b`, each starting where the one before it ends. -/
def Tiles : ℕ → ℕ → List (ℕ × ℕ) → Prop
  | a, b, [] => a = b
  | a, b, p :: ps => p.1 = a ∧ a ≤ p.2 ∧ Tiles p.2 b ps

variable {a b c : ℕ} {ps qs : List (ℕ × ℕ)}

@[simp] lemma tiles_nil : Tiles a b [] ↔ a = b := Iff.rfl

@[simp] lemma tiles_cons {p : ℕ × ℕ} :
    Tiles a b (p :: ps) ↔ p.1 = a ∧ a ≤ p.2 ∧ Tiles p.2 b ps := Iff.rfl

lemma Tiles.le (h : Tiles a b ps) : a ≤ b := by
  induction ps generalizing a with
  | nil => exact Nat.le_of_eq h
  | cons p ps ih => exact h.2.1.trans (ih h.2.2)

lemma Tiles.mem (h : Tiles a b ps) {p : ℕ × ℕ} (hp : p ∈ ps) :
    a ≤ p.1 ∧ p.1 ≤ p.2 ∧ p.2 ≤ b := by
  induction ps generalizing a with
  | nil => cases hp
  | cons q ps ih =>
    obtain ⟨hstart, hle, hrest⟩ := h
    have hend := Tiles.le hrest
    rcases mem_cons.mp hp with rfl | hp
    · omega
    · have := ih hrest hp
      omega

lemma Tiles.append (hp : Tiles a b ps) (hq : Tiles b c qs) : Tiles a c (ps ++ qs) := by
  induction ps generalizing a with
  | nil =>
    obtain rfl : a = b := hp
    exact hq
  | cons p ps ih => exact ⟨hp.1, hp.2.1, ih hp.2.2⟩

lemma Tiles.eq_add_sum (h : Tiles a b ps) : b = a + (ps.map fun p => p.2 - p.1).sum := by
  induction ps generalizing a with
  | nil => exact Eq.symm h
  | cons p ps ih =>
    obtain ⟨hstart, hle, hrest⟩ := h
    have hend := ih hrest
    rw [map_cons, sum_cons]
    omega

variable {α : Type*}

lemma Tiles.flatMap_slice (h : Tiles a b ps) (xs : List α) :
    ps.flatMap (fun p => slice xs p.1 (p.2 - p.1)) = slice xs a (b - a) := by
  induction ps generalizing a with
  | nil =>
    obtain rfl : a = b := h
    simp [slice]
  | cons p ps ih =>
    obtain ⟨hstart, hle, hrest⟩ := h
    have hend := Tiles.le hrest
    rw [flatMap_cons, ih hrest, hstart, slice_append_slice (by omega)]
    congr 1
    omega

/-- `f` may stand for the pieces if it agrees with them on every interval. -/
theorem Tiles.flatMap_eq_slice {f : ℕ × ℕ → List α} (h : Tiles a b ps) {xs : List α}
    (hf : ∀ p ∈ ps, f p = slice xs p.1 (p.2 - p.1)) : ps.flatMap f = slice xs a (b - a) := by
  rw [← h.flatMap_slice]
  exact flatMap_congr hf

lemma flatten_flatMap {ι : Type*} (xs : List ι) (f : ι → List (List α)) :
    (xs.flatMap f).flatten = xs.flatMap fun x => (f x).flatten := by
  induction xs with
  | nil => rfl
  | cons x xs ih => rw [flatMap_cons, flatten_append, ih, flatMap_cons]

/-- From `start` in steps of `size`, the last one shorter; `fuel` bounds their number. -/
def windows (size : ℕ) : ℕ → ℕ → ℕ → List (ℕ × ℕ)
  | 0, _, _ => []
  | fuel + 1, start, stop =>
    if start < stop then
      (start, min (start + size) stop) :: windows size fuel (min (start + size) stop) stop
    else []

lemma tiles_windows {size fuel start stop : ℕ} (hsize : 0 < size) (hle : start ≤ stop)
    (hfuel : stop - start ≤ fuel) : Tiles start stop (windows size fuel start stop) := by
  induction fuel generalizing start with
  | zero => exact (by omega : start = stop)
  | succ fuel ih =>
    rw [windows]
    split
    · refine ⟨rfl, ?_, ih (min_le_right _ _) ?_⟩
      · omega
      · omega
    · exact (by omega : start = stop)

lemma tiles_steps {size : ℕ} (hsize : 0 < size) (stop : ℕ) :
    Tiles 0 stop ((range ((stop + size - 1) / size)).map fun i =>
      (i * size, i * size + min size (stop - i * size))) := by
  have hprefix : ∀ k ≤ (stop + size - 1) / size, Tiles 0 (min (k * size) stop)
      ((range k).map fun i => (i * size, i * size + min size (stop - i * size))) := by
    intro k hk
    induction k with
    | zero => simp
    | succ k ih =>
      have hlt : k * size + size ≤ stop + size - 1 := by
        rw [← Nat.succ_mul]
        exact (Nat.le_div_iff_mul_le hsize).mp hk
      rw [range_succ, map_append]
      refine (ih (Nat.le_of_succ_le hk)).append ⟨?_, ?_, ?_⟩
      · dsimp only
        omega
      · dsimp only
        omega
      · show k * size + min size (stop - k * size) = min ((k + 1) * size) stop
        rw [Nat.succ_mul]
        omega
  have hall := hprefix _ le_rfl
  rwa [min_eq_right] at hall
  have hlast := Nat.lt_div_mul_add hsize (a := stop + size - 1)
  omega

end Tiling
