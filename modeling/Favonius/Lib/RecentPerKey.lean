import Mathlib.Tactic
import Mathlib.Data.List.DropRight

/-!
# The latest entries of each key

Of every key the last `cap` entries of a list, in the order of the list.
-/

namespace RecentPerKey

open List

variable {α κ : Type*} [DecidableEq κ] (key : α → κ) (cap : ℕ)

def keyCount (k : κ) (xs : List α) : ℕ := xs.countP (key · = k)

/-- The entries with fewer than `cap` later ones of their key. -/
def recent : List α → List α
  | [] => []
  | x :: xs => if keyCount key (key x) xs < cap then x :: recent xs else recent xs

/-- Pass over the first entries of each key, as many as `left` says. -/
def skip : (κ → ℕ) → List α → List α
  | _, [] => []
  | left, x :: xs =>
    if 0 < left (key x) then skip (Function.update left (key x) (left (key x) - 1)) xs
    else x :: skip left xs

variable {key cap} (k : κ)

lemma keyCount_cons (x : α) (xs : List α) :
    keyCount key k (x :: xs) = keyCount key k xs + if key x = k then 1 else 0 := by
  simp [keyCount, countP_cons]

lemma filter_recent (xs : List α) :
    (recent key cap xs).filter (key · = k) = (xs.filter (key · = k)).rtake cap := by
  induction xs with
  | nil => simp [recent, rtake]
  | cons x xs ih =>
    rw [recent]
    by_cases hk : key x = k
    · subst hk
      have hlen : keyCount key (key x) xs = (xs.filter (key · = key x)).length :=
        countP_eq_length_filter
      rw [filter_cons_of_pos (by simp), rtake, length_cons]
      split_ifs with hcount
      · rw [filter_cons_of_pos (by simp), ih, rtake]
        simp [show (xs.filter (key · = key x)).length + 1 - cap = 0 by omega,
          show (xs.filter (key · = key x)).length - cap = 0 by omega]
      · rw [ih, rtake, show (xs.filter (key · = key x)).length + 1 - cap =
          (xs.filter (key · = key x)).length - cap + 1 by omega, drop_succ_cons]
    · rw [filter_cons_of_neg (by simpa using hk), ← ih]
      split_ifs
      · rw [filter_cons_of_neg (by simpa using hk)]
      · rfl

lemma keyCount_recent (xs : List α) :
    keyCount key k (recent key cap xs) = min (keyCount key k xs) cap := by
  rw [keyCount, countP_eq_length_filter, filter_recent, rtake, length_drop, keyCount,
    countP_eq_length_filter]
  omega

lemma recent_append (xs ys : List α) :
    recent key cap (recent key cap xs ++ ys) = recent key cap (xs ++ ys) := by
  induction xs with
  | nil => rfl
  | cons x xs ih =>
    have hys : ∀ zs, keyCount key (key x) (zs ++ ys) =
        keyCount key (key x) zs + keyCount key (key x) ys :=
      fun zs => countP_append
    have hmin : keyCount key (key x) (recent key cap xs) = _ := keyCount_recent _ _
    rw [cons_append, recent, recent, hys]
    split_ifs with hcount hall hall
    · rw [cons_append, recent, hys, if_pos (by omega), ih]
    · rw [cons_append, recent, hys, if_neg (by omega), ih]
    · omega
    · exact ih

lemma skip_eq_recent {left : κ → ℕ} {xs : List α} (h : ∀ k, left k = keyCount key k xs - cap) :
    skip key left xs = recent key cap xs := by
  induction xs generalizing left with
  | nil => rfl
  | cons x xs ih =>
    have hx := h (key x)
    rw [keyCount_cons, if_pos rfl] at hx
    rw [skip, recent]
    split_ifs with hskip hcount hcount
    · omega
    · apply ih
      intro k
      have hk := h k
      rw [keyCount_cons] at hk
      by_cases heq : key x = k
      · subst heq
        rw [Function.update_self]
        omega
      · rw [Function.update_of_ne (Ne.symm heq), hk, if_neg heq, Nat.add_zero]
    · congr 1
      apply ih
      intro k
      have hk := h k
      rw [keyCount_cons] at hk
      split_ifs at hk with heq
      · subst heq
        omega
      · exact hk
    · omega

end RecentPerKey
