import Mathlib.Logic.Function.Basic
import Mathlib.Tactic

/-!
# Files behind directory entries

Directory entries lead to inodes and inodes to contents, so that an open file keeps its inode
when its name is removed, replaced or opened again.
-/

namespace FileTable

open Function

variable {L α : Type*}

structure Files (L α : Type*) where
  entries : L → Option ℕ
  contents : ℕ → List α
  next : ℕ
  entries_lt : ∀ p i, entries p = some i → i < next

/-- Put data at a position; a gap before it is filled. -/
def writeAt (fill : α) (xs : List α) (pos : ℕ) (data : List α) : List α :=
  xs.take pos ++ List.replicate (pos - xs.length) fill ++ data ++ xs.drop (pos + data.length)

lemma writeAt_length (fill : α) (xs data : List α) :
    writeAt fill xs xs.length data = xs ++ data := by
  simp [writeAt]

namespace Files

variable [DecidableEq L] (f : Files L α)

def create (p : L) : Files L α × ℕ :=
  match f.entries p with
  | some i => ({ f with contents := update f.contents i [] }, i)
  | none =>
    ({ entries := update f.entries p (some f.next)
       contents := update f.contents f.next []
       next := f.next + 1
       entries_lt := by
        intro q i hq
        by_cases h : q = p
        · subst h
          rw [update_self] at hq
          cases hq
          exact Nat.lt_succ_self _
        · rw [update_of_ne h] at hq
          exact (f.entries_lt q i hq).trans (Nat.lt_succ_self _) }, f.next)

def write (fill : α) (i pos : ℕ) (data : List α) : Files L α :=
  { f with contents := update f.contents i (writeAt fill (f.contents i) pos data) }

def remove (p : L) : Files L α where
  entries := update f.entries p none
  contents := f.contents
  next := f.next
  entries_lt q i hq := by
    by_cases h : q = p
    · subst h
      rw [update_self] at hq
      cases hq
    · exact f.entries_lt q i (by rwa [update_of_ne h] at hq)

/-- Fails if there is nothing under the old name; what was under the new one is replaced. -/
def rename (p q : L) : Option (Files L α) :=
  match h : f.entries p with
  | none => none
  | some i => some
      { entries := update (update f.entries p none) q (some i)
        contents := f.contents
        next := f.next
        entries_lt := by
          intro r j hr
          by_cases hrq : r = q
          · subst hrq
            rw [update_self] at hr
            cases hr
            exact f.entries_lt p i h
          · rw [update_of_ne hrq] at hr
            exact (f.remove p).entries_lt r j hr }

lemma create_entries (p : L) : (f.create p).1.entries p = some (f.create p).2 := by
  cases h : f.entries p with
  | none | some => simp [create, h]

variable {p q : L}

lemma create_entries_of_ne (hq : q ≠ p) : (f.create p).1.entries q = f.entries q := by
  cases h : f.entries p with
  | none => simp [create, h, update_of_ne hq]
  | some i => simp [create, h]

lemma create_contents (p : L) : (f.create p).1.contents (f.create p).2 = [] := by
  cases h : f.entries p with
  | none | some => simp [create, h]

lemma create_contents_of_ne {i : ℕ} (hi : i ≠ (f.create p).2) :
    (f.create p).1.contents i = f.contents i := by
  cases h : f.entries p with
  | none | some =>
    simp only [create, h] at hi ⊢
    exact update_of_ne hi _ _

lemma create_next_le (p : L) : f.next ≤ (f.create p).1.next := by
  cases h : f.entries p with
  | none | some => simp [create, h]

lemma create_inode (p : L) : f.entries p = some (f.create p).2 ∨ (f.create p).2 = f.next := by
  cases h : f.entries p with
  | none => exact .inr (by simp [create, h])
  | some i => exact .inl (by simp [create, h])

lemma create_inode_lt (p : L) : (f.create p).2 < (f.create p).1.next :=
  (f.create p).1.entries_lt p _ (f.create_entries p)

omit [DecidableEq L] in
lemma write_contents (fill : α) (i pos : ℕ) (data : List α) :
    (f.write fill i pos data).contents i = writeAt fill (f.contents i) pos data :=
  update_self _ _ _

lemma rename_eq_some {g : Files L α} (h : f.rename p q = some g) :
    g.contents = f.contents ∧ g.next = f.next ∧ ∀ r, r ≠ p → r ≠ q → g.entries r = f.entries r := by
  unfold rename at h
  split at h
  · cases h
  cases h
  refine ⟨rfl, rfl, ?_⟩
  intro r hp hq
  dsimp only
  rw [update_of_ne hq, update_of_ne hp]

lemma rename_entries {g : Files L α} (h : f.rename p q = some g) : g.entries q = f.entries p := by
  unfold rename at h
  split at h
  · cases h
  · rename_i i hi
    cases h
    exact (update_self _ _ _).trans hi.symm

end Files

end FileTable
