import Mathlib.Tactic

/-!
# A reliable pipe

What was written to a pipe so far and how much of it was read.  A read takes any number of the
elements that are on their way, so what was read is at all times a prefix of what was written.
-/

namespace BytePipe

open List

variable {α : Type*}

structure Pipe (α : Type*) where
  written : List α
  taken : ℕ
  closed : Bool
  taken_le : taken ≤ written.length

namespace Pipe

def empty : Pipe α := ⟨[], 0, false, le_rfl⟩

variable (p : Pipe α)

def consumed : List α := p.written.take p.taken

def waiting : List α := p.written.drop p.taken

def write (data : List α) : Pipe α where
  written := p.written ++ data
  taken := p.taken
  closed := p.closed
  taken_le := by
    rw [length_append]
    exact p.taken_le.trans (Nat.le_add_right _ _)

def close : Pipe α := { p with closed := true }

def read (n : ℕ) : Option (List α × Pipe α) :=
  if h : p.taken + n ≤ p.written.length then
    some (p.waiting.take n, { p with taken := p.taken + n, taken_le := h })
  else none

def AtEnd : Prop := p.closed = true ∧ p.waiting = []

instance [DecidableEq α] : Decidable p.AtEnd := inferInstanceAs (Decidable (_ ∧ _))

@[simp] lemma written_write (data : List α) : (p.write data).written = p.written ++ data := rfl

@[simp] lemma written_close : p.close.written = p.written := rfl

@[simp] lemma consumed_close : p.close.consumed = p.consumed := rfl

@[simp] lemma consumed_write (data : List α) : (p.write data).consumed = p.consumed := by
  exact take_append_of_le_length p.taken_le

lemma consumed_prefix : p.consumed <+: p.written := take_prefix _ _

variable {p} {q : Pipe α} {n : ℕ} {data : List α}

lemma read_eq_some (h : p.read n = some (data, q)) :
    q.written = p.written ∧ q.consumed = p.consumed ++ data ∧ data.length = n ∧
      q.closed = p.closed := by
  unfold read at h
  split at h
  · cases h
    refine ⟨rfl, ?_, ?_, rfl⟩
    · simp only [consumed, waiting]
      rw [take_add]
    · rw [waiting, length_take, length_drop]
      omega
  · cases h

lemma exists_read (h : n ≤ p.waiting.length) : ∃ data q, p.read n = some (data, q) := by
  have hle : p.taken + n ≤ p.written.length := by
    have htaken := p.taken_le
    rw [waiting, length_drop] at h
    omega
  exact ⟨_, _, dif_pos hle⟩

end Pipe

end BytePipe
