import Favonius.Lib.ByteCodec

/-!
# Packets in the slots of one buffer

A batch of packets lies in the slots of a buffer that is never cleared: behind a short packet are
the bytes of earlier batches.  What matters is the list of packets, and the operations on the
buffer are operations on that list.
-/

namespace SlotBuffer

open ByteCodec List

variable {α : Type*}

def overwrite (xs : List α) (pos : ℕ) (data : List α) : List α :=
  xs.take pos ++ (data ++ xs.drop (pos + data.length))

variable {xs data : List α} {pos : ℕ}

lemma length_overwrite (h : pos + data.length ≤ xs.length) :
    (overwrite xs pos data).length = xs.length := by
  simp only [overwrite, length_append, length_take, length_drop]
  omega

variable {written : List α} {writes : List (ℕ × List α)}

lemma overwrite_append (h : written.length = pos) (rest data : List α) :
    overwrite (written ++ rest) pos data = (written ++ data) ++ rest.drop data.length := by
  rw [overwrite, take_left' h, ← drop_drop, drop_left' h, append_assoc]

/-- Fields written one after the other, each at its own position. -/
def overwriteAll (xs : List α) (writes : List (ℕ × List α)) : List α :=
  writes.foldl (fun xs w => overwrite xs w.1 w.2) xs

def Adjacent : ℕ → List (ℕ × List α) → Prop
  | _, [] => True
  | pos, w :: writes => w.1 = pos ∧ Adjacent (pos + w.2.length) writes

/-- Adjacent fields end up side by side, and what lies behind them stays. -/
theorem overwriteAll_append (hpos : written.length = pos) (h : Adjacent pos writes)
    (rest : List α) :
    overwriteAll (written ++ rest) writes =
      written ++ writes.flatMap Prod.snd ++ rest.drop (writes.flatMap Prod.snd).length := by
  induction writes generalizing written pos rest with
  | nil => simp [overwriteAll]
  | cons w writes ih =>
    obtain ⟨hw, hrest⟩ := h
    have hlen : (written ++ w.2).length = pos + w.2.length := by
      rw [length_append, hpos]
    rw [overwriteAll, foldl_cons, hw, overwrite_append hpos, ← overwriteAll, ih hlen hrest]
    simp [append_assoc]

lemma overwriteAll_eq (h : Adjacent 0 writes) (xs : List α) :
    overwriteAll xs writes =
      writes.flatMap Prod.snd ++ xs.drop (writes.flatMap Prod.snd).length := by
  have hall := overwriteAll_append (rfl : ([] : List α).length = 0) h xs
  rwa [nil_append] at hall

lemma slice_overwrite_self (h : pos ≤ xs.length) (data : List α) :
    slice (overwrite xs pos data) pos data.length = data :=
  slice_eq_of_append rfl (by rw [length_take]; omega) rfl

lemma slice_overwrite_of_le {start len : ℕ} (h : start + len ≤ pos) (hpos : pos ≤ xs.length) :
    slice (overwrite xs pos data) start len = slice xs start len := by
  have hle : start + len ≤ (xs.take pos).length := by
    rw [length_take]
    omega
  rw [overwrite, slice_append_left hle]
  nth_rewrite 2 [← take_append_drop pos xs]
  rw [slice_append_left hle]

lemma slice_overwrite_of_ge {start : ℕ} (h : pos + data.length ≤ start) (hpos : pos ≤ xs.length)
    (len : ℕ) : slice (overwrite xs pos data) start len = slice xs start len := by
  have hlen : (xs.take pos ++ data).length = pos + data.length := by
    rw [length_append, length_take]
    omega
  obtain ⟨k, rfl⟩ := Nat.exists_eq_add_of_le h
  rw [overwrite, ← append_assoc, ← hlen, slice_append_right, hlen, slice, slice, drop_drop]

abbrev InPlace (α : Type*) := {f : List α → List α // ∀ xs, (f xs).length = xs.length}

structure Slots (α : Type*) where
  size : ℕ
  capacity : ℕ
  buf : List α
  lengths : List ℕ
  length_buf : buf.length = capacity * size
  count_le : lengths.length ≤ capacity
  fits : ∀ n ∈ lengths, n ≤ size

namespace Slots

variable (b : Slots α)

def packets : List (List α) := b.lengths.mapIdx fun i n => slice b.buf (i * b.size) n

variable {n : ℕ}

lemma slot_end_le {size i j : ℕ} (hij : i < j) (hn : n ≤ size) : i * size + n ≤ j * size :=
  calc i * size + n ≤ (i + 1) * size := by rw [Nat.add_one_mul]; omega
    _ ≤ j * size := Nat.mul_le_mul_right _ hij

lemma end_le {i : ℕ} (hi : i < b.capacity) (hn : n ≤ b.size) : i * b.size + n ≤ b.buf.length :=
  (slot_end_le hi hn).trans_eq b.length_buf.symm

/-- `none` when the batch is full or the packet is too long. -/
def push (p : List α) : Option (Slots α) :=
  if h : b.lengths.length < b.capacity ∧ p.length ≤ b.size then
    some { b with
      buf := overwrite b.buf (b.lengths.length * b.size) p
      lengths := b.lengths ++ [p.length]
      length_buf := (length_overwrite (b.end_le h.1 h.2)).trans b.length_buf
      count_le := by
        rw [length_append]
        exact h.1
      fits := by
        intro n hn
        rcases mem_append.mp hn with hold | hnew
        · exact b.fits n hold
        · rw [mem_singleton.mp hnew]
          exact h.2 }
  else none

/-- The slots are used again; their bytes stay. -/
def clear : Slots α := { b with
  lengths := []
  count_le := Nat.zero_le _
  fits := fun _ h => absurd h not_mem_nil }

@[simp] lemma packets_clear : b.clear.packets = [] := rfl

variable {p : List α}

lemma lengths_push {b b' : Slots α} (h : b.push p = some b') :
    b'.size = b.size ∧ b'.lengths = b.lengths ++ [p.length] ∧ p.length ≤ b.size := by
  unfold push at h
  split at h
  · rename_i hroom
    cases h
    exact ⟨rfl, rfl, hroom.2⟩
  · cases h

variable (f : InPlace α)

lemma length_overwrite_last (h : b.lengths.getLast? = some n) :
    (overwrite b.buf ((b.lengths.length - 1) * b.size)
      (f.1 (slice b.buf ((b.lengths.length - 1) * b.size) n))).length = b.capacity * b.size := by
  have hmem := mem_of_getLast? h
  have hpos := length_pos_of_mem hmem
  have hle := b.end_le (i := b.lengths.length - 1) (by have := b.count_le; omega) (b.fits n hmem)
  rw [length_overwrite]
  · exact b.length_buf
  · rw [f.2, length_slice]
    omega

def modifyLast (f : InPlace α) : Slots α :=
  match h : b.lengths.getLast? with
  | none => b
  | some n =>
    { b with
      buf := overwrite b.buf ((b.lengths.length - 1) * b.size)
        (f.1 (slice b.buf ((b.lengths.length - 1) * b.size) n))
      length_buf := b.length_overwrite_last f h }

lemma modifyLast_fields :
    (b.modifyLast f).size = b.size ∧ (b.modifyLast f).lengths = b.lengths := by
  unfold modifyLast
  split <;> exact ⟨rfl, rfl⟩

lemma packets_push {b b' : Slots α} (h : b.push p = some b') : b'.packets = b.packets ++ [p] := by
  unfold push at h
  split at h
  · rename_i hroom
    cases h
    have hend := b.end_le hroom.1 hroom.2
    simp only [packets, mapIdx_concat]
    rw [slice_overwrite_self (by omega) p]
    congr 1
    apply mapIdx_eq_mapIdx_iff.mpr
    intro i hi
    apply slice_overwrite_of_le
    · exact slot_end_le hi (b.fits _ (getElem_mem hi))
    · omega
  · cases h

lemma packets_modifyLast {b : Slots α} {ps : List (List α)} (h : b.packets = ps ++ [p]) :
    (b.modifyLast f).packets = ps ++ [f.1 p] := by
  rcases eq_nil_or_concat b.lengths with hnil | ⟨ls, n, hlengths⟩
  · simp [packets, hnil] at h
  rw [concat_eq_append] at hlengths
  rw [packets, hlengths, mapIdx_concat] at h
  obtain ⟨rfl, hp⟩ := append_inj' h rfl
  rw [singleton_inj] at hp
  subst hp
  have hfits : n ≤ b.size := b.fits n (by simp [hlengths])
  have hcount := b.count_le
  rw [hlengths, length_append, length_singleton] at hcount
  have hend := b.end_le hcount hfits
  have hlen : (f.1 (slice b.buf (ls.length * b.size) n)).length = n := by
    rw [f.2, length_slice]
    omega
  unfold modifyLast
  split
  · rename_i hlast
    simp [hlengths] at hlast
  rename_i n' hlast
  obtain rfl : n = n' := by simpa [hlengths] using hlast
  simp only [packets, hlengths, mapIdx_concat, length_append, length_singleton, Nat.add_sub_cancel]
  congr 1
  · apply mapIdx_eq_mapIdx_iff.mpr
    intro i hi
    apply slice_overwrite_of_le
    · exact slot_end_le hi (b.fits _ (by simp [hlengths]))
    · omega
  · rw [singleton_inj]
    have hself := slice_overwrite_self (show ls.length * b.size ≤ b.buf.length by omega)
      (f.1 (slice b.buf (ls.length * b.size) n))
    rwa [hlen] at hself

end Slots

/-- Cut into pieces of one size, the last one shorter if need be. -/
def segments (size : ℕ) : ℕ → List α → List (List α)
  | 0, _ => []
  | fuel + 1, xs =>
    if xs.isEmpty then [] else xs.take size :: segments size fuel (xs.drop size)

/-- A buffer of full slots is cut into what lies in the slots. -/
theorem segments_take {size count fuel : ℕ} {buf : List α} (hsize : 0 < size)
    (hfuel : count ≤ fuel) (hlen : count * size ≤ buf.length) :
    segments size fuel (buf.take (count * size)) =
      (List.replicate count size).mapIdx fun i n => slice buf (i * size) n := by
  induction count generalizing buf fuel with
  | zero =>
    rw [Nat.zero_mul, take_zero]
    cases fuel <;> rfl
  | succ count ih =>
    obtain ⟨fuel, rfl⟩ := Nat.exists_eq_add_of_lt hfuel
    rw [Nat.add_one_mul] at hlen ⊢
    have hne : (buf.take (count * size + size)).isEmpty = false := by
      rw [isEmpty_eq_false_iff, ← length_pos_iff, length_take]
      omega
    have hrest :
        (buf.take (count * size + size)).drop size = (buf.drop size).take (count * size) := by
      rw [drop_take, Nat.add_sub_cancel]
    rw [segments, hne, hrest, ih (by omega) (by rw [length_drop]; omega), take_take,
      Nat.min_eq_left (by omega), replicate_succ, mapIdx_cons]
    simp only [Bool.false_eq_true, if_false, slice, drop_drop, Nat.zero_mul, drop_zero,
      Nat.add_one_mul, Nat.add_comm size]

end SlotBuffer
