import Favonius.Lib.ByteCodec

/-!
# Geometry of a transfer

How a file is cut into chunks and the chunks into streams.  Sender and daemon
run the same partition loop; the daemon writes each chunk into its mapping at
the chunk's own offset.
-/

namespace Favonius.Transfer

open ByteCodec List

/-- The `(base, count)` ranges the partition loop assigns from stream `i` on. -/
def streamRanges (totalChunks ns : ℕ) : ℕ → ℕ → ℕ → List (ℕ × ℕ)
  | 0, _, _ => []
  | remaining + 1, i, base =>
    let count := totalChunks / ns + if i < totalChunks % ns then 1 else 0
    (base, count) :: streamRanges totalChunks ns remaining (i + 1) (base + count)

@[simp] lemma length_streamRanges (totalChunks ns remaining i base : ℕ) :
    (streamRanges totalChunks ns remaining i base).length = remaining := by
  induction remaining generalizing i base with
  | zero => rfl
  | succ remaining ih => simp [streamRanges, ih]

/-- Where the ranges of the streams `i, …, i + remaining - 1` end. -/
def rangesEnd (totalChunks ns remaining i base : ℕ) : ℕ :=
  base + remaining * (totalChunks / ns) + (min (i + remaining) (totalChunks % ns) -
    min i (totalChunks % ns))

lemma rangesEnd_succ (totalChunks ns remaining i base : ℕ) :
    rangesEnd totalChunks ns (remaining + 1) i base =
      rangesEnd totalChunks ns remaining (i + 1)
        (base + (totalChunks / ns + if i < totalChunks % ns then 1 else 0)) := by
  simp only [rangesEnd, Nat.succ_mul]
  split <;> omega

variable {totalChunks ns : ℕ}

lemma rangesEnd_all (hns : 0 < ns) : rangesEnd totalChunks ns ns 0 0 = totalChunks := by
  have hmod := Nat.mod_lt totalChunks hns
  have hdiv := Nat.div_add_mod totalChunks ns
  simp only [rangesEnd]
  rw [Nat.zero_add, Nat.zero_add, min_eq_right hmod.le, Nat.zero_min, Nat.sub_zero]
  exact hdiv

variable {i : ℕ} {remaining base : ℕ} {file : Bytes}

lemma mem_streamRanges_lt {r : ℕ × ℕ} (h : r ∈ streamRanges totalChunks ns remaining i base) :
    base ≤ r.1 ∧ r.1 + r.2 ≤ rangesEnd totalChunks ns remaining i base := by
  induction remaining generalizing i base with
  | zero => simp [streamRanges] at h
  | succ remaining ih =>
    rw [rangesEnd_succ]
    rcases mem_cons.mp h with rfl | h
    · refine ⟨le_refl _, ?_⟩
      simp only [rangesEnd]
      omega
    · have hrest := ih h
      exact ⟨(Nat.le_add_right _ _).trans hrest.1, hrest.2⟩

variable {c : ℕ}

lemma exists_mem_streamRanges (hbase : base ≤ c)
    (hc : c < rangesEnd totalChunks ns remaining i base) :
    ∃ r ∈ streamRanges totalChunks ns remaining i base, r.1 ≤ c ∧ c < r.1 + r.2 := by
  induction remaining generalizing i base with
  | zero =>
    simp only [rangesEnd] at hc
    omega
  | succ remaining ih =>
    rw [rangesEnd_succ] at hc
    by_cases hin : c < base + (totalChunks / ns + if i < totalChunks % ns then 1 else 0)
    · exact ⟨_, mem_cons_self, hbase, hin⟩
    · obtain ⟨r, hr, hrc⟩ := ih (Nat.not_lt.mp hin) hc
      exact ⟨r, mem_cons_of_mem _ hr, hrc⟩

lemma pairwise_streamRanges (totalChunks ns remaining i base : ℕ) :
    (streamRanges totalChunks ns remaining i base).Pairwise fun a b => a.1 + a.2 ≤ b.1 := by
  induction remaining generalizing i base with
  | zero => exact List.Pairwise.nil
  | succ remaining ih =>
    refine List.Pairwise.cons ?_ (ih _ _)
    intro r hr
    exact (mem_streamRanges_lt hr).1

lemma sum_counts_streamRanges (totalChunks ns remaining i base : ℕ) :
    base + ((streamRanges totalChunks ns remaining i base).map Prod.snd).sum =
      rangesEnd totalChunks ns remaining i base := by
  induction remaining generalizing i base with
  | zero =>
    simp [streamRanges, rangesEnd]
  | succ remaining ih =>
    rw [rangesEnd_succ, ← ih]
    simp only [streamRanges, map_cons, sum_cons]
    omega

lemma toNat_ofNat_sub_ofNat {a b : ℕ} (hle : b ≤ a) (hlt : a < 2 ^ 64) :
    (UInt64.ofNat a - UInt64.ofNat b).toNat = a - b := by
  rw [UInt64.toNat_sub, UInt64.toNat_ofNat', UInt64.toNat_ofNat']
  omega

def chunkAt (file : Bytes) (payloadSize i : ℕ) : Bytes := slice file (i * payloadSize) payloadSize

variable {payloadSize : ℕ}

lemma lt_totalChunks_iff {fileSize : ℕ} (hpos : 0 < payloadSize) :
    i < (fileSize + payloadSize - 1) / payloadSize ↔ i * payloadSize < fileSize := by
  rw [← Nat.succ_le_iff, Nat.le_div_iff_mul_le hpos, Nat.succ_mul]
  omega

/-- Copy into the mapping at `offset`, clamped to the mapped region. -/
def writeChunk (mmap : Bytes) (offset : ℕ) (data : Bytes) : Bytes :=
  if mmap.length ≤ offset then mmap else
  let stop := min (offset + data.length) mmap.length
  mmap.take offset ++ data.take (stop - offset) ++ mmap.drop stop

lemma getElem?_writeChunk (mmap : Bytes) (offset : ℕ) (data : Bytes) (k : ℕ) :
    (writeChunk mmap offset data)[k]? =
      if offset ≤ k ∧ k < offset + data.length ∧ k < mmap.length then data[k - offset]?
      else mmap[k]? := by
  unfold writeChunk
  split
  · rw [if_neg (by omega)]
  simp only [append_assoc, getElem?_append, length_take, getElem?_take, getElem?_drop]
  by_cases hbefore : k < offset
  · rw [if_pos (by omega), if_pos hbefore, if_neg (by omega)]
  rw [if_neg (by omega)]
  by_cases hin : k < offset + data.length ∧ k < mmap.length
  · rw [if_pos (by omega), if_pos (by omega), if_pos (by omega)]
    congr 1
    omega
  · rw [if_neg (by omega), if_neg (by omega)]
    congr 1
    omega

@[simp] lemma length_writeChunk (mmap : Bytes) (offset : ℕ) (data : Bytes) :
    (writeChunk mmap offset data).length = mmap.length := by
  unfold writeChunk
  split
  · rfl
  · simp
    omega

lemma getElem?_chunkAt (file : Bytes) (payloadSize i j : ℕ) :
    (chunkAt file payloadSize i)[j]? =
      if j < payloadSize then file[i * payloadSize + j]? else none := by
  rw [chunkAt, slice, getElem?_take, getElem?_drop]

lemma length_chunkAt_le (file : Bytes) (payloadSize i : ℕ) :
    (chunkAt file payloadSize i).length ≤ payloadSize := by
  rw [chunkAt, length_slice]
  exact min_le_left _ _

variable {mmap : Bytes}

lemma chunkAt_writeChunk_of_ne {data : Bytes} (hdata : data.length ≤ payloadSize) (hne : i ≠ c) :
    chunkAt (writeChunk mmap (c * payloadSize) data) payloadSize i =
      chunkAt mmap payloadSize i := by
  apply ext_getElem?
  intro j
  rw [getElem?_chunkAt, getElem?_chunkAt, getElem?_writeChunk]
  by_cases hj : j < payloadSize
  · rw [if_pos hj, if_pos hj]
    apply if_neg
    -- the two chunks are at least one payload apart
    rcases Nat.lt_or_gt_of_ne hne with hlt | hgt
    · have hgap : (i + 1) * payloadSize ≤ c * payloadSize := Nat.mul_le_mul_right _ hlt
      rw [Nat.succ_mul] at hgap
      omega
    · have hgap : (c + 1) * payloadSize ≤ i * payloadSize := Nat.mul_le_mul_right _ hgt
      rw [Nat.succ_mul] at hgap
      omega
  · rw [if_neg hj, if_neg hj]

lemma chunkAt_writeChunk_self (hlen : mmap.length = file.length) :
    chunkAt (writeChunk mmap (c * payloadSize) (chunkAt file payloadSize c)) payloadSize c =
      chunkAt file payloadSize c := by
  apply ext_getElem?
  intro j
  have hlength : (chunkAt file payloadSize c).length =
      min payloadSize (file.length - c * payloadSize) := length_slice _ _ _
  rw [getElem?_chunkAt, getElem?_writeChunk, Nat.add_sub_cancel_left, hlength, getElem?_chunkAt]
  by_cases hj : j < payloadSize
  · rw [if_pos hj, if_pos hj]
    by_cases hin : c * payloadSize + j < file.length
    · rw [if_pos ⟨by omega, by omega, by omega⟩]
    · rw [if_neg (by omega), getElem?_eq_none (by omega), getElem?_eq_none (by omega)]
  · rw [if_neg hj, if_neg hj]

lemma eq_of_chunks (hpos : 0 < payloadSize) (hlen : mmap.length = file.length)
    (h : ∀ i, i * payloadSize < file.length →
      chunkAt mmap payloadSize i = chunkAt file payloadSize i) : mmap = file := by
  apply ext_getElem?
  intro k
  by_cases hk : k < file.length
  · have hdiv := Nat.div_add_mod k payloadSize
    have hmod := Nat.mod_lt k hpos
    rw [Nat.mul_comm] at hdiv
    have hchunk := congrArg (fun l : Bytes => l[k % payloadSize]?)
      (h (k / payloadSize) (by omega))
    simpa only [getElem?_chunkAt, if_pos hmod, hdiv] using hchunk
  · rw [getElem?_eq_none (by omega), getElem?_eq_none (by omega)]

end Favonius.Transfer
