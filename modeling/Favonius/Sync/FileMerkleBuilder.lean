import Favonius.Sync.Resume

/-!
# Building a tree from slices

The builder takes a file in slices of any sizes, hashes whole chunks and keeps the
rest for the next slice.
-/

namespace Favonius.Sync

open ByteCodec Transfer List

structure FileMerkleBuilder where
  payloadSize : ℕ
  leaves : List (FixedBytes 32)
  /-- The tail that is not yet a chunk. -/
  partialChunk : Bytes

variable (blake3 : Bytes → FixedBytes 32)

/-- `none` is an invalid payload size. -/
def tryBuildFileMerkle (fileData : Bytes) (payloadSize : ℕ) : Option MerkleTree :=
  if payloadSize = 0 then none
  else some (.fromLeaves blake3 (fileLeaves blake3 fileData payloadSize))

lemma buildFileMerkle_eq (fileData : Bytes) (payloadSize : ℕ) :
    buildFileMerkle blake3 fileData payloadSize =
      (tryBuildFileMerkle blake3 fileData payloadSize).getD (.fromLeaves blake3 []) := by
  rw [buildFileMerkle, tryBuildFileMerkle]
  split <;> rfl

namespace FileMerkleBuilder

def new (payloadSize : ℕ) : Option FileMerkleBuilder :=
  if payloadSize = 0 then none else some ⟨payloadSize, [], []⟩

variable (b : FileMerkleBuilder)

/-- Complete the chunk that an earlier slice left open; what remains of the slice. -/
def completePartial (data : Bytes) : FileMerkleBuilder × Bytes :=
  if b.partialChunk.isEmpty then (b, data)
  else
    let take := min (b.payloadSize - b.partialChunk.length) data.length
    let chunk := b.partialChunk ++ data.take take
    if chunk.length = b.payloadSize then
      ({ b with leaves := b.leaves ++ [blake3 chunk], partialChunk := [] }, data.drop take)
    else ({ b with partialChunk := chunk }, data.drop take)

/-- Hash whole chunks out of the slice; `fuel` bounds their number. -/
def hashChunks : ℕ → FileMerkleBuilder → Bytes → FileMerkleBuilder × Bytes
  | 0, b, data => (b, data)
  | fuel + 1, b, data =>
    if b.payloadSize ≤ data.length then
      hashChunks fuel { b with leaves := b.leaves ++ [blake3 (data.take b.payloadSize)] }
        (data.drop b.payloadSize)
    else (b, data)

def update (data : Bytes) : FileMerkleBuilder :=
  let (b, data) := b.completePartial blake3 data
  let (b, data) := hashChunks blake3 data.length b data
  { b with partialChunk := b.partialChunk ++ data }

def finish : MerkleTree :=
  let leaves := if b.partialChunk.isEmpty then b.leaves
    else b.leaves ++ [blake3 b.partialChunk]
  .fromLeaves blake3 leaves

/-- The builder has hashed whole chunks and holds back what does not make one. -/
structure Fed (payloadSize : ℕ) (b : FileMerkleBuilder) (fed : Bytes) : Prop where
  size : b.payloadSize = payloadSize
  short : b.partialChunk.length < payloadSize
  chunks : ∃ chunks : List Bytes, (∀ c ∈ chunks, c.length = payloadSize) ∧
    chunks.flatten ++ b.partialChunk = fed ∧ b.leaves = chunks.map blake3

variable {blake3} {b} {payloadSize : ℕ} {fed : Bytes}

lemma fed_new {b : FileMerkleBuilder} (h : new payloadSize = some b) :
    Fed blake3 payloadSize b [] := by
  rw [new] at h
  split at h
  · cases h
  · rename_i hpos
    obtain rfl := Option.some.inj h
    exact ⟨rfl, Nat.pos_of_ne_zero hpos, [], by simp⟩

lemma Fed.close (h : Fed blake3 payloadSize b fed) {taken : Bytes}
    (hfull : (b.partialChunk ++ taken).length = payloadSize) :
    Fed blake3 payloadSize
      { b with leaves := b.leaves ++ [blake3 (b.partialChunk ++ taken)], partialChunk := [] }
        (fed ++ taken) := by
  obtain ⟨chunks, hlen, rfl, hleaves⟩ := h.chunks
  refine ⟨h.size, (Nat.zero_le _).trans_lt h.short, chunks ++ [b.partialChunk ++ taken], ?_, ?_, ?_⟩
  · exact forall_mem_append.mpr ⟨hlen, forall_mem_singleton.mpr hfull⟩
  · simp
  · simp [hleaves]

lemma Fed.push (h : Fed blake3 payloadSize b fed) {chunk : Bytes}
    (hchunk : chunk.length = payloadSize) (hempty : b.partialChunk = []) :
    Fed blake3 payloadSize { b with leaves := b.leaves ++ [blake3 chunk] } (fed ++ chunk) := by
  obtain ⟨size, leaves, held⟩ := b
  obtain rfl : held = [] := hempty
  exact h.close hchunk

lemma fed_hashChunks {fuel : ℕ} {data : Bytes} (hpos : 0 < payloadSize)
    (hfuel : data.length ≤ fuel) (h : Fed blake3 payloadSize b fed) (hempty : b.partialChunk = []) :
    ∃ b' rest done, hashChunks blake3 fuel b data = (b', rest) ∧ done ++ rest = data ∧
      rest.length < payloadSize ∧ b'.partialChunk = [] ∧
        Fed blake3 payloadSize b' (fed ++ done) := by
  induction fuel generalizing b data fed with
  | zero =>
    obtain rfl : data = [] := eq_nil_of_length_eq_zero (by omega)
    exact ⟨b, [], [], rfl, rfl, hpos, hempty, by simpa using h⟩
  | succ fuel ih =>
    rw [hashChunks, h.size]
    split
    · have hchunk : (data.take payloadSize).length = payloadSize := by
        rw [length_take]
        omega
      have hshorter : (data.drop payloadSize).length ≤ fuel := by
        rw [length_drop]
        omega
      obtain ⟨b', rest, done, hrun, hdone, hrest, hb', hfed⟩ :=
        ih hshorter (h.push hchunk hempty) hempty
      rw [h.size] at hrun
      refine ⟨b', rest, data.take payloadSize ++ done, hrun, ?_, hrest, hb', ?_⟩
      · rw [append_assoc, hdone, take_append_drop]
      · rwa [← append_assoc]
    · exact ⟨b, data, [], rfl, rfl, by omega, hempty, by simpa using h⟩

section

variable (h : Fed blake3 payloadSize b fed)
include h

lemma Fed.hold {rest : Bytes} (hshort : (b.partialChunk ++ rest).length < payloadSize) :
    Fed blake3 payloadSize { b with partialChunk := b.partialChunk ++ rest } (fed ++ rest) := by
  obtain ⟨chunks, hlen, rfl, hleaves⟩ := h.chunks
  exact ⟨h.size, hshort, chunks, hlen, (append_assoc _ _ _).symm, hleaves⟩

lemma fed_completePartial (data : Bytes) :
    ∃ b' rest done, b.completePartial blake3 data = (b', rest) ∧ done ++ rest = data ∧
      (b'.partialChunk = [] ∨ rest = []) ∧ Fed blake3 payloadSize b' (fed ++ done) := by
  obtain rfl := h.size
  rw [completePartial]
  split
  · rename_i hempty
    exact ⟨b, data, [], rfl, rfl, .inl (List.isEmpty_iff.mp hempty), by simpa using h⟩
  have hshort := h.short
  have htaken : (data.take (min (b.payloadSize - b.partialChunk.length) data.length)).length =
      min (b.payloadSize - b.partialChunk.length) data.length := by
    rw [length_take]
    omega
  dsimp only
  split
  · rename_i hfull
    exact ⟨_, _, _, rfl, take_append_drop _ _, .inl rfl, h.close hfull⟩
  rename_i hopen
  rw [length_append, htaken] at hopen
  refine ⟨_, _, _, rfl, take_append_drop _ _, .inr ?_, h.hold ?_⟩
  · rw [drop_eq_nil_iff]
    omega
  · rw [length_append, htaken]
    omega

lemma Fed.update (data : Bytes) :
    Fed blake3 payloadSize (b.update blake3 data) (fed ++ data) := by
  have hpos : 0 < payloadSize := (Nat.zero_le _).trans_lt h.short
  obtain ⟨b₁, rest, done, hpartial, rfl, hcases, hfed⟩ := fed_completePartial h data
  rw [FileMerkleBuilder.update, hpartial]
  dsimp only
  rcases hcases with hempty | rfl
  · obtain ⟨b₂, tail, hashed, hrun, hdone, hshort, hempty₂, hfed₂⟩ :=
      fed_hashChunks hpos (le_refl rest.length) hfed hempty
    have hfit : (b₂.partialChunk ++ tail).length < payloadSize := by
      rwa [hempty₂, nil_append]
    have hheld := hfed₂.hold hfit
    rw [append_assoc, hdone, append_assoc] at hheld
    rw [hrun]
    exact hheld
  · simpa [hashChunks] using hfed

lemma Fed.foldl_update (slices : List Bytes) :
    Fed blake3 payloadSize (slices.foldl (FileMerkleBuilder.update blake3) b)
      (fed ++ slices.flatten) := by
  induction slices generalizing b fed with
  | nil => simpa using h
  | cons data slices ih =>
    rw [foldl_cons, flatten_cons, ← append_assoc]
    exact ih (h.update data)

end

lemma fileLeaves_nil (hpos : 0 < payloadSize) : fileLeaves blake3 [] payloadSize = [] := by
  have hzero : (0 + payloadSize - 1) / payloadSize = 0 := Nat.div_eq_of_lt (by omega)
  simp only [fileLeaves, length_nil, hzero, range_zero, map_nil]

lemma fileLeaves_append (hpos : 0 < payloadSize) {chunk : Bytes}
    (hchunk : chunk.length = payloadSize) (rest : Bytes) :
    fileLeaves blake3 (chunk ++ rest) payloadSize =
      blake3 chunk :: fileLeaves blake3 rest payloadSize := by
  have htotal : ((chunk ++ rest).length + payloadSize - 1) / payloadSize =
      (rest.length + payloadSize - 1) / payloadSize + 1 := by
    rw [length_append, hchunk, ← Nat.add_div_right _ hpos]
    congr 1
    omega
  have hfirst : chunkAt (chunk ++ rest) payloadSize 0 = chunk := by
    rw [chunkAt, Nat.zero_mul, slice, drop_zero, take_left' hchunk]
  have hlater (i : ℕ) : chunkAt (chunk ++ rest) payloadSize (i + 1) =
      chunkAt rest payloadSize i := by
    rw [chunkAt, chunkAt, ← slice_append_right chunk rest, hchunk, Nat.succ_mul, Nat.add_comm]
  simp only [fileLeaves, htotal, range_succ_eq_map, map_cons, map_map,
    Function.comp_def, hfirst, Nat.succ_eq_add_one, hlater]

lemma fileLeaves_short {tail : Bytes} (hshort : tail.length < payloadSize) (hne : tail ≠ []) :
    fileLeaves blake3 tail payloadSize = [blake3 tail] := by
  have hlen := length_pos_iff.mpr hne
  have hone : (tail.length + payloadSize - 1) / payloadSize = 1 := by
    rw [Nat.div_eq_iff (by omega)]
    omega
  have hfirst : chunkAt tail payloadSize 0 = tail := by
    rw [chunkAt, Nat.zero_mul, slice, drop_zero, take_of_length_le hshort.le]
  simp only [fileLeaves, hone, range_one, map_cons, map_nil, hfirst]

lemma fileLeaves_flatten (hpos : 0 < payloadSize) {chunks : List Bytes}
    (hchunks : ∀ c ∈ chunks, c.length = payloadSize) (tail : Bytes) :
    fileLeaves blake3 (chunks.flatten ++ tail) payloadSize =
      chunks.map blake3 ++ fileLeaves blake3 tail payloadSize := by
  induction chunks with
  | nil => rfl
  | cons c chunks ih =>
    rw [flatten_cons, append_assoc, fileLeaves_append hpos (hchunks c mem_cons_self),
      ih fun d hd => hchunks d (mem_cons_of_mem c hd)]
    rfl

lemma Fed.finish_eq (h : Fed blake3 payloadSize b fed) :
    b.finish blake3 = .fromLeaves blake3 (fileLeaves blake3 fed payloadSize) := by
  have hpos : 0 < payloadSize := (Nat.zero_le _).trans_lt h.short
  obtain ⟨chunks, hlen, rfl, hleaves⟩ := h.chunks
  rw [finish, fileLeaves_flatten hpos hlen, hleaves]
  split
  · rename_i hempty
    rw [List.isEmpty_iff.mp hempty, fileLeaves_nil hpos, append_nil]
  · rename_i hne
    rw [fileLeaves_short h.short (by simpa using hne)]

lemma tryBuildFileMerkle_flatten (hnew : new payloadSize = some b) (slices : List Bytes) :
    tryBuildFileMerkle blake3 slices.flatten payloadSize =
      some ((slices.foldl (FileMerkleBuilder.update blake3) b).finish blake3) := by
  have hfed := (@fed_new blake3 _ _ hnew).foldl_update slices
  have hpos : 0 < payloadSize := (Nat.zero_le _).trans_lt hfed.short
  rw [tryBuildFileMerkle, if_neg (by omega), hfed.finish_eq, nil_append]

end FileMerkleBuilder

end Favonius.Sync
