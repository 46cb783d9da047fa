import Favonius.Api.ManifestHash
import Favonius.Lib.Tiling

/-!
# The chunk layout of a manifest

Every file has a range of chunks behind those of the files before it, and every chunk a range of
bytes of its file.  Where a file starts is counted in 64 bits.
-/

namespace Favonius.Api

open ByteCodec Tiling

def chunkByteRange (fileSize : UInt64) (chunkSize localChunk : UInt32) : UInt64 × UInt64 :=
  let cs := chunkSize.toUInt64
  let offset := localChunk.toUInt64 * cs
  let rest := if offset ≤ fileSize then fileSize - offset else 0
  (offset, if cs ≤ rest then cs else rest)

lemma toNat_ite_le (x y : UInt64) : (if x ≤ y then x else y).toNat = min x.toNat y.toNat := by
  split
  · rename_i hle
    exact (min_eq_left (UInt64.le_iff_toNat_le.mp hle)).symm
  · rename_i hlt
    exact (min_eq_right (UInt64.le_iff_toNat_le.mp (UInt64.le_of_lt (UInt64.not_le.mp hlt)))).symm

/-- The product of two 32-bit numbers does not overflow. -/
theorem toNat_chunkByteRange (fileSize : UInt64) (chunkSize localChunk : UInt32) :
    (chunkByteRange fileSize chunkSize localChunk).1.toNat =
        localChunk.toNat * chunkSize.toNat ∧
      (chunkByteRange fileSize chunkSize localChunk).2.toNat =
        min chunkSize.toNat (fileSize.toNat - localChunk.toNat * chunkSize.toNat) := by
  have hoffset : (localChunk.toUInt64 * chunkSize.toUInt64).toNat =
      localChunk.toNat * chunkSize.toNat := by
    rw [UInt64.toNat_mul, UInt32.toNat_toUInt64, UInt32.toNat_toUInt64]
    refine Nat.mod_eq_of_lt ?_
    calc localChunk.toNat * chunkSize.toNat ≤ (2 ^ 32 - 1) * (2 ^ 32 - 1) :=
          Nat.mul_le_mul (Nat.le_pred_of_lt localChunk.toNat_lt)
            (Nat.le_pred_of_lt chunkSize.toNat_lt)
      _ < 2 ^ 64 := by norm_num
  have hrest : (if localChunk.toUInt64 * chunkSize.toUInt64 ≤ fileSize then
        fileSize - localChunk.toUInt64 * chunkSize.toUInt64 else 0).toNat =
      fileSize.toNat - localChunk.toNat * chunkSize.toNat := by
    split
    · rename_i hle
      rw [UInt64.toNat_sub_of_le _ _ hle, hoffset]
    · rename_i hlt
      rw [UInt64.le_iff_toNat_le, hoffset] at hlt
      rw [Nat.sub_eq_zero_of_le (by omega)]
      rfl
  refine ⟨hoffset, ?_⟩
  rw [← hrest, ← UInt32.toNat_toUInt64 chunkSize]
  exact toNat_ite_le _ _

def chunksNeeded (size chunkSize : ℕ) : ℕ := (size + chunkSize - 1) / chunkSize

lemma div_add_eq_chunksNeeded {chunkSize : ℕ} (hpos : 0 < chunkSize) (size : ℕ) :
    (size / chunkSize + if size % chunkSize = 0 then 0 else 1) = chunksNeeded size chunkSize := by
  have hsplit := Nat.div_add_mod size chunkSize
  have hmod := Nat.mod_lt size hpos
  refine (Nat.div_eq_of_lt_le ?_ ?_).symm
  · rw [Nat.add_mul, Nat.mul_comm]
    split <;> omega
  · rw [Nat.add_mul, Nat.add_mul, Nat.mul_comm]
    split <;> omega

lemma chunksForSize_eq {chunkSize : UInt32} (hsize : chunkSize ≠ 0) (size : UInt64) :
    (2 ^ 32 ≤ chunksNeeded size.toNat chunkSize.toNat ∧
        ∃ e, chunksForSize size chunkSize = .error e) ∨
      ∃ c, chunksForSize size chunkSize = .ok c ∧
        c.toNat = chunksNeeded size.toNat chunkSize.toNat := by
  have hpos : 0 < chunkSize.toNat :=
    Nat.pos_of_ne_zero fun h => hsize (UInt32.toNat_inj.mp h)
  rw [chunksForSize, if_neg hsize]
  split
  · rename_i hzero
    refine .inr ⟨0, rfl, ?_⟩
    rw [hzero, chunksNeeded]
    exact (Nat.div_eq_of_lt (by simpa using hpos)).symm
  · dsimp only
    rw [div_add_eq_chunksNeeded hpos]
    split
    · rename_i hlt
      exact .inr ⟨_, rfl, UInt32.toNat_ofNat_of_lt hlt⟩
    · rename_i hlt
      exact .inl ⟨not_lt.mp hlt, _, rfl⟩

namespace ManifestBuilder

variable {blake3 : Bytes → FixedBytes 32} {b : ManifestBuilder} {m : Manifest}
  {chunkSize : UInt32} {index : ℕ} {offset : UInt64} {entries : List FileEntry}
  {r : List ManifestFile × UInt64}

def neededBy (chunkSize : UInt32) (e : FileEntry) : ℕ :=
  chunksNeeded e.size.toNat chunkSize.toNat

/-- The chunk size is zero, or some file needs more chunks than 32 bits can count. -/
def Refused (b : ManifestBuilder) : Prop :=
  b.chunkSize = 0 ∨ ∃ e ∈ b.files, 2 ^ 32 - 1 < neededBy b.chunkSize e

lemma layout_error_iff (hsize : chunkSize ≠ 0) (index : ℕ) (offset : UInt64) :
    (∃ e, layout chunkSize index offset entries = .error e) ↔
      ∃ e ∈ entries, 2 ^ 32 - 1 < neededBy chunkSize e := by
  induction entries generalizing index offset with
  | nil => simp [layout]
  | cons entry entries ih =>
    rw [List.exists_mem_cons_iff, layout]
    rcases chunksForSize_eq hsize entry.size with ⟨hlarge, e, he⟩ | ⟨c, hc, hneeded⟩
    · rw [he]
      exact ⟨fun _ => .inl (by rw [neededBy]; omega), fun _ => ⟨e, rfl⟩⟩
    have hsmall : ¬2 ^ 32 - 1 < neededBy chunkSize entry := by
      rw [neededBy, ← hneeded]
      have := c.toNat_lt
      omega
    rw [hc, ← ih (index + 1) (offset + c.toUInt64), or_iff_right hsmall]
    dsimp only
    cases layout chunkSize (index + 1) (offset + c.toUInt64) entries with
    | error e => exact ⟨fun _ => ⟨e, rfl⟩, fun _ => ⟨e, rfl⟩⟩
    | ok r => simp [Except.map]

lemma counts_layout (hsize : chunkSize ≠ 0) (h : layout chunkSize index offset entries = .ok r) :
    r.1.map (fun f => (f.size, f.chunkCount.toNat)) =
      entries.map fun e => (e.size, neededBy chunkSize e) := by
  induction entries generalizing index offset r with
  | nil =>
    cases h
    rfl
  | cons entry entries ih =>
    obtain ⟨c, rest, hcount, hrest, rfl⟩ := layout_cons h
    rcases chunksForSize_eq hsize entry.size with ⟨-, e, he⟩ | ⟨c', hc, hneeded⟩
    · rw [he] at hcount
      cases hcount
    · obtain rfl := Except.ok.inj (hcount.symm.trans hc)
      rw [List.map_cons, List.map_cons, ih hrest, neededBy, ← hneeded]

def chunkRange (f : ManifestFile) : ℕ × ℕ :=
  (f.firstChunk.toNat, f.firstChunk.toNat + f.chunkCount.toNat)

lemma tiles_layout (h : layout chunkSize index offset entries = .ok r)
    (hfits : offset.toNat + (r.1.map fun f => f.chunkCount.toNat).sum < 2 ^ 64) :
    Tiles offset.toNat r.2.toNat (r.1.map chunkRange) := by
  induction entries generalizing index offset r with
  | nil =>
    cases h
    rfl
  | cons entry entries ih =>
    obtain ⟨c, rest, -, hrest, rfl⟩ := layout_cons h
    simp only [List.map_cons, List.sum_cons] at hfits ⊢
    have hnext : (offset + c.toUInt64).toNat = offset.toNat + c.toNat := by
      rw [UInt64.toNat_add, UInt32.toNat_toUInt64]
      exact Nat.mod_eq_of_lt (by omega)
    have htiles := ih hrest (by omega)
    rw [hnext] at htiles
    exact ⟨rfl, Nat.le_add_right _ _, htiles⟩

def byteRange (size : UInt64) (chunkSize : UInt32) (localChunk : ℕ) : ℕ × ℕ :=
  let r := chunkByteRange size chunkSize (.ofNat localChunk)
  (r.1.toNat, r.1.toNat + r.2.toNat)

structure LaysOut (b : ManifestBuilder) (m : Manifest) : Prop where
  sizes : m.files.map (·.size) = b.files.map (·.size)
  chunks : Tiles 0 m.totalChunks.toNat (m.files.map chunkRange)
  bytes : ∀ f ∈ m.files, Tiles 0 f.size.toNat
    ((List.range f.chunkCount.toNat).map (byteRange f.size b.chunkSize))
  lengths : ∀ f ∈ m.files, ∀ i < f.chunkCount.toNat,
    (byteRange f.size b.chunkSize i).1 < (byteRange f.size b.chunkSize i).2 ∧
      (byteRange f.size b.chunkSize i).2 ≤
        (byteRange f.size b.chunkSize i).1 + b.chunkSize.toNat

lemma build_error_iff (blake3 : Bytes → FixedBytes 32) (b : ManifestBuilder) :
    (∃ e, b.build blake3 = .error e) ↔ b.Refused := by
  unfold build Refused
  split
  · rename_i hzero
    exact ⟨fun _ => .inl hzero, fun _ => ⟨_, rfl⟩⟩
  rename_i hsize
  rw [or_iff_right hsize, ← layout_error_iff hsize 0 0]
  cases layout b.chunkSize 0 0 b.files with
  | error e => exact ⟨fun _ => ⟨e, rfl⟩, fun _ => ⟨e, rfl⟩⟩
  | ok r => exact ⟨nofun, nofun⟩

lemma chunkSize_ne_zero (h : b.build blake3 = .ok m) : b.chunkSize ≠ 0 := by
  intro hzero
  rw [build, if_pos hzero] at h
  cases h

lemma sum_chunkCount (h : b.build blake3 = .ok m) :
    (m.files.map fun f => f.chunkCount.toNat).sum =
      (b.files.map (neededBy b.chunkSize)).sum := by
  have hcounts := congrArg (List.map Prod.snd)
    (counts_layout (chunkSize_ne_zero h) (build_eq_ok h).1)
  rw [List.map_map, List.map_map] at hcounts
  exact congrArg List.sum hcounts

lemma LaysOut.sum_lt (h : b.build blake3 = .ok m) (hlays : LaysOut b m) :
    (b.files.map (neededBy b.chunkSize)).sum < 2 ^ 64 := by
  have htotal := hlays.chunks.eq_add_sum
  rw [List.map_map, Nat.zero_add] at htotal
  have hrange : (fun p : ℕ × ℕ => p.2 - p.1) ∘ chunkRange = fun f => f.chunkCount.toNat := by
    funext f
    exact Nat.add_sub_cancel_left _ _
  rw [hrange, sum_chunkCount h] at htotal
  exact htotal ▸ m.totalChunks.toNat_lt

lemma byteRange_eq {size : UInt64} {i : ℕ} (hi : i < 2 ^ 32) : byteRange size chunkSize i =
    (i * chunkSize.toNat, i * chunkSize.toNat +
      min chunkSize.toNat (size.toNat - i * chunkSize.toNat)) := by
  obtain ⟨hoffset, hlength⟩ := toNat_chunkByteRange size chunkSize (.ofNat i)
  rw [UInt32.toNat_ofNat_of_lt' hi] at hoffset hlength
  rw [byteRange, hoffset, hlength]

lemma laysOut_of_sum_lt (h : b.build blake3 = .ok m)
    (hsum : (b.files.map (neededBy b.chunkSize)).sum < 2 ^ 64) : LaysOut b m := by
  have hsize := chunkSize_ne_zero h
  have hpos : 0 < b.chunkSize.toNat :=
    Nat.pos_of_ne_zero fun hzero => hsize (UInt32.toNat_inj.mp hzero)
  have hlayout := (build_eq_ok h).1
  have hcounts := counts_layout hsize hlayout
  have hneeded : ∀ f ∈ m.files,
      f.chunkCount.toNat = chunksNeeded f.size.toNat b.chunkSize.toNat := by
    intro f hf
    have hmem : (f.size, f.chunkCount.toNat) ∈ m.files.map fun f => (f.size, f.chunkCount.toNat) :=
      List.mem_map_of_mem hf
    rw [hcounts] at hmem
    obtain ⟨e, -, he⟩ := List.mem_map.mp hmem
    obtain ⟨he, hcount⟩ := Prod.mk.inj he
    rw [← hcount, ← he, neededBy]
  refine ⟨?_, tiles_layout hlayout ?_, fun f hf => ?_, fun f hf i hi => ?_⟩
  · have hsizes := congrArg (List.map Prod.fst) hcounts
    rwa [List.map_map, List.map_map] at hsizes
  · rw [sum_chunkCount h]
    exact (Nat.zero_add _).trans_lt hsum
  · have hsteps := tiles_steps hpos f.size.toNat
    rw [← chunksNeeded, ← hneeded f hf] at hsteps
    rwa [List.map_congr_left fun i hi =>
      byteRange_eq ((List.mem_range.mp hi).trans f.chunkCount.toNat_lt)]
  · rw [byteRange_eq (hi.trans f.chunkCount.toNat_lt)]
    have hinside : (i + 1) * b.chunkSize.toNat ≤ f.size.toNat + b.chunkSize.toNat - 1 := by
      rw [hneeded f hf] at hi
      exact (Nat.le_div_iff_mul_le hpos).mp hi
    rw [Nat.succ_mul] at hinside
    constructor <;> dsimp only <;> omega

def LayoutCorrect (blake3 : Bytes → FixedBytes 32) (b : ManifestBuilder) : Prop :=
  ((∃ e, b.build blake3 = .error e) ↔ b.Refused) ∧
    ∀ m, b.build blake3 = .ok m → LaysOut b m

lemma exists_build (blake3 : Bytes → FixedBytes 32) (hrefused : ¬b.Refused) :
    ∃ m, b.build blake3 = .ok m := by
  cases hbuild : b.build blake3 with
  | error e => exact absurd ((build_error_iff blake3 b).mp ⟨e, hbuild⟩) hrefused
  | ok m => exact ⟨m, rfl⟩

/-- The files are laid out as they should be, exactly if the chunks of all of them can be counted
in 64 bits. -/
theorem manifest_layout_iff (blake3 : Bytes → FixedBytes 32) (b : ManifestBuilder) :
    LayoutCorrect blake3 b ↔
      (¬b.Refused → (b.files.map (neededBy b.chunkSize)).sum < 2 ^ 64) := by
  constructor
  · rintro ⟨-, hlays⟩ hrefused
    obtain ⟨m, hm⟩ := exists_build blake3 hrefused
    exact (hlays m hm).sum_lt hm
  · intro hsum
    refine ⟨build_error_iff blake3 b, fun m hm => laysOut_of_sum_lt hm (hsum fun hrefused => ?_)⟩
    obtain ⟨e, he⟩ := (build_error_iff blake3 b).mpr hrefused
    rw [hm] at he
    cases he

def crowd (n : ℕ) : ManifestBuilder := ⟨['t'], .send, 1, .replicate n ⟨[97], 4294967295, none⟩⟩

lemma neededBy_crowd (n : ℕ) :
    (crowd n).files.map (neededBy 1) = List.replicate n 4294967295 := by
  rw [crowd, List.map_replicate]
  rfl

/-- 64 bits do not hold the sum of the chunks. -/
theorem layout_overflows : ¬LayoutCorrect (.pad 32) (crowd (2 ^ 32 + 2)) := by
  rintro ⟨-, hlays⟩
  have hrefused : ¬(crowd (2 ^ 32 + 2)).Refused := by
    rintro (hzero | ⟨e, he, hlarge⟩)
    · cases hzero
    · obtain rfl := List.eq_of_mem_replicate he
      exact absurd hlarge (by decide)
  obtain ⟨m, hm⟩ := exists_build (.pad 32) hrefused
  have hsum := (hlays m hm).sum_lt hm
  rw [show (crowd (2 ^ 32 + 2)).chunkSize = 1 from rfl, neededBy_crowd, List.sum_replicate] at hsum
  exact absurd hsum (by norm_num)

end ManifestBuilder

end Favonius.Api
