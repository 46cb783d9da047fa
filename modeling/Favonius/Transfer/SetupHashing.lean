import Favonius.Lib.Tiling
import Favonius.Sync.FileMerkleBuilder
import Favonius.Sync.MerkleProofs

/-!
# Hashing a file through windows

Before a resume the sender hashes its file, and after one the daemon builds the tree
of its copy.  Both go through the mapping in windows, the sender feeding zeros for
the holes that it knows of.
-/

namespace Favonius.Transfer

open ByteCodec Tiling Sync List FileMerkleBuilder

/-- From `pos` on; the holes that do not lie before it. -/
def segmentsFrom (stop : ℕ) : List (ℕ × ℕ) → ℕ → List (Bool × ℕ × ℕ)
  | [], pos => if pos < stop then [(false, pos, stop)] else []
  | (o, l) :: holes, pos =>
    if stop ≤ pos ∨ stop ≤ o then if pos < stop then [(false, pos, stop)] else []
    else
      let hs := max o pos
      let he := min (o + l) stop
      (if pos < hs then [(false, pos, hs)] else []) ++
        (if hs < he then [(true, hs, he)] else []) ++ segmentsFrom stop holes (max pos he)

/-- The holes are sorted, so those that end before the window are at the front. -/
def segments (holes : List (ℕ × ℕ)) (start stop : ℕ) : List (Bool × ℕ × ℕ) :=
  segmentsFrom stop (holes.dropWhile fun h => decide (h.1 + h.2 ≤ start)) start

variable {pos stop : ℕ}

lemma tiles_last (hle : pos ≤ stop) :
    Tiles pos stop ((if pos < stop then [(false, pos, stop)] else []).map Prod.snd) := by
  split
  · exact ⟨rfl, hle, rfl⟩
  · exact (by omega : pos = stop)

lemma tiles_segmentsFrom (holes : List (ℕ × ℕ)) (hle : pos ≤ stop) :
    Tiles pos stop ((segmentsFrom stop holes pos).map Prod.snd) := by
  induction holes generalizing pos with
  | nil => exact tiles_last hle
  | cons h holes ih =>
    obtain ⟨o, l⟩ := h
    rw [segmentsFrom]
    split
    · exact tiles_last hle
    have hdata : Tiles pos (max o pos)
        ((if pos < max o pos then [(false, pos, max o pos)] else []).map Prod.snd) :=
      tiles_last (le_max_right _ _)
    have hhole : Tiles (max o pos) (max (max o pos) (min (o + l) stop))
        ((if max o pos < min (o + l) stop then [(true, max o pos, min (o + l) stop)]
          else []).map Prod.snd) := by
      split
      · rename_i hlt
        exact ⟨rfl, hlt.le, (max_eq_right hlt.le).symm⟩
      · exact (by omega : max o pos = max (max o pos) (min (o + l) stop))
    -- a hole that starts after `pos` does not end before it starts
    have hnext : max (max o pos) (min (o + l) stop) = max pos (min (o + l) stop) := by omega
    rw [hnext] at hhole
    rw [map_append, map_append]
    exact (hdata.append hhole).append (ih (by omega))

variable {holes : List (ℕ × ℕ)} {s e : ℕ}

lemma mem_segmentsFrom (h : (true, s, e) ∈ segmentsFrom stop holes pos) :
    ∃ r ∈ holes, r.1 ≤ s ∧ e ≤ r.1 + r.2 := by
  induction holes generalizing pos with
  | nil =>
    rw [segmentsFrom] at h
    split at h <;> simp at h
  | cons r holes ih =>
    obtain ⟨o, l⟩ := r
    rw [segmentsFrom] at h
    split at h
    · split at h <;> simp at h
    rw [mem_append, mem_append] at h
    rcases h with (h | h) | h
    · split at h <;> simp at h
    · split at h
      · simp only [mem_singleton, Prod.mk.injEq, true_and] at h
        refine ⟨(o, l), mem_cons_self, ?_, ?_⟩
        · omega
        · omega
      · simp at h
    · obtain ⟨r, hr, hin⟩ := ih h
      exact ⟨r, mem_cons_of_mem _ hr, hin⟩

variable {start : ℕ}

/-- The segments of a window follow each other, and those in a hole lie in one. -/
theorem tiles_segments (holes : List (ℕ × ℕ)) (hle : start ≤ stop) :
    Tiles start stop ((segments holes start stop).map Prod.snd) :=
  tiles_segmentsFrom _ hle

lemma mem_segments (h : (true, s, e) ∈ segments holes start stop) :
    ∃ r ∈ holes, r.1 ≤ s ∧ e ≤ r.1 + r.2 := by
  obtain ⟨r, hr, hin⟩ := mem_segmentsFrom h
  exact ⟨r, (dropWhile_suffix _).subset hr, hin⟩

def setupWindow : ℕ := 32 * 1024 * 1024

def zerosLen : ℕ := 64 * 1024

def segmentSlices (fileData : Bytes) (seg : Bool × ℕ × ℕ) : List Bytes :=
  if seg.1 then
    (windows zerosLen (seg.2.2 - seg.2.1) seg.2.1 seg.2.2).map fun q =>
      List.replicate (q.2 - q.1) 0
  else [slice fileData seg.2.1 (seg.2.2 - seg.2.1)]

/-- What is fed to the hasher and to the builder, slice by slice. -/
def setupSlices (fileData : Bytes) (holes : List (ℕ × ℕ)) : List Bytes :=
  (windows setupWindow fileData.length 0 fileData.length).flatMap fun w =>
    (segments holes w.1 w.2).flatMap (segmentSlices fileData)

section Hashes

variable (blake3 : Bytes → FixedBytes 32)

/-- The hash of the file and its tree.  The hasher's result depends on what it was fed, not on
the slices. -/
def setupHashes (fileData : Bytes) (holes : List (ℕ × ℕ)) (payloadSize : ℕ) :
    FixedBytes 32 × MerkleTree :=
  let slices := setupSlices fileData holes
  let tree := match new payloadSize with
    | some b => (slices.foldl (update blake3) b).finish blake3
    | none => .fromLeaves blake3 []
  (blake3 slices.flatten, tree)

def pageDropGranularity : ℕ := 16 * 1024 * 1024

def merkleWithDropChase (map : Bytes) (len payloadSize : ℕ) : MerkleTree :=
  match new payloadSize with
  | none => .fromLeaves blake3 []
  | some b =>
    let slices := (windows pageDropGranularity len 0 len).map fun w => slice map w.1 (w.2 - w.1)
    (slices.foldl (update blake3) b).finish blake3

end Hashes

/-- Sorted, disjoint ranges inside the file over which it is zero. -/
structure HolesOf (fileData : Bytes) (holes : List (ℕ × ℕ)) : Prop where
  sorted : holes.Pairwise fun a b => a.1 + a.2 ≤ b.1
  inside : ∀ h ∈ holes, h.1 + h.2 ≤ fileData.length
  zero : ∀ h ∈ holes, ∀ k, h.1 ≤ k → k < h.1 + h.2 → fileData[k]? = some 0

variable {fileData : Bytes}

lemma slice_eq_replicate (hzero : ∀ k, s ≤ k → k < e → fileData[k]? = some 0) :
    slice fileData s (e - s) = List.replicate (e - s) 0 := by
  apply ext_getElem?
  intro j
  rw [slice, getElem?_take, getElem?_drop, getElem?_replicate]
  split
  · exact hzero (s + j) (by omega) (by omega)
  · rfl

lemma flatten_segmentSlices (hholes : HolesOf fileData holes) {seg : Bool × ℕ × ℕ}
    (hseg : seg ∈ segments holes start stop) (hle : seg.2.1 ≤ seg.2.2) :
    (segmentSlices fileData seg).flatten = slice fileData seg.2.1 (seg.2.2 - seg.2.1) := by
  obtain ⟨inHole, s, e⟩ := seg
  dsimp only at hle
  cases inHole with
  | false => simp [segmentSlices]
  | true =>
    obtain ⟨r, hr, hstart, hend⟩ := mem_segments hseg
    have hzero : ∀ k, s ≤ k → k < e → fileData[k]? = some 0 :=
      fun k hk hk' => hholes.zero r hr k (by omega) (by omega)
    have htiles := tiles_windows (by decide : 0 < zerosLen) hle le_rfl
    refine htiles.flatMap_eq_slice fun q hq => ?_
    have hin := htiles.mem hq
    rw [slice_eq_replicate]
    exact fun k hk hk' => hzero k (by omega) (by omega)

lemma flatten_setupSlices (hholes : HolesOf fileData holes) :
    (setupSlices fileData holes).flatten = fileData := by
  have htiles : Tiles 0 fileData.length (windows setupWindow fileData.length 0 fileData.length) :=
    tiles_windows (by decide) (Nat.zero_le _) (Nat.sub_le _ _)
  have hwhole : slice fileData 0 (fileData.length - 0) = fileData := by
    rw [slice, drop_zero, Nat.sub_zero, take_length]
  have hwindow : ∀ w ∈ windows setupWindow fileData.length 0 fileData.length,
      ((segments holes w.1 w.2).flatMap (segmentSlices fileData)).flatten =
        slice fileData w.1 (w.2 - w.1) := by
    intro w hw
    have hsegments := tiles_segments holes (htiles.mem hw).2.1
    rw [← hsegments.flatMap_slice, flatMap_map, flatten_flatMap]
    refine flatMap_congr fun seg hseg => flatten_segmentSlices hholes hseg ?_
    exact (hsegments.mem (mem_map_of_mem hseg)).2.1
  rw [setupSlices, flatten_flatMap]
  exact (htiles.flatMap_eq_slice hwindow).trans hwhole

lemma flatten_dropChaseSlices {map : Bytes} {len : ℕ} :
    ((windows pageDropGranularity len 0 len).map fun w =>
      slice map w.1 (w.2 - w.1)).flatten = map.take len := by
  have htiles : Tiles 0 len (windows pageDropGranularity len 0 len) :=
    tiles_windows (by decide) (Nat.zero_le _) (Nat.sub_le _ _)
  rw [← flatMap_def, htiles.flatMap_slice]
  rfl

/-- For every payload size the sender and the daemon get the hashes of the whole. -/
theorem windowed_hashing_eq_direct (blake3 : Bytes → FixedBytes 32) {payloadSize : ℕ}
    (hpayload : 1 ≤ payloadSize) :
    (∀ fileData holes, HolesOf fileData holes →
      (setupSlices fileData holes).flatten = fileData ∧
        setupHashes blake3 fileData holes payloadSize =
          (blake3 fileData, buildFileMerkle blake3 fileData payloadSize)) ∧
    (∃ b, new payloadSize = some b ∧
      ∀ slices : List Bytes, tryBuildFileMerkle blake3 slices.flatten payloadSize =
        some ((slices.foldl (update blake3) b).finish blake3)) ∧
    ∀ (map : Bytes) (len : ℕ), len ≤ map.length →
      merkleWithDropChase blake3 map len payloadSize =
        buildFileMerkle blake3 (map.take len) payloadSize := by
  obtain ⟨b, hb⟩ : ∃ b, new payloadSize = some b :=
    ⟨_, if_neg (by omega)⟩
  have hslices (slices : List Bytes) :
      (slices.foldl (update blake3) b).finish blake3 =
        buildFileMerkle blake3 slices.flatten payloadSize := by
    rw [buildFileMerkle_eq, tryBuildFileMerkle_flatten hb, Option.getD_some]
  refine ⟨fun fileData holes hholes => ?_,
    ⟨b, hb, tryBuildFileMerkle_flatten hb⟩, fun map len _ => ?_⟩
  · have hflat := flatten_setupSlices hholes
    refine ⟨hflat, ?_⟩
    rw [setupHashes, hb]
    dsimp only
    rw [hslices, hflat]
  · rw [merkleWithDropChase, hb]
    dsimp only
    rw [hslices, flatten_dropChaseSlices]

theorem windowed_hashing_four_bytes :
    setupHashes sampleDigest [1, 0, 0, 2] [(1, 2)] 3 =
      (sampleDigest [1, 0, 0, 2], buildFileMerkle sampleDigest [1, 0, 0, 2] 3) := by
  refine ((windowed_hashing_eq_direct sampleDigest (by decide)).1 [1, 0, 0, 2] [(1, 2)] ?_).2
  refine ⟨pairwise_singleton _ _, by decide, ?_⟩
  intro h hh k hlow hhigh
  obtain rfl := mem_singleton.mp hh
  have hk : k = 1 ∨ k = 2 := by
    omega
  rcases hk with rfl | rfl
  · rfl
  · rfl

end Favonius.Transfer
