import Favonius.Sync.Resume

/-!
# Which chunks a Merkle resume may skip

A cache entry does not say at which payload size its tree was cut.  Skipping is
sound for trees cut at the manifest's payload size; at nearly all others there are
files for which a chunk that differs is skipped.
-/

namespace Favonius.Sync

open ByteCodec FlagBits HashTree Transfer Daemon List Option MerkleTree
open Nat (clog div_eq_iff succ_mul)

variable {blake3 : Bytes → FixedBytes 32} {z : Zstd} {m : FileManifest} {source dest : Bytes}

variable (blake3 z) in
/-- Every chunk whose bit is set in the resume bitmap is the same in both files. -/
def SkipSound (m : FileManifest) (source dest : Bytes) (cached : Option MerkleTree) : Prop :=
  ∀ bm ∈ resumeBitmap blake3 z m source (some dest) cached, ∀ c < m.totalChunks,
    bitSet bm c = true → chunkAt source m.payloadSize c = chunkAt dest m.payloadSize c

variable {payloadSize : ℕ}

lemma buildFileMerkle_of_pos {file : Bytes} (h : 0 < payloadSize) :
    buildFileMerkle blake3 file payloadSize =
      .fromLeaves blake3 (fileLeaves blake3 file payloadSize) :=
  if_neg h.ne'

lemma resumeBitmap_none :
    resumeBitmap blake3 z m source (some dest) none = resumeBitmap blake3 z m source (some dest)
      (some (buildFileMerkle blake3 dest m.payloadSize)) :=
  rfl

lemma strategicLevel_lt {leaves : List (FixedBytes 32)} (hmany : leaves.length ≤ 2 ^ 26) :
    (fromLeaves blake3 leaves).strategicLevel.1 < 256 := by
  have hle := strategicLevel_le_depth blake3 leaves
  have hclog : clog 2 leaves.length ≤ 26 := Nat.clog_le_of_le_pow hmany
  omega

variable {maxFileSize : Option ℕ}

lemma skipSound_of_same_payload (hm : validateManifest m maxFileSize = .ok ())
    (hsource : source.length = m.fileSize) (hdest : dest.length = m.fileSize)
    (hcf : CollisionFree blake3 (hashedInputs blake3 source m.payloadSize ++
      hashedInputs blake3 dest m.payloadSize)) :
    SkipSound blake3 z m source dest (some (buildFileMerkle blake3 dest m.payloadSize)) := by
  obtain ⟨hpos, -, -, hmax, htotal⟩ := validateManifest_ok hm
  have hlen : source.length = dest.length := hsource.trans hdest.symm
  have hleaves : (fileLeaves blake3 source m.payloadSize).length = m.totalChunks := by
    rw [length_fileLeaves, hsource, htotal]
  have hleaves' : (fileLeaves blake3 dest m.payloadSize).length = m.totalChunks := by
    rw [length_fileLeaves, hdest, htotal]
  intro bm hbm c hc hset
  rw [buildFileMerkle_of_pos hpos,
    resumeBitmap_eq z hdest (strategicLevel_lt (hleaves'.trans_le hmax)),
    buildFileMerkle_of_pos hpos, mem_def, some.injEq] at hbm
  subst hbm
  refine chunkAt_eq_of_leaf hcf hlen (hleaves ▸ hc) ?_
  split at hset
  · rename_i hroot
    have hne : fileLeaves blake3 source m.payloadSize ≠ [] :=
      length_pos_iff.mp (by omega)
    rw [fileLeaves_eq_of_root hcf hlen hne hroot]
  · have hl := strategicLevel_le_depth blake3 (fileLeaves blake3 dest m.payloadSize)
    have hl' : (fromLeaves blake3
        (fileLeaves blake3 dest m.payloadSize)).strategicLevel.1 ≤
          clog 2 (fileLeaves blake3 source m.payloadSize).length := by
      rwa [hleaves, ← hleaves']
    rw [← hleaves, bitSet_diffBitmap hl' (hleaves.trans_le hmax) (hleaves ▸ hc),
      level_fromLeaves _ _ hl] at hset
    exact leaf_eq_of_node hcf hlen hl' hset

/-! ## Trees cut at another payload size -/

variable {c : ℕ}

/-- A differing chunk below a node that agrees is skipped, whatever the hash. -/
theorem not_skipSound {l payloadSize' : ℕ} (hm : validateManifest m maxFileSize = .ok ())
    (hsource : source.length = m.fileSize) (hdest : dest.length = m.fileSize)
    (hpos : 0 < payloadSize') (hmany : (fileLeaves blake3 dest payloadSize').length ≤ 2 ^ 26)
    (hlevel : (fromLeaves blake3 (fileLeaves blake3 dest payloadSize')).strategicLevel.1 = l)
    (hl : l ≤ clog 2 m.totalChunks) (hc : c < m.totalChunks)
    (hnode : (HashTree.level (hashPair blake3) l
        (fileLeaves blake3 source m.payloadSize))[c / 2 ^ l]? =
      (HashTree.level (hashPair blake3) l (fileLeaves blake3 dest payloadSize'))[c / 2 ^ l]?)
    (hdiff : chunkAt source m.payloadSize c ≠ chunkAt dest m.payloadSize c) :
    ¬SkipSound blake3 z m source dest (some (buildFileMerkle blake3 dest payloadSize')) := by
  obtain ⟨hpayload, -, -, hmax, htotal⟩ := validateManifest_ok hm
  have hleaves : (fileLeaves blake3 source m.payloadSize).length = m.totalChunks := by
    rw [length_fileLeaves, hsource, htotal]
  have hdepth := strategicLevel_le_depth blake3 (fileLeaves blake3 dest payloadSize')
  intro hsound
  refine hdiff (hsound _ (resumeBitmap_eq z hdest ?_) c hc ?_)
  · rw [buildFileMerkle_of_pos hpos]
    exact strategicLevel_lt hmany
  rw [buildFileMerkle_of_pos hpos, buildFileMerkle_of_pos hpayload]
  split
  · rw [bitSet_fullBitmap, decide_eq_true hc]
  · rw [hlevel] at hdepth ⊢
    rw [← hleaves] at hl hmax hc ⊢
    rw [bitSet_diffBitmap hl hmax hc, level_fromLeaves _ _ hdepth]
    exact hnode

/-- A tree of other content makes a sender that has this content skip every chunk. -/
theorem not_skipSound_of_older {older : Bytes} (hm : validateManifest m maxFileSize = .ok ())
    (holder : older.length = m.fileSize) (hdest : dest.length = m.fileSize) (hne : older ≠ dest) :
    ¬SkipSound blake3 z m older dest (some (buildFileMerkle blake3 older m.payloadSize)) := by
  obtain ⟨hpayload, -, -, hmax, htotal⟩ := validateManifest_ok hm
  have hfew : (fileLeaves blake3 older m.payloadSize).length ≤ 2 ^ 26 := by
    rw [length_fileLeaves, holder, ← htotal]
    exact hmax
  intro hsound
  refine hne (eq_of_chunks hpayload (holder.trans hdest.symm) fun c hc => ?_)
  have hc' : c < m.totalChunks := by
    rwa [htotal, lt_totalChunks_iff hpayload, ← hdest]
  refine hsound _ (resumeBitmap_eq z hdest ?_) c hc' ?_
  · rw [buildFileMerkle_of_pos hpayload]
    exact strategicLevel_lt hfew
  · rw [if_pos rfl, bitSet_fullBitmap, decide_eq_true hc']

def plainManifest (fileSize payloadSize : ℕ) : FileManifest where
  fileSize := fileSize
  payloadSize := payloadSize
  totalChunks := (fileSize + payloadSize - 1) / payloadSize
  numStreams := 1
  zeroRuns := []

lemma validateManifest_plainManifest (fileSize : ℕ) (hpos : 0 < payloadSize)
    (hmax : payloadSize ≤ maxPacket)
    (hchunks : (fileSize + payloadSize - 1) / payloadSize ≤ maxTotalChunks) :
    validateManifest (plainManifest fileSize payloadSize) none = .ok () := by
  have hpayload : ¬(payloadSize = 0 ∨ maxPacket < payloadSize) := by omega
  have htotal : ¬maxTotalChunks < (fileSize + payloadSize - 1) / payloadSize := by omega
  simp [validateManifest, plainManifest, hpayload, htotal, maxNumStreams, maxZeroRuns,
    validateZeroRuns]

def oneAt (n k : ℕ) : Bytes := (List.replicate n 0).set k 1

@[simp] lemma length_oneAt (n k : ℕ) : (oneAt n k).length = n := by
  simp [oneAt]

variable {n k : ℕ}

lemma chunkAt_replicate (hend : c * payloadSize + k = n) (hk : k ≤ payloadSize) :
    chunkAt (List.replicate n 0) payloadSize c = List.replicate k 0 := by
  rw [chunkAt, slice, drop_replicate, take_replicate]
  congr 1
  omega

lemma chunkAt_replicate_full (hend : (c + 1) * payloadSize ≤ n) :
    chunkAt (List.replicate n 0) payloadSize c = List.replicate payloadSize 0 := by
  rw [succ_mul] at hend
  rw [chunkAt, slice, drop_replicate, take_replicate]
  congr 1
  omega

lemma chunkAt_oneAt (hout : k < c * payloadSize ∨ (c + 1) * payloadSize ≤ k) :
    chunkAt (oneAt n k) payloadSize c = chunkAt (List.replicate n 0) payloadSize c := by
  rw [succ_mul] at hout
  refine ext_getElem? fun j => ?_
  rw [getElem?_chunkAt, getElem?_chunkAt]
  split
  · rw [oneAt, getElem?_set_ne (by omega)]
  · rfl

lemma chunkAt_replicate_ne_oneAt (hk : k < n)
    (hin : c * payloadSize ≤ k ∧ k < (c + 1) * payloadSize) :
    chunkAt (List.replicate n 0) payloadSize c ≠ chunkAt (oneAt n k) payloadSize c := by
  rw [succ_mul] at hin
  intro heq
  have hget := congrArg (fun b => b[k - c * payloadSize]?) heq
  simp only [getElem?_chunkAt, Nat.add_sub_cancel' hin.1] at hget
  rw [if_pos (by omega), if_pos (by omega), oneAt, getElem?_set_self (by simpa using hk),
    getElem?_replicate, if_pos hk] at hget
  exact absurd (some.inj hget) (by decide)

/-! ### Blocks of leaves -/

section Blocks

variable {P Q k n : ℕ} {file : Bytes}

lemma lt_length_level_fileLeaves (hpos : 0 < Q) {l i : ℕ} :
    i < (HashTree.level (hashPair blake3) l (fileLeaves blake3 file Q)).length ↔
      i * 2 ^ l * Q < file.length := by
  rw [lt_length_level, length_fileLeaves, lt_totalChunks_iff hpos]

lemma strategicLevel_fileLeaves (hpos : 0 < Q) (hfit : file.length ≤ 43 * (2 ^ k * Q))
    (hmore : 2 ^ k * Q < file.length) (hlow : ∀ l < k, 43 * 2 ^ l * Q < file.length) :
    (fromLeaves blake3 (fileLeaves blake3 file Q)).strategicLevel.1 = k := by
  have hmax : maxHashes = 43 := rfl
  apply strategicLevel_eq
  · apply le_of_not_gt
    intro hlong
    have hlt := (lt_length_level_fileLeaves hpos).mp hlong
    rw [mul_assoc, hmax] at hlt
    omega
  · rw [lt_length_level_fileLeaves hpos, one_mul]
    exact hmore
  · intro l hl
    rw [lt_length_level_fileLeaves hpos, hmax]
    exact hlow l hl

lemma block_fileLeaves_last (hpos : 0 < Q) (hle : Q ≤ P) (hn : n = 2 ^ k * P + Q) :
    block k 1 (fileLeaves blake3 (List.replicate n 0) P) = [blake3 (List.replicate Q 0)] := by
  have hpow : 1 ≤ 2 ^ k := Nat.one_le_two_pow
  have hlen : (fileLeaves blake3 (List.replicate n 0) P).length = 2 ^ k + 1 := by
    rw [length_fileLeaves, length_replicate, div_eq_iff (by omega), succ_mul]
    omega
  apply ext_getElem?
  intro j
  rw [getElem?_block, one_mul]
  cases j with
  | zero =>
    rw [if_pos (by omega), Nat.add_zero, getElem?_fileLeaves (by omega),
      chunkAt_replicate (k := Q) (by omega) hle]
    rfl
  | succ j =>
    rw [getElem?_eq_none (l := fileLeaves blake3 (List.replicate n 0) P) (by omega)]
    simp

lemma block_fileLeaves_zeros (hpos : 0 < Q) (htwice : 2 * (2 ^ k * Q) < n) :
    block k 1 (fileLeaves blake3 (oneAt n (n - 1)) Q) =
      List.replicate (2 ^ k) (blake3 (List.replicate Q 0)) := by
  apply ext_getElem?
  intro j
  rw [getElem?_block, one_mul, getElem?_replicate]
  split
  · have hend : (2 ^ k + j + 1) * Q ≤ n - 1 := by
      have hle : (2 ^ k + j + 1) * Q ≤ (2 * 2 ^ k) * Q := Nat.mul_le_mul_right _ (by omega)
      rw [mul_assoc] at hle
      omega
    have hin : 2 ^ k + j < (fileLeaves blake3 (oneAt n (n - 1)) Q).length := by
      rw [length_fileLeaves, length_oneAt, lt_totalChunks_iff hpos]
      rw [succ_mul] at hend
      omega
    rw [getElem?_fileLeaves hin, chunkAt_oneAt (.inr hend), chunkAt_replicate_full (by omega)]
  · rfl

end Blocks

section OtherPayload

variable (blake3 z) {P Q : ℕ}

variable (P Q) in
/-- Files of equal size for which a chunk that differs is skipped. -/
def Unsound : Prop :=
  ∃ fileSize source dest, validateManifest (plainManifest fileSize P) none = .ok () ∧
    source.length = fileSize ∧ dest.length = fileSize ∧
    ¬SkipSound blake3 z (plainManifest fileSize P) source dest
      (some (buildFileMerkle blake3 dest Q))

variable (hP : P ≤ maxPacket) (hQ : Q ≤ maxPacket)
include hP hQ

/-- A daemon tree cut larger: its short last chunk stands at the place of the sender's second. -/
theorem exists_unsound_of_lt (hpos : 0 < P) (hlt : P < Q) : Unsound blake3 z P Q := by
  have hmax : maxPacket = 1500 := rfl
  have hchunks : (P + Q + P - 1) / P ≤ maxTotalChunks := by
    have hle : (P + Q + P - 1) / P ≤ P + Q + P - 1 := Nat.div_le_self _ _
    have : maxTotalChunks = 2 ^ 26 := rfl
    omega
  have hm := validateManifest_plainManifest (P + Q) hpos hP hchunks
  have hleaves : (fileLeaves blake3 (oneAt (P + Q) P) Q).length = 2 := by
    rw [length_fileLeaves, length_oneAt, div_eq_iff (by omega)]
    omega
  have htotal : 1 < (plainManifest (P + Q) P).totalChunks :=
    (lt_totalChunks_iff hpos).mpr (by omega)
  have hsource : (fileLeaves blake3 (List.replicate (P + Q) 0) P)[1]? =
      some (blake3 (List.replicate P 0)) := by
    rw [getElem?_fileLeaves (by rw [length_fileLeaves, length_replicate]; exact htotal),
      chunkAt_replicate_full (by omega)]
  have hdest :
      (fileLeaves blake3 (oneAt (P + Q) P) Q)[1]? = some (blake3 (List.replicate P 0)) := by
    rw [getElem?_fileLeaves (by omega), chunkAt_oneAt (by omega),
      chunkAt_replicate (k := P) (by omega) (by omega)]
  refine ⟨P + Q, List.replicate (P + Q) 0, oneAt (P + Q) P, hm, by simp, by simp, ?_⟩
  refine not_skipSound hm (by simp [plainManifest]) (by simp [plainManifest]) (by omega) (by omega)
    (strategicLevel_eq blake3 _ (l := 0) ?_ ?_ (by omega)) (Nat.zero_le _) htotal ?_ ?_
  · show (fileLeaves blake3 (oneAt (P + Q) P) Q).length ≤ 43
    omega
  · show 1 < (fileLeaves blake3 (oneAt (P + Q) P) Q).length
    omega
  · exact hsource.trans hdest.symm
  · exact chunkAt_replicate_ne_oneAt (by omega) (by simp [plainManifest]; omega)

/-- A daemon tree cut much smaller: the level it exchanges is above the sender's root. -/
theorem exists_unsound_of_gt (hpos : 0 < Q) (hgt : 43 * Q < P) : Unsound blake3 z P Q := by
  have hmax : maxPacket = 1500 := rfl
  have hone : (P + P - 1) / P = 1 := by
    rw [div_eq_iff (by omega)]
    omega
  have hm := validateManifest_plainManifest P (by omega) hP (hone.trans_le (by decide))
  have htotal : (plainManifest P P).totalChunks = 1 := hone
  have hmany : 43 < (fileLeaves blake3 (oneAt P 0) Q).length := by
    rw [length_fileLeaves, length_oneAt, lt_totalChunks_iff hpos]
    omega
  have hfew : (fileLeaves blake3 (oneAt P 0) Q).length ≤ 2 ^ 26 := by
    have hle : (P + Q - 1) / Q ≤ P + Q - 1 := Nat.div_le_self _ _
    rw [length_fileLeaves, length_oneAt]
    omega
  have hlevel := strategicLevel_pos blake3 _ hmany
  have hdiff : chunkAt (List.replicate P 0) P 0 ≠ chunkAt (oneAt P 0) P 0 :=
    chunkAt_replicate_ne_oneAt (by omega) (by omega)
  refine ⟨P, List.replicate P 0, oneAt P 0, hm, by simp, by simp, fun hsound => hdiff ?_⟩
  refine hsound _ (resumeBitmap_eq z (by simp [plainManifest]) ?_) 0 (by omega) ?_
  · rw [buildFileMerkle_of_pos hpos]
    exact strategicLevel_lt hfew
  rw [buildFileMerkle_of_pos hpos]
  split
  · rw [bitSet_fullBitmap, htotal]
    rfl
  have hdepth : (buildFileMerkle blake3 (List.replicate P 0)
      (plainManifest P P).payloadSize).depth = 0 := by
    rw [buildFileMerkle_of_pos (show 0 < (plainManifest P P).payloadSize by
      show 0 < P; omega), depth_fromLeaves, length_fileLeaves,
      length_replicate, show (plainManifest P P).payloadSize = P from rfl, hone]
    rfl
  rw [diffBitmap, expandDiffsToLeaves, if_neg (by omega), if_pos (by omega),
    foldl_nil, bitSet_fullBitmap, htotal]
  rfl

omit hP hQ in
lemma lower_level_lt {l : ℕ} (hlow : 42 * Q < P) (hl : l < k) : 43 * 2 ^ l * Q < 2 ^ k * P := by
  have htwice : 2 * 2 ^ l ≤ 2 ^ k := by
    rw [← pow_succ']
    exact Nat.pow_le_pow_right (by norm_num) hl
  calc 43 * 2 ^ l * Q ≤ 42 * (2 * 2 ^ l) * Q := Nat.mul_le_mul_right _ (by omega)
    _ ≤ 42 * 2 ^ k * Q := Nat.mul_le_mul_right _ (by omega)
    _ = 2 ^ k * (42 * Q) := by ring
    _ < 2 ^ k * P := Nat.mul_lt_mul_of_pos_left hlow (Nat.two_pow_pos k)

/-- A daemon tree cut somewhat smaller.  The file has a short last chunk that stands alone
in its block of `2 ^ k`; the daemon's block at that place is full of such chunks. -/
theorem exists_unsound_of_block (hpos : 0 < Q) (hgt : Q < P) (hk : k ≤ 11)
    (hlow : k = 0 ∨ 42 * Q < P) (hfit : 2 ^ k * P + Q ≤ 43 * (2 ^ k * Q)) :
    Unsound blake3 z P Q := by
  have hmax : maxPacket = 1500 := rfl
  obtain ⟨n, hn⟩ : ∃ n, n = 2 ^ k * P + Q := ⟨_, rfl⟩
  have hpow : 2 ^ k ≤ 2 ^ 11 := Nat.pow_le_pow_right (by norm_num) hk
  have hpow1 : 1 ≤ 2 ^ k := Nat.one_le_two_pow
  have htotal : (n + P - 1) / P = 2 ^ k + 1 := by
    rw [div_eq_iff (by omega), succ_mul]
    omega
  have hm := validateManifest_plainManifest n (by omega) hP
    (show (n + P - 1) / P ≤ 2 ^ 26 by omega)
  have hsmall : 2 ^ k * Q ≤ 2 ^ k * P := Nat.mul_le_mul_left _ hgt.le
  have hlower : ∀ l < k, 43 * 2 ^ l * Q < n := by
    intro l hl
    have hlt := lower_level_lt (hlow.resolve_left (by omega)) hl
    omega
  have hlevel : (fromLeaves blake3
      (fileLeaves blake3 (oneAt n (n - 1)) Q)).strategicLevel.1 = k := by
    apply strategicLevel_fileLeaves hpos
    · rw [length_oneAt]
      omega
    · rw [length_oneAt]
      omega
    · rwa [length_oneAt]
  have htwice : 2 * (2 ^ k * Q) < n := by
    rcases hlow with rfl | hP42
    · omega
    · have hle : 2 ^ k * (2 * Q) ≤ 2 ^ k * P := Nat.mul_le_mul_left _ (by omega)
      rw [hn, Nat.mul_left_comm]
      omega
  refine ⟨n, List.replicate n 0, oneAt n (n - 1), hm, by simp, by simp, ?_⟩
  refine not_skipSound hm (by simp [plainManifest]) (by simp [plainManifest]) hpos ?_ hlevel
    (c := 2 ^ k) ?_ ?_ ?_ ?_
  · have hle : (n + Q - 1) / Q ≤ 43 * 2 ^ k := by
      apply le_of_not_gt
      intro hlong
      have hlt := (lt_totalChunks_iff hpos).mp hlong
      rw [mul_assoc] at hlt
      omega
    rw [length_fileLeaves, length_oneAt]
    omega
  · show k ≤ clog 2 ((n + P - 1) / P)
    rw [htotal]
    calc k = clog 2 (2 ^ k) := (Nat.clog_pow 2 k (by norm_num)).symm
      _ ≤ clog 2 (2 ^ k + 1) := Nat.clog_mono_right 2 (by omega)
  · show 2 ^ k < (n + P - 1) / P
    omega
  · rw [Nat.div_self (by omega), getElem?_level, getElem?_level, block_fileLeaves_zeros hpos htwice,
      show (plainManifest n P).payloadSize = P from rfl, block_fileLeaves_last hpos hgt.le hn,
      level_replicate]
  · apply chunkAt_replicate_ne_oneAt (by omega)
    show 2 ^ k * P ≤ n - 1 ∧ n - 1 < (2 ^ k + 1) * P
    rw [succ_mul]
    omega

end OtherPayload

/-- A tree of the file cut at the manifest's payload size, cached or built for the resume, makes a
chunk skipped only if it is the same in both files.  The tree of any other content does not, for a
sender that has this content.  At any other payload size that a manifest can have, one case apart,
there are files of equal size for which a chunk that differs is skipped, whatever the hash
function. -/
theorem merkle_skip_sound (blake3 : Bytes → FixedBytes 32) (z : Zstd) (P Q : ℕ)
    (hP : 0 < P ∧ P ≤ maxPacket) (hQ : 0 < Q ∧ Q ≤ maxPacket) :
    (Q = P → ∀ m maxFileSize source dest, m.payloadSize = P →
      validateManifest m maxFileSize = .ok () → source.length = m.fileSize →
      dest.length = m.fileSize →
      CollisionFree blake3 (hashedInputs blake3 source P ++ hashedInputs blake3 dest Q) →
        SkipSound blake3 z m source dest none ∧
        SkipSound blake3 z m source dest (some (buildFileMerkle blake3 dest Q))) ∧
    (∀ m maxFileSize older dest, m.payloadSize = P → validateManifest m maxFileSize = .ok () →
      older.length = m.fileSize → dest.length = m.fileSize → older ≠ dest →
        ¬SkipSound blake3 z m older dest (some (buildFileMerkle blake3 older P))) ∧
    (Q ≠ P → P ≠ 43 * Q → ∃ fileSize source dest,
      validateManifest (plainManifest fileSize P) none = .ok () ∧ source.length = fileSize ∧
      dest.length = fileSize ∧ ¬SkipSound blake3 z (plainManifest fileSize P) source dest
        (some (buildFileMerkle blake3 dest Q))) := by
  refine ⟨?_, ?_, ?_⟩
  · rintro rfl m maxFileSize source dest rfl hm hsource hdest hcf
    have hsound : SkipSound blake3 z m source dest
        (some (buildFileMerkle blake3 dest m.payloadSize)) :=
      skipSound_of_same_payload hm hsource hdest hcf
    exact ⟨fun bm hbm => hsound bm (resumeBitmap_none ▸ hbm), hsound⟩
  · rintro m maxFileSize older dest rfl hm holder hdest hne
    exact not_skipSound_of_older hm holder hdest hne
  · intro hne h43
    rcases Nat.lt_or_ge P Q with hlt | hge
    · exact exists_unsound_of_lt blake3 z hP.2 hQ.2 hP.1 hlt
    rcases Nat.lt_or_ge (43 * Q) P with hgt | hle
    · exact exists_unsound_of_gt blake3 z hP.2 hQ.2 hQ.1 hgt
    rcases Nat.lt_or_ge (42 * Q) P with h42 | h42
    · -- a block of at least `Q` daemon chunks leaves room for the sender's last one
      have hclog : clog 2 Q ≤ 11 :=
        Nat.clog_le_of_le_pow (hQ.2.trans (by decide))
      have hblock : Q ≤ 2 ^ clog 2 Q := Nat.le_pow_clog (by norm_num) Q
      have hfit : 2 ^ clog 2 Q * (P + 1) ≤ 2 ^ clog 2 Q * (43 * Q) :=
        Nat.mul_le_mul_left _ (by omega)
      refine exists_unsound_of_block blake3 z hP.2 hQ.2 hQ.1 (by omega) hclog (.inr h42) ?_
      rw [Nat.mul_succ] at hfit
      rw [Nat.mul_left_comm 43]
      omega
    · exact exists_unsound_of_block blake3 z hP.2 hQ.2 hQ.1 (k := 0) (by omega) (by omega)
        (.inl rfl) (by omega)

def sampleHash (data : Bytes) : FixedBytes 32 :=
  ⟨(UInt8.ofNat data.length :: data.filter (· ≠ 0) ++ List.replicate 32 0).take 32, by simp⟩

def sampleZstd : Zstd where
  encodeAll data := some (0x28 :: data)
  decodeAll frame := frame.tail?
  encodeAll_isSome _ := rfl
  decodeAll_encodeAll h := by
    cases h
    rfl
  encodeAll_ne_nil h := by
    cases h
    simp

theorem merkle_skip_sound_five_bytes :
    SkipSound sampleHash sampleZstd (plainManifest 5 2) [1, 2, 3, 4, 5] [1, 2, 9, 4, 5] none := by
  refine ((merkle_skip_sound sampleHash sampleZstd 2 2 (by decide) (by decide)).1 rfl
    (plainManifest 5 2) none [1, 2, 3, 4, 5] [1, 2, 9, 4, 5] rfl ?_ rfl rfl ?_).1
  · exact validateManifest_plainManifest 5 (by decide) (by decide) (by decide)
  · decide +kernel

/-- The daemon's tree is cut at three bytes: its second chunk is the sender's second chunk,
but from another place in the file. -/
theorem stale_tree_skips_chunk :
    CollisionFree sampleHash (hashedInputs sampleHash [0, 0, 0, 0, 0] 2 ++
        hashedInputs sampleHash [0, 0, 1, 0, 0] 3) ∧
      (resumeBitmap sampleHash sampleZstd (plainManifest 5 2) [0, 0, 0, 0, 0]
        (some [0, 0, 1, 0, 0]) (some (buildFileMerkle sampleHash [0, 0, 1, 0, 0] 3))).map
          (bitSet · 1) = some true ∧
      chunkAt [0, 0, 0, 0, 0] 2 1 ≠ chunkAt [0, 0, 1, 0, 0] 2 1 := by
  exact ⟨by decide +kernel, by decide +kernel, by decide⟩

end Favonius.Sync
