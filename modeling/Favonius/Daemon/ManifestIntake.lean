import Favonius.Daemon.Confinement
import Favonius.Daemon.MerkleInputs
import Favonius.Sync.SkipSets
import Favonius.Sync.SkipSoundness

/-!
# From the MANIFEST to the data phase

What the daemon does with an accepted manifest before it starts to receive: confinement, the
resume check against what the destination holds, the mapping and the chunks marked in advance.
`none` is a panic of the handler.  The destination does not change while it is handled.
-/

namespace Favonius.Daemon

open ByteCodec HashTree Machine Transfer Sync List
open Option (bind_some map_some some)

structure Manifest extends FileManifest where
  destPath : String
  resumeMode : String
  merkleRoot : Option String

namespace Checked

variable (blake3 : Bytes → FixedBytes 32) (z : Zstd)

/-! ## The tree of an existing file -/

/-- The parents of a level in chunks of two; a last chunk of one node has no second. -/
def hashChunks : List (FixedBytes 32) → Option (List (FixedBytes 32))
  | a :: b :: rest => (hashChunks rest).map (hashPair blake3 a b :: ·)
  | [_] => none
  | [] => some []

/-- An odd level is padded with its last node first. -/
def nextLevel (current : List (FixedBytes 32)) : Option (List (FixedBytes 32)) :=
  if current.length % 2 ≠ 0 then
    current.getLast?.bind fun last => hashChunks blake3 (current ++ [last])
  else hashChunks blake3 current

def levelsFrom : ℕ → List (FixedBytes 32) → Option (List (List (FixedBytes 32)))
  | 0, current => some [current]
  | fuel + 1, current =>
    if current.length ≤ 1 then some [current]
    else (nextLevel blake3 current).bind fun next => (levelsFrom fuel next).map (current :: ·)

def chunkOf (data : Bytes) (payloadSize ci : ℕ) : Option Bytes :=
  (mul 64 ci payloadSize).bind fun offset => (add 64 offset payloadSize).bind fun stop =>
    range data offset (min stop data.length)

def buildFileMerkle (fileData : Bytes) (payloadSize : ℕ) : Option MerkleTree :=
  if payloadSize = 0 then some (.fromLeaves blake3 [])
  else
    ((List.range ((fileData.length + payloadSize - 1) / payloadSize)).mapM fun ci =>
      (chunkOf fileData payloadSize ci).map blake3).bind fun leaves =>
        if leaves.isEmpty then some ⟨[[]]⟩
        else (levelsFrom blake3 leaves.length leaves).map MerkleTree.mk

lemma hashChunks_of_even (current : List (FixedBytes 32)) (heven : current.length % 2 = 0) :
    hashChunks blake3 current = some (parents (hashPair blake3) current) := by
  match current with
  | a :: b :: rest =>
    have hrest : rest.length % 2 = 0 := by
      simp only [length_cons] at heven
      omega
    rw [hashChunks, hashChunks_of_even rest hrest]
    rfl
  | [_] => simp at heven
  | [] => rfl

lemma hashChunks_padded (current : List (FixedBytes 32)) (last : FixedBytes 32)
    (hodd : current.length % 2 ≠ 0) (hlast : current.getLast? = some last) :
    hashChunks blake3 (current ++ [last]) = some (parents (hashPair blake3) current) := by
  match current with
  | a :: b :: rest =>
    have hrest : rest.length % 2 ≠ 0 := by
      simp only [length_cons] at hodd
      omega
    have hne : rest ≠ [] := by
      rintro rfl
      simp at hrest
    have hlast' : rest.getLast? = some last := by
      obtain ⟨c, rest, rfl⟩ := exists_cons_of_ne_nil hne
      simpa using hlast
    rw [cons_append, cons_append, hashChunks, hashChunks_padded rest last hrest hlast']
    rfl
  | [a] =>
    obtain rfl : a = last := by simpa using hlast
    rfl
  | [] => simp at hodd

lemma nextLevel_eq (current : List (FixedBytes 32)) :
    nextLevel blake3 current = some (parents (hashPair blake3) current) := by
  unfold nextLevel
  split
  · rename_i hodd
    have hne : current ≠ [] := by
      rintro rfl
      simp at hodd
    rw [getLast?_eq_getLast_of_ne_nil hne, bind_some]
    exact hashChunks_padded blake3 current _ hodd (getLast?_eq_getLast_of_ne_nil hne)
  · rename_i heven
    exact hashChunks_of_even blake3 current (not_not.mp heven)

lemma levelsFrom_eq (fuel : ℕ) (current : List (FixedBytes 32)) :
    levelsFrom blake3 fuel current =
      some (HashTree.levelsFrom (hashPair blake3) fuel current) := by
  induction fuel generalizing current with
  | zero => rfl
  | succ fuel ih =>
    rw [levelsFrom, HashTree.levelsFrom]
    split
    · rfl
    · rw [nextLevel_eq, bind_some, ih]
      rfl

variable {payloadSize : ℕ} {data : Bytes} {total : ℕ}

lemma chunkOf_eq {ci : ℕ} (hpos : 0 < payloadSize) (hlen : data.length + payloadSize < 2 ^ 64)
    (hci : ci < (data.length + payloadSize - 1) / payloadSize) :
    chunkOf data payloadSize ci = some (chunkAt data payloadSize ci) := by
  have hstart : ci * payloadSize < data.length := (lt_totalChunks_iff hpos).mp hci
  rw [chunkOf, mul_of_lt (by omega), bind_some, add_of_lt (by omega), bind_some,
    range_of_le (by omega) (min_le_right _ _), chunkAt, slice, slice, Option.some_inj,
    take_eq_take_iff, length_drop]
  omega

lemma buildFileMerkle_eq (hpos : 0 < payloadSize) (hlen : data.length + payloadSize < 2 ^ 64) :
    buildFileMerkle blake3 data payloadSize =
      some (Sync.buildFileMerkle blake3 data payloadSize) := by
  have hleaves := mapM_eq_some (f := fun ci => (chunkOf data payloadSize ci).map blake3)
    (g := fun ci => blake3 (chunkAt data payloadSize ci))
    (List.range ((data.length + payloadSize - 1) / payloadSize))
    (fun ci hci => by rw [chunkOf_eq hpos hlen (mem_range.mp hci), map_some])
  rw [buildFileMerkle, Sync.buildFileMerkle, if_neg hpos.ne', if_neg hpos.ne', hleaves,
    bind_some, MerkleTree.fromLeaves, fileLeaves]
  split
  · rfl
  · rw [levelsFrom_eq]
    rfl

/-! ## The answer to a resume request -/

def scanChunk (existing : Bytes) (payloadSize : ℕ) (acc : Bytes × ℕ) (ci : ℕ) :
    Option (Bytes × ℕ) :=
  (chunkOf existing payloadSize ci).bind fun chunk =>
    if chunk.any (· != 0) then
      (index acc.1 (ci / 8)).map fun b =>
        (acc.1.set (ci / 8) (b ||| (1 <<< UInt8.ofNat (ci % 8))), acc.2 + 1)
    else some acc

/-- A chunk that is not all zero is assumed to be there. -/
def buildResumeBitmap (m : FileManifest) (dest : Dest) : Option (Option Bytes) :=
  if dest.size ≠ some m.fileSize then some none
  else
    match dest.content with
    | none => some none
    | some existing =>
      (add 64 m.totalChunks 7).bind fun t =>
        ((List.range m.totalChunks).foldlM (scanChunk existing m.payloadSize)
          (List.replicate (t / 8) 0, 0)).map fun p => if p.2 = 0 then none else some p.1

def fullBitmap (total : ℕ) : Option Bytes :=
  (add 64 total 7).bind fun t =>
    let bm : Bytes := List.replicate (t / 8) 0xFF
    let trailing := total % 8
    if trailing ≠ 0 then
      (sub (t / 8) 1).bind fun last =>
        (index bm last).map fun _ => bm.set last ((1 <<< UInt8.ofNat trailing) - 1)
    else some bm

def compareRoots (m : FileManifest) (senderRoot : FixedBytes 32) (tree : MerkleTree) :
    Option MerkleResumeResult :=
  if tree.root = senderRoot then (fullBitmap m.totalChunks).map .bitmap
  else some (.merkleDiff (z.pack (Sync.merkleDiff tree)))

def buildMerkleResume (m : Manifest) (dest : Dest) : Option (Option MerkleResumeResult) :=
  if dest.size ≠ some m.fileSize then some none
  else
    match m.merkleRoot with
    | none => some none
    | some text =>
      (parseRoot text).bind fun
        | none => some none
        | some senderRoot =>
          (readMerkleCache blake3 dest).bind fun
            | some tree => (compareRoots z m.toFileManifest senderRoot tree).map some
            | none =>
              match dest.content with
              | none => some none
              | some existing =>
                (buildFileMerkle blake3 existing m.payloadSize).bind fun tree =>
                  -- the fingerprint goes into the new cache file
                  (contentFingerprint blake3 existing).bind fun _ =>
                    (compareRoots z m.toFileManifest senderRoot tree).map some

def resumeResult (m : Manifest) (dest : Dest) : Option (Option MerkleResumeResult) :=
  if m.resumeMode = "bitmap" then
    (buildResumeBitmap m.toFileManifest dest).map fun bm => bm.map .bitmap
  else if m.resumeMode = "merkle" then buildMerkleResume blake3 z m dest
  else some none

lemma fullBitmap_eq (hlen : total + 7 < 2 ^ 64) :
    fullBitmap total = some (FlagBits.fullBitmap total) := by
  rw [fullBitmap, add_of_lt hlen, bind_some, FlagBits.fullBitmap]
  dsimp only
  split
  · rw [sub_of_le (by omega), bind_some, index_of_lt (by rw [length_replicate]; omega) 0, map_some]
  · rfl

variable {m : FileManifest}

lemma compareRoots_eq (hlen : m.totalChunks + 7 < 2 ^ 64) (senderRoot : FixedBytes 32)
    (tree : MerkleTree) :
    compareRoots z m senderRoot tree =
      some (if tree.root = senderRoot then .bitmap (FlagBits.fullBitmap m.totalChunks)
        else .merkleDiff (z.pack (Sync.merkleDiff tree))) := by
  rw [compareRoots, fullBitmap_eq hlen]
  split <;> rfl

structure SizesFit (m : FileManifest) : Prop where
  payload_pos : 0 < m.payloadSize
  chunks : m.totalChunks = (m.fileSize + m.payloadSize - 1) / m.payloadSize
  total_lt : m.totalChunks + 7 < 2 ^ 64
  file_lt : m.fileSize + m.payloadSize < 2 ^ 64

lemma SizesFit.of_validateManifest {maxFileSize : Option ℕ}
    (h : validateManifest m maxFileSize = .ok ()) : SizesFit m := by
  obtain ⟨hpos, hpayload, -, htotal, hchunks⟩ := validateManifest_ok h
  have hfile : m.fileSize ≤ m.totalChunks * m.payloadSize := by
    by_contra! hlt
    exact lt_irrefl _ (((lt_totalChunks_iff hpos).mpr hlt).trans_eq hchunks.symm)
  have hproduct : m.totalChunks * m.payloadSize ≤ maxTotalChunks * maxPacket :=
    Nat.mul_le_mul htotal hpayload
  unfold maxTotalChunks at htotal hproduct
  unfold maxPacket at hpayload hproduct
  exact ⟨hpos, hchunks, by omega, by omega⟩

lemma exists_scanChunk {existing : Bytes} (hpos : 0 < payloadSize)
    (hlen : existing.length + payloadSize < 2 ^ 64)
    (htotal : total = (existing.length + payloadSize - 1) / payloadSize) (acc : Bytes × ℕ)
    (hacc : acc.1.length = (total + 7) / 8) (ci : ℕ) (hci : ci < total) :
    ∃ acc', scanChunk existing payloadSize acc ci = some acc' ∧
      acc'.1.length = (total + 7) / 8 := by
  rw [scanChunk, chunkOf_eq hpos hlen (htotal ▸ hci), bind_some]
  split
  · rw [index_of_lt (by omega) 0]
    exact ⟨_, rfl, by rw [length_set]; exact hacc⟩
  · exact ⟨acc, rfl, hacc⟩

lemma exists_buildResumeBitmap (hm : SizesFit m) (dest : Dest) :
    ∃ bm, buildResumeBitmap m dest = some bm := by
  unfold buildResumeBitmap
  split
  · exact ⟨none, rfl⟩
  rename_i hsize
  cases hcontent : dest.content with
  | none => exact ⟨none, rfl⟩
  | some existing =>
    have hlen : existing.length = m.fileSize :=
      some.inj ((dest.size_content existing hcontent).symm.trans (not_not.mp hsize))
    obtain ⟨p, hp, -⟩ := exists_foldlM (f := scanChunk existing m.payloadSize)
      (I := fun acc => acc.1.length = (m.totalChunks + 7) / 8) (List.range m.totalChunks)
      (fun acc hacc ci hci => exists_scanChunk hm.payload_pos (hlen ▸ hm.file_lt)
        (hlen ▸ hm.chunks) acc hacc ci (mem_range.mp hci))
      (List.replicate ((m.totalChunks + 7) / 8) 0, 0) length_replicate
    dsimp only
    rw [add_of_lt hm.total_lt, bind_some, hp]
    exact ⟨_, rfl⟩

lemma content_of_readMerkleCache {dest : Dest} {tree : MerkleTree}
    (h : readMerkleCache blake3 dest = some (some tree)) : dest.content.isSome = true := by
  cases hcontent : dest.content with
  | some existing => rfl
  | none =>
    rw [readMerkleCache, hcontent] at h
    split at h
    · cases h
    · obtain ⟨envelope, -, htree⟩ := Option.bind_eq_some_iff.mp h
      split at htree
      · cases htree
      · split_ifs at htree <;> cases htree

lemma buildMerkleResume_eq {m : Manifest} (hm : SizesFit m.toFileManifest) {dest : Dest}
    (hsize : dest.size = some m.fileSize) {text : String} (htext : m.merkleRoot = some text)
    {senderRoot : FixedBytes 32} (hroot : parseRoot text = some (some senderRoot)) :
    ∃ cached, readMerkleCache blake3 dest = some cached ∧
      buildMerkleResume blake3 z m dest =
        some (Sync.buildMerkleResume blake3 z m.toFileManifest senderRoot dest.content cached) := by
  obtain ⟨cached, hcached⟩ := exists_readMerkleCache blake3 dest
  refine ⟨cached, hcached, ?_⟩
  rw [buildMerkleResume, if_neg (not_not.mpr hsize), htext]
  dsimp only
  rw [hroot, bind_some]
  dsimp only
  rw [hcached, bind_some]
  cases hdata : dest.content with
  | none =>
    cases cached with
    | none => rfl
    | some tree =>
      have hsome := content_of_readMerkleCache blake3 hcached
      rw [hdata] at hsome
      cases hsome
  | some existing =>
    have hlen : existing.length = m.fileSize :=
      some.inj ((dest.size_content existing hdata).symm.trans hsize)
    obtain ⟨fp, hfp⟩ := exists_contentFingerprint blake3 existing
    rw [Sync.buildMerkleResume]
    dsimp only
    rw [if_neg (not_not.mpr hlen)]
    cases cached with
    | some tree =>
      dsimp only
      rw [compareRoots_eq z hm.total_lt, Option.getD_some]
      split <;> rfl
    | none =>
      dsimp only
      rw [buildFileMerkle_eq blake3 hm.payload_pos (hlen ▸ hm.file_lt), bind_some, hfp,
        bind_some, compareRoots_eq z hm.total_lt, Option.getD_none]
      split <;> rfl

lemma resumeResult_eq_none_iff {m : Manifest} (hm : SizesFit m.toFileManifest) (dest : Dest) :
    resumeResult blake3 z m dest = none ↔
      m.resumeMode = "merkle" ∧ dest.size = some m.fileSize ∧
        ∃ text, m.merkleRoot = some text ∧ Utf8Text.byteLength text.toList = 64 ∧
          misaligned text.toList = true := by
  unfold resumeResult
  split
  · rename_i hbitmap
    obtain ⟨bm, hbm⟩ := exists_buildResumeBitmap hm dest
    simp [hbm, hbitmap]
  · split
    · rename_i hmerkle
      by_cases hsize : dest.size = some m.fileSize
      · cases htext : m.merkleRoot with
        | none => simp [buildMerkleResume, hsize, htext]
        | some text =>
          have hiff := parseRoot_eq_none_iff text
          have hgoal : buildMerkleResume blake3 z m dest = none ↔ parseRoot text = none := by
            cases hroot : parseRoot text with
            | none => simp [buildMerkleResume, hsize, htext, hroot]
            | some root =>
              cases root with
              | none => simp [buildMerkleResume, hsize, htext, hroot]
              | some senderRoot =>
                obtain ⟨cached, -, hresult⟩ :=
                  buildMerkleResume_eq blake3 z hm hsize htext hroot
                simp [hresult]
          rw [hgoal, hiff]
          simp [hmerkle, hsize]
      · simp [buildMerkleResume, hsize]
    · rename_i hmerkle
      simp [hmerkle]

/-! ## Zeroing the holes of a resumed file -/

def byteRange (fileSize payloadSize : ℕ) (run : ℕ × ℕ) : Option (ℕ × ℕ) :=
  let start := min (saturatingMul 64 run.1 payloadSize) fileSize
  let stop := min (saturatingMul 64 (saturatingAdd 64 run.1 run.2) payloadSize) fileSize
  (sub stop start).map fun len => (start, len)

def byteRanges (runs : List (ℕ × ℕ)) (fileSize payloadSize : ℕ) : Option (List (ℕ × ℕ)) :=
  (runs.mapM (byteRange fileSize payloadSize)).map fun ranges => ranges.filter fun r => 0 < r.2

/-- A punched hole reads as zeros; where none can be punched the bytes are overwritten. -/
def zeroExistingRange (punched : ℕ → Bool) (mmap : Bytes) (r : ℕ × ℕ) : Option Bytes :=
  if punched r.1 then some (mmap.mapIdx fun i b => if r.1 ≤ i ∧ i < r.1 + r.2 then 0 else b)
  else
    (add 64 r.1 r.2).bind fun stop =>
      if stop ≤ mmap.length then copyInto mmap r.1 stop (List.replicate (stop - r.1) 0)
      else some mmap

def zeroExistingRanges (punched : ℕ → Bool) (mmap : Bytes) (ranges : List (ℕ × ℕ)) :
    Option Bytes :=
  ranges.foldlM (zeroExistingRange punched) mmap

lemma byteRange_eq (fileSize payloadSize : ℕ) (run : ℕ × ℕ) :
    ∃ len, min (saturatingMul 64 run.1 payloadSize) fileSize + len ≤ fileSize ∧
      byteRange fileSize payloadSize run =
        some (min (saturatingMul 64 run.1 payloadSize) fileSize, len) := by
  have hadd : min run.1 (2 ^ 64 - 1) ≤ saturatingAdd 64 run.1 run.2 :=
    min_le_min_right _ (Nat.le_add_right _ _)
  have hle : saturatingMul 64 run.1 payloadSize ≤
      saturatingMul 64 (saturatingAdd 64 run.1 run.2) payloadSize := by
    refine le_min ?_ (min_le_right _ _)
    rcases Nat.eq_zero_or_pos payloadSize with rfl | hpos
    · simp [saturatingMul]
    rcases le_total run.1 (2 ^ 64 - 1) with hsmall | hlarge
    · rw [min_eq_left hsmall] at hadd
      exact (min_le_left _ _).trans (Nat.mul_le_mul_right _ hadd)
    · rw [min_eq_right hlarge] at hadd
      exact (min_le_right _ _).trans (hadd.trans (Nat.le_mul_of_pos_right _ hpos))
  rw [byteRange, sub_of_le (min_le_min_right _ hle)]
  refine ⟨_, ?_, rfl⟩
  omega

lemma exists_byteRanges (runs : List (ℕ × ℕ)) (fileSize payloadSize : ℕ) :
    ∃ ranges, byteRanges runs fileSize payloadSize = some ranges ∧
      ∀ r ∈ ranges, r.1 + r.2 ≤ fileSize := by
  choose len hlen hrange using byteRange_eq fileSize payloadSize
  rw [byteRanges, mapM_eq_some runs fun run _ => hrange run]
  refine ⟨_, rfl, ?_⟩
  intro r hr
  obtain ⟨run, -, rfl⟩ := List.mem_map.mp (mem_of_mem_filter hr)
  exact hlen run

lemma exists_zeroExistingRanges (punched : ℕ → Bool) {fileSize : ℕ} (hfile : fileSize < 2 ^ 64)
    (mmap : Bytes) {ranges : List (ℕ × ℕ)} (hranges : ∀ r ∈ ranges, r.1 + r.2 ≤ fileSize) :
    ∃ zeroed, zeroExistingRanges punched mmap ranges = some zeroed ∧
      zeroed.length = mmap.length := by
  refine exists_foldlM (I := fun bytes : Bytes => bytes.length = mmap.length) ranges ?_ mmap rfl
  intro bytes hbytes r hr
  have hr' := hranges r hr
  unfold zeroExistingRange
  split
  · exact ⟨_, rfl, by rw [length_mapIdx, hbytes]⟩
  rw [add_of_lt (by omega), bind_some]
  split
  · rename_i hstop
    rw [copyInto_of_le (Nat.le_add_right _ _) hstop length_replicate]
    refine ⟨_, rfl, ?_⟩
    simp only [length_append, length_take, length_replicate, length_drop]
    omega
  · exact ⟨bytes, rfl, hbytes⟩

end Checked

/-! ## The whole phase -/

inductive IntakeError where
  | refused (text : String)
  /-- The socket, the control channel, a timeout or the filesystem. -/
  | io

structure Surroundings where
  answered : Bool
  resumeReq : Option Bytes
  /-- The output could be opened, sized and mapped. -/
  opened : Bool
  punched : ℕ → Bool

structure Setup where
  path : String
  dataSeqBase : UInt64
  mmap : Bytes
  streams : List StreamRecvState

/-- The number after the MANIFEST's; it wraps in builds without overflow checks. -/
def dataSeqBase (overflowChecks : Bool) (packetNumber : UInt64) : Option UInt64 :=
  if overflowChecks = true ∧ packetNumber.toNat = 2 ^ 64 - 1 then none else some (packetNumber + 1)

def decodeResumeBitmap (z : Zstd) (payload : Bytes) (totalChunks : ℕ) : Except String Bytes :=
  let bitmap := z.unpack payload
  let expected := (totalChunks + 7) / 8
  if bitmap.length ≠ expected then
    .error (s!"invalid resume bitmap: {bitmap.length} bytes, " ++
      s!"expected {expected} for {totalChunks} chunks")
  else .ok bitmap

/-- Answer the MANIFEST; the result is the bitmap of the chunks that will not be sent. -/
def answerManifest (z : Zstd) (env : Surroundings) (m : FileManifest)
    (result : Option MerkleResumeResult) : Except IntakeError (Option Bytes) :=
  if env.answered then
    match result with
    | none => .ok none
    | some (.bitmap bm) => .ok (some bm)
    | some (.merkleDiff _) =>
      match env.resumeReq with
      | none => .error .io
      | some payload =>
        match decodeResumeBitmap z payload m.totalChunks with
        | .error e => .error (.refused e)
        | .ok bm => .ok (some bm)
  else .error .io

/-- A fresh output is truncated and extended, a resumed one is mapped as it is; an empty file
has a placeholder of one byte. -/
def mapOutput (env : Surroundings) (m : FileManifest) (dest : Dest) (resumed : Bool) :
    Except IntakeError Bytes :=
  if env.opened then
    if m.fileSize = 0 then .ok [0]
    else if resumed then
      match dest.content with
      | none => .error .io
      | some existing => .ok existing
    else .ok (List.replicate m.fileSize 0)
  else .error .io

def zeroHoles (env : Surroundings) (m : FileManifest) (resumed : Bool) (mmap : Bytes) :
    Option Bytes :=
  if m.zeroRuns ≠ [] ∧ resumed = true then
    (Checked.byteRanges m.zeroRuns m.fileSize m.payloadSize).bind fun ranges =>
      (range mmap 0 m.fileSize).bind fun view =>
        (Checked.zeroExistingRanges env.punched view ranges).map fun zeroed =>
          zeroed ++ mmap.drop m.fileSize
  else some mmap

section Prepare

variable {E : Crypto.Ed25519} {anchors : List (FixedBytes 32)}
variable (blake3 : Bytes → FixedBytes 32) (z : Zstd) (overflowChecks : Bool)

def startReceive (env : Surroundings) (packetNumber : UInt64) (m : Manifest) (path : String)
    (dest : Dest) : Option (Except IntakeError Setup) :=
  (dataSeqBase overflowChecks packetNumber).bind fun base =>
    (Checked.resumeResult blake3 z m dest).bind fun result =>
      match answerManifest z env m.toFileManifest result with
      | .error e => some (.error e)
      | .ok bitmap =>
        match mapOutput env m.toFileManifest dest bitmap.isSome with
        | .error e => some (.error e)
        | .ok mmap =>
          (zeroHoles env m.toFileManifest bitmap.isSome mmap).bind fun mmap =>
            (daemonSkips m.totalChunks m.numStreams bitmap m.zeroRuns).map fun skips =>
              .ok ⟨path, base, mmap, skips.1⟩

def prepareTransfer (maxFileSize : Option ℕ) (roots : List String)
    (permittedPaths : Option (Crypto.VerifiedGrant E anchors)) (fs : String → Dest)
    (env : Surroundings) (packetNumber : UInt64) (m : Manifest) :
    Option (Except IntakeError Setup) :=
  match validateManifest m.toFileManifest maxFileSize with
  | .error e => some (.error (.refused e))
  | .ok () =>
    match openedPath roots permittedPaths m.destPath with
    | .error e => some (.error (.refused e))
    | .ok path => startReceive blake3 z overflowChecks env packetNumber m path (fs path)

variable {mmap : Bytes} {env : Surroundings}

lemma exists_zeroHoles (env : Surroundings) {m : FileManifest} (hm : Checked.SizesFit m)
    (resumed : Bool) (hlen : m.fileSize ≤ mmap.length) :
    ∃ zeroed, zeroHoles env m resumed mmap = some zeroed := by
  unfold zeroHoles
  split
  · obtain ⟨ranges, hranges, hfit⟩ :=
      Checked.exists_byteRanges m.zeroRuns m.fileSize m.payloadSize
    have hfile : m.fileSize < 2 ^ 64 := (Nat.le_add_right _ _).trans_lt hm.file_lt
    rw [hranges, bind_some, range_of_le (Nat.zero_le _) hlen, bind_some]
    obtain ⟨zeroed, hzeroed, -⟩ :=
      Checked.exists_zeroExistingRanges env.punched hfile _ hfit
    rw [hzeroed]
    exact ⟨_, rfl⟩
  · exact ⟨mmap, rfl⟩

variable {m : Manifest} {dest : Dest}

lemma size_of_resumeResult {result : MerkleResumeResult}
    (h : Checked.resumeResult blake3 z m dest = some (some result)) :
    dest.size = some m.fileSize := by
  by_contra hsize
  have hbitmap : Checked.buildResumeBitmap m.toFileManifest dest = some none := if_pos hsize
  have hmerkle : Checked.buildMerkleResume blake3 z m dest = some none := if_pos hsize
  rw [Checked.resumeResult, hbitmap, hmerkle] at h
  split_ifs at h <;> cases h

lemma size_of_answerManifest {result : Option MerkleResumeResult} {bitmap : Bytes}
    (hresult : Checked.resumeResult blake3 z m dest = some result)
    (h : answerManifest z env m.toFileManifest result = .ok (some bitmap)) :
    dest.size = some m.fileSize := by
  cases result with
  | some result => exact size_of_resumeResult blake3 z hresult
  | none =>
    unfold answerManifest at h
    split at h <;> cases h

lemma length_mapOutput {m : FileManifest} {resumed : Bool}
    (hsize : resumed = true → dest.size = some m.fileSize)
    (h : mapOutput env m dest resumed = .ok mmap) : m.fileSize ≤ mmap.length := by
  unfold mapOutput at h
  split at h
  · split at h
    · omega
    · split at h
      · rename_i hresumed
        rcases hcontent : dest.content with _ | existing
        · rw [hcontent] at h
          cases h
        rw [hcontent] at h
        cases h
        exact (some.inj
          ((hsize hresumed).symm.trans (dest.size_content mmap hcontent))).le
      · cases h
        rw [length_replicate]
  · cases h

lemma startReceive_eq_none_iff (env : Surroundings) (packetNumber : UInt64)
    (hm : Checked.SizesFit m.toFileManifest) (path : String) (dest : Dest) :
    startReceive blake3 z overflowChecks env packetNumber m path dest = none ↔
      dataSeqBase overflowChecks packetNumber = none ∨
        Checked.resumeResult blake3 z m dest = none := by
  unfold startReceive
  cases hbase : dataSeqBase overflowChecks packetNumber with
  | none => simp
  | some base =>
    cases hresult : Checked.resumeResult blake3 z m dest with
    | none => simp
    | some result =>
      simp only [bind_some, reduceCtorEq, or_self, iff_false]
      cases hanswer : answerManifest z env m.toFileManifest result with
      | error e => simp
      | ok bitmap =>
        dsimp only
        cases hmmap : mapOutput env m.toFileManifest dest bitmap.isSome with
        | error e => simp
        | ok mmap =>
          have hsize : bitmap.isSome = true → dest.size = some m.fileSize := by
            intro hsome
            obtain ⟨bm, rfl⟩ := Option.isSome_iff_exists.mp hsome
            exact size_of_answerManifest blake3 z hresult hanswer
          obtain ⟨zeroed, hzeroed⟩ := exists_zeroHoles env hm bitmap.isSome
            (length_mapOutput hsize hmmap)
          obtain ⟨resumed, marked, hskips⟩ := @exists_daemonSkips bitmap m.zeroRuns
            m.totalChunks m.numStreams
          simp [hzeroed, hskips]

/-- An accepted manifest makes the handler panic in two ways only: its packet number has no
successor, or a resume over a file of the declared size slices the root inside a character. -/
theorem manifest_intake_returns_iff (maxFileSize : Option ℕ) (roots : List String)
    (permittedPaths : Option (Crypto.VerifiedGrant E anchors)) (fs : String → Dest)
    (env : Surroundings) (packetNumber : UInt64) (m : Manifest)
    (hvalid : validateManifest m.toFileManifest maxFileSize = .ok ()) :
    (∃ outcome, prepareTransfer blake3 z overflowChecks maxFileSize roots permittedPaths fs env
        packetNumber m = some outcome) ↔
      ∀ path, openedPath roots permittedPaths m.destPath = .ok path →
        ¬(overflowChecks = true ∧ packetNumber.toNat = 2 ^ 64 - 1) ∧
        ¬(m.resumeMode = "merkle" ∧ (fs path).size = some m.fileSize ∧
          ∃ text, m.merkleRoot = some text ∧ Utf8Text.byteLength text.toList = 64 ∧
            misaligned text.toList = true) := by
  have hm := Checked.SizesFit.of_validateManifest hvalid
  rw [prepareTransfer, hvalid]
  dsimp only
  cases hpath : openedPath roots permittedPaths m.destPath with
  | error e => simp
  | ok path =>
    have hnone := startReceive_eq_none_iff blake3 z overflowChecks env packetNumber hm path
      (fs path)
    have hbase : dataSeqBase overflowChecks packetNumber = none ↔
        overflowChecks = true ∧ packetNumber.toNat = 2 ^ 64 - 1 := by
      simp [dataSeqBase]
    rw [hbase, Checked.resumeResult_eq_none_iff blake3 z hm] at hnone
    rw [← Option.ne_none_iff_exists', ne_eq, hnone, not_or]
    constructor
    · rintro h path' hpath'
      cases hpath'
      exact h
    · exact fun h => h path rfl

end Prepare

/-! ### A root that is not ASCII -/

def oddRoot : String := String.ofList ('0' :: List.replicate 31 'é' ++ ['0'])

def sampleDest : Dest where
  size := some 1
  content := some [7]
  mtime := none
  cache := none
  size_content := by
    rintro data h
    cases h
    rfl
  cache_length := by
    rintro raw h
    cases h

def resumeManifest (root : String) : Manifest where
  fileSize := 1
  payloadSize := 1
  totalChunks := 1
  numStreams := 1
  zeroRuns := []
  destPath := "out"
  resumeMode := "merkle"
  merkleRoot := some root

def sampleSurroundings : Surroundings := ⟨true, none, true, fun _ => true⟩

def noGrant : Option (Crypto.VerifiedGrant ⟨fun _ => true, fun _ _ _ => true⟩ []) := none

theorem manifest_intake_returns_short_root :
    ∃ outcome, prepareTransfer sampleHash sampleZstd true none [] noGrant (fun _ => sampleDest)
      sampleSurroundings 7 (resumeManifest "00") = some outcome := by
  refine (manifest_intake_returns_iff sampleHash sampleZstd true none [] noGrant
    (fun _ => sampleDest) sampleSurroundings 7 (resumeManifest "00") rfl).mpr ?_
  intro path _
  refine ⟨by decide, ?_⟩
  rintro ⟨-, -, text, htext, hlen, -⟩
  cases htext
  revert hlen
  decide

/-- The root is sliced in twos inside a character. -/
theorem odd_root_panics :
    validateManifest (resumeManifest oddRoot).toFileManifest none = .ok () ∧
      prepareTransfer sampleHash sampleZstd false none [] noGrant (fun _ => sampleDest)
        sampleSurroundings 7 (resumeManifest oddRoot) = none :=
  ⟨rfl, rfl⟩

end Favonius.Daemon
