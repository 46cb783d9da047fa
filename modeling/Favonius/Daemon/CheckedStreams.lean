import Favonius.Daemon.Receiver
import Favonius.Lib.Machine

/-!
# Decoding and stream bookkeeping with their checks

The functions that the receive loop calls once more, written with every index, slice and
fixed-width operation of the source as one that can stop the thread.  Each has a lemma that
says under which facts it returns what the function of the model returns.  Loops whose body
only reads or sets flags run their accesses first and then take the model's result.
-/

namespace Favonius.Daemon.Checked

open ByteCodec Machine Proto List Option Extension

def headerCursor (src : Bytes) : Option Bytes :=
  [1, 1, 2, 2, 8, 4, 8, 8, 4, 4].foldlM (fun src n => advance n src) src

def decodeHeader (crc32c : Bytes → UInt32) (src : Bytes) :
    Option (Except ProtoError (PacketHeader × Bytes)) :=
  if src.length < headerSize then some (PacketHeader.decode crc32c src)
  else do
    let _ ← range src 0 (headerSize - 4)
    let _ ← headerCursor src
    return PacketHeader.decode crc32c src

variable (crc32c : Bytes → UInt32) (buf : Bytes)

lemma decodeHeader_eq (src : Bytes) :
    decodeHeader crc32c src = some (PacketHeader.decode crc32c src) := by
  unfold decodeHeader
  split
  · rfl
  rename_i hlen
  have h42 : 42 ≤ src.length := Nat.not_lt.mp hlen
  have hcursor : ∃ rest, headerCursor src = some rest := by
    refine ⟨_, foldlM_eq_some (g := fun src n => src.drop n)
      (I := fun src ns => ns.sum ≤ src.length) ?_ _ _ h42⟩
    intro src n ns hsum
    rw [sum_cons] at hsum
    refine ⟨advance_of_le (by omega), ?_⟩
    rw [length_drop]
    omega
  obtain ⟨rest, hrest⟩ := hcursor
  rw [range_of_le (Nat.zero_le _) (by simp only [headerSize]; omega), hrest]
  rfl

def decodeExtension (src : Bytes) : Option (Except ProtoError (Extension × Bytes)) :=
  if src.length < extensionHeaderSize then some (decode src)
  else do
    let src' ← advance 2 src
    let src'' ← advance 2 src'
    let length := (getU16 src').1.toNat
    if src''.length < length then return decode src
    else
      let _ ← range src'' 0 length
      let _ ← advance length src''
      return decode src

lemma decodeExtension_eq (src : Bytes) :
    decodeExtension src = some (decode src) := by
  unfold decodeExtension
  split
  · rfl
  rename_i hlen
  have h4 : 4 ≤ src.length := Nat.not_lt.mp hlen
  have hdrop : 2 ≤ (src.drop 2).length := by
    rw [length_drop]
    omega
  simp only [advance_of_le (show 2 ≤ src.length by omega), advance_of_le hdrop,
    bind_eq_bind, bind_some]
  split
  · rfl
  · rename_i hvalue
    rw [range_of_le (Nat.zero_le _) (Nat.not_lt.mp hvalue), advance_of_le (Nat.not_lt.mp hvalue)]
    rfl

def decodeExtensionsFrom : ℕ → Bytes → Option (Except ProtoError (List Extension))
  | _, [] => some (.ok [])
  | 0, _ :: _ => some (.ok [])
  | fuel + 1, b :: bs => do
      match ← decodeExtension (b :: bs) with
      | .error e => return .error e
      | .ok (ext, rest) => return (← decodeExtensionsFrom fuel rest).map (ext :: ·)

lemma decodeExtensionsFrom_eq (fuel : ℕ) (src : Bytes) :
    decodeExtensionsFrom fuel src = some (Proto.decodeExtensionsFrom fuel src) := by
  induction fuel generalizing src with
  | zero => cases src <;> rfl
  | succ fuel ih =>
    cases src with
    | nil => rfl
    | cons b bs =>
      simp only [decodeExtensionsFrom, Proto.decodeExtensionsFrom, decodeExtension_eq,
        bind_eq_bind, bind_some]
      cases decode (b :: bs) with
      | error e => rfl
      | ok p =>
        simp only [ih, bind_some]
        rfl

def decodePacket (crc32c : Bytes → UInt32) (data : Bytes) :
    Option (Except ProtoError Packet) := do
  match ← decodeHeader crc32c data with
  | .error e => return .error e
  | .ok (header, cursor) =>
    let headerLen := header.headerLength.toNat
    let extRegionSize := headerLen - headerSize
    if cursor.length < extRegionSize then
      return .error (.bufferTooShort headerLen (headerSize + cursor.length))
    else
      let region ← range cursor 0 extRegionSize
      match ← decodeExtensionsFrom region.length region with
      | .error e => return .error e
      | .ok extensions =>
        let cursor ← range cursor extRegionSize cursor.length
        let payloadLen := header.payloadLength.toNat
        if cursor.length < payloadLen then
          return .error (.payloadOverflow header.payloadLength cursor.length)
        else
          let payload ← range cursor 0 payloadLen
          return .ok ⟨header, extensions, payload⟩

lemma decodePacket_eq (data : Bytes) :
    decodePacket crc32c data = some (Proto.decodePacket crc32c data) := by
  simp only [decodePacket, Proto.decodePacket, decodeHeader_eq, bind_eq_bind, bind_some]
  cases PacketHeader.decode crc32c data with
  | error e => rfl
  | ok p =>
    obtain ⟨header, cursor⟩ := p
    dsimp only
    split
    · rfl
    rename_i hext
    have hle : header.headerLength.toNat - headerSize ≤ cursor.length := Nat.not_lt.mp hext
    rw [range_of_le (Nat.zero_le _) hle, range_of_le hle le_rfl]
    simp only [bind_some, decodeExtensionsFrom_eq, decodeExtensions, slice, drop_zero, Nat.sub_zero]
    cases Proto.decodeExtensionsFrom _ (cursor.take (header.headerLength.toNat - headerSize)) with
    | error e => rfl
    | ok extensions =>
      have htake : (cursor.drop (header.headerLength.toNat - headerSize)).take
          (cursor.length - (header.headerLength.toNat - headerSize)) =
            cursor.drop (header.headerLength.toNat - headerSize) :=
        take_of_length_le (by rw [length_drop])
      simp only [htake]
      split
      · rfl
      · rename_i hpayload
        rw [range_of_le (Nat.zero_le _) (Nat.not_lt.mp hpayload)]
        rfl

def decodeDataInline (buf : Bytes) : Option (Option DataPayloadRef) :=
  if buf.length < headerSize + dataPayloadHeaderSize then some none
  else do
    let ptype ← index buf 1
    if ptype ≠ 0x20 then return none
    else
      let streamId ← beAt 4 buf 14
      let dp ← range buf headerSize buf.length
      let chunkIndex ← beAt 8 dp 8
      let dataLen ← beAt 2 dp 20
      let dataStart := headerSize + dataPayloadHeaderSize
      let dataEnd ← add 64 dataStart dataLen
      if buf.length < dataEnd then return none
      else
        let data ← range buf dataStart dataEnd
        return some ⟨UInt32.ofNat streamId, UInt64.ofNat chunkIndex, data⟩

lemma decodeDataInline_eq : decodeDataInline buf = some (Proto.decodeDataInline buf) := by
  unfold decodeDataInline Proto.decodeDataInline
  split
  · rfl
  rename_i hlen
  have h64 : 64 ≤ buf.length := Nat.not_lt.mp hlen
  have hdp : range buf headerSize buf.length = some (buf.drop headerSize) := by
    rw [range_of_le (by simp only [headerSize]; omega) le_rfl, slice,
      take_of_length_le (by rw [length_drop])]
  have hdpLen : 22 ≤ (buf.drop headerSize).length := by
    simp only [length_drop, headerSize]
    omega
  have hdataLen : beNat (((buf.drop headerSize).drop 20).take 2) < 2 ^ 16 :=
    (beNat_lt _).trans_le (Nat.pow_le_pow_right (by norm_num) (length_take_le _ _))
  have hend : headerSize + dataPayloadHeaderSize +
      beNat (((buf.drop headerSize).drop 20).take 2) < 2 ^ 64 := by
    simp only [headerSize, dataPayloadHeaderSize] at hdataLen ⊢
    omega
  simp only [index_of_lt (show 1 < buf.length by omega) 0, beAt_of_le (show 14 + 4 ≤ buf.length by
    omega), hdp, beAt_of_le (show 8 + 8 ≤ (buf.drop headerSize).length by omega),
    beAt_of_le (show 20 + 2 ≤ (buf.drop headerSize).length by omega), add_of_lt hend,
    bind_eq_bind, bind_some, getU16, getU32, getU64, UInt16.toNat_ofNat',
    Nat.mod_eq_of_lt hdataLen]
  split
  · rfl
  split
  · rfl
  · rename_i hshort
    rw [range_of_le (Nat.le_add_right _ _) (Nat.not_lt.mp hshort), Nat.add_sub_cancel_left]
    rfl

def decodeKeyUpdate (payload : Bytes) : Option (Option UInt64) :=
  if payload.length < 8 then some none
  else (beAt 8 payload 0).map fun n => some (UInt64.ofNat n)

lemma decodeKeyUpdate_eq (payload : Bytes) :
    decodeKeyUpdate payload = some (Crypto.decodeKeyUpdate payload) := by
  unfold decodeKeyUpdate Crypto.decodeKeyUpdate
  split
  · rfl
  · rw [beAt_of_le (by omega)]
    rfl

def extractSample (buf : Bytes) (payloadStart : ℕ) : Option (FixedBytes 16) :=
  let n := min (buf.length - payloadStart) 16
  if 0 < n then do
    let stop ← add 64 payloadStart n
    let bytes ← range buf payloadStart stop
    let _ ← copyInto (List.replicate 16 (0 : UInt8)) 0 n bytes
    return Crypto.extractSample buf payloadStart
  else some (Crypto.extractSample buf payloadStart)

def xorMask (buf : Bytes) (off : ℕ) (mask : Bytes) (maskOff : ℕ) : Option Unit :=
  forRange 8 fun i => do
    let _ ← index buf (off + i)
    let _ ← index mask (maskOff + i)

def unprotect (aes128 : FixedBytes 16 → FixedBytes 16 → FixedBytes 16) (key : FixedBytes 16)
    (buf : Bytes) (payloadStart : ℕ) : Option Bytes :=
  if buf.length < 42 then some buf
  else do
    let sample ← extractSample buf payloadStart
    let mask := aes128 key sample
    xorMask buf 6 mask.1 0
    xorMask buf 18 mask.1 8
    return Crypto.unprotect aes128 key buf payloadStart

lemma extractSample_eq (payloadStart : ℕ) (hstart : payloadStart ≤ headerSize) :
    extractSample buf payloadStart = some (Crypto.extractSample buf payloadStart) := by
  have h42 : payloadStart ≤ 42 := hstart
  unfold extractSample
  dsimp only
  split
  · have hstop : payloadStart + min (buf.length - payloadStart) 16 ≤ buf.length := by omega
    rw [add_of_lt (by omega)]
    simp only [bind_eq_bind, bind_some, range_of_le (Nat.le_add_right _ _) hstop]
    rw [copyInto_of_le (Nat.zero_le _) (by rw [length_replicate]; omega)
      (by rw [length_slice]; omega)]
    rfl
  · rfl

lemma xorMask_eq {buf : Bytes} {off : ℕ} (hoff : off + 8 ≤ buf.length) (mask : FixedBytes 16)
    {maskOff : ℕ} (hmask : maskOff ≤ 8) : xorMask buf off mask.1 maskOff = some () := by
  apply forRange_eq_some
  intro i hi
  rw [index_of_lt (by omega) 0, index_of_lt (by omega) 0]
  rfl

lemma unprotect_eq (aes128 : FixedBytes 16 → FixedBytes 16 → FixedBytes 16) (key : FixedBytes 16)
    (buf : Bytes) :
    unprotect aes128 key buf headerSize = some (Crypto.unprotect aes128 key buf headerSize) := by
  unfold unprotect
  split
  · rename_i hlen
    rw [Crypto.unprotect, Crypto.protect, if_pos hlen]
  · rw [extractSample_eq buf headerSize le_rfl]
    simp only [bind_eq_bind, bind_some]
    rw [xorMask_eq (by omega) _ (Nat.zero_le _), xorMask_eq (by omega) _ le_rfl]
    rfl

def advancePrefix (received : List Bool) : ℕ → ℕ → Option ℕ
  | 0, contig => some contig
  | fuel + 1, contig =>
    if contig < received.length then do
      if ← index received contig then advancePrefix received fuel (← add 64 contig 1)
      else return contig
    else some contig

def markReceived (s : StreamRecvState) (localCi : ℕ) : Option StreamRecvState := do
  let _ ← index s.received localCi
  let _ ← add 64 s.nReceived 1
  let _ ← advancePrefix (s.received.set localCi true) s.received.length s.contigPrefix
  return s.markReceived localCi

lemma exists_advancePrefix {received : List Bool} (hlen : received.length < 2 ^ 64) (fuel : ℕ)
    (contig : ℕ) : ∃ stop, advancePrefix received fuel contig = some stop := by
  induction fuel generalizing contig with
  | zero => exact ⟨contig, rfl⟩
  | succ fuel ih =>
    unfold advancePrefix
    split
    · rename_i hlt
      rw [index_of_lt hlt false]
      simp only [bind_eq_bind, bind_some]
      split
      · rw [add_of_lt (by omega)]
        exact ih _
      · exact ⟨contig, rfl⟩
    · exact ⟨contig, rfl⟩

variable {s : StreamRecvState} {localCi : ℕ}

lemma markReceived_eq (hlocal : localCi < s.chunkCount) (hcount : s.chunkCount < 2 ^ 64)
    (hn : s.nReceived < s.chunkCount) : markReceived s localCi = some (s.markReceived localCi) := by
  have hlen := s.received_length
  have hset : (s.received.set localCi true).length < 2 ^ 64 := by
    rw [length_set]
    omega
  obtain ⟨stop, hstop⟩ := exists_advancePrefix hset s.received.length s.contigPrefix
  rw [markReceived, index_of_lt (by omega) false, add_of_lt (by omega), hstop]
  rfl

def highestContiguous (s : StreamRecvState) : Option UInt64 :=
  if 0 < s.contigPrefix then do
    let sum ← add 64 s.chunkBase s.contigPrefix
    (sub sum 1).map UInt64.ofNat
  else some (UInt64.ofNat s.chunkBase - 1)

def remaining (s : StreamRecvState) : Option (List Bool) :=
  if s.contigPrefix < s.received.length then range s.received s.contigPrefix s.received.length
  else some []

def buildStreamAckBitmap (s : StreamRecvState) : Option (UInt64 × Bytes) := do
  let hcPn ← highestContiguous s
  let remaining ← remaining s
  let bitmapLen := min ((remaining.length + 7) / 8) maxAckBitmapBytes
  forRange (min remaining.length (maxAckBitmapBytes * 8)) fun i =>
    (index (List.replicate bitmapLen (0 : UInt8)) (i / 8)).map fun _ => ()
  return (hcPn, FlagBits.packFlags bitmapLen (remaining.take (maxAckBitmapBytes * 8)))

lemma buildStreamAckBitmap_eq (hend : s.chunkBase + s.chunkCount < 2 ^ 64) :
    buildStreamAckBitmap s = some (Daemon.buildStreamAckBitmap s) := by
  have hcontig := s.contig_le
  have hnumber : highestContiguous s = some (if 0 < s.contigPrefix then
      UInt64.ofNat (s.chunkBase + s.contigPrefix - 1) else UInt64.ofNat s.chunkBase - 1) := by
    unfold highestContiguous
    split
    · rw [add_of_lt (by omega)]
      simp only [bind_eq_bind, bind_some]
      rw [sub_of_le (by omega)]
      rfl
    · rfl
  have hremaining : remaining s = some (s.received.drop s.contigPrefix) := by
    unfold remaining
    split
    · rename_i hlt
      rw [range_of_le hlt.le le_rfl, slice, take_of_length_le (by rw [length_drop])]
    · rw [drop_eq_nil_of_le (by omega)]
  have hbits : ∀ n, forRange (min n (maxAckBitmapBytes * 8)) (fun i =>
      (index (List.replicate (min ((n + 7) / 8) maxAckBitmapBytes) (0 : UInt8)) (i / 8)).map
        fun _ => ()) = some () := by
    intro n
    apply forRange_eq_some
    intro i hi
    rw [index_of_lt (by rw [length_replicate]; omega) 0]
    rfl
  rw [buildStreamAckBitmap, hnumber, hremaining]
  simp only [bind_eq_bind, bind_some]
  rw [hbits]
  rfl

lemma length_ackBitmap_le (s : StreamRecvState) :
    (Daemon.buildStreamAckBitmap s).2.length ≤ 1024 := by
  simp only [Daemon.buildStreamAckBitmap, FlagBits.length_packFlags, maxAckBitmapBytes]
  omega

def gapStep (s : StreamRecvState) (acc : List (ℕ × ℕ) × Option ℕ) (idx : ℕ) :
    Option (List (ℕ × ℕ) × Option ℕ) :=
  if idx < s.received.length ∧ s.received.getD idx false = false then do
    let g ← add 64 idx s.chunkBase
    if s.nackedRanges.contains g = false then
      match acc.2 with
      | none => return (acc.1, some g)
      | some _ => return acc
    else
      match acc.2 with
      | some first => return (acc.1 ++ [(first, ← sub g 1)], none)
      | none => return acc
  else
    match acc.2 with
    | some first => do return (acc.1 ++ [(first, ← add 64 (← sub idx 1) s.chunkBase)], none)
    | none => some acc

lemma gapStep_eq {acc : List (ℕ × ℕ) × Option ℕ} {idx : ℕ} (hidx : idx + s.chunkBase < 2 ^ 64)
    (hopen : acc.2.isSome → 0 < idx) : gapStep s acc idx = some (Daemon.gapStep s acc idx) := by
  obtain ⟨done, current⟩ := acc
  unfold gapStep Daemon.gapStep
  split
  · rw [add_of_lt hidx]
    simp only [bind_eq_bind, bind_some]
    split
    · cases current <;> rfl
    cases current with
    | none => rfl
    | some first =>
      have hpos := hopen rfl
      rw [sub_of_le (by omega)]
      rfl
  · cases current with
    | none => rfl
    | some first =>
      have hpos := hopen rfl
      rw [sub_of_le hpos]
      simp only [bind_eq_bind, bind_some]
      rw [add_of_lt (by omega)]
      rfl

def gapRanges (s : StreamRecvState) (gs ge : ℕ) : Option (List (ℕ × ℕ)) := do
  let scan ← (List.range' gs (ge - gs)).foldlM (gapStep s) ([], none)
  match scan.2 with
  | some first => return scan.1 ++ [(first, ← add 64 (← sub ge 1) s.chunkBase)]
  | none => return scan.1

lemma gapRanges_eq {gs ge : ℕ} (hge : ge + s.chunkBase < 2 ^ 64) :
    gapRanges s gs ge = some (Daemon.gapRanges s gs ge) := by
  -- a range is open only after the first index, and the indices ascend
  have hscan : (List.range' gs (ge - gs)).foldlM (gapStep s) ([], none) =
      some ((List.range' gs (ge - gs)).foldl (Daemon.gapStep s) ([], none)) := by
    refine foldlM_eq_some (I := fun acc is => (acc.2.isSome → ∀ i ∈ is, 0 < i) ∧
      (∀ i ∈ is, i < ge) ∧ is.Pairwise (· < ·)) ?_ _ _ ?_
    · rintro acc i is ⟨hopen, hlt, hsorted⟩
      rw [pairwise_cons] at hsorted
      have hi := hlt i mem_cons_self
      refine ⟨gapStep_eq (by omega) fun h => hopen h i mem_cons_self, ?_, ?_, hsorted.2⟩
      · exact fun _ j hj => Nat.zero_lt_of_lt (hsorted.1 j hj)
      · exact fun j hj => hlt j (mem_cons_of_mem i hj)
    · refine ⟨fun h => (Bool.false_ne_true h).elim, ?_, pairwise_lt_range'⟩
      intro i hi
      rw [mem_range'_1] at hi
      omega
  rw [gapRanges, Daemon.gapRanges, hscan]
  simp only [bind_eq_bind, bind_some]
  cases hfirst : ((List.range' gs (ge - gs)).foldl (Daemon.gapStep s) ([], none)).2 with
  | none => rfl
  | some first =>
    have hpos : 1 ≤ ge := by
      by_contra hzero
      obtain rfl : ge = 0 := by omega
      simp at hfirst
    rw [sub_of_le hpos]
    simp only [bind_some]
    rw [add_of_lt (by omega)]
    rfl

def ageGap (s : StreamRecvState) (nowMs : ℕ) : Option StreamRecvState := do
  let _ ← add 32 (if s.gapStartLocal.isNone then 0 else s.gapCounter) 1
  return s.ageGap nowMs

def expectAfter (s : StreamRecvState) (localCi : ℕ) : Option StreamRecvState := do
  let _ ← add 64 localCi 1
  return s.expectAfter localCi

def detectGap (s : StreamRecvState) (localCi nowMs : ℕ) :
    Option (StreamRecvState × List (ℕ × ℕ)) :=
  if s.expectedNextLocal < localCi then do
    let aged ← ageGap s nowMs
    if aged.gapDue nowMs then
      let ranges ← gapRanges aged (aged.gapStartLocal.getD aged.expectedNextLocal) localCi
      return (← expectAfter (aged.closeGap ranges) localCi, ranges)
    else return (← expectAfter aged localCi, [])
  else do return (← expectAfter s localCi, [])

lemma detectGap_eq (hlocal : localCi < s.chunkCount) (hend : s.chunkBase + s.chunkCount < 2 ^ 64)
    (hgap : s.gapCounter < 32) (nowMs : ℕ) :
    detectGap s localCi nowMs = some (Daemon.detectGap s localCi nowMs) := by
  have hexpect : ∀ s : StreamRecvState, expectAfter s localCi = some (s.expectAfter localCi) := by
    intro s
    rw [expectAfter, add_of_lt (by omega)]
    rfl
  unfold detectGap Daemon.detectGap
  split
  · have hage : ageGap s nowMs = some (s.ageGap nowMs) := by
      rw [ageGap, add_of_lt (by split <;> omega)]
      rfl
    have hbase : (s.ageGap nowMs).chunkBase = s.chunkBase :=
      congrArg Progress.chunkBase (progress_ageGap s nowMs)
    rw [hage]
    simp only [bind_eq_bind, bind_some]
    split
    · rw [gapRanges_eq (by omega)]
      simp only [bind_some]
      rw [hexpect]
      rfl
    · rw [hexpect]
      rfl
  · rw [hexpect]
    rfl

end Favonius.Daemon.Checked
