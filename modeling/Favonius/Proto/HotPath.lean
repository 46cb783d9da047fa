import Favonius.Lib.SlotBuffer
import Favonius.Proto.PacketFormat

/-!
# The hot path beside the reference codec

The encoders of the hot path write their fields at fixed offsets into a slice that is used again
and again; the decoder of the receive loop reads them at fixed offsets and checks less than the
two steps that it stands for.
-/

namespace Favonius.Proto

open ByteCodec SlotBuffer List Option PacketHeader

/-! ## What the reference decoders accept -/

namespace DataPayload

lemma decode_eq_ok_iff {src : Bytes} {p : DataPayload} :
    decode src = .ok p ↔ dataPayloadHeaderSize ≤ src.length ∧
      (getU16 (src.drop 20)).1.toNat ≤ (src.drop dataPayloadHeaderSize).length ∧
      p = ⟨(getU64 src).1, (getU64 (src.drop 8)).1, (getU32 (src.drop 16)).1,
        (src.drop dataPayloadHeaderSize).take (getU16 (src.drop 20)).1.toNat⟩ := by
  simp only [decode, getU64, getU32, getU16, drop_drop, dataPayloadHeaderSize, Nat.reduceAdd]
  split_ifs with hshort hdata
  · simp only [false_iff]
    omega
  · simp only [false_iff]
    omega
  · rw [Except.ok.injEq, eq_comm]
    exact ⟨fun h => ⟨not_lt.mp hshort, not_lt.mp hdata, h⟩, fun h => h.2.2⟩

end DataPayload

lemma decodePacketUnchecked_eq_ok_iff {data : Bytes} {pkt : Packet} :
    decodePacketUnchecked data = .ok pkt ↔ ∃ t, PacketHeader.Readable t data ∧
      let cursor := data.drop headerSize
      let n := (getU16 (data.drop 4)).1.toNat - headerSize
      let payloadLen := (getU32 (data.drop 34)).1.toNat
      n ≤ cursor.length ∧ payloadLen ≤ (cursor.drop n).length ∧
        pkt = ⟨readAt t data, [], (cursor.drop n).take payloadLen⟩ := by
  constructor
  · intro h
    unfold decodePacketUnchecked at h
    rcases hheader : decodeUnchecked data with _ | r
    · rw [hheader] at h
      cases h
    obtain ⟨header, cursor⟩ := r
    obtain ⟨t, hread, rfl, rfl⟩ := decodeUnchecked_eq_ok_iff.mp hheader
    rw [hheader] at h
    dsimp only at h
    split_ifs at h with hregion hpayload
    cases h
    exact ⟨t, hread, not_lt.mp hregion, not_lt.mp hpayload, rfl⟩
  · rintro ⟨t, hread, hregion, hpayload, rfl⟩
    have hheader := decodeUnchecked_eq_ok_iff.mpr ⟨t, hread, rfl, rfl⟩
    rw [decodePacketUnchecked, hheader]
    exact (if_neg (not_lt.mpr hregion)).trans (if_neg (not_lt.mpr hpayload))

/-! ## The inline decoder -/

lemma decodeDataInline_eq_some_iff {buf : Bytes} {r : DataPayloadRef} :
    decodeDataInline buf = some r ↔
      headerSize + dataPayloadHeaderSize ≤ buf.length ∧ buf.getD 1 0 = 0x20 ∧
      headerSize + dataPayloadHeaderSize +
        (getU16 ((buf.drop headerSize).drop 20)).1.toNat ≤ buf.length ∧
      r = ⟨(getU32 (buf.drop 14)).1, (getU64 ((buf.drop headerSize).drop 8)).1,
        slice buf (headerSize + dataPayloadHeaderSize)
          (getU16 ((buf.drop headerSize).drop 20)).1.toNat⟩ := by
  simp only [decodeDataInline]
  split_ifs with hshort htype hdata
  · simp only [false_iff]
    omega
  · simp only [false_iff]
    exact fun h => htype h.2.1
  · simp only [false_iff]
    omega
  · rw [some.injEq, eq_comm]
    exact ⟨fun h => ⟨not_lt.mp hshort, not_not.mp htype, not_lt.mp hdata, h⟩, fun h => h.2.2.2⟩

/-- The two steps that the inline decoder stands for: the packet without its CRC, which has to be
DATA, then its payload. -/
def decodeDataTwoStep (buf : Bytes) : Option DataPayloadRef :=
  match decodePacketUnchecked buf with
  | .error _ => none
  | .ok pkt =>
    if pkt.header.packetType = .data then
      match DataPayload.decode pkt.payload with
      | .error _ => none
      | .ok p => some ⟨pkt.header.streamId, p.chunkIndex, p.data⟩
    else none

lemma decodeDataTwoStep_eq_some_iff {buf : Bytes} {r : DataPayloadRef} :
    decodeDataTwoStep buf = some r ↔ ∃ pkt p, decodePacketUnchecked buf = .ok pkt ∧
      pkt.header.packetType = .data ∧ DataPayload.decode pkt.payload = .ok p ∧
        r = ⟨pkt.header.streamId, p.chunkIndex, p.data⟩ := by
  constructor
  · intro h
    unfold decodeDataTwoStep at h
    split at h
    · cases h
    rename_i pkt hpkt
    split_ifs at h with htype
    split at h
    · cases h
    rename_i p hp
    cases h
    exact ⟨pkt, p, hpkt, htype, hp, rfl⟩
  · rintro ⟨pkt, p, hpkt, htype, hp, rfl⟩
    simp only [decodeDataTwoStep, hpkt, htype, hp, if_true]

/-- Where the header says that the payload starts, and where it says that it ends. -/
def declaredStart (buf : Bytes) : ℕ := (getU16 (buf.drop 4)).1.toNat

def declaredEnd (buf : Bytes) : ℕ := declaredStart buf + (getU32 (buf.drop 34)).1.toNat

def dataLenAt (buf : Bytes) (start : ℕ) : ℕ := (getU16 (buf.drop (start + 20))).1.toNat

/-- A DATA payload that starts at `start` is complete at `stop`, inside the buffer. -/
def PayloadFits (buf : Bytes) (start stop : ℕ) : Prop :=
  start + dataPayloadHeaderSize + dataLenAt buf start ≤ stop ∧ stop ≤ buf.length

def payloadAt (buf : Bytes) (start : ℕ) : DataPayloadRef :=
  ⟨(getU32 (buf.drop 14)).1, (getU64 (buf.drop (start + 8))).1,
    slice buf (start + dataPayloadHeaderSize) (dataLenAt buf start)⟩

/-- In a DATA packet the fixed offsets stand for what the header declares: a payload fits between
byte 42 and the end of the buffer exactly if the version is the current one and a payload fits
where the header puts it, and the two hold the same chunk. -/
def FixedOffsetsHold (buf : Bytes) : Prop :=
  buf.getD 1 0 = 0x20 →
    (PayloadFits buf headerSize buf.length ↔ (getU8 buf).1 = protocolVersion ∧
      headerSize ≤ declaredStart buf ∧ PayloadFits buf (declaredStart buf) (declaredEnd buf)) ∧
    (PayloadFits buf headerSize buf.length →
      payloadAt buf headerSize = payloadAt buf (declaredStart buf))

variable {buf : Bytes} {r : DataPayloadRef}

lemma decodeDataInline_iff : decodeDataInline buf = some r ↔
    (buf.getD 1 0 = 0x20 ∧ PayloadFits buf headerSize buf.length) ∧
      r = payloadAt buf headerSize := by
  rw [decodeDataInline_eq_some_iff, PayloadFits, payloadAt, dataLenAt, drop_drop, drop_drop]
  constructor
  · rintro ⟨-, htype, hdata, rfl⟩
    exact ⟨⟨htype, hdata, le_rfl⟩, rfl⟩
  · rintro ⟨⟨htype, hdata, -⟩, rfl⟩
    exact ⟨by omega, htype, hdata, rfl⟩

lemma take_drop_take {xs : Bytes} {off w n : ℕ} (h : off + w ≤ n) :
    ((xs.take n).drop off).take w = (xs.drop off).take w := by
  rw [drop_take, take_take, Nat.min_eq_left (by omega)]

/-- A payload of `len` bytes is decoded from the bytes that follow `start`. -/
theorem decode_take_drop {start len : ℕ} (hlen : start + len ≤ buf.length) {streamId : UInt32} :
    (∃ p, DataPayload.decode ((buf.drop start).take len) = .ok p ∧
      r = ⟨streamId, p.chunkIndex, p.data⟩) ↔
    PayloadFits buf start (start + len) ∧ r = ⟨streamId, (getU64 (buf.drop (start + 8))).1,
      slice buf (start + dataPayloadHeaderSize) (dataLenAt buf start)⟩ := by
  have hsize : ((buf.drop start).take len).length = len := by
    rw [length_take, length_drop]
    omega
  have hindex (h : dataPayloadHeaderSize ≤ len) :
      (getU64 (((buf.drop start).take len).drop 8)).1 = (getU64 (buf.drop (start + 8))).1 := by
    rw [getU64, take_drop_take (le_trans (by decide) h), drop_drop, getU64]
  have hdataLen (h : dataPayloadHeaderSize ≤ len) :
      (getU16 (((buf.drop start).take len).drop 20)).1.toNat = dataLenAt buf start := by
    rw [getU16, take_drop_take (le_trans (by decide) h), drop_drop, dataLenAt, getU16]
  have hdata (h : dataPayloadHeaderSize + dataLenAt buf start ≤ len) :
      (((buf.drop start).take len).drop dataPayloadHeaderSize).take (dataLenAt buf start) =
        slice buf (start + dataPayloadHeaderSize) (dataLenAt buf start) := by
    rw [take_drop_take h, drop_drop, slice]
  simp only [DataPayload.decode_eq_ok_iff, length_drop, hsize, PayloadFits]
  constructor
  · rintro ⟨p, ⟨hshort, hfits, rfl⟩, rfl⟩
    rw [hdataLen hshort] at hfits ⊢
    rw [hindex hshort, hdata (by omega)]
    exact ⟨⟨by omega, hlen⟩, rfl⟩
  · rintro ⟨⟨hfits, -⟩, rfl⟩
    have hshort : dataPayloadHeaderSize ≤ len := by omega
    refine ⟨_, ⟨hshort, ?_, rfl⟩, ?_⟩
    · rw [hdataLen hshort]
      omega
    · rw [hdataLen hshort, hindex hshort, hdata (by omega)]

/-- The two steps read the payload where the header puts it. -/
theorem decodeDataTwoStep_iff : decodeDataTwoStep buf = some r ↔
    (buf.getD 1 0 = 0x20 ∧ (getU8 buf).1 = protocolVersion ∧ headerSize ≤ declaredStart buf ∧
      PayloadFits buf (declaredStart buf) (declaredEnd buf)) ∧
      r = payloadAt buf (declaredStart buf) := by
  have hbyte : buf.getD 1 0 = (getU8 (buf.drop 1)).1 := by
    simp [getU8, getD_eq_getElem?_getD]
  have hbody (h : headerSize ≤ declaredStart buf) :
      (buf.drop headerSize).drop (declaredStart buf - headerSize) =
        buf.drop (declaredStart buf) := by
    rw [drop_drop, Nat.add_sub_cancel' h]
  rw [decodeDataTwoStep_eq_some_iff, hbyte]
  simp only [decodePacketUnchecked_eq_ok_iff]
  constructor
  · rintro ⟨_, p, ⟨t, hread, hregion, hpayload, rfl⟩, rfl, hp, rfl⟩
    have hstart : headerSize ≤ declaredStart buf := UInt16.le_iff_toNat_le.mp hread.headerLength
    have hlen : declaredEnd buf ≤ buf.length := by
      have hlong := hread.length
      simp only [length_drop] at hregion hpayload
      simp only [declaredEnd, declaredStart] at hstart ⊢
      omega
    dsimp only at hp
    rw [← declaredStart, hbody hstart] at hp
    obtain ⟨hfits, hr⟩ := (decode_take_drop hlen).mp ⟨p, hp, rfl⟩
    exact ⟨⟨(PacketType.toByte_of_tryFrom hread.type_eq).symm, hread.version, hstart, hfits⟩, hr⟩
  · rintro ⟨⟨htype, hversion, hstart, hfits⟩, rfl⟩
    have hlen : declaredEnd buf ≤ buf.length := hfits.2
    obtain ⟨p, hp, hr⟩ := (decode_take_drop hlen).mpr ⟨hfits, rfl⟩
    have hread : PacketHeader.Readable .data buf := by
      refine ⟨by rw [declaredEnd] at hlen; omega, hversion, ?_, UInt16.le_iff_toNat_le.mpr hstart⟩
      rw [htype]
      rfl
    rw [declaredEnd] at hlen
    refine ⟨_, p, ⟨.data, hread, ?_, ?_, rfl⟩, rfl, ?_, hr⟩
    · rw [← declaredStart, length_drop]
      omega
    · rw [← declaredStart, hbody hstart, length_drop]
      omega
    · dsimp only
      rwa [← declaredStart, hbody hstart]

/-- The inline decoder is the two steps on exactly the buffers in which its fixed offsets stand
for what the header declares. -/
theorem decodeDataInline_eq_twoStep_iff (buf : Bytes) :
    decodeDataInline buf = decodeDataTwoStep buf ↔ FixedOffsetsHold buf := by
  constructor
  · intro heq htype
    have hboth (r : DataPayloadRef) := decodeDataInline_iff.symm.trans
      ((iff_of_eq (congrArg (· = some r) heq)).trans (decodeDataTwoStep_iff (r := r)))
    simp only [htype, true_and] at hboth
    refine ⟨⟨fun h => ((hboth _).mp ⟨h, rfl⟩).1, fun h => ((hboth _).mpr ⟨h, rfl⟩).1⟩, fun h => ?_⟩
    exact ((hboth _).mp ⟨h, rfl⟩).2
  · intro hold
    apply ext
    intro r
    rw [decodeDataInline_iff, decodeDataTwoStep_iff]
    by_cases htype : buf.getD 1 0 = 0x20
    · obtain ⟨hfits, hsame⟩ := hold htype
      simp only [htype, true_and, ← hfits]
      exact and_congr_right fun h => by rw [hsame h]
    · simp only [htype, false_and]

/-- The inline decoder takes a packet of a later version, one that declares no payload and one
that declares extensions. -/
theorem decodeDataInline_ne_twoStep :
    let buf (version headerLength payloadLength : UInt8) : Bytes :=
      [version, 0x20, 0, 1, 0, headerLength] ++ List.replicate 31 0 ++ [payloadLength] ++
        List.replicate 25 0 ++ [1, 77]
    decodeDataInline (buf 9 42 23) = some ⟨0, 0, [77]⟩ ∧ decodeDataTwoStep (buf 9 42 23) = none ∧
      decodeDataInline (buf 1 42 0) = some ⟨0, 0, [77]⟩ ∧ decodeDataTwoStep (buf 1 42 0) = none ∧
      decodeDataInline (buf 1 46 19) = some ⟨0, 0, [77]⟩ ∧
        decodeDataTwoStep (buf 1 46 19) = none := by
  decide +kernel

/-! ## The encoders -/

section Encoders

variable (crc32c : Bytes → UInt32)

def PacketHeader.writes (h : PacketHeader) : List (ℕ × Bytes) :=
  [(0, putU8 h.version), (1, putU8 h.packetType.toByte), (2, putU16 h.flags),
    (4, putU16 h.headerLength), (6, putU64 h.connectionId), (14, putU32 h.streamId),
    (18, putU64 h.packetNumber), (26, putU64 h.timestamp), (34, putU32 h.payloadLength)]

/-- Each field at its offset, then the CRC of what was written; `none` is the panic on a slice
that is too short. -/
def PacketHeader.encodeInto (h : PacketHeader) (dst : Bytes) : Option Bytes :=
  if dst.length < headerSize then none else
  let dst := overwriteAll dst h.writes
  some (overwrite dst 38 (putU32 (crc32c (dst.take 38))))

variable {dst : Bytes}

lemma PacketHeader.encodeInto_eq (h : PacketHeader) (hlen : headerSize ≤ dst.length) :
    h.encodeInto crc32c dst = some (h.encode crc32c ++ dst.drop headerSize) := by
  have hadjacent : Adjacent 0 h.writes := by simp [writes, Adjacent]
  have hfields : h.writes.flatMap Prod.snd = h.fields := by simp [writes, fields, append_assoc]
  have hall := overwriteAll_eq hadjacent dst
  rw [hfields, length_fields] at hall
  rw [encodeInto, if_neg (not_lt.mpr hlen), hall]
  dsimp only
  rw [take_left' h.length_fields, overwrite_append h.length_fields, drop_drop]
  rfl

/-- The fixed part of a DATA payload, as both senders write it behind the header. -/
def dataPayloadWrites (fileId chunkIndex : UInt64) (chunkOffset : UInt32) (dataLen : ℕ) :
    List (ℕ × Bytes) :=
  [(0, putU64 fileId), (8, putU64 chunkIndex), (16, putU32 chunkOffset),
    (20, putU16 (UInt16.ofNat dataLen))]

/-- `encode_data_packet_into` with the slice it writes to and the number of bytes it returns. -/
def encodeDataPacketIntoDst (dst : Bytes) (connId packetNumber timestamp : UInt64)
    (streamId : UInt32) (fileId chunkIndex : UInt64) (chunkOffset : UInt32) (data : Bytes) :
    Option (Bytes × ℕ) :=
  let payloadLen := dataPayloadHeaderSize + data.length
  let total := headerSize + payloadLen
  if dst.length < total then none else
  let hdr := dataHeader connId packetNumber timestamp streamId payloadLen
  (hdr.encodeInto crc32c (dst.take headerSize)).map fun head =>
    let dp := overwriteAll (dst.drop headerSize)
      (dataPayloadWrites fileId chunkIndex chunkOffset data.length ++ [(22, data)])
    (head ++ dp, total)

def ackBitmapWrites (streamId : UInt32) (base highestContiguous : UInt64) (bitmap : Bytes) :
    List (ℕ × Bytes) :=
  [(0, putU32 streamId), (4, putU64 base), (12, putU64 highestContiguous), (20, putU32 0),
    (24, putU16 (UInt16.ofNat bitmap.length)), (26, bitmap)]

def encodeAckBitmapIntoDst (dst : Bytes) (connId seq timestamp : UInt64) (streamId : UInt32)
    (base highestContiguous : UInt64) (bitmap : Bytes) : Option (Bytes × ℕ) :=
  let payloadLen := ackBitmapHeaderSize + bitmap.length
  let total := headerSize + payloadLen
  if dst.length < total then none else
  let hdr := ctrlHeader .ackBitmap connId seq timestamp payloadLen
  (hdr.encodeInto crc32c (dst.take headerSize)).map fun head =>
    (head ++ overwriteAll (dst.drop headerSize)
      (ackBitmapWrites streamId base highestContiguous bitmap), total)

def encodeCtrlPacketWithPayloadIntoDst (dst : Bytes) (ptype : PacketType)
    (connId seq timestamp : UInt64) (payloadLen : ℕ) : Option (Bytes × ℕ) :=
  if dst.length < headerSize then none else
  ((ctrlHeader ptype connId seq timestamp payloadLen).encodeInto crc32c (dst.take headerSize)).map
    fun head => (head ++ dst.drop headerSize, headerSize)

lemma encodeInto_append_overwriteAll (hdr : PacketHeader) {writes : List (ℕ × Bytes)}
    {payload : Bytes} (hadjacent : Adjacent 0 writes) (hpayload : writes.flatMap Prod.snd = payload)
    (hroom : headerSize + payload.length ≤ dst.length) :
    (hdr.encodeInto crc32c (dst.take headerSize)).map
        (fun head => (head ++ overwriteAll (dst.drop headerSize) writes,
          headerSize + payload.length)) =
      some (hdr.encode crc32c ++ payload ++ dst.drop (headerSize + payload.length),
        headerSize + payload.length) := by
  have htake : (dst.take headerSize).length = headerSize := by
    rw [length_take]
    omega
  rw [hdr.encodeInto_eq crc32c htake.ge, overwriteAll_eq hadjacent, hpayload, drop_drop,
    drop_of_length_le htake.le, append_nil, map_some, append_assoc]

variable (connId packetNumber timestamp : UInt64) (ptype : PacketType)

lemma encodeDataPacketIntoDst_eq (streamId : UInt32) (fileId chunkIndex : UInt64)
    (chunkOffset : UInt32) {data : Bytes}
    (hroom : headerSize + (dataPayloadHeaderSize + data.length) ≤ dst.length) :
    encodeDataPacketIntoDst crc32c dst connId packetNumber timestamp streamId fileId chunkIndex
        chunkOffset data =
      some (encodeDataPacketInto crc32c connId packetNumber timestamp streamId fileId chunkIndex
          chunkOffset data ++ dst.drop (headerSize + (dataPayloadHeaderSize + data.length)),
        headerSize + (dataPayloadHeaderSize + data.length)) := by
  have hadjacent : Adjacent 0
      (dataPayloadWrites fileId chunkIndex chunkOffset data.length ++ [(22, data)]) := by
    simp [dataPayloadWrites, Adjacent]
  have hpayload : (dataPayloadWrites fileId chunkIndex chunkOffset data.length ++
      [(22, data)]).flatMap Prod.snd =
        DataPayload.encode ⟨fileId, chunkIndex, chunkOffset, data⟩ := by
    simp [dataPayloadWrites, DataPayload.encode, append_assoc]
  have hlen := DataPayload.length_encode ⟨fileId, chunkIndex, chunkOffset, data⟩
  have hfits : headerSize + (DataPayload.encode ⟨fileId, chunkIndex, chunkOffset, data⟩).length ≤
      dst.length := by
    rw [hlen]
    exact hroom
  have hwrite := encodeInto_append_overwriteAll crc32c
    (dataHeader connId packetNumber timestamp streamId (dataPayloadHeaderSize + data.length))
    hadjacent hpayload hfits
  rw [hlen] at hwrite
  rw [encodeDataPacketIntoDst, if_neg (not_lt.mpr hroom)]
  exact hwrite

lemma encodeAckBitmapIntoDst_eq (connId seq timestamp : UInt64) (streamId : UInt32)
    (base highestContiguous : UInt64) {bitmap : Bytes}
    (hroom : headerSize + (ackBitmapHeaderSize + bitmap.length) ≤ dst.length) :
    encodeAckBitmapIntoDst crc32c dst connId seq timestamp streamId base highestContiguous bitmap =
      some
        (encodeAckBitmapInto crc32c connId seq timestamp streamId base highestContiguous bitmap ++
          dst.drop (headerSize + (ackBitmapHeaderSize + bitmap.length)),
        headerSize + (ackBitmapHeaderSize + bitmap.length)) := by
  have hadjacent : Adjacent 0 (ackBitmapWrites streamId base highestContiguous bitmap) := by
    simp [ackBitmapWrites, Adjacent]
  have hpayload : (ackBitmapWrites streamId base highestContiguous bitmap).flatMap Prod.snd =
      AckBitmap.encode ⟨streamId, base, highestContiguous, 0, bitmap⟩ := by
    simp [ackBitmapWrites, AckBitmap.encode, append_assoc]
  have hlen := AckBitmap.length_encode ⟨streamId, base, highestContiguous, 0, bitmap⟩
  have hwrite := encodeInto_append_overwriteAll crc32c
    (ctrlHeader .ackBitmap connId seq timestamp (ackBitmapHeaderSize + bitmap.length))
    hadjacent hpayload (hlen ▸ hroom)
  rw [hlen] at hwrite
  rw [encodeAckBitmapIntoDst, if_neg (not_lt.mpr hroom)]
  exact hwrite

lemma encodeCtrlPacketWithPayloadIntoDst_eq (connId seq timestamp : UInt64) (payloadLen : ℕ)
    (hroom : headerSize ≤ dst.length) :
    encodeCtrlPacketWithPayloadIntoDst crc32c dst ptype connId seq timestamp payloadLen =
      some (encodeCtrlPacketWithPayloadInto crc32c ptype connId seq timestamp payloadLen ++
        dst.drop headerSize, headerSize) := by
  have htake : (dst.take headerSize).length = headerSize := by
    rw [length_take]
    omega
  rw [encodeCtrlPacketWithPayloadIntoDst, if_neg (not_lt.mpr hroom),
    encodeInto_eq crc32c _ htake.ge, drop_of_length_le htake.le, append_nil]
  rfl

/-! ### The reference encoding -/

/-- The bytes are what the reference codec makes of a packet without extensions, and it reads
them back as that packet with its lengths and CRC. -/
structure IsReference (bytes : Bytes) (header : PacketHeader) (payload : Bytes) : Prop where
  encoded : bytes = encodePacketAuto crc32c ⟨header, [], payload⟩
  decoded : decodePacket crc32c bytes = .ok (Packet.completed crc32c ⟨header, [], payload⟩)

variable {crc32c}

lemma isReference_encodePacketAuto {header : PacketHeader} {payload : Bytes}
    (hversion : header.version = protocolVersion)
    (hflags : PacketFlags.hasReservedBits header.flags = false)
    (hpayload : payload.length < 2 ^ 32) :
    IsReference crc32c (encodePacketAuto crc32c ⟨header, [], payload⟩) header payload := by
  refine ⟨rfl, ?_⟩
  have hdecode := decodePacket_encodePacketAuto crc32c (p := ⟨header, [], payload⟩) hversion hflags
    (Nat.le_of_ble_eq_true rfl) hpayload []
  rwa [append_nil] at hdecode

lemma encodePacketAuto_nil (header : PacketHeader) (payload : Bytes) :
    encodePacketAuto crc32c ⟨header, [], payload⟩ =
      ({ header with
        headerLength := UInt16.ofNat headerSize
        payloadLength := UInt32.ofNat payload.length } :
          PacketHeader).encode crc32c ++ payload := by
  simp [encodePacketAuto, encodePacket]

lemma isReference_data (streamId : UInt32) {p : DataPayload} (hdata : p.data.length < 65536) :
    IsReference crc32c (encodeDataPacketInto crc32c connId packetNumber timestamp streamId p.fileId
      p.chunkIndex p.chunkOffset p.data) (dataHeader connId packetNumber timestamp streamId 0)
      p.encode := by
  have hflags : PacketFlags.hasReservedBits PacketFlags.ackEliciting = false := by decide
  have hpayload : p.encode.length < 2 ^ 32 := by
    rw [DataPayload.length_encode, dataPayloadHeaderSize]
    omega
  have hreference : IsReference crc32c (encodePacketAuto crc32c
      ⟨dataHeader connId packetNumber timestamp streamId 0, [], p.encode⟩)
      (dataHeader connId packetNumber timestamp streamId 0) p.encode :=
    isReference_encodePacketAuto rfl hflags hpayload
  rw [encodePacketAuto_nil, DataPayload.length_encode] at hreference
  exact hreference

lemma isReference_ctrl (connId seq timestamp : UInt64) {payload : Bytes}
    (hpayload : payload.length < 2 ^ 32) :
    IsReference crc32c (encodeCtrlPacketWithPayloadInto crc32c ptype connId seq timestamp
      payload.length ++ payload) (ctrlHeader ptype connId seq timestamp 0) payload := by
  have hflags : PacketFlags.hasReservedBits 0 = false := by decide
  have hreference : IsReference crc32c (encodePacketAuto crc32c
      ⟨ctrlHeader ptype connId seq timestamp 0, [], payload⟩)
      (ctrlHeader ptype connId seq timestamp 0) payload :=
    isReference_encodePacketAuto rfl hflags hpayload
  exact hreference

lemma isReference_ackBitmap (connId seq timestamp : UInt64) {streamId : UInt32}
    {base highestContiguous : UInt64} {bitmap : Bytes} (hbitmap : bitmap.length < 65536) :
    IsReference crc32c (encodeAckBitmapInto crc32c connId seq timestamp streamId base
      highestContiguous bitmap) (ctrlHeader .ackBitmap connId seq timestamp 0)
      (AckBitmap.encode ⟨streamId, base, highestContiguous, 0, bitmap⟩) := by
  have hlen := AckBitmap.length_encode ⟨streamId, base, highestContiguous, 0, bitmap⟩
  have hpayload : (AckBitmap.encode ⟨streamId, base, highestContiguous, 0, bitmap⟩).length <
      2 ^ 32 := by
    rw [hlen, ackBitmapHeaderSize]
    dsimp only
    omega
  have hreference := @isReference_ctrl crc32c .ackBitmap connId seq timestamp _ hpayload
  rw [hlen] at hreference
  exact hreference

end Encoders

end Favonius.Proto
