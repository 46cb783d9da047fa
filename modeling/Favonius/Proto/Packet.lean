import Favonius.Proto.Header

/-!
# Data-plane payloads and whole packets

The DATA, ACK_BITMAP and NACK_RANGE payloads, header extensions, the general
packet decoder and the hot-path encoders and decoder of `ahp-proto`.
-/

namespace Favonius.Proto

open ByteCodec List PacketHeader
open UInt16 (ofNat)

def dataPayloadHeaderSize : ℕ := 22

structure DataPayload where
  fileId : UInt64
  chunkIndex : UInt64
  chunkOffset : UInt32
  data : Bytes
  deriving DecidableEq, Repr

namespace DataPayload

def encode (p : DataPayload) : Bytes :=
  putU64 p.fileId ++ putU64 p.chunkIndex ++ putU32 p.chunkOffset ++
    putU16 (ofNat p.data.length) ++ p.data

@[simp] lemma length_encode (p : DataPayload) :
    p.encode.length = dataPayloadHeaderSize + p.data.length := by
  simp [encode, dataPayloadHeaderSize]
  omega

def decode (src : Bytes) : Except ProtoError DataPayload :=
  if src.length < dataPayloadHeaderSize then
    .error (.bufferTooShort dataPayloadHeaderSize src.length) else
  let (fileId, src) := getU64 src
  let (chunkIndex, src) := getU64 src
  let (chunkOffset, src) := getU32 src
  let (dataLen, src) := getU16 src
  if src.length < dataLen.toNat then
    .error (.invalidDataPayload
      s!"DATA declares {dataLen} bytes but only {src.length} remain") else
  .ok ⟨fileId, chunkIndex, chunkOffset, src.take dataLen.toNat⟩

end DataPayload

structure DataPayloadRef where
  streamId : UInt32
  chunkIndex : UInt64
  data : Bytes
  deriving DecidableEq, Repr

/-- The receiver's decoder: it checks the packet type byte and the lengths, and
neither the CRC nor the version. -/
def decodeDataInline (buf : Bytes) : Option DataPayloadRef :=
  if buf.length < headerSize + dataPayloadHeaderSize then none else
  if buf.getD 1 0 ≠ 0x20 then none else
  let streamId := (getU32 (buf.drop 14)).1
  let dp := buf.drop headerSize
  let chunkIndex := (getU64 (dp.drop 8)).1
  let dataLen := (getU16 (dp.drop 20)).1.toNat
  let dataStart := headerSize + dataPayloadHeaderSize
  let dataEnd := dataStart + dataLen
  if buf.length < dataEnd then none else
  some ⟨streamId, chunkIndex, slice buf dataStart dataLen⟩

def ackBitmapHeaderSize : ℕ := 26

structure AckBitmap where
  streamId : UInt32
  basePacketNumber : UInt64
  highestContiguous : UInt64
  ackDelayMicros : UInt32
  bitmap : Bytes
  deriving DecidableEq, Repr

namespace AckBitmap

def encode (a : AckBitmap) : Bytes :=
  putU32 a.streamId ++ putU64 a.basePacketNumber ++ putU64 a.highestContiguous ++
    putU32 a.ackDelayMicros ++ putU16 (ofNat a.bitmap.length) ++ a.bitmap

def decode (src : Bytes) : Except ProtoError AckBitmap :=
  if src.length < ackBitmapHeaderSize then
    .error (.bufferTooShort ackBitmapHeaderSize src.length) else
  let (streamId, src) := getU32 src
  let (basePacketNumber, src) := getU64 src
  let (highestContiguous, src) := getU64 src
  let (ackDelayMicros, src) := getU32 src
  let (bitmapLen, src) := getU16 src
  if src.length < bitmapLen.toNat then
    .error (.invalidDataPayload
      s!"ACK_BITMAP declares {bitmapLen} bitmap bytes but only {src.length} remain") else
  .ok ⟨streamId, basePacketNumber, highestContiguous, ackDelayMicros, src.take bitmapLen.toNat⟩

variable (a : AckBitmap)

@[simp] lemma length_encode : a.encode.length = ackBitmapHeaderSize + a.bitmap.length := by
  simp [encode, ackBitmapHeaderSize]
  omega

lemma decode_encode (h : a.bitmap.length < 65536) : decode a.encode = .ok a := by
  have hlen : ¬ a.encode.length < ackBitmapHeaderSize := by simp
  have hmod : (ofNat a.bitmap.length).toNat = a.bitmap.length := by
    exact Nat.mod_eq_of_lt h
  rw [decode, if_neg hlen]
  simp [encode, append_assoc, hmod]

end AckBitmap

def nackRangeHeaderSize : ℕ := 6

def nackRangeEntrySize : ℕ := 16

structure NackRange where
  streamId : UInt32
  ranges : List (UInt64 × UInt64)
  deriving DecidableEq, Repr

namespace NackRange

def encode (n : NackRange) : Bytes :=
  putU32 n.streamId ++ putU16 (ofNat n.ranges.length) ++
    n.ranges.flatMap fun r => putU64 r.1 ++ putU64 r.2

def readRanges : ℕ → Bytes → List (UInt64 × UInt64)
  | 0, _ => []
  | count + 1, src =>
    let (first, src) := getU64 src
    let (last, src) := getU64 src
    (first, last) :: readRanges count src

def decode (src : Bytes) : Except ProtoError NackRange :=
  if src.length < nackRangeHeaderSize then
    .error (.bufferTooShort nackRangeHeaderSize src.length) else
  let (streamId, src) := getU32 src
  let (rangeCount, src) := getU16 src
  let needed := rangeCount.toNat * nackRangeEntrySize
  if src.length < needed then
    .error (.invalidDataPayload
      s!"NACK_RANGE declares {rangeCount} ranges ({needed} bytes) but only {src.length} remain")
  else .ok ⟨streamId, readRanges rangeCount.toNat src⟩

end NackRange

def extensionHeaderSize : ℕ := 4

structure Extension where
  extType : UInt16
  value : Bytes
  deriving DecidableEq, Repr

def hex04 (n : ℕ) : String :=
  String.ofList (((Nat.toDigits 16 (n % 65536)).map Char.toUpper).leftpad 4 '0')

namespace Extension

def wireSize (e : Extension) : ℕ := extensionHeaderSize + e.value.length

def encode (e : Extension) : Bytes :=
  putU16 e.extType ++ putU16 (ofNat e.value.length) ++ e.value

def decode (src : Bytes) : Except ProtoError (Extension × Bytes) :=
  if src.length < extensionHeaderSize then
    .error (.invalidExtension
      s!"buffer too short for extension header: need {extensionHeaderSize}, have {src.length}")
  else
  let (extType, src) := getU16 src
  let (len, src) := getU16 src
  if src.length < len.toNat then
    .error (.invalidExtension
      (s!"extension 0x{hex04 extType.toNat} declares length {len} " ++
        s!"but only {src.length} bytes remain"))
  else .ok (⟨extType, src.take len.toNat⟩, src.drop len.toNat)

end Extension

/-- Decode until the region is used up.  Each extension takes at least four
bytes, so the region's length is enough fuel. -/
def decodeExtensionsFrom : ℕ → Bytes → Except ProtoError (List Extension)
  | _, [] => .ok []
  | 0, _ :: _ => .ok []
  | fuel + 1, b :: bs =>
    match Extension.decode (b :: bs) with
    | .error e => .error e
    | .ok (ext, rest) => (decodeExtensionsFrom fuel rest).map (ext :: ·)

def decodeExtensions (src : Bytes) : Except ProtoError (List Extension) :=
  decodeExtensionsFrom src.length src

@[simp] lemma decodeExtensions_nil : decodeExtensions [] = .ok [] := rfl

structure Packet where
  header : PacketHeader
  extensions : List Extension
  payload : Bytes
  deriving DecidableEq, Repr

section Codec

variable (crc32c : Bytes → UInt32)

def encodePacket (p : Packet) : Bytes :=
  p.header.encode crc32c ++ p.extensions.flatMap Extension.encode ++ p.payload

def encodePacketAuto (p : Packet) : Bytes :=
  let extSize := (p.extensions.map Extension.wireSize).sum
  encodePacket crc32c { p with header := { p.header with
    headerLength := ofNat (headerSize + extSize)
    payloadLength := UInt32.ofNat p.payload.length } }

def decodePacket (data : Bytes) : Except ProtoError Packet :=
  match decode crc32c data with
  | .error e => .error e
  | .ok (header, cursor) =>
    let headerLen := header.headerLength.toNat
    let extRegionSize := headerLen - headerSize
    if cursor.length < extRegionSize then
      .error (.bufferTooShort headerLen (headerSize + cursor.length)) else
    match decodeExtensions (cursor.take extRegionSize) with
    | .error e => .error e
    | .ok extensions =>
      let cursor := cursor.drop extRegionSize
      let payloadLen := header.payloadLength.toNat
      if cursor.length < payloadLen then
        .error (.payloadOverflow header.payloadLength cursor.length) else
      .ok ⟨header, extensions, cursor.take payloadLen⟩

/-- Without the CRC check; the extensions are skipped. -/
def decodePacketUnchecked (data : Bytes) : Except ProtoError Packet :=
  match decodeUnchecked data with
  | .error e => .error e
  | .ok (header, cursor) =>
    let headerLen := header.headerLength.toNat
    let extRegionSize := headerLen - headerSize
    if cursor.length < extRegionSize then
      .error (.bufferTooShort headerLen (headerSize + cursor.length)) else
    let cursor := cursor.drop extRegionSize
    let payloadLen := header.payloadLength.toNat
    if cursor.length < payloadLen then
      .error (.payloadOverflow header.payloadLength cursor.length) else
    .ok ⟨header, [], cursor.take payloadLen⟩

def dataHeader (connId packetNumber timestamp : UInt64) (streamId : UInt32)
    (payloadLen : ℕ) : PacketHeader where
  version := protocolVersion
  packetType := .data
  flags := PacketFlags.ackEliciting
  headerLength := ofNat headerSize
  connectionId := connId
  streamId := streamId
  packetNumber := packetNumber
  timestamp := timestamp
  payloadLength := UInt32.ofNat payloadLen
  headerCrc := 0

def encodeDataPacketInto (connId packetNumber timestamp : UInt64) (streamId : UInt32)
    (fileId chunkIndex : UInt64) (chunkOffset : UInt32) (data : Bytes) : Bytes :=
  (dataHeader connId packetNumber timestamp streamId
    (dataPayloadHeaderSize + data.length)).encode crc32c ++
    DataPayload.encode ⟨fileId, chunkIndex, chunkOffset, data⟩

/-- The header of a packet the daemon sends on the data port: no flags, stream 0. -/
def ctrlHeader (ptype : PacketType) (connId seq timestamp : UInt64)
    (payloadLen : ℕ) : PacketHeader where
  version := protocolVersion
  packetType := ptype
  flags := 0
  headerLength := ofNat headerSize
  connectionId := connId
  streamId := 0
  packetNumber := seq
  timestamp := timestamp
  payloadLength := UInt32.ofNat payloadLen
  headerCrc := 0

def encodeAckBitmapInto (connId seq timestamp : UInt64) (streamId : UInt32)
    (base highestContiguous : UInt64) (bitmap : Bytes) : Bytes :=
  (ctrlHeader .ackBitmap connId seq timestamp (ackBitmapHeaderSize + bitmap.length)).encode
    crc32c ++ AckBitmap.encode ⟨streamId, base, highestContiguous, 0, bitmap⟩

/-- Only the header is written; the caller appends the payload. -/
def encodeCtrlPacketWithPayloadInto (ptype : PacketType) (connId seq timestamp : UInt64)
    (payloadLen : ℕ) : Bytes :=
  (ctrlHeader ptype connId seq timestamp payloadLen).encode crc32c

def encodeCtrlPacketInto (ptype : PacketType) (connId seq timestamp : UInt64) : Bytes :=
  encodeCtrlPacketWithPayloadInto crc32c ptype connId seq timestamp 0

variable {crc32c}

section

variable (h : PacketHeader) (rest : Bytes)
include h

lemma take_headerSize : (h.encode crc32c ++ rest).take headerSize = h.encode crc32c :=
  take_left' (h.length_encode crc32c)

lemma drop_headerSize : (h.encode crc32c ++ rest).drop headerSize = rest :=
  drop_left' (h.length_encode crc32c)

lemma getD_packetType : (h.encode crc32c ++ rest).getD 1 0 = h.packetType.toByte := rfl

lemma getU16_flags : (getU16 ((h.encode crc32c ++ rest).drop 2)).1 = h.flags := by
  simp [encode, fields, append_assoc, -drop_one]

lemma getU64_connectionId : (getU64 ((h.encode crc32c ++ rest).drop 6)).1 = h.connectionId := by
  simp [encode, fields, append_assoc]

lemma getU32_streamId : (getU32 ((h.encode crc32c ++ rest).drop 14)).1 = h.streamId := by
  simp [encode, fields, append_assoc]

lemma getU64_packetNumber : (getU64 ((h.encode crc32c ++ rest).drop 18)).1 = h.packetNumber := by
  simp [encode, fields, append_assoc]

lemma getU64_timestamp : (getU64 ((h.encode crc32c ++ rest).drop 26)).1 = h.timestamp := by
  simp [encode, fields, append_assoc]

end

lemma slice_data (p : DataPayload) :
    slice p.encode dataPayloadHeaderSize p.data.length = p.data := by
  have hdrop : p.encode.drop dataPayloadHeaderSize = p.data := by
    simp [DataPayload.encode, dataPayloadHeaderSize, append_assoc]
  rw [slice, hdrop, take_length]

lemma decodeDataInline_encode {h : PacketHeader} {p : DataPayload}
    (htype : h.packetType = .data) (hlen : p.data.length < 65536) :
    decodeDataInline (h.encode crc32c ++ p.encode) =
      some ⟨h.streamId, p.chunkIndex, p.data⟩ := by
  have hmod : (ofNat p.data.length).toNat = p.data.length := by
    exact Nat.mod_eq_of_lt hlen
  have htotal : (h.encode crc32c ++ p.encode).length =
      headerSize + (dataPayloadHeaderSize + p.data.length) := by simp
  have hshort : ¬ (h.encode crc32c ++ p.encode).length < headerSize + dataPayloadHeaderSize := by
    omega
  have htypeByte : ¬ (h.encode crc32c ++ p.encode).getD 1 0 ≠ 0x20 := by
    rw [getD_packetType, htype]
    decide
  have hindex : (getU64 (p.encode.drop 8)).1 = p.chunkIndex := by
    simp [DataPayload.encode, append_assoc]
  have hdataLen : (getU16 (p.encode.drop 20)).1.toNat = p.data.length := by
    simp [DataPayload.encode, append_assoc, hmod]
  have hdata : slice (h.encode crc32c ++ p.encode) (headerSize + dataPayloadHeaderSize)
      p.data.length = p.data := by
    have hright := slice_append_right (h.encode crc32c) p.encode dataPayloadHeaderSize
      p.data.length
    rw [length_encode] at hright
    rw [hright, slice_data]
  rw [decodeDataInline, if_neg hshort, if_neg htypeByte]
  simp only [drop_headerSize, getU32_streamId, hindex, hdataLen, hdata]
  rw [if_neg (by omega)]

lemma decodePacket_encode {h : PacketHeader} {payload : Bytes}
    (hversion : h.version = protocolVersion) (hheader : h.headerLength = 42)
    (hpayload : h.payloadLength.toNat = payload.length) :
    decodePacket crc32c (h.encode crc32c ++ payload) =
      .ok ⟨h.received crc32c, [], payload⟩ := by
  have hdecode := decode_encode crc32c hversion (by simp [hheader]) payload
  have hlen : (h.received crc32c).headerLength.toNat - headerSize = 0 := by
    simp [received, hheader, headerSize]
  have hpl : (h.received crc32c).payloadLength.toNat = payload.length := hpayload
  simp [decodePacket, hdecode, hlen, hpl]

variable {data : Bytes} {pkt : Packet}

lemma decodePacket_cases (h : decodePacket crc32c data = .ok pkt) :
    ∃ cursor, decode crc32c data = .ok (pkt.header, cursor) ∧
      let n := pkt.header.headerLength.toNat - headerSize
      n ≤ cursor.length ∧ decodeExtensions (cursor.take n) = .ok pkt.extensions ∧
        pkt.header.payloadLength.toNat ≤ (cursor.drop n).length ∧
          pkt.payload = (cursor.drop n).take pkt.header.payloadLength.toNat := by
  unfold decodePacket at h
  rcases hheader : decode crc32c data with _ | r
  · rw [hheader] at h
    cases h
  obtain ⟨header, cursor⟩ := r
  rw [hheader] at h
  dsimp only at h
  split at h
  · cases h
  rename_i hregion
  cases hexts : decodeExtensions (cursor.take (header.headerLength.toNat - headerSize)) with
  | error e =>
    rw [hexts] at h
    cases h
  | ok exts =>
    rw [hexts] at h
    dsimp only at h
    split_ifs at h with hpayload
    cases h
    exact ⟨cursor, rfl, not_lt.mp hregion, hexts, not_lt.mp hpayload, rfl⟩

lemma packetType_of_decodePacket (h : decodePacket crc32c data = .ok pkt) :
    PacketType.tryFrom (data.getD 1 0) = .ok pkt.header.packetType := by
  obtain ⟨cursor, hheader, -⟩ := decodePacket_cases h
  exact packetType_of_decode crc32c hheader

end Codec

end Favonius.Proto
