import Favonius.Crypto.Protection
import Favonius.Transfer.Geometry

/-!
# Packets the client sends

How a chunk becomes a DATA datagram (compress, seal, stage, per-packet flag,
header protection) and how KEY_UPDATE and FINISH are sealed.  Besides the
datagrams, a send returns the records it sealed.
-/

namespace Favonius.Client

open ByteCodec Proto Crypto List

structure Output where
  datagrams : List Bytes
  records : List SealedRecord

def Output.append (a b : Output) : Output :=
  ⟨a.datagrams ++ b.datagrams, a.records ++ b.records⟩

variable (P : Primitives)

def orFlags (flags : UInt16) (pkt : Bytes) : Bytes :=
  updateCrc P.crc32c (pkt.take 2 ++ putU16 ((getU16 (pkt.drop 2)).1 ||| flags) ++ pkt.drop 4)

def dataHeaderAad (connId packetNumber : UInt64) (streamId : UInt32) (timestamp : UInt64)
    (payloadLen : ℕ) (extraFlags : UInt16) : Bytes :=
  let aad := (dataHeader connId packetNumber timestamp streamId payloadLen).encode P.crc32c
  if extraFlags ≠ 0 then orFlags P extraFlags aad else aad

structure HeaderTransforms where
  hp : Option (FixedBytes 16)
  flags : UInt16

/-- Flags first, then header protection: the CRC covers the unprotected header. -/
def HeaderTransforms.apply (t : HeaderTransforms) (pkt : Bytes) : Bytes :=
  let pkt := if t.flags ≠ 0 ∧ headerSize ≤ pkt.length then orFlags P t.flags pkt else pkt
  match t.hp with
  | some key => if headerSize ≤ pkt.length then protect P.aes128 key pkt headerSize else pkt
  | none => pkt

/-- A chunk that does not shrink is sent as it is. -/
def compressChunk (compress : Bool) (chunk : Bytes) : Option (Bytes × Bool) :=
  if compress then
    (P.zstdCompress chunk).map fun frame =>
      if frame.length < chunk.length then (frame, true) else (chunk, false)
  else some (chunk, false)

def compressedFlag (compressed : Bool) : UInt16 := if compressed then PacketFlags.compressed else 0

def stagedHeader (connId packetNumber timestamp : UInt64) (streamId : UInt32) (dataLen : ℕ)
    (compressed : Bool) : PacketHeader :=
  { dataHeader connId packetNumber timestamp streamId (dataPayloadHeaderSize + dataLen) with
    flags := PacketFlags.ackEliciting ||| compressedFlag compressed }

def plainData (connId packetNumber timestamp : UInt64) (streamId : UInt32) (chunkIndex : ℕ)
    (data : Bytes) (compressed : Bool) : Bytes :=
  HeaderTransforms.apply P ⟨none, compressedFlag compressed⟩
    (encodeDataPacketInto P.crc32c connId packetNumber timestamp streamId 0
      (UInt64.ofNat chunkIndex) 0 data)

/-- The record sealed for a chunk: the nonce comes from the packet number, the
associated data is the header with the length of the ciphertext. -/
def dataRecord (keys : SessionKeys) (connId packetNumber timestamp : UInt64) (streamId : UInt32)
    (data : Bytes) (compressed : Bool) : SealedRecord :=
  sealPacket P keys.dataKey (nonceFor keys.dataIv packetNumber)
    (dataHeaderAad P connId packetNumber streamId timestamp
      (dataPayloadHeaderSize + (data.length + 16)) (compressedFlag compressed)) data

def sealedData (headerProtect : Bool) (keys : SessionKeys)
    (connId packetNumber timestamp : UInt64) (streamId : UInt32) (chunkIndex : ℕ) (data : Bytes)
    (compressed : Bool) : Bytes :=
  let record := dataRecord P keys connId packetNumber timestamp streamId data compressed
  HeaderTransforms.apply P
    ⟨if headerProtect then some keys.headerProtectionKey else none, compressedFlag compressed⟩
    (encodeDataPacketInto P.crc32c connId packetNumber timestamp streamId 0
      (UInt64.ofNat chunkIndex) 0 record.ciphertext)

def makeHeader (ptype : PacketType) (connId seq timestamp : UInt64) (plen : ℕ) : PacketHeader where
  version := protocolVersion
  packetType := ptype
  flags := PacketFlags.ackEliciting
  headerLength := UInt16.ofNat headerSize
  connectionId := connId
  streamId := 0
  packetNumber := seq
  timestamp := timestamp
  payloadLength := UInt32.ofNat plen
  headerCrc := 0

def controlRecord (keys : SessionKeys) (ptype : PacketType) (connId seq timestamp : UInt64)
    (payload : Bytes) : SealedRecord :=
  sealControl P keys seq
    ((makeHeader ptype connId seq timestamp (payload.length + controlTagLen)).encode P.crc32c)
    payload

def encodeSealedCtrlPacket (ptype : PacketType) (connId seq timestamp : UInt64)
    (keys : SessionKeys) (payload : Bytes) : Bytes :=
  let record := controlRecord P keys ptype connId seq timestamp payload
  record.aad ++ record.ciphertext

def sendCtrlSealed (ptype : PacketType) (connId seq timestamp : UInt64) (payload : Bytes) :
    Option SessionKeys → Output
  | some keys => ⟨[encodeSealedCtrlPacket P ptype connId seq timestamp keys payload],
      [controlRecord P keys ptype connId seq timestamp payload]⟩
  | none => ⟨[encodePacketAuto P.crc32c
      ⟨makeHeader ptype connId seq timestamp payload.length, [], payload⟩], []⟩

lemma orFlags_encode (flags : UInt16) (h : PacketHeader) (rest : Bytes) :
    orFlags P flags (h.encode P.crc32c ++ rest) =
      { h with flags := h.flags ||| flags }.encode P.crc32c ++ rest := by
  have hfields : (h.encode P.crc32c ++ rest).take 2 ++ putU16 (h.flags ||| flags) ++
      (h.encode P.crc32c ++ rest).drop 4 =
        { h with flags := h.flags ||| flags }.fields ++
          (putU32 (P.crc32c h.fields) ++ rest) := by
    have htake : (h.encode P.crc32c ++ rest).take 2 =
        putU8 h.version ++ putU8 h.packetType.toByte := rfl
    rw [htake]
    simp [PacketHeader.encode, PacketHeader.fields, append_assoc, -drop_one]
  have hcrc : ({ h with flags := h.flags ||| flags }.fields ++
      (putU32 (P.crc32c h.fields) ++ rest)).drop headerSize = rest := by
    rw [← append_assoc]
    exact drop_left' (by simp [headerSize])
  rw [orFlags, getU16_flags, hfields, updateCrc, if_neg (by simp [headerSize]; omega), hcrc,
    take_left' (by simp [headerSize]), PacketHeader.encode]

lemma ite_orFlags_encode (connId packetNumber timestamp : UInt64) (streamId : UInt32)
    (dataLen : ℕ) (compressed : Bool) (rest : Bytes) :
    (let pkt := (dataHeader connId packetNumber timestamp streamId
        (dataPayloadHeaderSize + dataLen)).encode P.crc32c ++ rest
      if compressedFlag compressed ≠ 0 then orFlags P (compressedFlag compressed) pkt else pkt) =
      (stagedHeader connId packetNumber timestamp streamId dataLen compressed).encode P.crc32c ++
        rest := by
  cases compressed with
  | false => rfl
  | true =>
    rw [if_pos (by decide), orFlags_encode]
    rfl

lemma dataHeaderAad_eq (connId packetNumber : UInt64) (streamId : UInt32) (timestamp : UInt64)
    (dataLen : ℕ) (compressed : Bool) :
    dataHeaderAad P connId packetNumber streamId timestamp (dataPayloadHeaderSize + dataLen)
        (compressedFlag compressed) =
      (stagedHeader connId packetNumber timestamp streamId dataLen compressed).encode P.crc32c := by
  have h := ite_orFlags_encode P connId packetNumber timestamp streamId dataLen compressed []
  simpa only [append_nil, dataHeaderAad] using h

def stagedPacket (connId packetNumber timestamp : UInt64) (streamId : UInt32) (chunkIndex : ℕ)
    (data : Bytes) (compressed : Bool) : Bytes :=
  (stagedHeader connId packetNumber timestamp streamId data.length compressed).encode P.crc32c ++
    DataPayload.encode ⟨0, UInt64.ofNat chunkIndex, 0, data⟩

lemma headerSize_le_length_stagedPacket (connId packetNumber timestamp : UInt64)
    (streamId : UInt32) (chunkIndex : ℕ) (data : Bytes) (compressed : Bool) :
    headerSize ≤ (stagedPacket P connId packetNumber timestamp streamId chunkIndex data
      compressed).length := by
  simp [stagedPacket]

lemma HeaderTransforms.apply_eq {t : HeaderTransforms} {pkt flagged : Bytes}
    (hpkt : headerSize ≤ pkt.length) (hlen : headerSize ≤ flagged.length)
    (hflags : (if t.flags ≠ 0 then orFlags P t.flags pkt else pkt) = flagged) :
    t.apply P pkt = t.hp.elim flagged fun key => protect P.aes128 key flagged headerSize := by
  simp only [HeaderTransforms.apply, hpkt, and_true, hflags]
  cases t.hp with
  | none => rfl
  | some key => exact if_pos hlen

lemma apply_encodeDataPacketInto (hp : Option (FixedBytes 16))
    (connId packetNumber timestamp : UInt64) (streamId : UInt32) (chunkIndex : ℕ) (data : Bytes)
    (compressed : Bool) :
    HeaderTransforms.apply P ⟨hp, compressedFlag compressed⟩
        (encodeDataPacketInto P.crc32c connId packetNumber timestamp streamId 0
          (UInt64.ofNat chunkIndex) 0 data) =
      hp.elim (stagedPacket P connId packetNumber timestamp streamId chunkIndex data compressed)
        fun key => protect P.aes128 key (stagedPacket P connId packetNumber timestamp streamId
          chunkIndex data compressed) headerSize := by
  refine HeaderTransforms.apply_eq P ?_ ?_ ?_
  · simp [encodeDataPacketInto]
  · exact headerSize_le_length_stagedPacket P connId packetNumber timestamp streamId chunkIndex
      data compressed
  · exact ite_orFlags_encode P connId packetNumber timestamp streamId data.length compressed
      (DataPayload.encode ⟨0, UInt64.ofNat chunkIndex, 0, data⟩)

lemma plainData_eq (connId packetNumber timestamp : UInt64) (streamId : UInt32)
    (chunkIndex : ℕ) (data : Bytes) (compressed : Bool) :
    plainData P connId packetNumber timestamp streamId chunkIndex data compressed =
      stagedPacket P connId packetNumber timestamp streamId chunkIndex data compressed :=
  apply_encodeDataPacketInto P none connId packetNumber timestamp streamId chunkIndex data
    compressed

section Sealed

variable (keys : SessionKeys) (connId packetNumber timestamp : UInt64) (streamId : UInt32)
  (data : Bytes) (compressed : Bool)

lemma dataRecord_aad :
    (dataRecord P keys connId packetNumber timestamp streamId data compressed).aad =
      (stagedHeader connId packetNumber timestamp streamId (data.length + 16) compressed).encode
        P.crc32c :=
  dataHeaderAad_eq P connId packetNumber streamId timestamp (data.length + 16) compressed

lemma length_dataRecord_ciphertext :
    (dataRecord P keys connId packetNumber timestamp streamId data compressed).ciphertext.length =
      data.length + 16 :=
  P.length_aes256Gcm _ _ _ _

lemma sealedData_eq (headerProtect : Bool) (chunkIndex : ℕ) :
    let pkt := stagedPacket P connId packetNumber timestamp streamId chunkIndex
      (dataRecord P keys connId packetNumber timestamp streamId data compressed).ciphertext
      compressed
    sealedData P headerProtect keys connId packetNumber timestamp streamId chunkIndex data
        compressed =
      if headerProtect then protect P.aes128 keys.headerProtectionKey pkt headerSize else pkt := by
  unfold sealedData
  rw [apply_encodeDataPacketInto]
  cases headerProtect with
  | false => simp only [Bool.false_eq_true, if_false, Option.elim_none]
  | true => simp only [if_true, Option.elim_some]

end Sealed

end Favonius.Client
