import Favonius.Lib.Execution
import Favonius.Proto.HotPath

/-!
# The zero-copy sender

A packet is two pieces of memory, its header in a buffer of the sender and its data where the file
is mapped, and the two are joined in the datagram.  The header buffer is used for batch after batch.
-/

namespace Favonius.Client

open ByteCodec SlotBuffer Proto List Option DataPayload

def wireOverhead : ℕ := headerSize + dataPayloadHeaderSize

structure ZeroCopyPacket where
  connId : UInt64
  packetNumber : UInt64
  streamId : UInt32
  fileId : UInt64
  chunkIndex : UInt64
  chunkOffset : UInt32
  ts : UInt64
  fileData : Bytes

namespace ZeroCopyPacket

variable (p : ZeroCopyPacket)

def payload : DataPayload := ⟨p.fileId, p.chunkIndex, p.chunkOffset, p.fileData⟩

def header : PacketHeader :=
  dataHeader p.connId p.packetNumber p.ts p.streamId (dataPayloadHeaderSize + p.fileData.length)

def payloadWrites : List (ℕ × Bytes) :=
  dataPayloadWrites p.fileId p.chunkIndex p.chunkOffset p.fileData.length

end ZeroCopyPacket

structure ZeroCopyBatchSender where
  headers : Slots UInt8
  data : List Bytes
  size_eq : headers.size = wireOverhead
  length_data : data.length = headers.lengths.length

namespace ZeroCopyBatchSender

variable (crc32c : Bytes → UInt32)

def empty (batchCapacity : ℕ) (buf : Bytes) (h : buf.length = batchCapacity * wireOverhead) :
    ZeroCopyBatchSender where
  headers := ⟨wireOverhead, batchCapacity, buf, [], h, Nat.zero_le _, forall_mem_nil _⟩
  data := []
  size_eq := rfl
  length_data := rfl

/-- `none` is the panic when the batch is full. -/
def stageDataZerocopy (s : ZeroCopyBatchSender) (p : ZeroCopyPacket) :
    Option (ZeroCopyBatchSender × ℕ) :=
  let hdrBuf := slice s.headers.buf (s.headers.lengths.length * s.headers.size) wireOverhead
  (p.header.encodeInto crc32c (hdrBuf.take headerSize)).bind fun head =>
    let hdrBuf := head ++ overwriteAll (hdrBuf.drop headerSize) p.payloadWrites
    match h : s.headers.push hdrBuf with
    | none => none
    | some headers => some
        (⟨headers, s.data ++ [p.fileData], (Slots.lengths_push h).1.trans s.size_eq, by
          rw [length_append, s.length_data, (Slots.lengths_push h).2.1, length_append]
          rfl⟩, wireOverhead + p.fileData.length)

def iovecs (s : ZeroCopyBatchSender) : List (Bytes × Bytes) := s.headers.packets.zip s.data

def stageAll (s : ZeroCopyBatchSender) : List ZeroCopyPacket → Option ZeroCopyBatchSender
  | [] => some s
  | p :: ps => (s.stageDataZerocopy crc32c p).bind fun r => stageAll r.1 ps

end ZeroCopyBatchSender

namespace ZeroCopyPacket

variable (crc32c : Bytes → UInt32) (p : ZeroCopyPacket)

def headerPiece : Bytes := p.header.encode crc32c ++ p.payloadWrites.flatMap Prod.snd

lemma length_headerPiece : (p.headerPiece crc32c).length = wireOverhead := by
  simp [headerPiece, payloadWrites, dataPayloadWrites, wireOverhead, dataPayloadHeaderSize]

lemma headerPiece_append_data : p.headerPiece crc32c ++ p.fileData =
    encodeDataPacketInto crc32c p.connId p.packetNumber p.ts p.streamId p.fileId p.chunkIndex
      p.chunkOffset p.fileData := by
  simp [headerPiece, payloadWrites, dataPayloadWrites, encodeDataPacketInto, encode,
    header, append_assoc]

end ZeroCopyPacket

namespace ZeroCopyBatchSender

variable (crc32c : Bytes → UInt32) {s : ZeroCopyBatchSender} (p : ZeroCopyPacket)

lemma encodeInto_slot {hdrBuf : Bytes} (hlen : hdrBuf.length = wireOverhead) :
    (p.header.encodeInto crc32c (hdrBuf.take headerSize)).map
        (· ++ overwriteAll (hdrBuf.drop headerSize) p.payloadWrites) =
      some (p.headerPiece crc32c) := by
  have htake : (hdrBuf.take headerSize).length = headerSize := by
    rw [length_take, hlen]
    rfl
  have hadjacent : Adjacent 0 p.payloadWrites := by
    simp [ZeroCopyPacket.payloadWrites, dataPayloadWrites, Adjacent]
  have hwrites : (p.payloadWrites.flatMap Prod.snd).length = dataPayloadHeaderSize := by
    simp [ZeroCopyPacket.payloadWrites, dataPayloadWrites, dataPayloadHeaderSize]
  have hrest : (hdrBuf.drop headerSize).drop dataPayloadHeaderSize = [] := by
    rw [drop_drop, drop_eq_nil_iff, hlen, wireOverhead]
  rw [p.header.encodeInto_eq crc32c htake.ge, overwriteAll_eq hadjacent, hwrites, hrest,
    drop_of_length_le htake.le, append_nil, append_nil]
  rfl

lemma stageDataZerocopy_of_room (hroom : s.headers.lengths.length < s.headers.capacity) :
    ∃ s', s.stageDataZerocopy crc32c p = some (s', wireOverhead + p.fileData.length) ∧
      s'.headers.capacity = s.headers.capacity ∧
      s'.headers.lengths.length = s.headers.lengths.length + 1 ∧
      s'.iovecs = s.iovecs ++ [(p.headerPiece crc32c, p.fileData)] := by
  have hend := s.headers.end_le hroom le_rfl
  have hslot : (slice s.headers.buf (s.headers.lengths.length * s.headers.size)
      wireOverhead).length = wireOverhead := by
    rw [length_slice, ← s.size_eq]
    omega
  obtain ⟨head, hhead, hpiece⟩ := map_eq_some_iff.mp (encodeInto_slot crc32c p hslot)
  obtain ⟨headers, hpush, hcapacity⟩ : ∃ b, s.headers.push (p.headerPiece crc32c) = some b ∧
      b.capacity = s.headers.capacity := by
    have hfits : (p.headerPiece crc32c).length ≤ s.headers.size := by
      rw [p.length_headerPiece, s.size_eq]
    rw [Slots.push, dif_pos ⟨hroom, hfits⟩]
    exact ⟨_, rfl, rfl⟩
  dsimp only [stageDataZerocopy]
  rw [hhead, bind_some]
  split
  · rename_i hnone
    rw [hpiece, hpush] at hnone
    cases hnone
  · rename_i headers' hsome
    obtain rfl : headers = headers' := by
      rw [hpiece, hpush] at hsome
      exact some.inj hsome
    have hlength : s.headers.packets.length = s.data.length := by
      rw [Slots.packets, length_mapIdx, s.length_data]
    refine ⟨_, rfl, hcapacity, ?_, ?_⟩
    · rw [(Slots.lengths_push hpush).2.1, length_append]
      rfl
    · simp only [iovecs, Slots.packets_push hpush, zip_append hlength]
      rfl

lemma stageAll_of_room {ps : List ZeroCopyPacket}
    (hroom : s.headers.lengths.length + ps.length ≤ s.headers.capacity) :
    ∃ s', s.stageAll crc32c ps = some s' ∧
      s'.iovecs = s.iovecs ++ ps.map fun p => (p.headerPiece crc32c, p.fileData) := by
  induction ps generalizing s with
  | nil => exact ⟨s, rfl, by simp⟩
  | cons p ps ih =>
    rw [length_cons] at hroom
    obtain ⟨t, hstage, hcapacity, hcount, hiovecs⟩ :=
      stageDataZerocopy_of_room crc32c p (s := s) (by omega)
    obtain ⟨s', hrest, hall⟩ := ih (s := t) (by omega)
    refine ⟨s', ?_, ?_⟩
    · rw [stageAll, hstage]
      exact hrest
    · rw [hall, hiovecs, append_assoc]
      rfl

end ZeroCopyBatchSender

section HotPath

variable (crc32c : Bytes → UInt32)

/-- Everything the hot path writes, into whatever slice or batch buffer with room for it, is the
reference encoding of its fields, and the reference decoders return those fields. -/
structure HotPathIsReference : Prop where
  data : ∀ (connId packetNumber timestamp : UInt64) (streamId : UInt32) (p : DataPayload)
    (dst : Bytes), p.data.length < 65536 →
    headerSize + (dataPayloadHeaderSize + p.data.length) ≤ dst.length →
      ∃ dst' n, encodeDataPacketIntoDst crc32c dst connId packetNumber timestamp streamId p.fileId
          p.chunkIndex p.chunkOffset p.data = some (dst', n) ∧
        IsReference crc32c (dst'.take n) (dataHeader connId packetNumber timestamp streamId 0)
          p.encode ∧ decode p.encode = .ok p
  ackBitmap : ∀ (connId seq timestamp : UInt64) (streamId : UInt32) (base highest : UInt64)
    (bitmap dst : Bytes), bitmap.length < 65536 →
    headerSize + (ackBitmapHeaderSize + bitmap.length) ≤ dst.length →
      ∃ dst' n,
        encodeAckBitmapIntoDst crc32c dst connId seq timestamp streamId base highest bitmap =
          some (dst', n) ∧
        IsReference crc32c (dst'.take n) (ctrlHeader .ackBitmap connId seq timestamp 0)
          (AckBitmap.encode ⟨streamId, base, highest, 0, bitmap⟩) ∧
        AckBitmap.decode (AckBitmap.encode ⟨streamId, base, highest, 0, bitmap⟩) =
          .ok ⟨streamId, base, highest, 0, bitmap⟩
  nackRange : ∀ (connId seq timestamp : UInt64) (nack : NackRange) (dst : Bytes),
    nack.ranges.length < 65536 → headerSize ≤ dst.length →
      ∃ dst' n, encodeCtrlPacketWithPayloadIntoDst crc32c dst .nackRange connId seq timestamp
          nack.encode.length = some (dst', n) ∧
        IsReference crc32c (dst'.take n ++ nack.encode)
          (ctrlHeader .nackRange connId seq timestamp 0) nack.encode ∧
        NackRange.decode nack.encode = .ok nack
  zeroCopy : ∀ (batchCapacity : ℕ) (buf : Bytes) (h : buf.length = batchCapacity * wireOverhead)
    (ps : List ZeroCopyPacket), ps.length ≤ batchCapacity →
      (∀ p ∈ ps, p.fileData.length < 65536) →
        ∃ s, (ZeroCopyBatchSender.empty batchCapacity buf h).stageAll crc32c ps = some s ∧
          List.Forall₂ (fun pieces p => IsReference crc32c (pieces.1 ++ pieces.2)
              (dataHeader p.connId p.packetNumber p.ts p.streamId 0) p.payload.encode ∧
            decode p.payload.encode = .ok p.payload) s.iovecs ps

/-- What the allocation-free encoders and the zero-copy sender put on the wire is the reference
encoding, whatever the buffers held before. -/
theorem hot_path_is_reference : HotPathIsReference crc32c where
  data connId packetNumber timestamp streamId p dst hdata hroom := by
    have hwrite := encodeDataPacketIntoDst_eq crc32c connId packetNumber timestamp streamId
      p.fileId p.chunkIndex p.chunkOffset hroom
    refine ⟨_, _, hwrite, ?_, decode_encode hdata⟩
    rw [take_left' (by simp [encodeDataPacketInto])]
    exact isReference_data connId packetNumber timestamp streamId hdata
  ackBitmap connId seq timestamp streamId base highest bitmap dst hbitmap hroom := by
    have hwrite := encodeAckBitmapIntoDst_eq crc32c connId seq timestamp streamId base highest hroom
    refine ⟨_, _, hwrite, ?_, AckBitmap.decode_encode _ hbitmap⟩
    rw [take_left' (by simp [encodeAckBitmapInto])]
    exact isReference_ackBitmap connId seq timestamp hbitmap
  nackRange connId seq timestamp nack dst hranges hroom := by
    have hpayload : nack.encode.length < 2 ^ 32 := by
      rw [NackRange.length_encode, nackRangeHeaderSize, nackRangeEntrySize]
      omega
    have hwrite := encodeCtrlPacketWithPayloadIntoDst_eq crc32c .nackRange connId seq timestamp
      nack.encode.length hroom
    refine ⟨_, _, hwrite, ?_, NackRange.decode_encode hranges⟩
    rw [take_left' (by simp [encodeCtrlPacketWithPayloadInto])]
    exact isReference_ctrl .nackRange connId seq timestamp hpayload
  zeroCopy batchCapacity buf h ps hcount hfit := by
    have hroom : (ZeroCopyBatchSender.empty batchCapacity buf h).headers.lengths.length +
        ps.length ≤ batchCapacity := by
      rw [ZeroCopyBatchSender.empty, length_nil]
      omega
    obtain ⟨s, hstage, hiovecs⟩ := ZeroCopyBatchSender.stageAll_of_room crc32c hroom
    refine ⟨s, hstage, ?_⟩
    have hpieces : s.iovecs = ps.map fun p => (p.headerPiece crc32c, p.fileData) := hiovecs
    rw [hpieces, forall₂_map_left_iff, forall₂_same]
    intro p hp
    have hdata := hfit p hp
    refine ⟨?_, decode_encode (p := p.payload) hdata⟩
    rw [p.headerPiece_append_data]
    exact isReference_data p.connId p.packetNumber p.ts p.streamId (p := p.payload) hdata

end HotPath

theorem hot_path_is_reference_stale_buffers :
    let checksum : Bytes → UInt32 := fun bs => UInt32.ofNat bs.length
    let ps : List ZeroCopyPacket := [⟨7, 1, 0, 3, 0, 0, 5, [1, 2]⟩, ⟨7, 2, 1, 3, 9, 0, 6, [8]⟩]
    (∃ s, (ZeroCopyBatchSender.empty 2 (List.replicate (2 * wireOverhead) 0xAA)
        length_replicate).stageAll checksum ps = some s ∧
      List.Forall₂ (fun pieces p => IsReference checksum (pieces.1 ++ pieces.2)
          (dataHeader p.connId p.packetNumber p.ts p.streamId 0) p.payload.encode ∧
        decode p.payload.encode = .ok p.payload) s.iovecs ps) ∧
    ∃ dst' n, encodeAckBitmapIntoDst checksum (List.replicate 100 0xAA) 7 1 5 0 0 3 [0x15] =
        some (dst', n) ∧
      IsReference checksum (dst'.take n) (ctrlHeader .ackBitmap 7 1 5 0)
        (AckBitmap.encode ⟨0, 0, 3, 0, [0x15]⟩) ∧
      AckBitmap.decode (AckBitmap.encode ⟨0, 0, 3, 0, [0x15]⟩) = .ok ⟨0, 0, 3, 0, [0x15]⟩ := by
  intro checksum ps
  have hall := hot_path_is_reference checksum
  refine ⟨hall.zeroCopy 2 _ length_replicate ps (by decide) ?_, ?_⟩
  · simp [ps]
  · exact hall.ackBitmap 7 1 5 0 0 3 [0x15] _ (by decide) (by decide)

end Favonius.Client
