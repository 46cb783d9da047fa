import Favonius.Client.PacketSenders
import Favonius.Daemon.Receiver

/-!
# The header both ends authenticate

The sender builds the associated data with one encoder and the packet with another, and changes
the packet's header once more before it leaves; the daemon removes the header protection and takes
the first 42 bytes it then has.
-/

namespace Favonius.Transfer

open ByteCodec Proto Crypto Client Daemon List

lemma getElem?_eq_of_slice {xs ys : Bytes} {start len i : ℕ}
    (h : slice xs start len = slice ys start len) (hstart : start ≤ i) (hend : i < start + len) :
    xs[i]? = ys[i]? := by
  have hget := congrArg (fun l => l[i - start]?) h
  simp only [slice, getElem?_take, getElem?_drop] at hget
  rw [if_pos (by omega), if_pos (by omega), Nat.add_sub_cancel' hstart] at hget
  exact hget

/-- Header protection changes the connection id and the packet number and nothing else. -/
theorem getElem?_protect (aes128 : FixedBytes 16 → FixedBytes 16 → FixedBytes 16)
    (key : FixedBytes 16) {buf : Bytes} (h : 42 ≤ buf.length) (payloadStart : ℕ) {i : ℕ}
    (hconn : ¬ (6 ≤ i ∧ i < 14)) (hnum : ¬ (18 ≤ i ∧ i < 26)) :
    (protect aes128 key buf payloadStart)[i]? = buf[i]? := by
  rcases Nat.lt_or_ge i 6 with hlt | hge
  · have hslice : slice (protect aes128 key buf payloadStart) 0 6 = slice buf 0 6 :=
      take_protect aes128 key h payloadStart
    exact getElem?_eq_of_slice hslice (Nat.zero_le i) (by omega)
  rcases Nat.lt_or_ge i 26 with hmid | hend
  · exact getElem?_eq_of_slice (slice_protect aes128 key h payloadStart) (by omega) (by omega)
  · have hget := congrArg (fun l => l[i - 26]?) (drop_protect aes128 key h payloadStart)
    simp only [getElem?_drop, Nat.add_sub_cancel' hend] at hget
    exact hget

lemma crc_encode (crc32c : Bytes → UInt32) (h : PacketHeader) (rest : Bytes) :
    slice (h.encode crc32c ++ rest) 38 4 =
      putU32 (crc32c ((h.encode crc32c ++ rest).take 38)) := by
  have hfields : (h.encode crc32c ++ rest).take 38 = h.fields := by
    rw [PacketHeader.encode, append_assoc]
    exact take_left' h.length_fields
  exact slice_eq_of_append rfl h.length_fields (length_putU32 _)

section Sealed

variable (P : Primitives) (keys : SessionKeys) (connId packetNumber timestamp : UInt64)
  (streamId : UInt32) (chunkIndex : ℕ) (data : Bytes) (compressed headerProtect : Bool)

def sealedPacket : Bytes :=
  stagedPacket P connId packetNumber timestamp streamId chunkIndex
    (dataRecord P keys connId packetNumber timestamp streamId data compressed).ciphertext compressed

def encodedPacket : Bytes :=
  encodeDataPacketInto P.crc32c connId packetNumber timestamp streamId 0 (UInt64.ofNat chunkIndex) 0
    (dataRecord P keys connId packetNumber timestamp streamId data compressed).ciphertext

def chunkTransforms : HeaderTransforms :=
  ⟨if headerProtect then some keys.headerProtectionKey else none, compressedFlag compressed⟩

lemma unmask_sealedData (cfg : RecvConfig) (ke : KeyEpoch) :
    unmask P cfg (some ke) (sealedData P cfg.headerProtected ke.keys connId packetNumber timestamp
        streamId chunkIndex data compressed) =
      sealedPacket P ke.keys connId packetNumber timestamp streamId chunkIndex data compressed := by
  have hlen := headerSize_le_length_stagedPacket P connId packetNumber timestamp streamId chunkIndex
    (dataRecord P ke.keys connId packetNumber timestamp streamId data compressed).ciphertext
    compressed
  rw [sealedData_eq]
  simp only [unmask, sealedPacket]
  cases cfg.headerProtected with
  | false => simp only [Bool.false_eq_true, if_false]
  | true =>
    simp only [if_true]
    exact unprotect_protect P.aes128 ke.keys.headerProtectionKey hlen

/-- Both ends authenticate the same header, with a valid CRC; header protection changes the
connection id and the packet number only and is undone; and every backend, whatever is in its
buffer, sends the same packet. -/
theorem sealed_header_agreement (cfg : RecvConfig) (ke : KeyEpoch) :
    let record := dataRecord P ke.keys connId packetNumber timestamp streamId data compressed
    let staged := sealedPacket P ke.keys connId packetNumber timestamp streamId chunkIndex data
      compressed
    let encoded := encodedPacket P ke.keys connId packetNumber timestamp streamId chunkIndex data
      compressed
    let t := chunkTransforms ke.keys compressed cfg.headerProtected
    let wire := sealedData P cfg.headerProtected ke.keys connId packetNumber timestamp streamId
      chunkIndex data compressed
    let received := unmask P cfg (some ke) wire
    (received.take headerSize = record.aad ∧
      slice received 38 4 = putU32 (P.crc32c (received.take 38))) ∧
    (received = staged ∧
      ∀ i, ¬ (6 ≤ i ∧ i < 14) → ¬ (18 ≤ i ∧ i < 26) → wire[i]? = staged[i]?) ∧
    t.apply P encoded = wire ∧
    (∀ s : BatchSender, s.Accepts encoded.length →
      ∃ sent s', s.sendData P t encoded = some (sent, s') ∧
        sent ++ s'.flush = s.flush ++ [wire]) ∧
    ∀ (slotSize slotCount : ℕ) (buf : Bytes) (es : List PacedEvent) (s : PacedSender),
      0 < slotCount → buf.length = slotCount * slotSize →
      Execution.exec (PacedSender.step P) (.init slotSize slotCount buf) es = some s →
      ∀ d ∈ s.sent, ∃ t' pkt full, .publish t' pkt full ∈ es ∧ d = t'.apply P pkt := by
  intro record staged encoded t wire received
  have hreceived : received = staged :=
    unmask_sealedData P connId packetNumber timestamp streamId chunkIndex data compressed cfg ke
  have hlen : headerSize ≤ staged.length :=
    headerSize_le_length_stagedPacket P connId packetNumber timestamp streamId chunkIndex
      record.ciphertext compressed
  have hwire : t.apply P encoded = wire := rfl
  refine ⟨⟨?_, ?_⟩, ⟨hreceived, ?_⟩, hwire, ?_, ?_⟩
  · rw [hreceived, dataRecord_aad]
    have hcipher := length_dataRecord_ciphertext P ke.keys connId packetNumber timestamp streamId
      data compressed
    rw [← hcipher]
    exact take_headerSize _ _
  · rw [hreceived]
    exact crc_encode P.crc32c _ _
  · intro i hconn hnum
    have hsealed : wire = if cfg.headerProtected then
        protect P.aes128 ke.keys.headerProtectionKey staged headerSize else staged :=
      sealedData_eq P ke.keys connId packetNumber timestamp streamId data compressed
        cfg.headerProtected chunkIndex
    rw [hsealed]
    split
    · exact getElem?_protect P.aes128 _ hlen headerSize hconn hnum
    · rfl
  · intro s haccepts
    obtain ⟨⟨sent, s'⟩, hsend⟩ := Option.isSome_iff_exists.mp
      (BatchSender.sendData_isSome P (t := t) haccepts)
    exact ⟨sent, s', hsend, BatchSender.flush_sendData P hsend⟩
  · intro slotSize slotCount buf es s hpos hbuf hrun d hd
    exact PacedSender.exists_publish_of_mem_sent hpos hbuf hrun hd

end Sealed

theorem sealed_header_agreement_parallel_sendmsg :
    let ke : KeyEpoch := ⟨0, 0, ⟨.fill 32 0, .fill 32 0, .fill 32 0, .fill 16 0, .fill 32 0,
      .fill 32 0, .fill 12 0, .fill 12 0⟩, none⟩
    let cfg : RecvConfig := ⟨7, 100, 1, true, false, true, 64⟩
    let encoded := encodedPacket nullPrimitives ke.keys 7 0 0 0 0 [1, 2, 3] true
    let s := BatchSender.listed 1 [] false
    s.Accepts encoded.length ∧
      ∃ sent s', s.sendData nullPrimitives (chunkTransforms ke.keys true cfg.headerProtected)
          encoded = some (sent, s') ∧
        sent ++ s'.flush = s.flush ++
          [sealedData nullPrimitives cfg.headerProtected ke.keys 7 0 0 0 0 [1, 2, 3] true] := by
  intro ke cfg encoded s
  have haccepts : s.Accepts encoded.length := Nat.one_pos
  have h := sealed_header_agreement nullPrimitives 7 0 0 0 0 [1, 2, 3] true cfg ke
  exact ⟨haccepts, h.2.2.2.1 s haccepts⟩

end Favonius.Transfer
