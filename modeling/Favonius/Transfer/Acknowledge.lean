import Favonius.Transfer.System

/-!
# What an ACK tells the sender

The chunks a sender reads out of an ACK bitmap, and that the ACKs the daemon
builds name received chunks only: through the wrapping sentinel for an empty
prefix, the bitmap window and the packet encoding.
-/

namespace Favonius.Transfer

open ByteCodec FlagBits Proto Crypto Client Daemon List Option AckBitmap
open UInt64 (ofNat ofNat_add toNat_ofNat' toNat_one toNat_sub)

/-- The stream's local chunk `i` is in the ACK's prefix or its bit is set. -/
def Reports (ack : AckBitmap) (base count i : ℕ) : Prop :=
  (ack.basePacketNumber ≤ ack.highestContiguous ∧
    ack.highestContiguous.toNat < base + count ∧ ack.basePacketNumber.toNat ≤ base + i ∧
    base + i ≤ ack.highestContiguous.toNat) ∨
  (i < count ∧ ∃ pn ∈ bitmapPns ack, (pn - ofNat base).toNat = i)

lemma acked_of_applyAck {ack : AckBitmap} {wireSize : ℕ} {nowUs : UInt32} {s : StreamState}
    {inFlight : ℕ} (hend : s.chunkBase + s.chunkCount ≤ 2 ^ 64) {i : ℕ}
    (h : (applyAck ack wireSize nowUs s inFlight).stream.acked.getD i false = true) :
    s.acked.getD i false = true ∨ Reports ack s.chunkBase s.chunkCount i := by
  rcases (getD_acked_applyAck ack wireSize nowUs s inFlight hend i).mp h with
    hold | ⟨lo, hstart, hge, hle⟩ | hbit
  · exact .inl hold
  · right
    left
    simp only [prefixStart] at hstart
    split_ifs at hstart with hclamp hlo
    cases hstart
    exact ⟨hclamp.1, hclamp.2, by omega, hle⟩
  · exact .inr (.inr hbit)

section Build

variable {s : StreamRecvState} (hend : s.chunkBase + s.chunkCount < 2 ^ 64)

/-- The bitmap starts at the chunk after the prefix, also when the prefix is empty and
the packet number before it wraps. -/
theorem highestContiguous_add_one (s : StreamRecvState) :
    (buildStreamAckBitmap s).1 + 1 = ofNat (s.chunkBase + s.contigPrefix) := by
  unfold buildStreamAckBitmap
  split
  · have hsucc : s.chunkBase + s.contigPrefix - 1 + 1 = s.chunkBase + s.contigPrefix := by omega
    rw [← hsucc, ofNat_add]
    rfl
  · have hzero : s.contigPrefix = 0 := by omega
    rw [hzero, Nat.add_zero, UInt64.sub_add_cancel]

lemma bitSet_buildStreamAckBitmap {j : ℕ} :
    bitSet (buildStreamAckBitmap s).2 j = true ↔
      j < maxAckBitmapBytes * 8 ∧ s.received.getD (s.contigPrefix + j) false = true := by
  have hfit : ((s.received.drop s.contigPrefix).take (maxAckBitmapBytes * 8)).length ≤
      8 * min (((s.received.drop s.contigPrefix).length + 7) / 8) maxAckBitmapBytes := by
    simp only [length_take, length_drop]
    omega
  have hbit : bitSet (buildStreamAckBitmap s).2 j =
      ((s.received.drop s.contigPrefix).take (maxAckBitmapBytes * 8)).getD j false :=
    bitSet_packFlags hfit j
  rw [hbit, getD_eq_getElem?_getD, getElem?_take]
  split_ifs with hj
  · rw [getElem?_drop, ← getD_eq_getElem?_getD]
    exact ⟨fun h => ⟨hj, h⟩, And.right⟩
  · simp [hj]

lemma length_buildStreamAckBitmap (s : StreamRecvState) :
    (buildStreamAckBitmap s).2.length =
      min ((s.chunkCount - s.contigPrefix + 7) / 8) maxAckBitmapBytes := by
  simp only [buildStreamAckBitmap, length_packFlags, length_drop, s.received_length]

lemma length_buildStreamAckBitmap_lt (s : StreamRecvState) :
    (buildStreamAckBitmap s).2.length < 65536 := by
  rw [length_buildStreamAckBitmap, maxAckBitmapBytes]
  omega

variable {i : ℕ}

lemma lt_of_received (h : s.received.getD i false = true) : i < s.chunkCount := by
  by_contra hge
  rw [getD_eq_default _ _ (by rw [s.received_length]; omega)] at h
  cases h

include hend

lemma lt_contigPrefix_of_le (hbase : ofNat s.chunkBase ≤ (buildStreamAckBitmap s).1)
    (hlt : (buildStreamAckBitmap s).1.toNat < s.chunkBase + s.chunkCount)
    (hle : s.chunkBase + i ≤ (buildStreamAckBitmap s).1.toNat) : i < s.contigPrefix := by
  have hcontig := s.contig_le
  unfold buildStreamAckBitmap at hbase hlt hle
  split at hle
  · rw [toNat_ofNat', Nat.mod_eq_of_lt (by omega)] at hle
    omega
  -- the sentinel is below the base, or wraps beyond every stream
  rename_i hpos
  rw [if_neg hpos, UInt64.le_iff_toNat_le, toNat_sub, toNat_ofNat', toNat_one] at hbase
  rw [if_neg hpos, toNat_sub, toNat_ofNat', toNat_one] at hlt
  omega

lemma received_of_reports {streamId delay : UInt32}
    (h : Reports ⟨streamId, ofNat s.chunkBase, (buildStreamAckBitmap s).1, delay,
      (buildStreamAckBitmap s).2⟩ s.chunkBase s.chunkCount i) :
    i < s.contigPrefix + maxAckBitmapBytes * 8 ∧ s.received.getD i false = true := by
  rcases h with ⟨hbase, hlt, -, hle⟩ | ⟨hi, pn, hmem, hpn⟩
  · have hprefix := lt_contigPrefix_of_le hend hbase hlt hle
    exact ⟨by omega, s.contig_received i hprefix⟩
  obtain ⟨j, hj, rfl⟩ := List.mem_map.mp hmem
  obtain ⟨hwindow, hbit⟩ := bitSet_buildStreamAckBitmap.mp (mem_filter.mp hj).2
  have hrange := lt_of_received hbit
  rw [highestContiguous_add_one, ← ofNat_add,
    toNat_ofNat_sub_ofNat (by omega) (by omega), Nat.add_assoc, Nat.add_sub_cancel_left] at hpn
  rw [← hpn]
  exact ⟨by omega, hbit⟩

end Build

/-- Whatever a sender reads out of the datagram as an ACK is received. -/
def Honest (crc32c : Bytes → UInt32) (progress : List Progress) (d : Bytes) : Prop :=
  ∀ pkt ack p, decodePacket crc32c d = .ok pkt → pkt.header.packetType = .ackBitmap →
    decode pkt.payload = .ok ack → progress[ack.streamId.toNat]? = some p →
      ∀ i, Reports ack p.chunkBase p.chunkCount i → p.received.getD i false = true

/-- Streams keep their ranges and lose no chunk. -/
def Grows (progress progress' : List Progress) : Prop :=
  progress.length = progress'.length ∧ ∀ (sid : ℕ) p p',
    progress[sid]? = some p → progress'[sid]? = some p' →
      p.chunkBase = p'.chunkBase ∧ p.chunkCount = p'.chunkCount ∧
        ∀ i, p.received.getD i false = true → p'.received.getD i false = true

lemma Grows.refl (progress : List Progress) : Grows progress progress := by
  refine ⟨rfl, ?_⟩
  intro sid p p' hp hp'
  obtain rfl : p = p' := some.inj (hp.symm.trans hp')
  exact ⟨rfl, rfl, fun i h => h⟩

lemma Grows.trans {a b c : List Progress} (hab : Grows a b) (hbc : Grows b c) : Grows a c := by
  refine ⟨hab.1.trans hbc.1, ?_⟩
  intro sid p r hp hr
  obtain ⟨q, hq⟩ : ∃ q, b[sid]? = some q := by
    obtain ⟨hlt, -⟩ := List.getElem?_eq_some_iff.mp hp
    exact ⟨_, getElem?_eq_getElem (hab.1 ▸ hlt)⟩
  obtain ⟨hbase, hcount, hreceived⟩ := hab.2 sid p q hp hq
  obtain ⟨hbase', hcount', hreceived'⟩ := hbc.2 sid q r hq hr
  exact ⟨hbase.trans hbase', hcount.trans hcount', fun i hi => hreceived' i (hreceived i hi)⟩

lemma Grows.map_range {a b : List Progress} (h : Grows a b) :
    b.map Progress.range = a.map Progress.range := by
  apply ext_getElem (by simp [h.1])
  intro sid hb ha
  rw [length_map] at ha hb
  obtain ⟨hbase, hcount, -⟩ := h.2 sid a[sid] b[sid] (getElem?_eq_getElem ha)
    (getElem?_eq_getElem hb)
  simp [Progress.range, hbase, hcount]

variable {progress : List Progress}

lemma Grows.set_markReceived {sid : ℕ} {s : StreamRecvState}
    (hsid : progress[sid]? = some s.progress) (localCi : ℕ) :
    Grows progress (progress.set sid (s.markReceived localCi).progress) := by
  refine ⟨by simp, ?_⟩
  intro k p p' hp hp'
  rw [getElem?_set] at hp'
  split_ifs at hp' with heq hlt
  · subst heq
    cases hp'
    obtain rfl : s.progress = p := some.inj (hsid.symm.trans hp)
    exact ⟨rfl, rfl, fun i h => getD_set_true h⟩
  · obtain rfl : p = p' := some.inj (hp.symm.trans hp')
    exact ⟨rfl, rfl, fun i h => h⟩

variable {crc32c : Bytes → UInt32} {progress' : List Progress} {d : Bytes} {payload : Bytes}

lemma Honest.mono (h : Honest crc32c progress d) (hgrows : Grows progress progress') :
    Honest crc32c progress' d := by
  intro pkt ack p' hpkt htype hack hp' i hi
  obtain ⟨p, hp⟩ : ∃ p, progress[ack.streamId.toNat]? = some p := by
    obtain ⟨hlt, -⟩ := List.getElem?_eq_some_iff.mp hp'
    exact ⟨_, getElem?_eq_getElem (hgrows.1 ▸ hlt)⟩
  obtain ⟨hbase, hcount, hreceived⟩ := hgrows.2 _ p p' hp hp'
  rw [← hbase, ← hcount] at hi
  exact hreceived i (h pkt ack p hpkt htype hack hp i hi)

lemma decodePacket_ctrl {h : PacketHeader} {ptype : PacketType} {connId seq timestamp : UInt64}
    (hh : h = ctrlHeader ptype connId seq timestamp payload.length)
    (hlen : payload.length < 2 ^ 32) :
    decodePacket crc32c (h.encode crc32c ++ payload) = .ok ⟨h.received crc32c, [], payload⟩ := by
  subst hh
  refine decodePacket_encode rfl rfl ?_
  simp only [ctrlHeader, UInt32.toNat_ofNat']
  omega

lemma honest_ack (ack : AckBitmap) (connId seq timestamp : UInt64)
    (hlen : ack.bitmap.length < 65536)
    (h : ∀ p, progress[ack.streamId.toNat]? = some p →
      ∀ i, Reports ack p.chunkBase p.chunkCount i → p.received.getD i false = true) :
    Honest crc32c progress ((ctrlHeader .ackBitmap connId seq timestamp
      ack.encode.length).encode crc32c ++ ack.encode) := by
  have hack : ack.encode.length < 2 ^ 32 := by
    rw [length_encode]
    simp only [ackBitmapHeaderSize]
    omega
  intro pkt ack' p hpkt _ hdecode hp i hi
  rw [decodePacket_ctrl rfl hack] at hpkt
  cases hpkt
  rw [decode_encode ack hlen] at hdecode
  cases hdecode
  exact h p hp i hi

def streamAck (sid : ℕ) (s : StreamRecvState) : AckBitmap :=
  ⟨UInt32.ofNat sid, ofNat s.chunkBase, (buildStreamAckBitmap s).1, 0, (buildStreamAckBitmap s).2⟩

lemma ackDatagram_eq (P : Primitives) (cfg : RecvConfig) (sid : ℕ) (s : StreamRecvState)
    (seq timestamp : UInt64) :
    ackDatagram P cfg sid s seq timestamp = (ctrlHeader .ackBitmap cfg.connId seq timestamp
      (streamAck sid s).encode.length).encode P.crc32c ++ (streamAck sid s).encode := by
  rw [length_encode]
  rfl

lemma decodePacket_ackDatagram (P : Primitives) (cfg : RecvConfig) (sid : ℕ)
    (s : StreamRecvState) (seq timestamp : UInt64) :
    ∃ pkt, decodePacket P.crc32c (ackDatagram P cfg sid s seq timestamp) = .ok pkt ∧
      pkt.header.packetType = .ackBitmap ∧
      decode pkt.payload = .ok (streamAck sid s) := by
  have hbitmap : (streamAck sid s).bitmap.length < 65536 := length_buildStreamAckBitmap_lt s
  have hlen : (streamAck sid s).encode.length < 2 ^ 32 := by
    rw [length_encode, ackBitmapHeaderSize]
    omega
  rw [ackDatagram_eq]
  exact ⟨_, decodePacket_ctrl rfl hlen, rfl, decode_encode _ hbitmap⟩

/-- Both ends have the same streams, and what one has acked the other has received. -/
def Covered (acks : List StreamState.AckState) (progress : List Progress) : Prop :=
  acks.length = progress.length ∧ ∀ (sid : ℕ) a p,
    acks[sid]? = some a → progress[sid]? = some p →
      a.chunkBase = p.chunkBase ∧ a.chunkCount = p.chunkCount ∧
        ∀ i, a.acked.getD i false = true → p.received.getD i false = true

lemma Covered.mono {acks : List StreamState.AckState} (h : Covered acks progress)
    (hgrows : Grows progress progress') : Covered acks progress' := by
  refine ⟨h.1.trans hgrows.1, ?_⟩
  intro sid a p' ha hp'
  obtain ⟨p, hp⟩ : ∃ p, progress[sid]? = some p := by
    obtain ⟨hlt, -⟩ := List.getElem?_eq_some_iff.mp hp'
    exact ⟨_, getElem?_eq_getElem (hgrows.1 ▸ hlt)⟩
  obtain ⟨hbase, hcount, hacked⟩ := h.2 sid a p ha hp
  obtain ⟨hbase', hcount', hreceived⟩ := hgrows.2 sid p p' hp hp'
  exact ⟨hbase.trans hbase', hcount.trans hcount', fun i hi => hreceived i (hacked i hi)⟩

lemma Covered.processAckBitmap {streams : List StreamState}
    (h : Covered (streams.map StreamState.ackState) progress)
    (hend : ∀ p ∈ progress, p.chunkBase + p.chunkCount < 2 ^ 64)
    (hhonest : ∀ ack p, decode payload = .ok ack →
      progress[ack.streamId.toNat]? = some p →
        ∀ i, Reports ack p.chunkBase p.chunkCount i → p.received.getD i false = true)
    (inFlight wireSize : ℕ) (nowUs : UInt32) :
    Covered ((processAckBitmap payload streams inFlight wireSize nowUs).1.map
      StreamState.ackState) progress := by
  unfold Client.processAckBitmap
  cases hdecode : decode payload with
  | error e => exact h
  | ok ack =>
    dsimp only
    cases hs : streams[ack.streamId.toNat]? with
    | none => exact h
    | some s =>
      dsimp only
      have hframe := sendState_applyAck ack wireSize nowUs s inFlight
      refine ⟨by simpa using h.1, ?_⟩
      intro sid a p ha hp
      rw [map_set, getElem?_set] at ha
      split_ifs at ha with heq hlt
      · subst heq
        cases ha
        obtain ⟨hbase, hcount, hacked⟩ := h.2 _ s.ackState p (by simp [hs]) hp
        refine ⟨(congrArg StreamState.SendState.chunkBase hframe).trans hbase,
          (congrArg StreamState.SendState.chunkCount hframe).trans hcount, ?_⟩
        intro i hi
        have hstream : s.chunkBase + s.chunkCount ≤ 2 ^ 64 := by
          have hp' := hend p (mem_of_getElem? hp)
          rw [← hbase, ← hcount] at hp'
          exact hp'.le
        rcases acked_of_applyAck hstream hi with hold | hreports
        · exact hacked i hold
        · refine hhonest ack p hdecode hp i ?_
          rw [← hbase, ← hcount]
          exact hreports
      · exact h.2 sid a p ha hp

lemma honest_of_isReply {P : Primitives} {cfg : RecvConfig} (hlen : progress.length < 2 ^ 32)
    (hend : ∀ p ∈ progress, p.chunkBase + p.chunkCount < 2 ^ 64) (h : IsReply P cfg progress d) :
    Honest P.crc32c progress d := by
  cases h with
  | other h payload htype =>
    intro pkt ack p hpkt hack _ _ _ _
    have hbyte := packetType_of_decodePacket hpkt
    rw [getD_packetType, PacketType.tryFrom_toByte, hack] at hbyte
    exact (htype (Except.ok.inj hbyte)).elim
  | ack sid s seq timestamp hsid =>
    obtain ⟨hlt, -⟩ := List.getElem?_eq_some_iff.mp hsid
    have hstream : (UInt32.ofNat sid).toNat = sid := by
      rw [UInt32.toNat_ofNat']
      omega
    rw [ackDatagram_eq]
    apply honest_ack (streamAck sid s) cfg.connId seq timestamp (length_buildStreamAckBitmap_lt s)
    intro p hp i hi
    dsimp only [streamAck] at hp
    rw [hstream, hsid] at hp
    cases hp
    exact (received_of_reports (hend s.progress (mem_of_getElem? hsid)) hi).2

lemma honest_manifestAck (sess : Session) (seq timestamp : UInt64)
    (hend : ∀ p ∈ progress, p.chunkBase + p.chunkCount < 2 ^ 64) :
    Honest sess.prims.crc32c progress (manifestAck sess seq timestamp) := by
  let ack : AckBitmap := ⟨0, sess.manifestSeq + 1, sess.manifestSeq + 1 - 1, 0, []⟩
  have hauto : manifestAck sess seq timestamp =
      (ctrlHeader .ackBitmap sess.send.connId seq timestamp ack.encode.length).encode
        sess.prims.crc32c ++ ack.encode := by
    simp [manifestAck, encodePacketAuto, encodePacket, ctrlHeader, ack]
  rw [hauto]
  refine honest_ack ack sess.send.connId seq timestamp (by simp [ack]) ?_
  intro p hp i hi
  have hlt := hend p (mem_of_getElem? hp)
  rcases hi with ⟨hbase, hhc, -, -⟩ | ⟨-, pn, hmem, -⟩
  · exfalso
    simp only [ack] at hbase hhc
    rw [UInt64.le_iff_toNat_le, toNat_sub, toNat_one] at hbase
    rw [toNat_sub, toNat_one] at hhc
    omega
  · simp [bitmapPns, ack] at hmem

end Favonius.Transfer
