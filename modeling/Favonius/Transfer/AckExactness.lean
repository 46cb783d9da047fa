import Favonius.Transfer.Acknowledge

/-!
# One ACK, from the receiver's flags to the sender's

An ACK is built from the flags of a receive stream, encoded, decoded and applied to the send stream.
What it marks is what it reports: the received chunks of the prefix and of the window behind it.
-/

namespace Favonius.Transfer

open FlagBits Proto Crypto Client Daemon List StreamState
open UInt64 (ofNat ofNat_add toNat_ofNat')

/-- The list of new chunks, by packet number: each once, those that are acked now and were not in
the stream `t`. -/
structure Fresh (t : StreamState) (p : AckProgress) : Prop where
  base : p.stream.chunkBase = t.chunkBase
  mono : ∀ i, t.acked.getD i false = true → p.stream.acked.getD i false = true
  nodup : (p.newlyAcked.map Prod.fst).Nodup
  mem_iff : ∀ pn, pn ∈ p.newlyAcked.map Prod.fst ↔
    p.stream.acked.getD (pn - ofNat t.chunkBase).toNat false = true ∧
      t.acked.getD (pn - ofNat t.chunkBase).toNat false = false

lemma fresh_start (t : StreamState) (inFlight : ℕ) : Fresh t ⟨t, inFlight, []⟩ where
  base := rfl
  mono _ h := h
  nodup := nodup_nil
  mem_iff pn := by
    simp only [map_nil, not_mem_nil, false_iff, not_and]
    intro h
    rw [h]
    exact Bool.noConfusion

lemma Fresh.ackPn {t : StreamState} {p : AckProgress} (h : Fresh t p) (wireSize : ℕ)
    (nowUs : UInt32) (pn : UInt64) : Fresh t (ackPn wireSize nowUs p pn) := by
  unfold Client.ackPn
  dsimp only
  rw [h.base]
  split
  · rename_i hnew
    have hflag := getD_acked_markAcked hnew
    have hold : p.stream.acked.getD (pn - ofNat t.chunkBase).toNat false = false :=
      (unacked_iff.mp hnew).2
    have hfirst : t.acked.getD (pn - ofNat t.chunkBase).toNat false = false := by
      by_contra htrue
      rw [Bool.not_eq_false] at htrue
      rw [h.mono _ htrue] at hold
      cases hold
    refine ⟨?_, ?_, ?_, ?_⟩
    · exact (congrArg StreamState.SendState.chunkBase (p.stream.sendState_markAcked _)).trans h.base
    · intro i hi
      rw [hflag, h.mono i hi, Bool.true_or]
    · rw [map_append, map_singleton]
      refine Nodup.append h.nodup (nodup_singleton _) ?_
      rw [disjoint_singleton, h.mem_iff, hold]
      exact fun hmem => Bool.false_ne_true hmem.1
    · intro pn'
      rw [map_append, map_singleton, mem_append, mem_singleton, h.mem_iff,
        hflag, Bool.or_eq_true, decide_eq_true_eq]
      constructor
      · rintro (⟨hacked, hnot⟩ | rfl)
        · exact ⟨.inl hacked, hnot⟩
        · exact ⟨.inr rfl, hfirst⟩
      · rintro ⟨hacked | hsame, hnot⟩
        · exact .inl ⟨hacked, hnot⟩
        · right
          exact (UInt64.sub_left_inj _).mp (UInt64.toNat_inj.mp hsame)
  · exact h

lemma Fresh.foldl {t : StreamState} {p : AckProgress} (h : Fresh t p) (wireSize : ℕ)
    (nowUs : UInt32) (pns : List UInt64) : Fresh t (pns.foldl (Client.ackPn wireSize nowUs) p) := by
  induction pns generalizing p with
  | nil => exact h
  | cons pn pns ih => exact ih (h.ackPn wireSize nowUs pn)

lemma fresh_applyAck (ack : AckBitmap) (wireSize : ℕ) (nowUs : UInt32) (t : StreamState)
    (inFlight : ℕ) : Fresh t (applyAck ack wireSize nowUs t inFlight) := by
  apply Fresh.foldl
  unfold applyPrefix
  cases prefixStart ack t with
  | none => exact fresh_start t inFlight
  | some lo =>
    have hall := (fresh_start t inFlight).foldl wireSize nowUs
      ((List.range' lo (ack.highestContiguous.toNat + 1 - lo)).map ofNat)
    exact ⟨hall.base, hall.mono, hall.nodup, hall.mem_iff⟩

section Exact

variable {s : StreamRecvState} {t : StreamState} (sid : ℕ)
  (hend : s.chunkBase + s.chunkCount < 2 ^ 64)

lemma ofNat_add_toNat_sub (base : ℕ) (pn : UInt64) :
    ofNat (base + (pn - ofNat base).toNat) = pn := by
  rw [ofNat_add, UInt64.ofNat_toNat, UInt64.add_comm, UInt64.sub_add_cancel]

lemma mem_bitmapPns_streamAck {i : ℕ} (hge : s.contigPrefix ≤ i)
    (hlt : i < s.contigPrefix + maxAckBitmapBytes * 8) (h : s.received.getD i false = true) :
    ofNat (s.chunkBase + i) ∈ bitmapPns (streamAck sid s) := by
  have hcount := lt_of_received h
  have hsplit : s.contigPrefix + (i - s.contigPrefix) = i := by omega
  refine List.mem_map.mpr ⟨i - s.contigPrefix, mem_filter.mpr ⟨?_, ?_⟩, ?_⟩
  · rw [mem_range]
    change i - s.contigPrefix < 8 * (buildStreamAckBitmap s).2.length
    rw [length_buildStreamAckBitmap]
    omega
  · refine bitSet_buildStreamAckBitmap.mpr ⟨by omega, ?_⟩
    rwa [hsplit]
  · change (buildStreamAckBitmap s).1 + 1 + ofNat (i - s.contigPrefix) = _
    rw [highestContiguous_add_one, ← ofNat_add, Nat.add_assoc, hsplit]

include hend

/-- Below the prefix a chunk is acked already or in the range the ACK applies. -/
theorem prefixStart_streamAck (hbase : s.chunkBase = t.chunkBase)
    (hcount : s.chunkCount = t.chunkCount) {i : ℕ} (hge : t.hcApplied ≤ i)
    (hlt : i < s.contigPrefix) :
    ∃ lo, prefixStart (streamAck sid s) t = some lo ∧ lo ≤ t.chunkBase + i ∧
      t.chunkBase + i ≤ (streamAck sid s).highestContiguous.toNat := by
  have hcontig := s.contig_le
  have hpos : s.contigPrefix > 0 := by omega
  have hhigh : (streamAck sid s).highestContiguous.toNat = s.chunkBase + s.contigPrefix - 1 := by
    simp only [streamAck, buildStreamAckBitmap, if_pos hpos, toNat_ofNat']
    omega
  have hlow : (streamAck sid s).basePacketNumber.toNat = s.chunkBase := by
    simp only [streamAck, toNat_ofNat']
    omega
  have hclamp : (streamAck sid s).basePacketNumber ≤ (streamAck sid s).highestContiguous ∧
      (streamAck sid s).highestContiguous.toNat < t.chunkBase + t.chunkCount := by
    rw [UInt64.le_iff_toNat_le]
    omega
  have hlo : max (max (streamAck sid s).basePacketNumber.toNat t.chunkBase)
      (t.chunkBase + t.hcApplied) = t.chunkBase + t.hcApplied := by omega
  refine ⟨t.chunkBase + t.hcApplied, ?_, by omega, by omega⟩
  rw [prefixStart, if_pos hclamp, hlo]
  exact if_pos (by omega)

lemma getD_acked_streamAck (hbase : s.chunkBase = t.chunkBase)
    (hcount : s.chunkCount = t.chunkCount)
    (happlied : ∀ i < t.hcApplied, t.acked.getD i false = true) (wireSize : ℕ) (nowUs : UInt32)
    (inFlight i : ℕ) :
    (applyAck (streamAck sid s) wireSize nowUs t inFlight).stream.acked.getD i false = true ↔
      t.acked.getD i false = true ∨
        (i < s.contigPrefix + maxAckBitmapBytes * 8 ∧ s.received.getD i false = true) := by
  have hstream : t.chunkBase + t.chunkCount ≤ 2 ^ 64 := by omega
  constructor
  · intro h
    rcases acked_of_applyAck hstream h with hold | hreports
    · exact .inl hold
    · dsimp only [streamAck] at hreports
      rw [← hbase, ← hcount] at hreports
      exact .inr (received_of_reports hend hreports)
  · rintro (hold | ⟨hwindow, hreceived⟩)
    · exact (getD_acked_applyAck _ _ _ _ _ hstream i).mpr (.inl hold)
    · have hlt := lt_of_received hreceived
      rw [getD_acked_applyAck _ _ _ _ _ hstream]
      rcases Nat.lt_or_ge i s.contigPrefix with hprefix | hrest
      · rcases Nat.lt_or_ge i t.hcApplied with hdone | hge
        · exact .inl (happlied i hdone)
        · exact .inr (.inl (prefixStart_streamAck sid hend hbase hcount hge hprefix))
      · right
        right
        refine ⟨by omega, _, mem_bitmapPns_streamAck sid hrest hwindow hreceived, ?_⟩
        rw [hbase, toNat_ofNat_sub_ofNat (by omega) (by omega), Nat.add_sub_cancel_left]

lemma mem_newlyAcked_streamAck (hbase : s.chunkBase = t.chunkBase)
    (hcount : s.chunkCount = t.chunkCount)
    (happlied : ∀ i < t.hcApplied, t.acked.getD i false = true) (wireSize : ℕ) (nowUs : UInt32)
    (inFlight : ℕ) (pn : UInt64) :
    pn ∈ (applyAck (streamAck sid s) wireSize nowUs t inFlight).newlyAcked.map Prod.fst ↔
      ∃ i < s.contigPrefix + maxAckBitmapBytes * 8, pn = ofNat (s.chunkBase + i) ∧
        s.received.getD i false = true ∧ t.acked.getD i false = false := by
  rw [(fresh_applyAck (streamAck sid s) wireSize nowUs t inFlight).mem_iff,
    getD_acked_streamAck sid hend hbase hcount happlied, ← hbase]
  constructor
  · rintro ⟨hold | ⟨hlt, hreceived⟩, hnot⟩
    · rw [hnot] at hold
      cases hold
    · exact ⟨_, hlt, (ofNat_add_toNat_sub _ pn).symm, hreceived, hnot⟩
  · rintro ⟨i, hlt, rfl, hreceived, hnot⟩
    have hi := lt_of_received hreceived
    rw [toNat_ofNat_sub_ofNat (by omega) (by omega), Nat.add_sub_cancel_left]
    exact ⟨.inr ⟨hlt, hreceived⟩, hnot⟩

/-- One ACK, built, encoded, decoded and applied: in the prefix and the window behind it the flags
of the sender become those of the receiver, elsewhere nothing changes, and the chunks that are new
come back once each. -/
theorem ack_marks_what_it_reports (P : Primitives) (cfg : RecvConfig) {streams : List StreamState}
    (hsid : streams[sid]? = some t) (hid : sid < 2 ^ 32) (hbase : s.chunkBase = t.chunkBase)
    (hcount : s.chunkCount = t.chunkCount)
    (hacked : ∀ i, t.acked.getD i false = true → s.received.getD i false = true)
    (happlied : ∀ i < t.hcApplied, t.acked.getD i false = true)
    (seq timestamp : UInt64) (inFlight wireSize : ℕ) (nowUs : UInt32) :
    ∃ pkt t' inFlight' newlyAcked,
      decodePacket P.crc32c (ackDatagram P cfg sid s seq timestamp) = .ok pkt ∧
      pkt.header.packetType = .ackBitmap ∧
      processAckBitmap pkt.payload streams inFlight wireSize nowUs =
        (streams.set sid t', inFlight', newlyAcked) ∧
      t'.sendState = t.sendState ∧
      (∀ i < s.contigPrefix + 8192, t'.acked.getD i false = s.received.getD i false) ∧
      (∀ i, s.contigPrefix + 8192 ≤ i → t'.acked.getD i false = t.acked.getD i false) ∧
      (newlyAcked.map Prod.fst).Nodup ∧
      ∀ pn, pn ∈ newlyAcked.map Prod.fst ↔
        ∃ i < s.contigPrefix + 8192, pn = ofNat (s.chunkBase + i) ∧
          s.received.getD i false = true ∧ t.acked.getD i false = false := by
  obtain ⟨pkt, hpkt, htype, hdecode⟩ := decodePacket_ackDatagram P cfg sid s seq timestamp
  have hstream : (streamAck sid s).streamId.toNat = sid := by
    simp only [streamAck, UInt32.toNat_ofNat']
    omega
  have hflag := getD_acked_streamAck sid hend hbase hcount happlied wireSize nowUs inFlight
  have hnew := mem_newlyAcked_streamAck sid hend hbase hcount happlied wireSize nowUs inFlight
  have hnodup := (fresh_applyAck (streamAck sid s) wireSize nowUs t inFlight).nodup
  have hframe := sendState_applyAck (streamAck sid s) wireSize nowUs t inFlight
  have hwindow : maxAckBitmapBytes * 8 = 8192 := rfl
  rw [hwindow] at hflag hnew
  generalize happly : applyAck (streamAck sid s) wireSize nowUs t inFlight = p
    at hflag hnew hnodup hframe
  refine ⟨pkt, p.stream, p.inFlight, p.newlyAcked, hpkt, htype, ?_, hframe, ?_, ?_, hnodup, hnew⟩
  · simp only [processAckBitmap, hdecode, hstream, hsid, happly]
  · intro i hi
    rw [Bool.eq_iff_iff, hflag]
    constructor
    · rintro (hold | ⟨-, hreceived⟩)
      · exact hacked i hold
      · exact hreceived
    · intro hreceived
      exact .inr ⟨hi, hreceived⟩
  · intro i hi
    rw [Bool.eq_iff_iff, hflag]
    constructor
    · rintro (hold | ⟨hlt, -⟩)
      · exact hold
      · omega
    · exact .inl

end Exact

theorem ack_marks_what_it_reports_wrapped :
    let s := (StreamRecvState.new 0 3).markReceived 1
    let cfg : RecvConfig := ⟨7, 100, 1, true, false, true, 64⟩
    (buildStreamAckBitmap s).1 = 18446744073709551615 ∧
      ∃ pkt t' inFlight' newlyAcked,
        decodePacket nullPrimitives.crc32c (ackDatagram nullPrimitives cfg 0 s 0 0) = .ok pkt ∧
        processAckBitmap pkt.payload [new 0 0 3] 100 100 0 =
          ([t'], inFlight', newlyAcked) ∧
        t'.acked.getD 0 false = false ∧ t'.acked.getD 1 false = true ∧
        1 ∈ newlyAcked.map Prod.fst := by
  intro s cfg
  have hnone : ∀ i, (new 0 0 3).acked.getD i false = false := getD_replicate_false 3
  obtain ⟨pkt, t', inFlight', newlyAcked, hpkt, -, hprocess, -, hwindow, -, -, hnew⟩ :=
    @ack_marks_what_it_reports s (new 0 0 3) 0 (by decide) nullPrimitives cfg
      [new 0 0 3] rfl (by decide) rfl rfl
      (fun i h => absurd ((hnone i).symm.trans h) (by decide))
      (fun i h => absurd h (Nat.not_lt_zero i)) 0 0 100 100 0
  refine ⟨by decide, pkt, t', inFlight', newlyAcked, hpkt, hprocess, ?_, ?_, ?_⟩
  · rw [hwindow 0 (by decide)]
    decide
  · rw [hwindow 1 (by decide)]
    decide
  · exact (hnew 1).mpr ⟨1, by decide, by decide, by decide, hnone 1⟩

end Favonius.Transfer
