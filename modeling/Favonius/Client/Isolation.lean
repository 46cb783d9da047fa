import Favonius.Transfer.Delivery

/-!
# Feedback of other transfers

The sender's sockets can still receive datagrams of another transfer.  The daemon
drops DATA of other connections; `process_feedback` and the wait after FINISH never
look at the connection id, so such a datagram is harmless only when there is nothing
in it for the state it meets.
-/

namespace Favonius.Client

open Execution ByteCodec Proto Crypto Transfer List Option

variable (P : Primitives) (cfg : SendConfig)

def CcSignal.reported : CcSignal → Bool
  | .acked chunks => !chunks.isEmpty
  | .lost _ => true

/-- What one step tells the congestion controller; `wantsTimeoutLoss` is the
controller's own answer to whether timeouts count as loss. -/
def Sender.ccInputs (wantsTimeoutLoss : Bool) (s : Sender) : SendEvent → List CcSignal
  | .feedback data nowUs =>
    match s.phase with
    | .sending => (s.processFeedback P cfg nowUs data).2.filter CcSignal.reported
    | _ => []
  | .scan nowUs retxTimeoutUs =>
    let lost := (s.scan cfg nowUs retxTimeoutUs).2
    if wantsTimeoutLoss && !lost.isEmpty then [.lost lost] else []
  | _ => []

structure Observed where
  sender : Sender
  told : List CcSignal

def Observed.step (wantsTimeoutLoss : Bool) (o : Observed) (ev : SendEvent) : Option Observed :=
  (o.sender.step P cfg ev).map fun r =>
    ⟨r.1, o.told ++ o.sender.ccInputs P cfg wantsTimeoutLoss ev⟩

def ownEvent : SendEvent → Bool
  | .feedback data _ =>
    match decodePacket P.crc32c data with
    | .ok pkt => pkt.header.connectionId == cfg.connId
    | .error _ => true
  | _ => true

/-- The prefix ends within what was applied before, and the bits name acked chunks only. -/
def staleAck (ack : AckBitmap) (s : StreamState) : Bool :=
  (prefixStart ack s).isNone &&
    (bitmapPns ack).all fun pn => !s.unacked (pn - UInt64.ofNat s.chunkBase).toNat

/-- The chunk is acked, waits for its retransmit already, or was sent just now. -/
def nackIgnored (nowUs : UInt32) (s : StreamState) (pn : ℕ) : Bool :=
  let localCi := (UInt64.ofNat pn - UInt64.ofNat s.chunkBase).toNat
  !s.unacked localCi || s.flags.getD localCi 0 &&& chunkInRetx != 0 ||
    (localCi < s.sentUs.length && nowUs - s.sentUs.getD localCi 0 < 50000)

def staleNack (nowUs : UInt32) (nack : NackRange) (s : StreamState) : Bool :=
  nack.ranges.all fun r =>
    let lo := max r.1.toNat s.chunkBase
    let hi := min r.2.toNat (s.chunkBase + s.chunkCount - 1)
    (List.range' lo (hi + 1 - lo)).all (nackIgnored nowUs s)

def ackNothingNew (streams : List StreamState) (payload : Bytes) : Bool :=
  match AckBitmap.decode payload with
  | .error _ => true
  | .ok ack => (streams[ack.streamId.toNat]?).all (staleAck ack)

def nackNothingNew (nowUs : UInt32) (streams : List StreamState) (payload : Bytes) : Bool :=
  match NackRange.decode payload with
  | .error _ => true
  | .ok nack => (streams[nack.streamId.toNat]?).all (staleNack nowUs nack)

/-- A decoded packet the sender has no use for: feedback on chunks it has dealt with, a
FINISH or a ticket it has seen, or a type it ignores. -/
def nothingNew (s : Sender) (nowUs : UInt32) (pkt : Packet) : Bool :=
  match pkt.header.packetType with
  | .ackBitmap => s.phase != .sending || ackNothingNew s.streams pkt.payload
  | .nackRange => s.phase != .sending || nackNothingNew nowUs s.streams pkt.payload
  | .finish => s.finishSeen
  | .checkpoint => pkt.payload.isEmpty || s.checkpointPayload == some pkt.payload
  | _ => true

def harmless (o : Observed) (ev : SendEvent) : Bool :=
  ownEvent P cfg ev ||
    match ev with
    | .feedback data nowUs =>
      match decodePacket P.crc32c data with
      | .ok pkt => nothingNew o.sender nowUs pkt
      | .error _ => true
    | _ => true

variable {ack : AckBitmap} {streams : List StreamState} {payload : Bytes}

lemma applyPrefix_of_staleAck {p : AckProgress} (h : staleAck ack p.stream = true) (wireSize : ℕ)
    (nowUs : UInt32) : applyPrefix ack wireSize nowUs p = p := by
  have hnone : prefixStart ack p.stream = none := by
    exact isNone_iff_eq_none.mp (Bool.and_eq_true _ _ ▸ h).1
  rw [applyPrefix, hnone]

variable {s : StreamState}

lemma applyAck_of_staleAck (h : staleAck ack s = true) (wireSize : ℕ) (nowUs : UInt32)
    (inFlight : ℕ) : applyAck ack wireSize nowUs s inFlight = ⟨s, inFlight, []⟩ := by
  have hstale : ∀ pn ∈ bitmapPns ack,
      s.unacked (pn - UInt64.ofNat s.chunkBase).toNat = false := by
    intro pn hpn
    have hall := (Bool.and_eq_true _ _ ▸ h).2
    simpa using List.all_eq_true.mp hall pn hpn
  rw [applyAck, applyPrefix_of_staleAck h]
  generalize bitmapPns ack = pns at hstale
  induction pns with
  | nil => rfl
  | cons pn pns ih =>
    rw [foldl_cons]
    have hsame : ackPn wireSize nowUs ⟨s, inFlight, []⟩ pn = ⟨s, inFlight, []⟩ := by
      simp [ackPn, hstale pn mem_cons_self]
    rw [hsame]
    apply ih
    intro pn' hpn'
    exact hstale pn' (mem_cons_of_mem pn hpn')

variable {nowUs : UInt32}

lemma nackPn_of_ignored {pn : ℕ} (h : nackIgnored nowUs s pn = true) (lost : List ℕ) :
    nackPn nowUs (s, lost) pn = (s, lost) := by
  simp only [nackIgnored, Bool.or_eq_true, Bool.not_eq_true', bne_iff_ne, Bool.and_eq_true,
    decide_eq_true_eq] at h
  dsimp only [nackPn]
  split_ifs with hun hflag hlen hrecent
  · rfl
  · rcases h with (h | h) | h
    · rw [hun] at h
      cases h
    · exact absurd hflag h
    · exact absurd h.2 (by simpa using hrecent)
  · rfl
  · rcases h with (h | h) | h
    · rw [hun] at h
      cases h
    · exact absurd hflag h
    · exact absurd h.1 hlen
  · rfl
  · rfl

lemma nackRange_of_stale {pns : List ℕ} (h : pns.all (nackIgnored nowUs s) = true)
    (lost : List ℕ) : pns.foldl (nackPn nowUs) (s, lost) = (s, lost) := by
  induction pns with
  | nil => rfl
  | cons pn pns ih =>
    simp only [all_cons, Bool.and_eq_true] at h
    rw [foldl_cons, nackPn_of_ignored h.1, ih h.2]

lemma foldl_nackRange_of_stale {nack : NackRange} (h : staleNack nowUs nack s = true) :
    nack.ranges.foldl (nackRange nowUs) (s, []) = (s, []) := by
  unfold staleNack at h
  generalize nack.ranges = ranges at h
  induction ranges with
  | nil => rfl
  | cons r ranges ih =>
    simp only [all_cons, Bool.and_eq_true] at h
    rw [foldl_cons, nackRange, nackRange_of_stale h.1, ih h.2]

lemma processAckBitmap_of_nothingNew (h : ackNothingNew streams payload = true)
    (inFlight wireSize : ℕ) (nowUs : UInt32) :
    processAckBitmap payload streams inFlight wireSize nowUs = (streams, inFlight, []) := by
  unfold processAckBitmap
  unfold ackNothingNew at h
  cases hdecode : AckBitmap.decode payload with
  | error e => rfl
  | ok ack =>
    simp only [hdecode] at h
    dsimp only
    cases hs : streams[ack.streamId.toNat]? with
    | none => rfl
    | some stream =>
      simp only [hs, all_some] at h
      obtain ⟨hlt, rfl⟩ := List.getElem?_eq_some_iff.mp hs
      simp only [applyAck_of_staleAck h, set_getElem_self hlt]

lemma processNack_of_nothingNew (h : nackNothingNew nowUs streams payload = true) :
    processNack payload streams nowUs = (streams, []) := by
  unfold processNack
  unfold nackNothingNew at h
  cases hdecode : NackRange.decode payload with
  | error e => rfl
  | ok nack =>
    simp only [hdecode] at h
    dsimp only
    cases hs : streams[nack.streamId.toNat]? with
    | none => rfl
    | some stream =>
      simp only [hs, all_some] at h
      obtain ⟨hlt, rfl⟩ := List.getElem?_eq_some_iff.mp hs
      simp only [foldl_nackRange_of_stale h, set_getElem_self hlt]

variable {data : Bytes} {pkt : Packet}

lemma processFeedback_of_nothingNew {s : Sender} (hphase : s.phase = .sending)
    (hpkt : decodePacket P.crc32c data = .ok pkt) (h : nothingNew s nowUs pkt = true) :
    (s.processFeedback P cfg nowUs data).1 = s ∧
      (s.processFeedback P cfg nowUs data).2.filter CcSignal.reported = [] := by
  unfold Sender.processFeedback
  rw [hpkt]
  dsimp only
  unfold nothingNew at h
  cases htype : pkt.header.packetType with
  | ackBitmap =>
    simp only [htype, hphase, bne_self_eq_false, Bool.false_or] at h
    simp [processAckBitmap_of_nothingNew h, CcSignal.reported]
  | nackRange =>
    simp only [htype, hphase, bne_self_eq_false, Bool.false_or] at h
    simp [processNack_of_nothingNew h]
  | finish =>
    simp only [htype] at h
    simp [← h]
  | checkpoint =>
    simp only [htype, Bool.or_eq_true, beq_iff_eq] at h
    dsimp only
    split
    · exact ⟨rfl, rfl⟩
    · rename_i hpayload
      have hseen := h.resolve_left hpayload
      simp [← hseen]
  | _ => exact ⟨rfl, rfl⟩

lemma finishFeedback_of_nothingNew {s : Sender} (hpkt : decodePacket P.crc32c data = .ok pkt)
    (h : nothingNew s nowUs pkt = true) : s.finishFeedback P data = s := by
  unfold Sender.finishFeedback
  rw [hpkt]
  dsimp only
  unfold nothingNew at h
  cases htype : pkt.header.packetType with
  | finish =>
    simp only [htype] at h
    simp [← h]
  | checkpoint =>
    simp only [htype, Bool.or_eq_true, beq_iff_eq] at h
    dsimp only
    split
    · rfl
    · rename_i hpayload
      have hseen := h.resolve_left hpayload
      simp [← hseen]
  | _ => rfl

lemma Observed.step_of_nothingNew {wantsTimeoutLoss : Bool} {o o' : Observed}
    (hpkt : decodePacket P.crc32c data = .ok pkt) (h : nothingNew o.sender nowUs pkt = true)
    (hstep : o.step P cfg wantsTimeoutLoss (.feedback data nowUs) = some o') : o' = o := by
  obtain ⟨⟨s, out⟩, hs, rfl⟩ := map_eq_some_iff.mp hstep
  simp only [Sender.step] at hs
  split at hs
  · rename_i hphase
    cases hs
    obtain ⟨hsame, hquiet⟩ := processFeedback_of_nothingNew P cfg hphase hpkt h
    simp only [Sender.ccInputs, hphase, hsame, hquiet, append_nil]
  · rename_i hphase
    cases hs
    simp only [Sender.ccInputs, hphase, finishFeedback_of_nothingNew P hpkt h, append_nil]
  · cases hs

/-- In every run in which each datagram of another connection has nothing new for the sender
it reaches, leaving those datagrams out changes nothing: neither the acked chunks, the
retransmit queues, what congestion control was told, the finish flag nor the ticket. -/
theorem feedback_isolated (wantsTimeoutLoss : Bool) (o o' : Observed) (es : List SendEvent)
    (hrun : exec (Observed.step P cfg wantsTimeoutLoss) o es = some o')
    (hharmless : Along (Observed.step P cfg wantsTimeoutLoss)
      (fun o ev => harmless P cfg o ev = true) o es) :
    exec (Observed.step P cfg wantsTimeoutLoss) o (es.filter (ownEvent P cfg)) =
      some o' := by
  induction es generalizing o with
  | nil => exact hrun
  | cons ev es ih =>
    obtain ⟨u, hu, hrest⟩ := exec_cons_eq_some.mp hrun
    have hfiltered := ih u hrest (hharmless.2 u hu)
    by_cases hown : ownEvent P cfg ev = true
    · rw [filter_cons_of_pos hown]
      exact exec_cons_eq_some.mpr ⟨u, hu, hfiltered⟩
    rw [filter_cons_of_neg hown]
    -- what is left out is a decoded datagram, so the step changed nothing
    cases ev with
    | feedback data nowUs =>
      cases hpkt : decodePacket P.crc32c data with
      | error e => exact absurd (by simp [ownEvent, hpkt]) hown
      | ok pkt =>
        have hnew : nothingNew o.sender nowUs pkt = true := by
          simpa [harmless, hpkt, hown] using hharmless.1
        obtain rfl := Observed.step_of_nothingNew P cfg hpkt hnew hu
        exact hfiltered
    | _ => exact absurd rfl hown

def lateForeignAck : List SendEvent :=
  [.stage 5 5 0, .stage 5 5 0,
    .feedback (encodeAckBitmapInto nullPrimitives.crc32c 7 1 9 0 0 1 []) 0,
    .feedback (encodeAckBitmapInto nullPrimitives.crc32c 8 1 9 0 0 1 []) 0]

theorem feedback_isolated_lateForeignAck :
    (exec (Observed.step nullPrimitives sampleSession.send true)
      ⟨(start sampleSession).sender, []⟩
      (lateForeignAck.filter (ownEvent nullPrimitives sampleSession.send))).map
        (fun o => o.sender.totalAcked) = some 2 := by
  have hend : (exec (Observed.step nullPrimitives sampleSession.send true)
      ⟨(start sampleSession).sender, []⟩ lateForeignAck).map
        (fun o => o.sender.totalAcked) = some 2 := by
    decide +kernel
  obtain ⟨o, ho, hacked⟩ := map_eq_some_iff.mp hend
  rw [feedback_isolated nullPrimitives sampleSession.send true _ o lateForeignAck ho
    (by decide +kernel)]
  simp [hacked]

/-- The same ACK before anything was delivered: the sender takes both chunks for acked. -/
theorem foreign_ack_acks_chunks :
    let es : List SendEvent := [.stage 5 5 0, .stage 5 5 0,
      .feedback (encodeAckBitmapInto nullPrimitives.crc32c 8 1 9 0 0 1 []) 0]
    let run := exec (Observed.step nullPrimitives sampleSession.send true)
      ⟨(start sampleSession).sender, []⟩
    (run es).map (fun o => (o.sender.totalAcked, o.told.length)) = some (2, 1) ∧
      (run (es.filter (ownEvent nullPrimitives sampleSession.send))).map
        (fun o => (o.sender.totalAcked, o.told.length)) = some (0, 0) := by
  decide +kernel

end Favonius.Client
