import Favonius.Client.Packets
import Favonius.Client.Streams

/-!
# The client's send loop

One step per thing the loop does: stage one packet, apply one feedback
datagram, scan for timed-out chunks, re-send a pending KEY_UPDATE, and after
the loop send FINISH and wait for the session ticket.  The congestion
controller, the pacer and the clock decide when a step is taken; their
decisions are arguments or left open, so every order of steps is covered.
-/

namespace Favonius.Client

open Execution ByteCodec Proto Crypto Transfer List KeyEpoch

structure SendConfig where
  connId : UInt64
  fileData : Bytes
  payloadSize : ℕ
  requestedStreams : ℕ
  compress : Bool
  headerProtect : Bool
  /-- Bytes of one full DATA packet, the unit of the in-flight count. -/
  wireSize : ℕ
  streamRun : ℕ

namespace SendConfig

def totalChunks (cfg : SendConfig) : ℕ :=
  (cfg.fileData.length + cfg.payloadSize - 1) / cfg.payloadSize

def numStreams (cfg : SendConfig) : ℕ :=
  min (max cfg.requestedStreams 1) (max cfg.totalChunks 1 % 2 ^ 32)

end SendConfig

/-- A KEY_UPDATE that is still being re-sent, with the keys that seal it. -/
structure PendingKeyUpdate where
  epoch : ℕ
  resendsLeft : ℕ
  keys : Option SessionKeys

def keyUpdateResends : ℕ := 3

inductive Phase where
  | sending
  /-- FINISH is sent; waiting for its reply and the session ticket. -/
  | finishing
  | done
  | failed
  deriving DecidableEq

structure Sender where
  streams : List StreamState
  currentStream : ℕ
  streamRunPos : ℕ
  seq : UInt64
  inFlight : ℕ
  keyEpoch : Option KeyEpoch
  pendingKeyUpdate : Option PendingKeyUpdate
  finishSeen : Bool
  checkpointPayload : Option Bytes
  /-- What the session-ticket cache gets for this peer. -/
  cachedTicket : Option Bytes
  phase : Phase

/-! ## Choosing a chunk -/

namespace StreamState

def clearInRetx (s : StreamState) (localCi : ℕ) (queue : List ℕ)
    (h : ∀ c ∈ queue, c < s.chunkCount) : StreamState :=
  { s with
    flags := s.flags.modify localCi (· &&& ~~~chunkInRetx)
    retxQueue := queue
    retx_lt := h }

/-- Pop retransmit entries, skipping the ones acked while queued. -/
def popRetx (s : StreamState) : (queue : List ℕ) → (∀ c ∈ queue, c < s.chunkCount) →
    Option ℕ × StreamState
  | [], _ => (none, { s with retxQueue := [], retx_lt := by simp })
  | c :: rest, h =>
    let s' := s.clearInRetx c rest fun d hd => h d (mem_cons_of_mem c hd)
    if s'.acked.getD c false = false then (some c, s')
    else popRetx s' rest fun d hd => h d (mem_cons_of_mem c hd)

/-- Take the next unsent chunk, skipping those acked in advance (resume). -/
def nextUnsent : ℕ → StreamState → Option ℕ × StreamState
  | 0, s => (none, s)
  | fuel + 1, s =>
    if s.nextLocal < s.chunkCount then
      let s' := { s with nextLocal := s.nextLocal + 1 }
      if s'.acked.getD s.nextLocal false then nextUnsent fuel s' else (some s.nextLocal, s')
    else (none, s)

def nextChunk (s : StreamState) : Option ℕ × StreamState :=
  match s.popRetx s.retxQueue s.retx_lt with
  | (some c, s) => (some c, s)
  | (none, s) => nextUnsent (s.chunkCount - s.nextLocal) s

lemma popRetx_spec (s : StreamState) (queue : List ℕ) (h : ∀ c ∈ queue, c < s.chunkCount) :
    let r := s.popRetx queue h
    r.2.ackState = s.ackState ∧ r.2.nextLocal = s.nextLocal ∧
      r.2.retxQueue.length ≤ queue.length - 1 ∧
      ∀ c, r.1 = some c → c ∈ queue ∧ s.acked.getD c false = false := by
  induction queue generalizing s with
  | nil => exact ⟨rfl, rfl, le_rfl, nofun⟩
  | cons c rest ih =>
    have hrest : ∀ d ∈ rest, d < s.chunkCount := fun d hd => h d (mem_cons_of_mem c hd)
    simp only [popRetx]
    split
    · rename_i hopen
      refine ⟨rfl, rfl, le_rfl, ?_⟩
      rintro d ⟨⟩
      exact ⟨mem_cons_self, hopen⟩
    · obtain ⟨hstate, hnext, hlen, hchosen⟩ := ih (s.clearInRetx c rest hrest) hrest
      refine ⟨hstate, hnext, hlen.trans (Nat.sub_le _ _), fun d hd => ?_⟩
      exact ⟨mem_cons_of_mem c (hchosen d hd).1, (hchosen d hd).2⟩

lemma nextUnsent_spec (fuel : ℕ) (s : StreamState) :
    let r := nextUnsent fuel s
    r.2.ackState = s.ackState ∧ r.2.retxQueue = s.retxQueue ∧ s.nextLocal ≤ r.2.nextLocal ∧
      (0 < fuel → s.nextLocal < s.chunkCount → s.nextLocal < r.2.nextLocal) ∧
      ∀ c, r.1 = some c → c < s.chunkCount ∧ s.acked.getD c false = false := by
  induction fuel generalizing s with
  | zero => exact ⟨rfl, rfl, le_rfl, fun h => absurd h (lt_irrefl 0), nofun⟩
  | succ fuel ih =>
    simp only [nextUnsent]
    split_ifs with hlt hacked
    · obtain ⟨hstate, hqueue, hle, -, hchosen⟩ := ih { s with nextLocal := s.nextLocal + 1 }
      exact ⟨hstate, hqueue, Nat.le_of_succ_le hle, fun _ _ => hle, hchosen⟩
    · refine ⟨rfl, rfl, Nat.le_succ _, fun _ _ => Nat.lt_succ_self _, ?_⟩
      rintro c ⟨⟩
      exact ⟨hlt, Bool.not_eq_true _ ▸ hacked⟩
    · exact ⟨rfl, rfl, le_rfl, fun _ h => absurd h hlt, nofun⟩

/-- A stream with work loses a queued entry or a chunk not reached. -/
theorem nextChunk_spec (s : StreamState) :
    let r := s.nextChunk
    r.2.ackState = s.ackState ∧
      (∀ c, r.1 = some c → c < s.chunkCount ∧ s.acked.getD c false = false) ∧
      (s.hasWork = true → r.2.retxQueue.length + (s.chunkCount - r.2.nextLocal) <
        s.retxQueue.length + (s.chunkCount - s.nextLocal)) := by
  obtain ⟨hstate, hnext, hlen, hchosen⟩ := s.popRetx_spec s.retxQueue s.retx_lt
  unfold nextChunk
  generalize s.popRetx s.retxQueue s.retx_lt = r at hstate hnext hlen hchosen
  obtain ⟨_ | c, t⟩ := r
  · have hcount : t.chunkCount = s.chunkCount := congrArg StreamState.AckState.chunkCount hstate
    have hacked : t.acked = s.acked := congrArg StreamState.AckState.acked hstate
    obtain ⟨hlater, hqueue, hle, hless, hopen⟩ := nextUnsent_spec (t.chunkCount - t.nextLocal) t
    refine ⟨hlater.trans hstate, fun c hc => ?_, fun hwork => ?_⟩
    · rw [← hcount, ← hacked]
      exact hopen c hc
    · have hsome : s.retxQueue ≠ [] ∨ s.nextLocal < s.chunkCount := by simpa [hasWork] using hwork
      dsimp only at hnext hlen ⊢
      rw [hqueue]
      rcases hsome with hne | hlt
      · have hpos := length_pos_of_ne_nil hne
        omega
      · have hreached := hless (by omega) (by omega)
        omega
  · obtain ⟨hmem, hopen⟩ := hchosen c rfl
    refine ⟨hstate, ?_, fun _ => ?_⟩
    · rintro d ⟨⟩
      exact ⟨s.retx_lt c hmem, hopen⟩
    · have hpos := length_pos_of_mem hmem
      dsimp only at hnext hlen ⊢
      omega

end StreamState

def findWork (streams : List StreamState) : ℕ → ℕ → Option ℕ
  | 0, _ => none
  | fuel + 1, cur =>
    match streams[cur]? with
    | none => none
    | some s => if s.hasWork then some cur else findWork streams fuel ((cur + 1) % streams.length)

/-! ## Steps -/

variable (P : Primitives) (cfg : SendConfig)

structure Staged where
  keyEpoch : Option KeyEpoch
  pendingKeyUpdate : Option PendingKeyUpdate
  out : Output

/-- Put one chunk on the wire.  A seal counts towards the key's limit; reaching it
rotates the keys and announces the new epoch, sealed under the outgoing one and
with the packet number of the packet just staged. -/
def transmit (s : Sender) (streamId : UInt32) (globalCi : ℕ) (data : Bytes) (compressed : Bool)
    (batchTs keyUpdateTs : UInt64) : Except CryptoError Staged :=
  match s.keyEpoch with
  | none => .ok ⟨none, s.pendingKeyUpdate,
      ⟨[plainData P cfg.connId s.seq batchTs streamId globalCi data compressed], []⟩⟩
  | some ke =>
    let pkt := sealedData P cfg.headerProtect ke.keys cfg.connId s.seq batchTs streamId globalCi
      data compressed
    let record := dataRecord P ke.keys cfg.connId s.seq batchTs streamId data compressed
    let (due, ke) := ke.onPacketEncrypted
    if due then do
      let ke ← ke.rotate P.hkdf
      let update := sendCtrlSealed P .keyUpdate cfg.connId s.seq keyUpdateTs
        (encodeKeyUpdate ke.epoch) ke.previousKeys
      return ⟨some ke, some ⟨ke.epoch, keyUpdateResends, ke.previousKeys⟩,
        Output.append ⟨[pkt], [record]⟩ update⟩
    else .ok ⟨some ke, s.pendingKeyUpdate, ⟨[pkt], [record]⟩⟩

def Sender.totalAcked (s : Sender) : ℕ := (s.streams.map StreamState.nAcked).sum

def Sender.afterStaged (s : Sender) (cur : ℕ) (stream : StreamState) (localCi : ℕ)
    (nowUs : UInt32) (staged : Staged) : Sender :=
  let wrap := cfg.streamRun ≤ s.streamRunPos + 1
  { s with
    streams := s.streams.set cur { stream with sentUs := stream.sentUs.set localCi nowUs }
    currentStream := if wrap then (cur + 1) % s.streams.length else cur
    streamRunPos := if wrap then 0 else s.streamRunPos + 1
    seq := s.seq + 1
    inFlight := s.inFlight + cfg.wireSize
    keyEpoch := staged.keyEpoch
    pendingKeyUpdate := staged.pendingKeyUpdate }

def Sender.stage (batchTs keyUpdateTs : UInt64) (nowUs : UInt32) (s : Sender) :
    Option (Sender × Output) :=
  if s.phase ≠ .sending ∨ cfg.totalChunks ≤ s.totalAcked then none else
  match findWork s.streams s.streams.length s.currentStream with
  | none => none
  | some cur =>
    match s.streams[cur]? with
    | none => none
    | some stream =>
      match stream.nextChunk with
      | (none, stream) => some ({ s with
          streams := s.streams.set cur stream
          currentStream := (cur + 1) % s.streams.length }, ⟨[], []⟩)
      | (some localCi, stream) =>
        let globalCi := stream.toGlobal localCi
        match compressChunk P cfg.compress
            (chunkAt cfg.fileData cfg.payloadSize globalCi) with
        | none => some ({ s with phase := .failed }, ⟨[], []⟩)
        | some (data, compressed) =>
          match transmit P cfg s stream.id globalCi data compressed batchTs keyUpdateTs with
          | .error _ => some ({ s with phase := .failed }, ⟨[], []⟩)
          | .ok staged =>
            some (s.afterStaged cfg cur stream localCi nowUs staged, staged.out)

inductive CcSignal where
  | acked (chunks : List (UInt64 × Option ℕ))
  | lost (chunks : List ℕ)
  deriving DecidableEq

/-- Apply one datagram from the feedback socket.  Nothing in it is authenticated. -/
def Sender.processFeedback (nowUs : UInt32) (data : Bytes) (s : Sender) :
    Sender × List CcSignal :=
  match decodePacket P.crc32c data with
  | .error _ => (s, [])
  | .ok pkt =>
    match pkt.header.packetType with
    | .ackBitmap =>
      let (streams, inFlight, newlyAcked) :=
        processAckBitmap pkt.payload s.streams s.inFlight cfg.wireSize nowUs
      ({ s with streams, inFlight }, [.acked newlyAcked])
    | .nackRange =>
      let (streams, lost) := processNack pkt.payload s.streams nowUs
      ({ s with streams }, if lost.isEmpty then [] else [.lost lost])
    | .finish => ({ s with finishSeen := true }, [])
    | .checkpoint =>
      if pkt.payload.isEmpty then (s, [])
      else ({ s with checkpointPayload := some pkt.payload }, [])
    | _ => (s, [])

def Sender.scan (nowUs retxTimeoutUs : UInt32) (s : Sender) : Sender × List ℕ :=
  let totalRetxPending := (s.streams.map fun t => t.retxQueue.length).sum
  let totalSent := (s.streams.map fun t => min t.nextLocal t.chunkCount).sum
  let outstanding := totalSent - s.totalAcked
  let scanned := s.streams.map fun t => t.queueTimedOut nowUs retxTimeoutUs
  ({ s with
      streams := scanned.map Prod.fst
      inFlight := scanned.foldl (fun n r => n - cfg.wireSize * r.2.length)
        ((outstanding - totalRetxPending) * cfg.wireSize) },
    scanned.flatMap Prod.snd)

/-- At the end of every pass a pending KEY_UPDATE is sent again, under the keys of
its first send, with the current packet number and a fresh timestamp. -/
def Sender.resendKeyUpdate (timestamp : UInt64) (s : Sender) : Sender × Output :=
  match s.pendingKeyUpdate with
  | none => (s, ⟨[], []⟩)
  | some pku =>
    if 0 < pku.resendsLeft then
      ({ s with pendingKeyUpdate := some { pku with resendsLeft := pku.resendsLeft - 1 } },
        sendCtrlSealed P .keyUpdate cfg.connId s.seq timestamp (encodeKeyUpdate pku.epoch)
          pku.keys)
    else (s, ⟨[], []⟩)

/-- The loop is left once every chunk is acked; FINISH is sealed under the current epoch. -/
def Sender.finish (timestamp : UInt64) (s : Sender) : Option (Sender × Output) :=
  if s.phase = .sending ∧ cfg.totalChunks ≤ s.totalAcked then
    some ({ s with phase := .finishing },
      sendCtrlSealed P .finish cfg.connId s.seq timestamp [] (s.keyEpoch.map keys))
  else none

/-- Only the ticket and the reply to FINISH matter after the loop. -/
def Sender.finishFeedback (data : Bytes) (s : Sender) : Sender :=
  match decodePacket P.crc32c data with
  | .error _ => s
  | .ok pkt =>
    match pkt.header.packetType with
    | .checkpoint =>
      if pkt.payload.isEmpty then s else { s with checkpointPayload := some pkt.payload }
    | .finish => { s with finishSeen := true }
    | _ => s

/-- The ticket is cached with the resume secret of the current epoch. -/
def Sender.awaitTicket (s : Sender) : Option Sender :=
  if s.phase ≠ .finishing then none else
  match s.checkpointPayload with
  | some payload => some { s with
      checkpointPayload := none
      cachedTicket := match s.keyEpoch with
        | some ke => some (payload ++ ke.keys.resumeSecret.1)
        | none => s.cachedTicket
      phase := .done }
  | none => if s.finishSeen && s.keyEpoch.isNone then some { s with phase := .done } else none

/-! ## The loop as a transition function -/

inductive SendEvent where
  | stage (batchTs keyUpdateTs : UInt64) (nowUs : UInt32)
  | feedback (data : Bytes) (nowUs : UInt32)
  | scan (nowUs retxTimeoutUs : UInt32)
  | endPass (timestamp : UInt64)
  | finish (timestamp : UInt64)
  | awaitTicket
  | deadline

def Sender.step (s : Sender) : SendEvent → Option (Sender × Output)
  | .stage batchTs keyUpdateTs nowUs => s.stage P cfg batchTs keyUpdateTs nowUs
  | .feedback data nowUs =>
    match s.phase with
    | .sending => some ((s.processFeedback P cfg nowUs data).1, ⟨[], []⟩)
    | .finishing => some (s.finishFeedback P data, ⟨[], []⟩)
    | _ => none
  | .scan nowUs retxTimeoutUs =>
    if s.phase = .sending then some ((s.scan cfg nowUs retxTimeoutUs).1, ⟨[], []⟩) else none
  | .endPass timestamp =>
    if s.phase = .sending then some (s.resendKeyUpdate P cfg timestamp) else none
  | .finish timestamp => s.finish P cfg timestamp
  | .awaitTicket => s.awaitTicket.map fun t => (t, ⟨[], []⟩)
  | .deadline =>
    if s.phase = .finishing then some ({ s with phase := .done }, ⟨[], []⟩) else none

inductive Sender.Turn (s : Sender) : SendEvent → Sender → Output → Prop where
  | stage (batchTs keyUpdateTs : UInt64) (nowUs : UInt32) (s' : Sender) (out : Output)
      (hphase : s.phase = .sending)
      (hstage : s.stage P cfg batchTs keyUpdateTs nowUs = some (s', out)) :
      Sender.Turn s (.stage batchTs keyUpdateTs nowUs) s' out
  | feedback (data : Bytes) (nowUs : UInt32) (hphase : s.phase = .sending) :
      Sender.Turn s (.feedback data nowUs) (s.processFeedback P cfg nowUs data).1 ⟨[], []⟩
  | finishFeedback (data : Bytes) (nowUs : UInt32) (finishSeen : Bool)
      (checkpointPayload : Option Bytes) (hphase : s.phase = .finishing) :
      Sender.Turn s (.feedback data nowUs) { s with finishSeen, checkpointPayload } ⟨[], []⟩
  | scan (nowUs retxTimeoutUs : UInt32) (hphase : s.phase = .sending) :
      Sender.Turn s (.scan nowUs retxTimeoutUs) (s.scan cfg nowUs retxTimeoutUs).1 ⟨[], []⟩
  | pass (timestamp : UInt64) (hphase : s.phase = .sending)
      (hspent : ∀ pku ∈ s.pendingKeyUpdate, pku.resendsLeft = 0) :
      Sender.Turn s (.endPass timestamp) s ⟨[], []⟩
  | resend (pku : PendingKeyUpdate) (timestamp : UInt64) (hphase : s.phase = .sending)
      (hpku : s.pendingKeyUpdate = some pku) (hleft : 0 < pku.resendsLeft) :
      Sender.Turn s (.endPass timestamp)
        { s with pendingKeyUpdate := some { pku with resendsLeft := pku.resendsLeft - 1 } }
        (sendCtrlSealed P .keyUpdate cfg.connId s.seq timestamp (encodeKeyUpdate pku.epoch)
          pku.keys)
  | finish (timestamp : UInt64) (hphase : s.phase = .sending)
      (hall : cfg.totalChunks ≤ s.totalAcked) :
      Sender.Turn s (.finish timestamp) { s with phase := .finishing }
        (sendCtrlSealed P .finish cfg.connId s.seq timestamp [] (s.keyEpoch.map keys))
  | ticket (payload : Bytes) (cachedTicket : Option Bytes) (hphase : s.phase = .finishing)
      (hcached : cachedTicket = (s.keyEpoch.map fun ke => payload ++ ke.keys.resumeSecret.1).or
        s.cachedTicket) :
      Sender.Turn s .awaitTicket
        { s with checkpointPayload := none, cachedTicket, phase := .done } ⟨[], []⟩
  /-- There is no ticket to wait for, or the wait is over. -/
  | leave (ev : SendEvent) (hphase : s.phase = .finishing)
      (hev : ∀ timestamp, ev ≠ .endPass timestamp) :
      Sender.Turn s ev { s with phase := .done } ⟨[], []⟩

lemma Sender.finishFeedback_eq (data : Bytes) (s : Sender) :
    ∃ finishSeen checkpointPayload,
      s.finishFeedback P data = { s with finishSeen, checkpointPayload } := by
  unfold Sender.finishFeedback
  repeat' split
  all_goals exact ⟨_, _, rfl⟩

variable {s s' : Sender}

lemma Sender.turn_of_awaitTicket (h : s.awaitTicket = some s') :
    s.Turn P cfg .awaitTicket s' ⟨[], []⟩ := by
  simp only [Sender.awaitTicket] at h
  split at h
  · cases h
  rename_i hphase
  have hfinishing := not_not.mp hphase
  split at h
  · rename_i payload _
    cases h
    apply Turn.ticket payload _ hfinishing
    cases s.keyEpoch with
    | none | some => rfl
  · split at h
    · cases h
      exact .leave _ hfinishing nofun
    · cases h

variable {ev : SendEvent} {out : Output}

lemma Sender.turn_of_step (h : s.step P cfg ev = some (s', out)) : s.Turn P cfg ev s' out := by
  cases ev with
  | stage batchTs keyUpdateTs nowUs =>
    apply Turn.stage batchTs keyUpdateTs nowUs s' out ?_ h
    by_contra hphase
    simp [Sender.step, Sender.stage, hphase] at h
  | feedback data nowUs =>
    simp only [Sender.step] at h
    split at h
    · rename_i hphase
      cases h
      exact .feedback data nowUs hphase
    · rename_i hphase
      cases h
      obtain ⟨finishSeen, checkpointPayload, heq⟩ := s.finishFeedback_eq P data
      rw [heq]
      exact .finishFeedback data nowUs finishSeen checkpointPayload hphase
    · cases h
  | scan nowUs retxTimeoutUs =>
    obtain ⟨hphase, ⟨⟩⟩ := guard_eq_some h
    exact .scan nowUs retxTimeoutUs hphase
  | endPass timestamp =>
    obtain ⟨hphase, heq⟩ := Option.ite_none_right_eq_some.mp h
    simp only [Sender.resendKeyUpdate] at heq
    split at heq
    · rename_i hnone
      cases heq
      exact .pass timestamp hphase (by simp [hnone])
    · rename_i pku hpku
      split at heq
      · rename_i hleft
        cases heq
        exact .resend pku timestamp hphase hpku hleft
      · cases heq
        exact .pass timestamp hphase (by simp [hpku]; omega)
  | finish timestamp =>
    obtain ⟨⟨hphase, hall⟩, ⟨⟩⟩ := guard_eq_some h
    exact .finish timestamp hphase hall
  | awaitTicket =>
    obtain ⟨t, ht, hpair⟩ := Option.map_eq_some_iff.mp h
    cases hpair
    exact turn_of_awaitTicket P cfg ht
  | deadline =>
    obtain ⟨hphase, ⟨⟩⟩ := guard_eq_some h
    exact .leave _ hphase nofun

/-! ## What a step does -/

variable {streamId : UInt32} {globalCi : ℕ} {data : Bytes} {compressed : Bool}
  {batchTs keyUpdateTs : UInt64} {nowUs : UInt32}

lemma transmit_plain {staged : Staged} (hkeys : s.keyEpoch = none)
    (h : transmit P cfg s streamId globalCi data compressed batchTs keyUpdateTs = .ok staged) :
    staged = ⟨none, s.pendingKeyUpdate,
      ⟨[plainData P cfg.connId s.seq batchTs streamId globalCi data compressed], []⟩⟩ := by
  simp only [transmit, hkeys] at h
  exact (Except.ok.inj h).symm

lemma transmit_sealed {ke : KeyEpoch} (hkeys : s.keyEpoch = some ke) :
    let pkt := sealedData P cfg.headerProtect ke.keys cfg.connId s.seq batchTs streamId globalCi
      data compressed
    let record := dataRecord P ke.keys cfg.connId s.seq batchTs streamId data compressed
    transmit P cfg s streamId globalCi data compressed batchTs keyUpdateTs =
      .ok (if maxPacketsPerKey ≤ ke.packetCount + 1 then
        ⟨some ⟨ke.epoch + 1, 0, nextKeys P.hkdf ke.keys, some ke.keys⟩,
          some ⟨ke.epoch + 1, keyUpdateResends, some ke.keys⟩,
          Output.append ⟨[pkt], [record]⟩ (sendCtrlSealed P .keyUpdate cfg.connId s.seq keyUpdateTs
            (encodeKeyUpdate (ke.epoch + 1)) (some ke.keys))⟩
      else ⟨some { ke with packetCount := ke.packetCount + 1 }, s.pendingKeyUpdate,
        ⟨[pkt], [record]⟩⟩) := by
  simp only [transmit, hkeys, onPacketEncrypted, decide_eq_true_eq]
  split
  · simp only [KeyEpoch.rotate, deriveNextKeys_eq]
    rfl
  · rfl

inductive Sender.Effect (s s' : Sender) (ev : SendEvent) : Output → Prop where
  | quiet (hkeys : s'.keyEpoch = s.keyEpoch)
      (hpending : s'.pendingKeyUpdate = s.pendingKeyUpdate) (hseq : s'.seq = s.seq)
      (hresend : ∀ timestamp, ev = .endPass timestamp →
        ∀ pku ∈ s.pendingKeyUpdate, pku.resendsLeft = 0) :
      Sender.Effect s s' ev ⟨[], []⟩
  | staged (stream : StreamState) (localCi : ℕ) (data : Bytes) (compressed : Bool)
      (batchTs keyUpdateTs : UInt64) (staged : Staged)
      (hphase : s.phase = .sending)
      (hstream : stream.ackState ∈ s.streams.map StreamState.ackState)
      (hlocal : localCi < stream.chunkCount)
      (hcompress : compressChunk P cfg.compress (chunkAt cfg.fileData cfg.payloadSize
        (stream.toGlobal localCi)) = some (data, compressed))
      (htransmit : transmit P cfg s stream.id (stream.toGlobal localCi) data compressed batchTs
        keyUpdateTs = .ok staged)
      (hkeys : s'.keyEpoch = staged.keyEpoch)
      (hpending : s'.pendingKeyUpdate = staged.pendingKeyUpdate) (hseq : s'.seq = s.seq + 1)
      (hev : ∀ timestamp, ev ≠ .endPass timestamp) :
      Sender.Effect s s' ev staged.out
  | resent (pku : PendingKeyUpdate) (timestamp : UInt64)
      (hpku : s.pendingKeyUpdate = some pku) (hleft : 0 < pku.resendsLeft)
      (hkeys : s'.keyEpoch = s.keyEpoch)
      (hpending : s'.pendingKeyUpdate = some { pku with resendsLeft := pku.resendsLeft - 1 })
      (hseq : s'.seq = s.seq) (hev : ev = .endPass timestamp) (hphase : s.phase = .sending) :
      Sender.Effect s s' ev (sendCtrlSealed P .keyUpdate cfg.connId s.seq timestamp
        (encodeKeyUpdate pku.epoch) pku.keys)
  | finished (timestamp : UInt64) (hphase : s.phase = .sending) (hphase' : s'.phase = .finishing)
      (hkeys : s'.keyEpoch = s.keyEpoch)
      (hpending : s'.pendingKeyUpdate = s.pendingKeyUpdate) (hseq : s'.seq = s.seq)
      (hev : ev = .finish timestamp) :
      Sender.Effect s s' ev (sendCtrlSealed P .finish cfg.connId s.seq timestamp []
        (s.keyEpoch.map keys))

/-- Staging fails, finds that a stream has only acked chunks left, or sends one chunk. -/
theorem Sender.stage_cases (h : s.stage P cfg batchTs keyUpdateTs nowUs = some (s', out)) :
    s.phase = .sending ∧ ((s', out) = ({ s with phase := .failed }, ⟨[], []⟩) ∨
      ∃ cur stream, findWork s.streams s.streams.length s.currentStream = some cur ∧
        s.streams[cur]? = some stream ∧
        ((∃ next, stream.nextChunk = (none, next) ∧ (s', out) = ({ s with
            streams := s.streams.set cur next
            currentStream := (cur + 1) % s.streams.length }, ⟨[], []⟩)) ∨
          ∃ localCi next data compressed staged, stream.nextChunk = (some localCi, next) ∧
            compressChunk P cfg.compress (chunkAt cfg.fileData cfg.payloadSize
              (next.toGlobal localCi)) = some (data, compressed) ∧
            transmit P cfg s next.id (next.toGlobal localCi) data compressed batchTs keyUpdateTs =
              .ok staged ∧
            (s', out) = (s.afterStaged cfg cur next localCi nowUs staged, staged.out))) := by
  unfold Sender.stage at h
  split at h
  · cases h
  rename_i hguard
  refine ⟨not_not.mp (not_or.mp hguard).1, ?_⟩
  split at h
  · cases h
  rename_i cur hwork
  split at h
  · cases h
  rename_i stream hcur
  split at h
  · rename_i next hnext
    exact .inr ⟨cur, stream, hwork, hcur, .inl ⟨next, hnext, (Option.some.inj h).symm⟩⟩
  rename_i localCi next hnext
  dsimp only at h
  split at h
  · exact .inl (Option.some.inj h).symm
  rename_i data compressed hcompress
  split at h
  · exact .inl (Option.some.inj h).symm
  rename_i staged htransmit
  exact .inr ⟨cur, stream, hwork, hcur, .inr ⟨localCi, next, data, compressed, staged, hnext,
    hcompress, htransmit, (Option.some.inj h).symm⟩⟩

lemma Sender.stage_effect (h : s.stage P cfg batchTs keyUpdateTs nowUs = some (s', out)) :
    s.Effect P cfg s' (.stage batchTs keyUpdateTs nowUs) out ∧
      s'.streams.map StreamState.ackState = s.streams.map StreamState.ackState := by
  obtain ⟨hphase, hfailed | ⟨cur, stream, -, hcur, hturn⟩⟩ := stage_cases P cfg h
  · cases hfailed
    exact ⟨.quiet rfl rfl rfl (by simp), rfl⟩
  obtain ⟨hstate, hlocal, -⟩ := stream.nextChunk_spec
  have hset : (s.streams.set cur stream.nextChunk.2).map StreamState.ackState =
      s.streams.map StreamState.ackState := by
    obtain ⟨hlt, rfl⟩ := List.getElem?_eq_some_iff.mp hcur
    rw [map_set, hstate, ← map_set, set_getElem_self hlt]
  rcases hturn with ⟨next, hnext, ⟨⟩⟩ |
    ⟨localCi, next, data, compressed, staged, hnext, hcompress, htransmit, ⟨⟩⟩
  all_goals rw [hnext] at hset hstate hlocal
  · exact ⟨.quiet rfl rfl rfl (by simp), hset⟩
  dsimp only at hstate
  have hcount : next.chunkCount = stream.chunkCount :=
    congrArg StreamState.AckState.chunkCount hstate
  refine ⟨.staged next localCi data compressed batchTs keyUpdateTs staged hphase ?_
    (hcount ▸ (hlocal localCi rfl).1) hcompress htransmit rfl rfl rfl (by simp), ?_⟩
  · rw [hstate]
    exact mem_map_of_mem (mem_of_getElem? hcur)
  · rw [← hset, Sender.afterStaged, map_set, map_set]
    rfl

lemma Sender.processFeedback_keys (nowUs : UInt32) (data : Bytes) (s : Sender) :
    (s.processFeedback P cfg nowUs data).1.keyEpoch = s.keyEpoch ∧
      (s.processFeedback P cfg nowUs data).1.pendingKeyUpdate = s.pendingKeyUpdate ∧
      (s.processFeedback P cfg nowUs data).1.seq = s.seq ∧
      (s.processFeedback P cfg nowUs data).1.cachedTicket = s.cachedTicket := by
  unfold Sender.processFeedback
  repeat' split
  all_goals exact ⟨rfl, rfl, rfl, rfl⟩

lemma Sender.step_effect (h : s.step P cfg ev = some (s', out)) : s.Effect P cfg s' ev out := by
  cases turn_of_step P cfg h with
  | stage batchTs keyUpdateTs nowUs _ _ _ hstage => exact (Sender.stage_effect P cfg hstage).1
  | feedback data nowUs _ =>
    obtain ⟨hkeys, hpending, hseq, -⟩ := s.processFeedback_keys P cfg nowUs data
    exact .quiet hkeys hpending hseq nofun
  | finishFeedback | scan | ticket => exact .quiet rfl rfl rfl nofun
  | pass timestamp _ hspent => exact .quiet rfl rfl rfl fun _ _ => hspent
  | resend pku timestamp hphase hpku hleft =>
    exact .resent pku timestamp hpku hleft rfl rfl rfl rfl hphase
  | finish timestamp hphase _ => exact .finished timestamp hphase rfl rfl rfl rfl rfl
  | leave _ _ hev => exact .quiet rfl rfl rfl fun timestamp heq => absurd heq (hev timestamp)

lemma Sender.phase_of_step (h : s.step P cfg ev = some (s', out))
    (hphase' : s'.phase = .sending) : s.phase = .sending := by
  cases turn_of_step P cfg h with
  | stage _ _ _ _ _ hphase _ | feedback _ _ hphase | scan _ _ hphase | pass _ hphase _
  | resend _ _ hphase _ _ | finish _ hphase _ => exact hphase
  | finishFeedback => exact hphase'
  | ticket | leave => cases hphase'

lemma Sender.processFeedback_streams (nowUs : UInt32) (data : Bytes) (s : Sender) :
    (s.processFeedback P cfg nowUs data).1.streams.map StreamState.ackState =
        s.streams.map StreamState.ackState ∨
      ∃ pkt, decodePacket P.crc32c data = .ok pkt ∧ pkt.header.packetType = .ackBitmap ∧
        (s.processFeedback P cfg nowUs data).1.streams =
          (processAckBitmap pkt.payload s.streams s.inFlight cfg.wireSize nowUs).1 := by
  unfold Sender.processFeedback
  split
  · exact .inl rfl
  rename_i pkt hpkt
  split
  · rename_i htype
    exact .inr ⟨pkt, hpkt, htype, rfl⟩
  · exact .inl (map_ackState_processNack pkt.payload s.streams nowUs)
  · exact .inl rfl
  · split <;> exact .inl rfl
  · exact .inl rfl

lemma Sender.scan_streams (nowUs retxTimeoutUs : UInt32) (s : Sender) :
    (s.scan cfg nowUs retxTimeoutUs).1.streams.map StreamState.ackState =
      s.streams.map StreamState.ackState := by
  simp only [Sender.scan, map_map]
  apply map_congr_left
  intro t _
  exact t.ackState_queueTimedOut nowUs retxTimeoutUs

/-- Only an ACK bitmap changes which chunks are acked. -/
theorem Sender.step_streams (h : s.step P cfg ev = some (s', out)) :
    s'.streams.map StreamState.ackState = s.streams.map StreamState.ackState ∨
      ∃ data nowUs pkt, ev = .feedback data nowUs ∧ decodePacket P.crc32c data = .ok pkt ∧
        pkt.header.packetType = .ackBitmap ∧
        s'.streams = (processAckBitmap pkt.payload s.streams s.inFlight cfg.wireSize nowUs).1 := by
  cases turn_of_step P cfg h with
  | stage _ _ _ _ _ _ hstage => exact .inl (Sender.stage_effect P cfg hstage).2
  | feedback data nowUs _ =>
    rcases s.processFeedback_streams P cfg nowUs data with hsame | ⟨pkt, hpkt, htype, hs⟩
    · exact .inl hsame
    · exact .inr ⟨data, nowUs, pkt, rfl, hpkt, htype, hs⟩
  | scan nowUs retxTimeoutUs _ => exact .inl (s.scan_streams cfg nowUs retxTimeoutUs)
  | finishFeedback | pass | resend | finish | ticket | leave => exact .inl rfl

lemma Sender.step_ranges (h : s.step P cfg ev = some (s', out)) :
    s'.streams.map StreamState.range = s.streams.map StreamState.range := by
  rcases Sender.step_streams P cfg h with hsame | ⟨data, nowUs, pkt, -, -, -, hack⟩
  · have hmap := congrArg
      (List.map fun a : StreamState.AckState => (a.chunkBase, a.chunkCount)) hsame
    rw [map_map, map_map] at hmap
    exact hmap
  · have hmap := congrArg (List.map fun a : StreamState.SendState => (a.chunkBase, a.chunkCount))
      (map_sendState_processAckBitmap pkt.payload s.streams s.inFlight cfg.wireSize nowUs)
    rw [map_map, map_map, ← hack] at hmap
    exact hmap

def Sender.init (streams : List StreamState) (seq : UInt64) (keys : Option SessionKeys) :
    Sender where
  streams := streams
  currentStream := 0
  streamRunPos := 0
  seq := seq
  inFlight := 0
  keyEpoch := keys.map new
  pendingKeyUpdate := none
  finishSeen := false
  checkpointPayload := none
  cachedTicket := none
  phase := .sending

end Favonius.Client
