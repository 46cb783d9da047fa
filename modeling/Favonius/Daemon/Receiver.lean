import Favonius.Crypto.Protection
import Favonius.Daemon.RecvStreams
import Favonius.Lib.Execution

/-!
# The daemon's receive loop

One step per datagram, plus the ACK timer and the two ways the loop ends by
itself.  Opening a sealed packet is a parameter, so that the same loop runs
against the cipher or against its ideal.  The clock is an argument of each step:
one reading per reply, and the time in milliseconds for the NACK gap timer.
-/

namespace Favonius.Daemon

open Execution ByteCodec Proto Crypto Transfer List Option

def maxPacket : ℕ := 1500

def aeadTagLen : ℕ := 16

structure RecvConfig where
  connId : UInt64
  payloadSize : ℕ
  totalChunks : ℕ
  compressed : Bool
  nackEnabled : Bool
  headerProtected : Bool
  ackEvery : ℕ

inductive RecvPhase where
  | receiving
  | finished
  | peerSilent
  deriving DecidableEq

structure Receiver where
  seq : UInt64
  mmap : Bytes
  streams : List StreamRecvState
  keyEpoch : Option KeyEpoch
  /-- Every chunk is in; the loop answers retransmissions until it may leave. -/
  tailArmed : Bool
  finishReplied : Bool
  pendingHello : Option UInt64
  phase : RecvPhase

variable (P : Primitives) (openFn : OpenFn) (cfg : RecvConfig)

/-! ## Replies -/

abbrev Clock := ℕ → UInt64

def ackDatagram (sid : ℕ) (s : StreamRecvState) (seq timestamp : UInt64) : Bytes :=
  let (hc, bitmap) := buildStreamAckBitmap s
  encodeAckBitmapInto P.crc32c cfg.connId seq timestamp (UInt32.ofNat sid)
    (UInt64.ofNat s.chunkBase) hc bitmap

def reply (clock : Clock) (datagram : UInt64 → UInt64 → Bytes) (a : Receiver × List Bytes) :
    Receiver × List Bytes :=
  ({ a.1 with seq := a.1.seq + 1 }, a.2 ++ [datagram a.1.seq (clock a.2.length)])

def ackAll (clock : Clock) (a : Receiver × List Bytes) : Receiver × List Bytes :=
  a.1.streams.zipIdx.foldl (fun a p => reply clock (ackDatagram P cfg p.2 p.1) a) a

def Receiver.setSinceAck (r : Receiver) (sid n : ℕ) : Receiver :=
  { r with streams := r.streams.modify sid fun s => { s with sinceAck := n } }

/-- The 15 ms timer acks every stream that got packets since its last ACK. -/
def ackTimer (clock : Clock) (r : Receiver) : Receiver × List Bytes :=
  r.streams.zipIdx.foldl (fun a p =>
    if 0 < p.1.sinceAck then
      let a := reply clock (ackDatagram P cfg p.2 p.1) a
      (a.1.setSinceAck p.2 0, a.2)
    else a) (r, [])

/-! ## DATA -/

/-- The longest DATA payload the transfer can carry; never more than the decrypt buffer. -/
def maxDataLen (keyEpoch : Option KeyEpoch) : ℕ :=
  if keyEpoch.isSome then min (cfg.payloadSize + aeadTagLen) maxPacket else cfg.payloadSize

def unmask (keyEpoch : Option KeyEpoch) (pkt : Bytes) : Bytes :=
  match keyEpoch with
  | some ke =>
    if cfg.headerProtected then unprotect P.aes128 ke.keys.headerProtectionKey pkt headerSize
    else pkt
  | none => pkt

/-- The associated data is the 42-byte header after header protection removal. -/
def openChunk (keyEpoch : Option KeyEpoch) (pkt raw : Bytes) : Option Bytes :=
  match keyEpoch with
  | none => some raw
  | some ke => openPacket openFn ke.keys.dataKey
      (nonceFor ke.keys.dataIv (getU64 (pkt.drop 18)).1) (pkt.take headerSize) raw

/-- A packet flagged as compressed is written raw if the transfer has no decompressor. -/
def expandChunk (pkt payload : Bytes) : Option Bytes :=
  if (getU16 (pkt.drop 2)).1 &&& PacketFlags.compressed ≠ 0 ∧ cfg.compressed then
    P.zstdDecompress payload cfg.payloadSize
  else some payload

def placeChunk (r : Receiver) (pkt : Bytes) (dp : DataPayloadRef) (stream : StreamRecvState)
    (localCi : ℕ) : Option (Bytes × StreamRecvState) :=
  if stream.received.getD localCi false then some (r.mmap, stream)
  else
    match (openChunk openFn r.keyEpoch pkt dp.data).bind (expandChunk P cfg pkt) with
    | none => none
    | some data => some (writeChunk r.mmap (dp.chunkIndex.toNat * cfg.payloadSize) data,
        stream.markReceived localCi)

def nackDatagram (sid : ℕ) (ranges : List (ℕ × ℕ)) (seq timestamp : UInt64) : Bytes :=
  let payload := NackRange.encode ⟨UInt32.ofNat sid,
    ranges.map fun r => (UInt64.ofNat r.1, UInt64.ofNat r.2)⟩
  encodeCtrlPacketWithPayloadInto P.crc32c .nackRange cfg.connId seq timestamp payload.length ++
    payload

/-- Per-stream feedback after an accepted DATA packet: gap detection and the ACK count. -/
def dataFeedback (clock : Clock) (nowMs sid localCi : ℕ) (stream : StreamRecvState)
    (r : Receiver) : Receiver × List Bytes :=
  let stream := { stream with sinceAck := stream.sinceAck + 1 }
  let (stream, ranges) := if cfg.nackEnabled then detectGap stream localCi nowMs else (stream, [])
  let r := { r with streams := r.streams.set sid stream }
  let a := if ranges.isEmpty then (r, [])
    else reply clock (nackDatagram P cfg sid ranges) (r, [])
  if cfg.ackEvery ≤ stream.sinceAck then
    let a := reply clock (ackDatagram P cfg sid stream) a
    (a.1.setSinceAck sid 0, a.2)
  else a

def Receiver.totalReceived (r : Receiver) : ℕ := (r.streams.map StreamRecvState.nReceived).sum

/-- The first time every chunk is in, the final ACKs go out three times. -/
def completionCheck (clock : Clock) (a : Receiver × List Bytes) : Receiver × List Bytes :=
  if a.1.tailArmed = false ∧ cfg.totalChunks ≤ a.1.totalReceived then
    let a := ackAll P cfg clock (ackAll P cfg clock (ackAll P cfg clock a))
    ({ a.1 with tailArmed := true }, a.2)
  else a

def recvData (clock : Clock) (nowMs : ℕ) (pkt : Bytes) (r : Receiver) : Receiver × List Bytes :=
  let pkt := unmask P cfg r.keyEpoch pkt
  if 14 ≤ pkt.length ∧ (getU64 (pkt.drop 6)).1 ≠ cfg.connId then (r, []) else
  match decodeDataInline pkt with
  | none => (r, [])
  | some dp =>
    if maxDataLen cfg r.keyEpoch < dp.data.length then (r, []) else
    match r.streams[dp.streamId.toNat]? with
    | none => completionCheck P cfg clock (r, [])
    | some stream =>
      match stream.localChunkIndex dp.chunkIndex.toNat with
      | none => (r, [])
      | some localCi =>
        match placeChunk P openFn cfg r pkt dp stream localCi with
        | none => (r, [])
        | some (mmap, stream) =>
          completionCheck P cfg clock (dataFeedback P cfg clock nowMs dp.streamId.toNat
            localCi stream { r with mmap })

/-! ## Control packets -/

def shouldRotate (currentEpoch : ℕ) (newEpoch : UInt64) : Bool :=
  newEpoch == UInt64.ofNat (currentEpoch + 1)

/-- A plaintext transfer takes control payloads as they are. -/
def authenticateCtrl (keyEpoch : Option KeyEpoch) (headerAad : Bytes) (packetNumber : UInt64)
    (payload : Bytes) : Option Bytes :=
  match keyEpoch with
  | some ke => unsealControl openFn ke.keys ke.previousKeys packetNumber headerAad payload
  | none => some payload

def applyKeyUpdate (payload : Bytes) (keyEpoch : Option KeyEpoch) : Option KeyEpoch :=
  match decodeKeyUpdate payload, keyEpoch with
  | some newEpoch, some ke =>
    if shouldRotate ke.epoch newEpoch then
      match ke.rotate P.hkdf with
      | .ok ke => some ke
      | .error _ => some ke
    else some ke
  | _, ke => ke

/-- The mode byte of the HELLO_ACK that answers a HELLO during a transfer. -/
def plaintextModeByte : UInt8 := 0x00

def recvControl (clock : Clock) (pkt : Bytes) (r : Receiver) : Receiver × List Bytes :=
  match decodePacket P.crc32c pkt with
  | .error _ => (r, [])
  | .ok decoded =>
    if decoded.header.connectionId ≠ cfg.connId ∧ decoded.header.packetType ≠ .hello then (r, [])
    else
      match decoded.header.packetType with
      | .finish =>
        match authenticateCtrl openFn r.keyEpoch (pkt.take headerSize)
            decoded.header.packetNumber decoded.payload with
        | none => (r, [])
        | some _ =>
          let a := ackAll P cfg clock (r, [])
          ({ a.1 with finishReplied := true, phase := .finished },
            a.2 ++ [encodeCtrlPacketInto P.crc32c .finish cfg.connId a.1.seq
              (clock a.2.length)])
      | .pathProbe =>
        (r, [encodeCtrlPacketInto P.crc32c .pathProbeAck cfg.connId
          decoded.header.packetNumber (clock 0)])
      | .keyUpdate =>
        match authenticateCtrl openFn r.keyEpoch (pkt.take headerSize)
            decoded.header.packetNumber decoded.payload with
        | none => (r, [])
        | some payload => ({ r with keyEpoch := applyKeyUpdate P payload r.keyEpoch }, [])
      | .hello =>
        ({ r with
            pendingHello := some decoded.header.connectionId
            phase := if r.tailArmed then .finished else r.phase },
          [encodeCtrlPacketWithPayloadInto P.crc32c .helloAck decoded.header.connectionId 0
            (clock 0) 1 ++ [plaintextModeByte]])
      | _ => (r, [])

def recvDatagram (clock : Clock) (nowMs : ℕ) (pkt : Bytes) (r : Receiver) :
    Receiver × List Bytes :=
  if 1 < pkt.length ∧ pkt.getD 1 0 = 0x20 then recvData P openFn cfg clock nowMs pkt r
  else if 0 < pkt.length then recvControl P openFn cfg clock pkt r
  else (r, [])

/-! ## The loop as a transition function -/

inductive RecvEvent where
  | datagram (pkt : Bytes) (clock : Clock) (nowMs : ℕ)
  | ackTimer (clock : Clock)
  /-- The grace period after completion is over. -/
  | tailGrace
  /-- Nothing came from the peer for the inactivity timeout. -/
  | peerInactive

def Receiver.step (r : Receiver) (ev : RecvEvent) : Option (Receiver × List Bytes) :=
  if r.phase ≠ .receiving then none else
  match ev with
  | .datagram pkt clock nowMs => some (recvDatagram P openFn cfg clock nowMs pkt r)
  | .ackTimer clock => some (ackTimer P cfg clock r)
  | .tailGrace => if r.tailArmed then some ({ r with phase := .finished }, []) else none
  | .peerInactive => if r.tailArmed then none else some ({ r with phase := .peerSilent }, [])

variable {r : Receiver} {clock : Clock}

lemma Receiver.step_datagram (h : r.phase = .receiving) {pkt : Bytes} {nowMs : ℕ} :
    r.step P openFn cfg (.datagram pkt clock nowMs) =
      some ((recvDatagram P openFn cfg clock nowMs pkt r).1,
        (recvDatagram P openFn cfg clock nowMs pkt r).2) :=
  if_neg (not_not.mpr h)

inductive Receiver.Turn (r : Receiver) : RecvEvent → Receiver → List Bytes → Prop where
  | data (pkt : Bytes) (clock : Clock) (nowMs : ℕ) (hdata : 1 < pkt.length ∧ pkt.getD 1 0 = 0x20) :
      Turn r (.datagram pkt clock nowMs) (recvData P openFn cfg clock nowMs pkt r).1
        (recvData P openFn cfg clock nowMs pkt r).2
  | control (pkt : Bytes) (clock : Clock) (nowMs : ℕ)
      (hdata : ¬(1 < pkt.length ∧ pkt.getD 1 0 = 0x20)) :
      Turn r (.datagram pkt clock nowMs) (recvControl P openFn cfg clock pkt r).1
        (recvControl P openFn cfg clock pkt r).2
  | empty (clock : Clock) (nowMs : ℕ) : Turn r (.datagram [] clock nowMs) r []
  | ackTimer (clock : Clock) :
      Turn r (.ackTimer clock) (ackTimer P cfg clock r).1 (ackTimer P cfg clock r).2
  | tailGrace (harmed : r.tailArmed = true) : Turn r .tailGrace { r with phase := .finished } []
  | peerInactive (hunarmed : r.tailArmed = false) :
      Turn r .peerInactive { r with phase := .peerSilent } []

variable {r' : Receiver} {ev : RecvEvent} {out : List Bytes}

variable {P openFn cfg} in
lemma Receiver.turn_of_step (h : r.step P openFn cfg ev = some (r', out)) :
    r.Turn P openFn cfg ev r' out := by
  unfold Receiver.step at h
  split at h
  · cases h
  cases ev with
  | datagram pkt clock nowMs =>
    have hpair : recvDatagram P openFn cfg clock nowMs pkt r = (r', out) := some.inj h
    unfold recvDatagram at hpair
    split at hpair
    · rename_i hdata
      have hturn := @Turn.data P openFn cfg r pkt clock nowMs hdata
      rwa [hpair] at hturn
    · rename_i hdata
      split at hpair
      · have hturn := @Turn.control P openFn cfg r pkt clock nowMs hdata
        rwa [hpair] at hturn
      · rename_i hempty
        obtain rfl := eq_nil_of_length_eq_zero (Nat.eq_zero_of_not_pos hempty)
        cases hpair
        exact .empty clock nowMs
  | ackTimer clock =>
    have hturn := @Turn.ackTimer P openFn cfg r clock
    rwa [some.inj h] at hturn
  | tailGrace =>
    obtain ⟨harmed, ⟨⟩⟩ := guard_eq_some h
    exact .tailGrace harmed
  | peerInactive =>
    obtain ⟨hunarmed, heq⟩ := ite_none_left_eq_some.mp h
    cases heq
    exact .peerInactive (Bool.eq_false_iff.mpr hunarmed)

/-! ## What the replies say -/

/-- A datagram the daemon sends when its streams have the given progress: the ACK of
one of them, or a packet that is no ACK. -/
inductive IsReply (progress : List Progress) : Bytes → Prop where
  | ack (sid : ℕ) (s : StreamRecvState) (seq timestamp : UInt64)
      (h : progress[sid]? = some s.progress) :
      IsReply progress (ackDatagram P cfg sid s seq timestamp)
  | other (h : PacketHeader) (payload : Bytes) (htype : h.packetType ≠ .ackBitmap) :
      IsReply progress (h.encode P.crc32c ++ payload)

open StreamRecvState (progress)

def Replies (a : Receiver × List Bytes) : Prop :=
  ∀ d ∈ a.2, IsReply P cfg (a.1.streams.map progress) d

variable {P cfg} (ps : List Progress) (payload : Bytes)

lemma isReply_nackDatagram (sid : ℕ) (ranges : List (ℕ × ℕ)) (seq timestamp : UInt64) :
    IsReply P cfg ps (nackDatagram P cfg sid ranges seq timestamp) :=
  .other (ctrlHeader .nackRange cfg.connId seq timestamp _) _ (by simp [ctrlHeader])

lemma isReply_ctrl {ptype : PacketType} (htype : ptype ≠ .ackBitmap)
    (connId seq timestamp : UInt64) :
    IsReply P cfg ps (encodeCtrlPacketInto P.crc32c ptype connId seq timestamp) := by
  have h := @IsReply.other P cfg ps (ctrlHeader ptype connId seq timestamp 0) [] htype
  rwa [append_nil] at h

/-! ## What a step does -/

lemma toNat_seq_reply_le (clock : Clock) (d : UInt64 → UInt64 → Bytes)
    (a : Receiver × List Bytes) : (reply clock d a).1.seq.toNat ≤ a.1.seq.toNat + 1 := by
  have hadd : (a.1.seq + 1).toNat = (a.1.seq.toNat + 1) % 2 ^ 64 := UInt64.toNat_add _ _
  exact hadd.trans_le (Nat.mod_le _ _)

lemma Receiver.map_setSinceAck {β : Type*} (f : StreamRecvState → β)
    (hf : ∀ (s : StreamRecvState) (n : ℕ), f { s with sinceAck := n } = f s) (r : Receiver)
    (sid n : ℕ) : (r.setSinceAck sid n).streams.map f = r.streams.map f := by
  apply ext_getElem?
  intro i
  rw [setSinceAck, getElem?_map, getElem?_map, getElem?_modify]
  cases r.streams[i]? with
  | none => rfl
  | some s =>
    split
    · exact congrArg some (hf s n)
    · rfl

lemma getElem?_progress {streams : List StreamRecvState} {p : StreamRecvState × ℕ}
    (hp : p ∈ streams.zipIdx) : (streams.map progress)[p.2]? = some p.1.progress := by
  rw [getElem?_map, mem_zipIdx_iff_getElem?.mp hp]
  rfl

variable (P cfg)

lemma foldl_ack_spec (clock : Clock) {progress : List Progress}
    {ps : List (StreamRecvState × ℕ)} (hps : ∀ p ∈ ps, progress[p.2]? = some p.1.progress)
    (a : Receiver × List Bytes) :
    ∃ seq out, ps.foldl (fun a p => reply clock (ackDatagram P cfg p.2 p.1) a) a =
        ({ a.1 with seq }, a.2 ++ out) ∧
      seq.toNat ≤ a.1.seq.toNat + ps.length ∧ ∀ d ∈ out, IsReply P cfg progress d := by
  induction ps generalizing a with
  | nil => exact ⟨a.1.seq, [], by rw [append_nil]; rfl, le_rfl, nofun⟩
  | cons p ps ih =>
    obtain ⟨hp, hps⟩ := forall_mem_cons.mp hps
    obtain ⟨seq, out, h, hseq, hout⟩ := ih hps (reply clock (ackDatagram P cfg p.2 p.1) a)
    have hfirst := toNat_seq_reply_le clock (ackDatagram P cfg p.2 p.1) a
    refine ⟨seq, ackDatagram P cfg p.2 p.1 a.1.seq (clock a.2.length) :: out, ?_, ?_,
      forall_mem_cons.mpr ⟨.ack p.2 p.1 _ _ hp, hout⟩⟩
    · rw [foldl_cons, h]
      simp [reply]
    · rw [length_cons]
      omega

/-- ACKs for all streams change the counter and nothing else. -/
theorem ackAll_spec (clock : Clock) (a : Receiver × List Bytes) :
    ∃ seq out, ackAll P cfg clock a = ({ a.1 with seq }, a.2 ++ out) ∧
      seq.toNat ≤ a.1.seq.toNat + a.1.streams.length ∧
      ∀ d ∈ out, IsReply P cfg (a.1.streams.map progress) d := by
  have h := foldl_ack_spec P cfg clock
    (fun p (hp : p ∈ a.1.streams.zipIdx) => getElem?_progress hp) a
  rwa [length_zipIdx] at h

lemma completionCheck_spec (clock : Clock) (a : Receiver × List Bytes) :
    ∃ seq out, completionCheck P cfg clock a = ({ a.1 with
        seq, tailArmed := a.1.tailArmed || decide (cfg.totalChunks ≤ a.1.totalReceived) },
          a.2 ++ out) ∧
      seq.toNat ≤ a.1.seq.toNat + 3 * a.1.streams.length ∧
      ∀ d ∈ out, IsReply P cfg (a.1.streams.map progress) d := by
  unfold completionCheck
  split
  · rename_i hall
    obtain ⟨seq, out, h, hseq, hout⟩ := ackAll_spec P cfg clock a
    obtain ⟨seq', out', h', hseq', hout'⟩ := ackAll_spec P cfg clock ({ a.1 with seq }, a.2 ++ out)
    obtain ⟨seq'', out'', h'', hseq'', hout''⟩ :=
      ackAll_spec P cfg clock ({ a.1 with seq := seq' }, a.2 ++ out ++ out')
    refine ⟨seq'', out ++ out' ++ out'', ?_, ?_, forall_mem_append.mpr
      ⟨forall_mem_append.mpr ⟨hout, hout'⟩, hout''⟩⟩
    · rw [h, h', h'']
      simp [hall.2]
    · dsimp only at hseq' hseq''
      omega
  · rename_i hopen
    refine ⟨a.1.seq, [], ?_, by omega, nofun⟩
    have harmed : (a.1.tailArmed || decide (cfg.totalChunks ≤ a.1.totalReceived)) =
        a.1.tailArmed := by
      cases h : a.1.tailArmed <;> simp_all
    rw [harmed, append_nil]

lemma ackTimer_induction (clock : Clock) (r : Receiver) (motive : Receiver × List Bytes → Prop)
    (hstart : motive (r, []))
    (hack : ∀ a, ∀ p ∈ r.streams.zipIdx, motive a →
      motive ((reply clock (ackDatagram P cfg p.2 p.1) a).1.setSinceAck p.2 0,
        (reply clock (ackDatagram P cfg p.2 p.1) a).2)) : motive (ackTimer P cfg clock r) := by
  refine foldlRecOn _ _ hstart fun a ha p hp => ?_
  split
  · exact hack a p hp ha
  · exact ha

/-- What a DATA packet does to the gap bookkeeping of its stream, and the ranges to report. -/
def gapResult (stream : StreamRecvState) (localCi nowMs : ℕ) : StreamRecvState × List (ℕ × ℕ) :=
  if cfg.nackEnabled then detectGap { stream with sinceAck := stream.sinceAck + 1 } localCi nowMs
  else ({ stream with sinceAck := stream.sinceAck + 1 }, [])

def nacked (clock : Clock) (sid : ℕ) (ranges : List (ℕ × ℕ)) (r : Receiver) :
    Receiver × List Bytes :=
  if ranges.isEmpty then (r, []) else reply clock (nackDatagram P cfg sid ranges) (r, [])

lemma exists_gapResult (stream : StreamRecvState) (localCi nowMs : ℕ) :
    ∃ next ranges, gapResult cfg stream localCi nowMs = (next, ranges) ∧
      next.progress = stream.progress := by
  refine ⟨(gapResult cfg stream localCi nowMs).1, _, rfl, ?_⟩
  unfold gapResult
  split
  · exact progress_detectGap _ localCi nowMs
  · rfl

variable {stream next : StreamRecvState} {ke : KeyEpoch}

variable {cfg} in
lemma dataFeedback_of_gap {nowMs sid localCi : ℕ} {ranges : List (ℕ × ℕ)}
    (h : gapResult cfg stream localCi nowMs = (next, ranges)) :
    dataFeedback P cfg clock nowMs sid localCi stream r =
      let a := nacked P cfg clock sid ranges { r with streams := r.streams.set sid next }
      if cfg.ackEvery ≤ next.sinceAck then
        let a := reply clock (ackDatagram P cfg sid next) a
        (a.1.setSinceAck sid 0, a.2)
      else a := by
  unfold gapResult at h
  unfold dataFeedback
  simp only [h]
  rfl

lemma nacked_spec (clock : Clock) (sid : ℕ) (ranges : List (ℕ × ℕ)) (r : Receiver) :
    ∃ seq out, nacked P cfg clock sid ranges r = ({ r with seq }, out) ∧
      seq.toNat ≤ r.seq.toNat + 1 ∧ ∀ ps, ∀ d ∈ out, IsReply P cfg ps d := by
  unfold nacked
  split
  · exact ⟨r.seq, [], rfl, Nat.le_succ _, nofun⟩
  · exact ⟨_, _, rfl, toNat_seq_reply_le clock (nackDatagram P cfg sid ranges) (r, []),
      fun ps => forall_mem_singleton.mpr (isReply_nackDatagram ps sid ranges _ _)⟩

structure FeedbackTurn (sid : ℕ) (stream : StreamRecvState) (r : Receiver)
    (b : Receiver × List Bytes) : Prop where
  mmap : b.1.mmap = r.mmap
  keys : b.1.keyEpoch = r.keyEpoch
  progress : b.1.streams.map progress = (r.streams.map progress).set sid stream.progress
  seq_le : b.1.seq.toNat ≤ r.seq.toNat + 2
  replies : sid < r.streams.length → Replies P cfg b

lemma feedbackTurn (clock : Clock) (nowMs sid localCi : ℕ) (stream : StreamRecvState)
    (r : Receiver) : FeedbackTurn P cfg sid stream r
      (dataFeedback P cfg clock nowMs sid localCi stream r) := by
  obtain ⟨next, ranges, hnext, hprogress⟩ := exists_gapResult cfg stream localCi nowMs
  obtain ⟨seq, out, hn, hseq, hout⟩ :=
    nacked_spec P cfg clock sid ranges { r with streams := r.streams.set sid next }
  have hset : (r.streams.set sid next).map progress =
      (r.streams.map progress).set sid stream.progress := by rw [map_set, hprogress]
  rw [dataFeedback_of_gap P hnext, hn]
  dsimp only at hseq ⊢
  split
  · let a : Receiver × List Bytes := ({ r with seq, streams := r.streams.set sid next }, out)
    have hmap := (reply clock (ackDatagram P cfg sid next) a).1.map_setSinceAck progress
      (fun _ _ => rfl) sid 0
    have hack := toNat_seq_reply_le clock (ackDatagram P cfg sid next) a
    refine ⟨rfl, rfl, hmap.trans hset, hack.trans (Nat.succ_le_succ hseq), fun hsid => ?_⟩
    unfold Replies
    rw [show List.map progress _ = _ from hmap.trans hset]
    exact forall_mem_append.mpr ⟨hout _, forall_mem_singleton.mpr
      (.ack sid next _ _ (by simp [hsid, hprogress]))⟩
  · exact ⟨rfl, rfl, hset, hseq.trans (Nat.le_succ _), fun _ => hout _⟩

/-- A chunk is placed: the datagram names a chunk of a stream that is not in yet,
and what it carries opens and decompresses to `data`. -/
structure Placed (r : Receiver) (pkt : Bytes) (dp : DataPayloadRef) (stream : StreamRecvState)
    (localCi : ℕ) (data : Bytes) : Prop where
  conn : pkt.length < 14 ∨ (getU64 (pkt.drop 6)).1 = cfg.connId
  decoded : decodeDataInline pkt = some dp
  bounded : dp.data.length ≤ maxDataLen cfg r.keyEpoch
  stream_eq : r.streams[dp.streamId.toNat]? = some stream
  chunk_eq : stream.localChunkIndex dp.chunkIndex.toNat = some localCi
  fresh : stream.received.getD localCi false = false
  opened : (openChunk openFn r.keyEpoch pkt dp.data).bind (expandChunk P cfg pkt) = some data

variable {P openFn cfg} in
lemma placeChunk_cases {pkt mmap : Bytes} {dp : DataPayloadRef} {localCi : ℕ}
    (h : placeChunk P openFn cfg r pkt dp stream localCi = some (mmap, next)) :
    mmap = r.mmap ∧ next = stream ∨
      ∃ data, stream.received.getD localCi false = false ∧
        (openChunk openFn r.keyEpoch pkt dp.data).bind (expandChunk P cfg pkt) = some data ∧
        mmap = writeChunk r.mmap (dp.chunkIndex.toNat * cfg.payloadSize) data ∧
        next = stream.markReceived localCi := by
  unfold placeChunk at h
  split at h
  · cases h
    exact .inl ⟨rfl, rfl⟩
  rename_i hfresh
  split at h
  · cases h
  · rename_i data hdata
    cases h
    exact .inr ⟨data, by simpa using hfresh, hdata, rfl, rfl⟩

lemma recvData_cases (clock : Clock) (nowMs : ℕ) (pkt : Bytes) (r : Receiver) :
    recvData P openFn cfg clock nowMs pkt r = (r, []) ∨
      recvData P openFn cfg clock nowMs pkt r = completionCheck P cfg clock (r, []) ∨
      ∃ dp stream localCi mmap next,
        decodeDataInline (unmask P cfg r.keyEpoch pkt) = some dp ∧
        r.streams[dp.streamId.toNat]? = some stream ∧
        stream.localChunkIndex dp.chunkIndex.toNat = some localCi ∧
        placeChunk P openFn cfg r (unmask P cfg r.keyEpoch pkt) dp stream localCi =
          some (mmap, next) ∧
        recvData P openFn cfg clock nowMs pkt r = completionCheck P cfg clock
          (dataFeedback P cfg clock nowMs dp.streamId.toNat localCi next { r with mmap }) ∧
        ∀ data, stream.received.getD localCi false = false →
          (openChunk openFn r.keyEpoch (unmask P cfg r.keyEpoch pkt) dp.data).bind
            (expandChunk P cfg (unmask P cfg r.keyEpoch pkt)) = some data →
          Placed P openFn cfg r (unmask P cfg r.keyEpoch pkt) dp stream localCi data := by
  unfold recvData
  generalize unmask P cfg r.keyEpoch pkt = pkt
  dsimp only
  split_ifs with hconn
  · exact .inl rfl
  cases hdp : decodeDataInline pkt with
  | none => exact .inl rfl
  | some dp =>
    dsimp only
    split_ifs with hlen
    · exact .inl rfl
    cases hstream : r.streams[dp.streamId.toNat]? with
    | none => exact .inr (.inl rfl)
    | some stream =>
      dsimp only
      cases hlocal : stream.localChunkIndex dp.chunkIndex.toNat with
      | none => exact .inl rfl
      | some localCi =>
        dsimp only
        cases hplace : placeChunk P openFn cfg r pkt dp stream localCi with
        | none => exact .inl rfl
        | some placed =>
          refine .inr (.inr ⟨dp, stream, localCi, placed.1, placed.2, rfl, hstream, hlocal, hplace,
            rfl, fun data hfresh hdata => ⟨?_, hdp, by omega, hstream, hlocal, hfresh, hdata⟩⟩)
          by_contra hne
          exact hconn ⟨by omega, fun h => hne (.inr h)⟩

/-- A KEY_UPDATE that authenticates and names the next epoch. -/
structure Rotated (r : Receiver) (ke : KeyEpoch) (pkt : Bytes) (decoded : Packet)
    (payload : Bytes) : Prop where
  notData : ¬(1 < pkt.length ∧ pkt.getD 1 0 = 0x20)
  keys : r.keyEpoch = some ke
  decoded_eq : decodePacket P.crc32c pkt = .ok decoded
  conn : decoded.header.connectionId = cfg.connId
  type_eq : decoded.header.packetType = .keyUpdate
  authentic : unsealControl openFn ke.keys ke.previousKeys decoded.header.packetNumber
    (pkt.take headerSize) decoded.payload = some payload
  next : decodeKeyUpdate payload = some (UInt64.ofNat (ke.epoch + 1))

lemma applyKeyUpdate_none : applyKeyUpdate P payload none = none := by
  unfold applyKeyUpdate
  split
  · rename_i h
    cases h
  · rfl

lemma applyKeyUpdate_next {payload : Bytes}
    (h : decodeKeyUpdate payload = some (UInt64.ofNat (ke.epoch + 1))) :
    applyKeyUpdate P payload (some ke) =
      some ⟨ke.epoch + 1, 0, nextKeys P.hkdf ke.keys, some ke.keys⟩ := by
  simp only [applyKeyUpdate, h, shouldRotate, beq_self_eq_true, if_true, KeyEpoch.rotate,
    deriveNextKeys_eq]
  rfl

lemma applyKeyUpdate_some (ke : KeyEpoch) :
    applyKeyUpdate P payload (some ke) = some ke ∨
      decodeKeyUpdate payload = some (UInt64.ofNat (ke.epoch + 1)) := by
  unfold applyKeyUpdate
  cases decodeKeyUpdate payload with
  | none => exact .inl rfl
  | some newEpoch =>
    dsimp only
    split
    · rename_i hnext
      exact .inr (by rw [beq_iff_eq.mp hnext])
    · exact .inl rfl

lemma keyEpoch_recvControl {pkt payload : Bytes} {decoded : Packet} (hkeys : r.keyEpoch = some ke)
    (hdecoded : decodePacket P.crc32c pkt = .ok decoded)
    (hconn : decoded.header.connectionId = cfg.connId)
    (htype : decoded.header.packetType = .keyUpdate)
    (hauth : unsealControl openFn ke.keys ke.previousKeys decoded.header.packetNumber
      (pkt.take headerSize) decoded.payload = some payload) :
    (recvControl P openFn cfg clock pkt r).1.keyEpoch = applyKeyUpdate P payload (some ke) := by
  simp [recvControl, hdecoded, hconn, htype, authenticateCtrl, hkeys, hauth]

/-- A control packet leaves the file and the streams alone. -/
structure ControlTurn (pkt : Bytes) (r : Receiver) (b : Receiver × List Bytes) : Prop where
  mmap : b.1.mmap = r.mmap
  streams : b.1.streams = r.streams
  tailArmed : b.1.tailArmed = r.tailArmed
  seq_le : b.1.seq.toNat ≤ r.seq.toNat + r.streams.length
  replies : ∀ d ∈ b.2, IsReply P cfg (r.streams.map progress) d
  keys : b.1.keyEpoch = r.keyEpoch ∨
    ∃ ke decoded payload, (¬(1 < pkt.length ∧ pkt.getD 1 0 = 0x20) →
      Rotated P openFn cfg r ke pkt decoded payload) ∧
      b.1.keyEpoch = some ⟨ke.epoch + 1, 0, nextKeys P.hkdf ke.keys, some ke.keys⟩

lemma controlTurn (clock : Clock) (pkt : Bytes) (r : Receiver) :
    ControlTurn P openFn cfg pkt r (recvControl P openFn cfg clock pkt r) := by
  have hle : r.seq.toNat ≤ r.seq.toNat + r.streams.length := Nat.le_add_right _ _
  have hquiet : ControlTurn P openFn cfg pkt r (r, []) := ⟨rfl, rfl, rfl, hle, nofun, .inl rfl⟩
  unfold recvControl
  cases hdecoded : decodePacket P.crc32c pkt with
  | error e => exact hquiet
  | ok decoded =>
    dsimp only
    split
    · exact hquiet
    rename_i hconn
    split
    · split
      · exact hquiet
      obtain ⟨seq, out, h, hseq, hout⟩ := ackAll_spec P cfg clock (r, [])
      rw [h]
      exact ⟨rfl, rfl, rfl, hseq, forall_mem_append.mpr
        ⟨hout, forall_mem_singleton.mpr (isReply_ctrl _ (by simp) _ _ _)⟩, .inl rfl⟩
    · exact ⟨rfl, rfl, rfl, hle, forall_mem_singleton.mpr (isReply_ctrl _ (by simp) _ _ _),
        .inl rfl⟩
    · rename_i htype
      split
      · exact hquiet
      rename_i payload hauth
      refine ⟨rfl, rfl, rfl, hle, nofun, ?_⟩
      dsimp only
      cases hkeys : r.keyEpoch with
      | none => exact .inl (applyKeyUpdate_none P payload)
      | some ke =>
        refine (applyKeyUpdate_some P payload ke).imp id fun hnext =>
          ⟨ke, decoded, payload, fun hdata => ?_, applyKeyUpdate_next P hnext⟩
        have hconn' : decoded.header.connectionId = cfg.connId := by
          by_contra hne
          exact hconn ⟨hne, by simp [htype]⟩
        rw [hkeys] at hauth
        exact ⟨hdata, hkeys, hdecoded, hconn', htype, hauth, hnext⟩
    · exact ⟨rfl, rfl, rfl, hle, forall_mem_singleton.mpr (.other (ctrlHeader .helloAck
        decoded.header.connectionId 0 (clock 0) 1) _ (by simp [ctrlHeader])), .inl rfl⟩
    · exact hquiet

lemma progress_ackTimer (clock : Clock) (r : Receiver) :
    (ackTimer P cfg clock r).1.mmap = r.mmap ∧ (ackTimer P cfg clock r).1.keyEpoch = r.keyEpoch ∧
      (ackTimer P cfg clock r).1.streams.map progress = r.streams.map progress ∧
      Replies P cfg (ackTimer P cfg clock r) := by
  refine ackTimer_induction P cfg clock r (fun a => a.1.mmap = r.mmap ∧ a.1.keyEpoch = r.keyEpoch ∧
    a.1.streams.map progress = r.streams.map progress ∧ Replies P cfg a) ⟨rfl, rfl, rfl, nofun⟩ ?_
  rintro a p hp ⟨hmmap, hkeys, hprogress, hreplies⟩
  have hmap := ((reply clock (ackDatagram P cfg p.2 p.1) a).1.map_setSinceAck progress
    (fun _ _ => rfl) p.2 0).trans hprogress
  refine ⟨hmmap, hkeys, hmap, ?_⟩
  unfold Replies at hreplies ⊢
  rw [hmap]
  rw [hprogress] at hreplies
  exact forall_mem_append.mpr ⟨hreplies, forall_mem_singleton.mpr
    (.ack p.2 p.1 _ _ (getElem?_progress hp))⟩

/-- What a step does to the mapping, the progress of the streams and the keys. -/
inductive Receiver.Effect (r r' : Receiver) : RecvEvent → Prop where
  | kept (ev : RecvEvent) (hmmap : r'.mmap = r.mmap)
      (hprogress : r'.streams.map progress = r.streams.map progress)
      (hkeys : r'.keyEpoch = r.keyEpoch) : Effect r r' ev
  | placed (pkt : Bytes) (clock : Clock) (nowMs : ℕ) (dp : DataPayloadRef)
      (stream : StreamRecvState) (localCi : ℕ) (data : Bytes)
      (hdata : 1 < pkt.length ∧ pkt.getD 1 0 = 0x20)
      (hplaced : Placed P openFn cfg r (unmask P cfg r.keyEpoch pkt) dp stream localCi data)
      (hmmap : r'.mmap = writeChunk r.mmap (dp.chunkIndex.toNat * cfg.payloadSize) data)
      (hprogress : r'.streams.map progress =
        (r.streams.map progress).set dp.streamId.toNat (stream.markReceived localCi).progress)
      (hkeys : r'.keyEpoch = r.keyEpoch) : Effect r r' (.datagram pkt clock nowMs)
  | rotated (pkt : Bytes) (clock : Clock) (nowMs : ℕ) (ke : KeyEpoch) (decoded : Packet)
      (payload : Bytes) (hrotated : Rotated P openFn cfg r ke pkt decoded payload)
      (hmmap : r'.mmap = r.mmap) (hprogress : r'.streams.map progress = r.streams.map progress)
      (hkeys : r'.keyEpoch = some ⟨ke.epoch + 1, 0, nextKeys P.hkdf ke.keys, some ke.keys⟩) :
      Effect r r' (.datagram pkt clock nowMs)

variable {P openFn cfg}

lemma Receiver.step_effect (h : r.step P openFn cfg ev = some (r', out)) :
    r.Effect P openFn cfg r' ev ∧ Replies P cfg (r', out) := by
  cases Receiver.turn_of_step h with
  | data pkt clock nowMs hdata =>
    rcases recvData_cases P openFn cfg clock nowMs pkt r with hdrop | hnone |
      ⟨dp, stream, localCi, mmap, next, -, hget, hlocal, hplace, hfed, hplaced⟩
    · rw [hdrop]
      exact ⟨.kept _ rfl rfl rfl, nofun⟩
    · obtain ⟨seq, out, hc, -, hout⟩ := completionCheck_spec P cfg clock (r, [])
      rw [hnone, hc]
      exact ⟨.kept _ rfl rfl rfl, hout⟩
    obtain ⟨seq, out, hc, -, hout⟩ := completionCheck_spec P cfg clock
      (dataFeedback P cfg clock nowMs dp.streamId.toNat localCi next { r with mmap })
    have hturn := feedbackTurn P cfg clock nowMs dp.streamId.toNat localCi next { r with mmap }
    obtain ⟨hlt, hat⟩ := List.getElem?_eq_some_iff.mp hget
    rw [hfed, hc]
    refine ⟨?_, forall_mem_append.mpr ⟨hturn.replies hlt, hout⟩⟩
    rcases placeChunk_cases hplace with ⟨rfl, rfl⟩ | ⟨data, hfresh, hopened, rfl, rfl⟩
    · refine .kept _ hturn.mmap (hturn.progress.trans ?_) hturn.keys
      rw [← map_set, ← hat, set_getElem_self hlt]
    · exact .placed pkt clock nowMs dp stream localCi data hdata (hplaced data hfresh hopened)
        hturn.mmap hturn.progress hturn.keys
  | control pkt clock nowMs hdata =>
    have hturn := controlTurn P openFn cfg clock pkt r
    have hprogress := congrArg (List.map progress) hturn.streams
    constructor
    · rcases hturn.keys with hkeys | ⟨ke, decoded, payload, hrotated, hkeys⟩
      · exact .kept _ hturn.mmap hprogress hkeys
      · exact .rotated pkt clock nowMs ke decoded payload (hrotated hdata) hturn.mmap hprogress
          hkeys
    · unfold Replies
      rw [hprogress]
      exact hturn.replies
  | empty | tailGrace | peerInactive => exact ⟨.kept _ rfl rfl rfl, nofun⟩
  | ackTimer clock =>
    obtain ⟨hmmap, hkeys, hprogress, hreplies⟩ := progress_ackTimer P cfg clock r
    exact ⟨.kept _ hmmap hprogress hkeys, hreplies⟩

def Receiver.init (seq : UInt64) (mmap : Bytes) (streams : List StreamRecvState)
    (keys : Option SessionKeys) : Receiver where
  seq := seq
  mmap := mmap
  streams := streams
  keyEpoch := keys.map KeyEpoch.new
  tailArmed := false
  finishReplied := false
  pendingHello := none
  phase := .receiving

end Favonius.Daemon
