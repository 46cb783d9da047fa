import Favonius.Client.Sender
import Favonius.Daemon.Manifest

/-!
# Both ends of a transfer

The client's send loop and the daemon's receive loop run side by side and meet
only through the datagrams they sent and the log of sealed records.  A step is a
step of one end; which datagram a delivery hands over is part of the event, so
that loss, duplication, delay, reordering and forgery are all choices of events.
The daemon opens exactly what is in the log.
-/

namespace Favonius.Transfer

open ByteCodec IdealAead Proto Crypto Client Daemon List

/-- A transfer whose geometry the daemon accepted.  The checks on zero runs come on
top and bear on nothing below. -/
structure Session where
  prims : Primitives
  send : SendConfig
  nackEnabled : Bool
  ackEvery : ℕ
  maxFileSize : Option ℕ
  /-- The keys of epoch 0, equal on both ends; none in a plaintext transfer. -/
  keys : Option SessionKeys
  /-- Packet number of the MANIFEST; DATA starts after it. -/
  manifestSeq : UInt64
  receiverSeq : UInt64
  accepted : validateManifest ⟨send.fileData.length, send.payloadSize, send.totalChunks,
    send.numStreams, []⟩ maxFileSize = .ok ()

namespace Session

def recv (sess : Session) : RecvConfig where
  connId := sess.send.connId
  payloadSize := sess.send.payloadSize
  totalChunks := sess.send.totalChunks
  compressed := sess.send.compress
  nackEnabled := sess.nackEnabled
  headerProtected := sess.send.headerProtect
  ackEvery := sess.ackEvery

lemma payloadSize_pos (sess : Session) : 0 < sess.send.payloadSize :=
  (validateManifest_ok sess.accepted).1

lemma payloadSize_le (sess : Session) : sess.send.payloadSize ≤ maxPacket :=
  (validateManifest_ok sess.accepted).2.1

lemma totalChunks_le (sess : Session) : sess.send.totalChunks ≤ maxTotalChunks :=
  (validateManifest_ok sess.accepted).2.2.2.1

lemma numStreams_pos (sess : Session) : 0 < sess.send.numStreams := by
  have htotal := sess.totalChunks_le
  simp only [maxTotalChunks] at htotal
  simp only [SendConfig.numStreams]
  omega

def ranges (sess : Session) : List (ℕ × ℕ) :=
  streamRanges sess.send.totalChunks (max sess.send.numStreams 1) (max sess.send.numStreams 1) 0 0

lemma range_end_le (sess : Session) {r : ℕ × ℕ} (h : r ∈ sess.ranges) :
    r.1 + r.2 ≤ sess.send.totalChunks := by
  have hend := (mem_streamRanges_lt h).2
  rwa [rangesEnd_all (lt_max_of_lt_right Nat.one_pos)] at hend

lemma exists_range (sess : Session) {i : ℕ} (hi : i < sess.send.totalChunks) :
    ∃ r ∈ sess.ranges, r.1 ≤ i ∧ i < r.1 + r.2 := by
  refine exists_mem_streamRanges (Nat.zero_le i) ?_
  rwa [rangesEnd_all (lt_max_of_lt_right Nat.one_pos)]

lemma sum_ranges (sess : Session) :
    (sess.ranges.map Prod.snd).sum = sess.send.totalChunks := by
  have htotal := sum_counts_streamRanges sess.send.totalChunks (max sess.send.numStreams 1)
    (max sess.send.numStreams 1) 0 0
  rwa [rangesEnd_all (lt_max_of_lt_right Nat.one_pos), Nat.zero_add] at htotal

lemma lt_totalChunks_iff (sess : Session) {i : ℕ} :
    i < sess.send.totalChunks ↔ i * sess.send.payloadSize < sess.send.fileData.length :=
  Transfer.lt_totalChunks_iff sess.payloadSize_pos

end Session

structure Sys where
  sender : Sender
  receiver : Receiver
  log : List SealedRecord
  toDaemon : List Bytes
  toSender : List Bytes

inductive SysEvent where
  | send (ev : SendEvent)
  | recv (ev : RecvEvent)
  /-- The reply to a (retransmitted) MANIFEST: an ACK of stream 0 that names nothing. -/
  | manifestReply (seq timestamp : UInt64)

/-- The ACK that answers a MANIFEST: its range is empty and so is its bitmap. -/
def manifestAck (sess : Session) (seq timestamp : UInt64) : Bytes :=
  let payload := AckBitmap.encode ⟨0, sess.manifestSeq + 1, sess.manifestSeq + 1 - 1, 0, []⟩
  encodePacketAuto sess.prims.crc32c
    ⟨ctrlHeader .ackBitmap sess.send.connId seq timestamp payload.length, [], payload⟩

def step (sess : Session) (s : Sys) : SysEvent → Option Sys
  | .send ev =>
    match s.sender.step sess.prims sess.send ev with
    | none => none
    | some (sender, out) => some { s with
        sender
        log := s.log ++ out.records
        toDaemon := s.toDaemon ++ out.datagrams }
  | .recv ev =>
    match s.receiver.step sess.prims (openIn s.log) sess.recv ev with
    | none => none
    | some (receiver, out) => some { s with receiver, toSender := s.toSender ++ out }
  | .manifestReply seq timestamp =>
    some { s with toSender := s.toSender ++ [manifestAck sess seq timestamp] }

variable {sess : Session} {s s' : Sys}

lemma of_step_send {ev : SendEvent} (h : step sess s (.send ev) = some s') :
    ∃ sender out, s.sender.step sess.prims sess.send ev = some (sender, out) ∧
      s' = { s with
        sender
        log := s.log ++ out.records
        toDaemon := s.toDaemon ++ out.datagrams } := by
  simp only [step] at h
  split at h
  · cases h
  · rename_i sender out hsender
    cases h
    exact ⟨sender, out, hsender, rfl⟩

lemma of_step_recv {ev : RecvEvent} (h : step sess s (.recv ev) = some s') :
    ∃ receiver out, s.receiver.step sess.prims (openIn s.log) sess.recv ev =
      some (receiver, out) ∧ s' = { s with receiver, toSender := s.toSender ++ out } := by
  simp only [step] at h
  split at h
  · cases h
  · rename_i receiver out hreceiver
    cases h
    exact ⟨receiver, out, hreceiver, rfl⟩

/-- The fresh output file: truncated and extended, or a one-byte placeholder mapping
for an empty file. -/
def freshMapping (fileSize : ℕ) : Bytes := if 0 < fileSize then List.replicate fileSize 0 else [0]

lemma getElem?_buildStreams (sess : Session) (sid : ℕ) :
    (buildStreams sess.send.totalChunks sess.send.numStreams)[sid]? =
      sess.ranges[sid]?.map fun r => .new (UInt32.ofNat sid) r.1 r.2 := by
  have hn : max sess.send.numStreams 1 = sess.send.numStreams := max_eq_left sess.numStreams_pos
  rw [buildStreams, Session.ranges, hn, getElem?_map, getElem?_zipIdx]
  cases (streamRanges _ _ _ _ _)[sid]? with
  | none => rfl
  | some r => simp

lemma getElem?_buildRecvStreams (sess : Session) (sid : ℕ) :
    (buildRecvStreams sess.send.totalChunks (max sess.send.numStreams 1))[sid]? =
      sess.ranges[sid]?.map fun r => .new r.1 r.2 := by
  rw [buildRecvStreams, getElem?_map]
  rfl

/-- The data phase starts with streams and a mapping as resume and zero runs left them. -/
structure DataStart (sess : Session) where
  sendStreams : List StreamState
  recvStreams : List StreamRecvState
  mmap : Bytes
  seq : UInt64
  sendRanges : sendStreams.map StreamState.range = sess.ranges
  recvRanges : (recvStreams.map StreamRecvState.progress).map Progress.range = sess.ranges
  mapped : 0 < sess.send.fileData.length → mmap.length = sess.send.fileData.length

def DataStart.fresh (sess : Session) : DataStart sess where
  sendStreams := buildStreams sess.send.totalChunks sess.send.numStreams
  recvStreams := buildRecvStreams sess.send.totalChunks (max sess.send.numStreams 1)
  mmap := freshMapping sess.send.fileData.length
  seq := sess.manifestSeq + 1
  sendRanges := by
    apply ext_getElem?
    intro sid
    rw [getElem?_map, getElem?_buildStreams]
    cases sess.ranges[sid]? <;> rfl
  recvRanges := by
    apply ext_getElem?
    intro sid
    rw [map_map, getElem?_map, getElem?_buildRecvStreams]
    cases sess.ranges[sid]? <;> rfl
  mapped := by
    intro hsize
    simp [freshMapping, hsize]

def DataStart.sys {sess : Session} (st : DataStart sess) : Sys where
  sender := .init st.sendStreams st.seq sess.keys
  receiver := .init sess.receiverSeq st.mmap st.recvStreams sess.keys
  log := []
  toDaemon := []
  toSender := []

def start (sess : Session) : Sys := (DataStart.fresh sess).sys

/-- The output file: every consumer of the mapping slices it to the file's size. -/
def Sys.destFile (sess : Session) (s : Sys) : Bytes :=
  s.receiver.mmap.take sess.send.fileData.length

/-- A lossy network: deliveries may drop, repeat, delay and reorder, not forge. -/
def Lossy (s : Sys) : SysEvent → Prop
  | .send (.feedback data _) => data ∈ s.toSender
  | .recv (.datagram pkt _ _) => pkt ∈ s.toDaemon
  | _ => True

instance decidableLossy (s : Sys) : ∀ ev, Decidable (Lossy s ev)
  | .send ev => by cases ev <;> unfold Lossy <;> infer_instance
  | .recv ev => by cases ev <;> unfold Lossy <;> infer_instance
  | .manifestReply _ _ => .isTrue trivial

end Favonius.Transfer
