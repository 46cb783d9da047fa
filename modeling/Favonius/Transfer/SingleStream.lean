import Favonius.Client.SingleStream
import Favonius.Transfer.Delivery

/-!
# A transfer over one stream

The daemon's side of a transfer over one stream, and runs of both ends over a
network that loses every chunk a given number of times.  Such runs are what
reaches a key rotation: the largest file an accepted manifest describes has
fewer chunks than a key may seal packets.
-/

namespace Favonius.Transfer

open Execution ByteCodec FlagBits IdealAead Proto Crypto Client Daemon List Option DataStart
open Receiver

structure Holds (n c since : ℕ) (u : StreamRecvState) : Prop where
  base : u.chunkBase = 0
  count : u.chunkCount = n
  received : ∀ i, u.received.getD i false = decide (i < c)
  contig : u.contigPrefix = c
  nReceived : u.nReceived = c
  sinceAck : u.sinceAck = since

namespace Holds

variable {n c since : ℕ} {u : StreamRecvState}

lemma holds_new (n : ℕ) : Holds n 0 0 (.new 0 n) where
  base := rfl
  count := rfl
  received := by simp [StreamRecvState.new]
  contig := rfl
  nReceived := rfl
  sinceAck := rfl

lemma markReceived (h : Holds n c since u) (hc : c < n) :
    Holds n (c + 1) since (u.markReceived c) := by
  have hlt : c < u.received.length := by
    rw [u.received_length, h.count]
    exact hc
  have hreceived : ∀ i, (u.received.set c true).getD i false = decide (i < c + 1) := by
    intro i
    have hold := h.received i
    rw [getD_eq_getElem?_getD] at hold ⊢
    rw [getElem?_set]
    by_cases hi : c = i
    · subst hi
      simp [hlt]
    · rw [if_neg hi, hold, decide_eq_decide]
      omega
  refine ⟨h.base, h.count, hreceived, ?_, congrArg (· + 1) h.nReceived, h.sinceAck⟩
  -- the cursor stops at the first chunk that is not in
  have hstop := getD_advanceCursor (u.received.set c true) u.contigPrefix
  have hbelow := (u.markReceived c).contig_received (c + 1)
  have hcursor : (u.markReceived c).contigPrefix =
      advanceCursor (u.received.set c true) u.contigPrefix := rfl
  rw [hreceived, ← hcursor, decide_eq_false_iff_not] at hstop
  by_contra hne
  have hover := hbelow (by omega)
  rw [show (u.markReceived c).received = u.received.set c true from rfl, hreceived,
    decide_eq_true_eq] at hover
  omega

end Holds

/-! ## The ACK of a prefix -/

def prefixAck (u : StreamRecvState) : AckBitmap :=
  ⟨0, 0, (buildStreamAckBitmap u).1, 0, (buildStreamAckBitmap u).2⟩

section PrefixAck

variable {n c since : ℕ} {u : StreamRecvState}

lemma Holds.highestContiguous (h : Holds n (c + 1) since u) :
    (prefixAck u).highestContiguous = UInt64.ofNat c := by
  simp [prefixAck, buildStreamAckBitmap, h.contig, h.base]

lemma Holds.bitmapPns (h : Holds n c since u) : bitmapPns (prefixAck u) = [] := by
  rw [Client.bitmapPns, map_eq_nil_iff, filter_eq_nil_iff]
  intro j _ hbit
  have hreceived := (bitSet_buildStreamAckBitmap.mp hbit).2
  rw [h.received, h.contig, decide_eq_true_eq] at hreceived
  omega

lemma streamAck_zero (hbase : u.chunkBase = 0) : streamAck 0 u = prefixAck u := by
  rw [streamAck, hbase]
  rfl

end PrefixAck

/-! ## The receive loop -/

/-- Settings under which DATA is placed as it comes: plain headers, no compression, no NACKs,
room for the tag in a packet. -/
structure Plain (sess : Session) : Prop where
  numStreams : sess.send.numStreams = 1
  compress : sess.send.compress = false
  headerProtect : sess.send.headerProtect = false
  nack : sess.nackEnabled = false
  ackEvery : 1 < sess.ackEvery
  payload : sess.send.payloadSize + aeadTagLen ≤ maxPacket

structure HoldsFile (sess : Session) (keys : SessionKeys) (c since : ℕ) (r : Receiver) : Prop where
  receiving : r.phase = .receiving
  keys_eq : r.keyEpoch.map KeyEpoch.keys = some keys
  stream : ∃ u, r.streams = [u] ∧ Holds sess.send.totalChunks c since u

def chunkPacket (sess : Session) (keys : SessionKeys) (c : ℕ) (seq timestamp : UInt64) : Bytes :=
  sealedData sess.prims sess.send.headerProtect keys sess.send.connId seq timestamp 0 c
    (chunkAt sess.send.fileData sess.send.payloadSize c) false

def chunkRecord (sess : Session) (keys : SessionKeys) (c : ℕ) (seq timestamp : UInt64) :
    SealedRecord :=
  dataRecord sess.prims keys sess.send.connId seq timestamp 0
    (chunkAt sess.send.fileData sess.send.payloadSize c) false

section Packet

variable {sess : Session} (hplain : Plain sess) {keys : SessionKeys} {c : ℕ}
  (hc : c < sess.send.totalChunks) {seq timestamp : UInt64}
include hplain

lemma chunkPacket_eq : chunkPacket sess keys c seq timestamp =
    stagedPacket sess.prims sess.send.connId seq timestamp 0 c
      (chunkRecord sess keys c seq timestamp).ciphertext false := by
  rw [chunkPacket, sealedData_eq, if_neg (by simp [hplain.headerProtect])]
  rfl

include hc

lemma stagedFor_chunk :
    StagedFor sess c (chunkAt sess.send.fileData sess.send.payloadSize c) false :=
  ⟨hc, by simp [compressChunk, hplain.compress]⟩

lemma decodeDataInline_chunkPacket :
    decodeDataInline (chunkPacket sess keys c seq timestamp) =
      some ⟨0, UInt64.ofNat c, (chunkRecord sess keys c seq timestamp).ciphertext⟩ :=
  decodeDataInline_sealedData sess.prims sess.send.headerProtect keys sess.send.connId seq timestamp
    0 c false (stagedFor_chunk hplain hc).length_lt

omit hc

lemma openChunk_chunkPacket {log : List SealedRecord}
    (hgenuine : ∀ rec ∈ log, rec.Genuine sess.prims.aes256Gcm)
    (hlog : chunkRecord sess keys c seq timestamp ∈ log) {ke : KeyEpoch} (hke : ke.keys = keys) :
    openChunk (openIn log) (some ke) (chunkPacket sess keys c seq timestamp)
        (chunkRecord sess keys c seq timestamp).ciphertext =
      some (chunkAt sess.send.fileData sess.send.payloadSize c) := by
  have hct : (chunkRecord sess keys c seq timestamp).ciphertext.length = _ :=
    length_dataRecord_ciphertext ..
  have hopen := openIn_of_mem sess.prims.aes256Gcm_injective hgenuine hlog
  rw [openChunk, openPacket, if_neg (by omega), chunkPacket_eq hplain, stagedPacket,
    take_headerSize, getU64_packetNumber, hct, hke]
  exact hopen

end Packet

section Receive

variable (P : Primitives) (cfg : RecvConfig) (clock : Clock)

lemma dataFeedback_quiet {stream : StreamRecvState} (hnack : cfg.nackEnabled = false)
    (hcount : stream.sinceAck + 1 < cfg.ackEvery) (nowMs sid localCi : ℕ) (r : Receiver) :
    dataFeedback P cfg clock nowMs sid localCi stream r =
      ({ r with streams := r.streams.set sid { stream with sinceAck := stream.sinceAck + 1 } },
        []) := by
  simp [dataFeedback, hnack, hcount]

end Receive

namespace HoldsFile

variable {sess : Session} {keys : SessionKeys} {c : ℕ} {r : Receiver}

section Data

variable (hplain : Plain sess) (hc : c < sess.send.totalChunks) {log : List SealedRecord}
  (hgenuine : ∀ rec ∈ log, rec.Genuine sess.prims.aes256Gcm) {seq timestamp : UInt64}
  (hlog : chunkRecord sess keys c seq timestamp ∈ log)
include hplain hc hgenuine hlog

lemma placeChunk_eq (h : HoldsFile sess keys c 0 r) {u : StreamRecvState}
    (hu : Holds sess.send.totalChunks c 0 u) :
    placeChunk sess.prims (openIn log) sess.recv r (chunkPacket sess keys c seq timestamp)
        ⟨0, UInt64.ofNat c, (chunkRecord sess keys c seq timestamp).ciphertext⟩ u c =
      some (writeChunk r.mmap (c * sess.send.payloadSize)
        (chunkAt sess.send.fileData sess.send.payloadSize c), u.markReceived c) := by
  obtain ⟨ke, hke, hkeys⟩ := map_eq_some_iff.mp h.keys_eq
  have hfresh : u.received.getD c false = false := by
    rw [hu.received]
    simp
  rw [placeChunk, hfresh, if_neg Bool.false_ne_true, hke,
    openChunk_chunkPacket hplain hgenuine hlog hkeys]
  simp [expandChunk, Session.recv, hplain.compress, (stagedFor_chunk hplain hc).toNat_index]

lemma recvDatagram_eq (h : HoldsFile sess keys c 0 r) (clock : Clock) :
    ∃ u mmap, Holds sess.send.totalChunks (c + 1) 1 u ∧
      recvDatagram sess.prims (openIn log) sess.recv clock 0 (chunkPacket sess keys c seq timestamp)
          r =
        completionCheck sess.prims sess.recv clock ({ r with mmap, streams := [u] }, []) := by
  obtain ⟨u, hstreams, hu⟩ := h.stream
  obtain ⟨ke, hke, -⟩ := map_eq_some_iff.mp h.keys_eq
  have hmark := hu.markReceived hc
  have hindex := (stagedFor_chunk hplain hc).toNat_index
  have hct : (chunkRecord sess keys c seq timestamp).ciphertext.length = _ :=
    length_dataRecord_ciphertext ..
  have hdp : decodeDataInline (chunkPacket sess keys c seq timestamp) = _ :=
    decodeDataInline_chunkPacket hplain hc
  obtain ⟨hlen, htype⟩ := eq_of_decodeDataInline hdp
  refine ⟨{ u.markReceived c with sinceAck := (u.markReceived c).sinceAck + 1 },
    writeChunk r.mmap (c * sess.send.payloadSize)
      (chunkAt sess.send.fileData sess.send.payloadSize c),
    ⟨hmark.base, hmark.count, hmark.received, hmark.contig, hmark.nReceived,
      by rw [hmark.sinceAck]⟩, ?_⟩
  have hunmask : unmask sess.prims sess.recv r.keyEpoch (chunkPacket sess keys c seq timestamp) =
      chunkPacket sess keys c seq timestamp := by
    simp [unmask, hke, Session.recv, hplain.headerProtect]
  have hconn : (getU64 ((chunkPacket sess keys c seq timestamp).drop 6)).1 = sess.recv.connId := by
    rw [chunkPacket_eq hplain, stagedPacket, getU64_connectionId]
    rfl
  have hfits : (chunkRecord sess keys c seq timestamp).ciphertext.length ≤
      maxDataLen sess.recv r.keyEpoch := by
    have hchunk := length_chunkAt_le sess.send.fileData sess.send.payloadSize c
    have hroom := hplain.payload
    simp only [maxDataLen, hke, isSome_some, if_true, Session.recv, aeadTagLen] at hroom ⊢
    omega
  have hlocal : u.localChunkIndex c = some c := by
    rw [StreamRecvState.localChunkIndex_eq_some, hu.base, hu.count]
    omega
  have hplace := h.placeChunk_eq hplain hc hgenuine hlog hu
  have hquiet := dataFeedback_quiet sess.prims sess.recv clock hplain.nack
    (show (u.markReceived c).sinceAck + 1 < sess.ackEvery by
      rw [hmark.sinceAck]
      exact hplain.ackEvery)
  have hdata : 1 < (chunkPacket sess keys c seq timestamp).length := by
    simp only [headerSize] at hlen
    omega
  rw [recvDatagram, if_pos ⟨hdata, htype⟩, recvData, hunmask]
  simp only [hconn, ne_eq, not_true_eq_false, and_false, if_false, hdp, if_neg hfits.not_gt,
    hstreams, UInt32.toNat_zero, getElem?_cons_zero, hindex, hlocal, hplace, hquiet, set_cons_zero]

lemma recvChunk (h : HoldsFile sess keys c 0 r) (clock : Clock) :
    ∃ r' out, r.step sess.prims (openIn log) sess.recv
        (.datagram (chunkPacket sess keys c seq timestamp) clock 0) = some (r', out) ∧
      HoldsFile sess keys (c + 1) 1 r' ∧
      (sess.send.totalChunks ≤ c + 1 → r'.tailArmed = true) := by
  obtain ⟨u, mmap, hu, heq⟩ := h.recvDatagram_eq hplain hc hgenuine hlog clock
  obtain ⟨seq', out, hcheck, -⟩ := completionCheck_spec sess.prims sess.recv clock
    ({ r with mmap, streams := [u] }, [])
  refine ⟨_, _, step_datagram sess.prims _ _ h.receiving, ?_⟩
  rw [heq, hcheck]
  refine ⟨⟨h.receiving, h.keys_eq, u, rfl, hu⟩, fun hall => ?_⟩
  simp [totalReceived, hu.nReceived, Session.recv, hall]

end Data

lemma ackTimer (h : HoldsFile sess keys c 1 r) (openFn : OpenFn) (clock : Clock) :
    ∃ r' u seq timestamp, r.step sess.prims openFn sess.recv (.ackTimer clock) =
        some (r', [ackDatagram sess.prims sess.recv 0 u seq timestamp]) ∧
      Holds sess.send.totalChunks c 1 u ∧ HoldsFile sess keys c 0 r' ∧
      r'.tailArmed = r.tailArmed := by
  obtain ⟨u, hstreams, hu⟩ := h.stream
  have htimer : Daemon.ackTimer sess.prims sess.recv clock r =
      ({ r with seq := r.seq + 1, streams := [{ u with sinceAck := 0 }] },
        [ackDatagram sess.prims sess.recv 0 u r.seq (clock 0)]) := by
    simp [Daemon.ackTimer, hstreams, hu.sinceAck, reply, setSinceAck]
  refine ⟨{ r with seq := r.seq + 1, streams := [{ u with sinceAck := 0 }] }, u, r.seq, clock 0, ?_,
    hu, ⟨h.receiving, h.keys_eq, _, rfl,
      ⟨hu.base, hu.count, hu.received, hu.contig, hu.nReceived, rfl⟩⟩, rfl⟩
  rw [Receiver.step, if_neg (not_not.mpr h.receiving), htimer]

end HoldsFile

/-! ## Both ends -/

/-- The network may lose packets, and the sender is still in its first pass. -/
def OnePass (s : Sys) (ev : SysEvent) : Prop :=
  Lossy s ev ∧ ∀ timestamp, ev ≠ .send (.endPass timestamp)

/-- Over a lossy network: the sender has acks for the first chunks, the daemon has these
chunks or one more, whose ACK is to come. -/
structure Serves (sess : Session) (keys : SessionKeys) (acked received : ℕ) (s : Sys) : Prop where
  reached : Reaches (step sess) OnePass (start sess) s
  sender : SendsFile sess.send acked received [] s.sender
  receiver : HoldsFile sess keys received (received - acked) s.receiver
  armed : sess.send.totalChunks ≤ received → s.receiver.tailArmed = true

section Both

variable {sess : Session} {keys : SessionKeys}

lemma LoggedRecord.genuine {sent : List Bytes} {r : SealedRecord} (h : LoggedRecord sess sent r) :
    r.Genuine sess.prims.aes256Gcm := by
  cases h with
  | data => rfl
  | control => rfl

variable {s : Sys}

lemma genuine_of_reaches (h : Reaches (step sess) OnePass (start sess) s) :
    ∀ r ∈ s.log, r.Genuine sess.prims.aes256Gcm := by
  obtain ⟨es, hes, -⟩ := h
  have hwire := exec_invariant (P := WireInv sess) (fun _ _ _ hs hstep => hs.step hstep)
    (wireInv_start (fresh sess)) hes
  exact fun r hr => (hwire.logged r hr).genuine

lemma step_send {ev : SendEvent} {sender : Sender} {out : Output}
    (h : s.sender.step sess.prims sess.send ev = some (sender, out)) :
    step sess s (.send ev) = some { s with
      sender
      log := s.log ++ out.records
      toDaemon := s.toDaemon ++ out.datagrams } := by
  simp only [step, h]

lemma step_recv {ev : RecvEvent} {receiver : Receiver} {out : List Bytes}
    (h : s.receiver.step sess.prims (openIn s.log) sess.recv ev = some (receiver, out)) :
    step sess s (.recv ev) = some { s with receiver, toSender := s.toSender ++ out } := by
  simp only [step, h]

lemma serves_start (hplain : Plain sess) (hkeys : sess.keys = some keys)
    (hpos : 0 < sess.send.totalChunks) : Serves sess keys 0 0 (start sess) := by
  refine ⟨.refl _, ⟨rfl, rfl, _, ?_, Sends.sends_new _⟩, ⟨rfl, ?_, _, ?_, Holds.holds_new _⟩, ?_⟩
  · simp [start, sys, fresh, Sender.init, hplain.numStreams, buildStreams,
      streamRanges, Nat.mod_one]
  · simp [start, sys, init, hkeys, KeyEpoch.new]
  · simp [start, sys, fresh, init, hplain.numStreams, buildRecvStreams, streamRanges, Nat.mod_one]
  · omega

namespace Serves

lemma lossy {acked received : ℕ} (h : Serves sess keys acked received s) :
    Reaches (step sess) Lossy (start sess) s :=
  h.reached.lift id id (fun _ _ _ hstep => hstep) fun _ _ hok => hok.1

variable {c : ℕ} {s : Sys} {ke : KeyEpoch} (hplain : Plain sess) (hc : c < sess.send.totalChunks)

include hplain hc

lemma send (h : Serves sess keys c c s) (hkeys : s.sender.keyEpoch = some ke) (hke : ke.keys = keys)
    (hroom : ke.packetCount + 1 < maxPacketsPerKey) :
    ∃ s', Serves sess keys c (c + 1) s' ∧
      s'.sender.keyEpoch = some { ke with packetCount := ke.packetCount + 1 } ∧
      s'.sender.pendingKeyUpdate = s.sender.pendingKeyUpdate := by
  obtain ⟨sender, staged, hstage, htransmit, hsends, hepoch, hpending⟩ :=
    h.sender.stage hc hplain.compress hkeys (.inl ⟨rfl, rfl⟩) 0 0 0
  rw [transmit_sealed sess.prims sess.send hkeys, if_neg (by omega)] at htransmit
  obtain rfl := Except.ok.inj htransmit
  rw [hke] at hstage
  have hreached := h.reached.concat (.send (.stage 0 0 0)) ⟨trivial, nofun⟩ (step_send hstage)
  have hholds := h.receiver
  rw [Nat.sub_self] at hholds
  have hlog : chunkRecord sess keys c s.sender.seq 0 ∈ s.log ++ [chunkRecord sess keys c
      s.sender.seq 0] := by simp
  obtain ⟨receiver, out, hrecv, hholds', harmed⟩ := hholds.recvChunk hplain hc
    (genuine_of_reaches hreached) hlog fun _ => 0
  have hsent := hreached.concat (.recv (.datagram _ (fun _ => 0) 0))
    ⟨by simp [Lossy, chunkPacket], nofun⟩ (step_recv hrecv)
  refine ⟨_, ⟨hsent, hsends, ?_, harmed⟩, hepoch, hpending⟩
  rw [Nat.add_sub_cancel_left]
  exact hholds'

lemma resend (h : Serves sess keys c (c + 1) s) (hkeys : s.sender.keyEpoch = some ke) :
    ∃ s', Serves sess keys c (c + 1) s' ∧
      s'.sender.keyEpoch = some (if maxPacketsPerKey ≤ ke.packetCount + 1 then
        ⟨ke.epoch + 1, 0, nextKeys sess.prims.hkdf ke.keys, some ke.keys⟩
        else { ke with packetCount := ke.packetCount + 1 }) ∧
      s'.sender.pendingKeyUpdate = if maxPacketsPerKey ≤ ke.packetCount + 1 then
        some ⟨ke.epoch + 1, keyUpdateResends, some ke.keys⟩ else s.sender.pendingKeyUpdate := by
  obtain ⟨queued, nowUs, retxTimeoutUs, hscan, hqueued, hsame, hsamePending⟩ :=
    h.sender.scan (P := sess.prims) hc
  have hreached := h.reached.concat (.send (.scan nowUs retxTimeoutUs)) ⟨trivial, nofun⟩
    (step_send hscan)
  obtain ⟨sender, staged, hstage, htransmit, hsends, hepoch, hpending⟩ :=
    hqueued.stage hc hplain.compress (hsame.trans hkeys) (.inr ⟨rfl, rfl⟩) 0 0 nowUs
  rw [transmit_sealed sess.prims sess.send (hsame.trans hkeys)] at htransmit
  obtain rfl := Except.ok.inj htransmit
  refine ⟨_, ⟨hreached.concat (.send (.stage 0 0 nowUs)) ⟨trivial, nofun⟩ (step_send hstage),
    hsends, h.receiver, h.armed⟩, ?_, ?_⟩
  · rw [hepoch]
    split <;> rfl
  · rw [hpending, hsamePending]
    split <;> rfl

omit hplain in
lemma ack (h : Serves sess keys c (c + 1) s) :
    ∃ s', Serves sess keys (c + 1) (c + 1) s' ∧ s'.sender.keyEpoch = s.sender.keyEpoch ∧
      s'.sender.pendingKeyUpdate = s.sender.pendingKeyUpdate := by
  have htotal := sess.totalChunks_le
  simp only [maxTotalChunks] at htotal
  have hholds := h.receiver
  rw [Nat.add_sub_cancel_left] at hholds
  obtain ⟨receiver, u, seq, timestamp, htimer, hu, hholds', harmed⟩ :=
    hholds.ackTimer (openIn s.log) fun _ => 0
  have hreached := h.reached.concat (.recv (.ackTimer fun _ => 0)) ⟨trivial, by simp⟩
    (step_recv htimer)
  obtain ⟨pkt, hpkt, htype, hdecode⟩ :=
    decodePacket_ackDatagram sess.prims sess.recv 0 u seq timestamp
  rw [streamAck_zero hu.base] at hdecode
  obtain ⟨sender, hfeedback, hsends, hepoch, hpending⟩ := h.sender.feedback hc (by omega) hpkt htype
    hdecode rfl rfl hu.highestContiguous hu.bitmapPns 0
  refine ⟨_, ⟨hreached.concat (.send (.feedback _ 0)) ?_ (step_send hfeedback), hsends, ?_, ?_⟩,
    hepoch, hpending⟩
  · simp [OnePass, Lossy]
  · rw [Nat.sub_self]
    exact hholds'
  · intro hall
    exact harmed.trans (h.armed hall)

/-- A chunk arrives and is sent `k` more times before its ACK comes in. -/
theorem copies (h : Serves sess keys c c s) {e m : ℕ} {previous : Option SessionKeys}
    (hkeys : s.sender.keyEpoch = some ⟨e, m, keys, previous⟩) (k : ℕ)
    (hroom : m + (k + 1) < maxPacketsPerKey) :
    ∃ s', Serves sess keys c (c + 1) s' ∧
      s'.sender.keyEpoch = some ⟨e, m + (k + 1), keys, previous⟩ ∧
      s'.sender.pendingKeyUpdate = s.sender.pendingKeyUpdate := by
  induction k with
  | zero => exact h.send hplain hc hkeys rfl hroom
  | succ k ih =>
    obtain ⟨t, ht, hepoch, hpending⟩ := ih (by omega)
    obtain ⟨s', hs', hepoch', hpending'⟩ := ht.resend hplain hc hepoch
    rw [if_neg (by dsimp only; omega)] at hepoch' hpending'
    exact ⟨s', hs', hepoch', hpending'.trans hpending⟩

end Serves

section Runs

variable (hplain : Plain sess) (hkeys : sess.keys = some keys) (hpos : 0 < sess.send.totalChunks)
  (k : ℕ)
include hplain hkeys hpos

/-- Every chunk so far was sent `k + 1` times, under the first keys. -/
theorem exists_serves {c : ℕ} (hc : c ≤ sess.send.totalChunks)
    (hroom : c * (k + 1) < maxPacketsPerKey) :
    ∃ s, Serves sess keys c c s ∧ s.sender.keyEpoch = some ⟨0, c * (k + 1), keys, none⟩ ∧
      s.sender.pendingKeyUpdate = none := by
  induction c with
  | zero =>
    refine ⟨start sess, serves_start hplain hkeys hpos, ?_, rfl⟩
    simp [start, sys, Sender.init, hkeys, KeyEpoch.new]
  | succ c ih =>
    rw [Nat.succ_mul] at hroom ⊢
    obtain ⟨s, hs, hepoch, hpending⟩ := ih (by omega) (by omega)
    obtain ⟨t, ht, htEpoch, htPending⟩ := hs.copies hplain hc hepoch k hroom
    obtain ⟨u, hu, huEpoch, huPending⟩ := ht.ack hc
    exact ⟨u, hu, huEpoch.trans htEpoch, huPending.trans (htPending.trans hpending)⟩

/-- A file whose chunks are sent `k + 2` times each, as many packets as a key may seal: the last
copy of the last chunk rotates the keys. -/
theorem exists_rotation (hlimit : sess.send.totalChunks * (k + 2) = maxPacketsPerKey) :
    ∃ c s, sess.send.totalChunks = c + 1 ∧ Serves sess keys c (c + 1) s ∧
      s.sender.keyEpoch = some ⟨1, 0, nextKeys sess.prims.hkdf keys, some keys⟩ ∧
      s.sender.pendingKeyUpdate = some ⟨1, keyUpdateResends, some keys⟩ := by
  obtain ⟨c, hc⟩ := Nat.exists_eq_succ_of_ne_zero hpos.ne'
  change sess.send.totalChunks * (k + 1 + 1) = maxPacketsPerKey at hlimit
  rw [hc, Nat.succ_mul] at hlimit
  obtain ⟨s, hs, hepoch, -⟩ :=
    exists_serves hplain hkeys hpos (k + 1) (c := c) (by omega) (by omega)
  obtain ⟨t, ht, htEpoch, -⟩ := hs.copies hplain (by omega) hepoch k (by omega)
  obtain ⟨u, hu, huEpoch, huPending⟩ := ht.resend hplain (by omega) htEpoch
  rw [if_pos (by dsimp only; omega)] at huEpoch huPending
  exact ⟨c, u, hc, hu, huEpoch, huPending⟩

end Runs

end Both

/-! ## The largest file -/

def byteSession (n : ℕ) (hn : n ≤ maxTotalChunks) : Session where
  prims := nullPrimitives
  send := ⟨7, List.replicate n 0, 1, 1, false, false, 65, 1⟩
  nackEnabled := false
  ackEvery := 128
  maxFileSize := none
  keys := some sampleKeys
  manifestSeq := 1
  receiverSeq := 1
  accepted := by
    simp only [maxTotalChunks] at hn
    simp only [validateManifest, SendConfig.totalChunks, SendConfig.numStreams, validateZeroRuns,
      length_replicate, maxPacket, maxNumStreams, maxTotalChunks, maxZeroRuns]
    simp
    omega

lemma totalChunks_byteSession (n : ℕ) (hn : n ≤ maxTotalChunks) :
    (byteSession n hn).send.totalChunks = n := by
  simp [byteSession, SendConfig.totalChunks]

lemma plain_byteSession (n : ℕ) (hn : n ≤ maxTotalChunks) : Plain (byteSession n hn) where
  numStreams := by
    have htotal := totalChunks_byteSession n hn
    have hrequested : (byteSession n hn).send.requestedStreams = 1 := rfl
    simp only [maxTotalChunks] at hn
    rw [SendConfig.numStreams, htotal, hrequested]
    omega
  compress := rfl
  headerProtect := rfl
  nack := rfl
  ackEvery := by simp [byteSession]
  payload := by simp [byteSession, aeadTagLen, maxPacket]

def longSession : Session := byteSession maxTotalChunks le_rfl

lemma exists_longSession_rotation :
    ∃ c s, longSession.send.totalChunks = c + 1 ∧ Serves longSession sampleKeys c (c + 1) s ∧
      s.sender.keyEpoch = some ⟨1, 0, nextKeys nullPrimitives.hkdf sampleKeys, some sampleKeys⟩ ∧
      s.sender.pendingKeyUpdate = some ⟨1, keyUpdateResends, some sampleKeys⟩ := by
  have htotal : longSession.send.totalChunks = maxTotalChunks := totalChunks_byteSession _ _
  have hlimit : maxTotalChunks * (14 + 2) = maxPacketsPerKey := by decide
  exact exists_rotation (plain_byteSession maxTotalChunks le_rfl) rfl (by rw [htotal]; decide) 14
    (by rw [htotal, hlimit])

end Favonius.Transfer
