import Favonius.Transfer.FileContent

/-!
# End-to-end delivery over a lossy network

Whatever the network drops, repeats, delays and reorders, what the sender counts
as acked has been received, and what has been received is the source.  So when
the send loop ends because every chunk is acked, the output file is the source.
-/

namespace Favonius.Transfer

open Execution ByteCodec IdealAead Proto Crypto Client Daemon List Option StreamRecvState DataStart

def Sys.Acked (s : Sys) (c : ℕ) : Prop :=
  ∃ t ∈ s.sender.streams, t.chunkBase ≤ c ∧ t.acked.getD (c - t.chunkBase) false = true

def Sys.Received (s : Sys) (c : ℕ) : Prop :=
  ∃ t ∈ s.receiver.streams, t.chunkBase ≤ c ∧ t.received.getD (c - t.chunkBase) false = true

structure DeliveryInv (sess : Session) (init : List Progress) (s : Sys) : Prop where
  wire : WireInv sess s
  file : FileInv sess init s.receiver
  covered : Covered (s.sender.streams.map StreamState.ackState)
    (s.receiver.streams.map progress)
  honest : ∀ d ∈ s.toSender,
    Honest sess.prims.crc32c (s.receiver.streams.map progress) d

variable {sess : Session} {init : List Progress} {s s' : Sys}

/-- A datagram that the sender put on the wire places the source's chunk. -/
theorem WireInv.chunk_of_sent (h : WireInv sess s) (hlog : CollisionFree s.log) {pkt : Bytes}
    (hpkt : pkt ∈ s.toDaemon) {dp : DataPayloadRef} {t : StreamRecvState} {l : ℕ} {data : Bytes}
    (hplaced : Placed sess.prims (openIn s.log) sess.recv s.receiver
      (unmask sess.prims sess.recv s.receiver.keyEpoch pkt) dp t l data) :
    data = chunkAt sess.send.fileData sess.send.payloadSize dp.chunkIndex.toNat := by
  have hdecoded := hplaced.decoded
  rw [decodeDataInline_unmask] at hdecoded
  have hopened := hplaced.opened
  cases h.sent pkt hpkt with
  | control d htype => exact (htype (eq_of_decodeDataInline hdecoded).2).elim
  | plain pn ts sid index data' compressed hkeys hstaged =>
    have hke := h.receiverKeys.mpr hkeys
    rw [plainData_eq, decodeDataInline_stagedPacket _ _ _ _ _ _ _
      (Nat.lt_of_add_right_lt hstaged.length_lt)] at hdecoded
    cases hdecoded
    rw [hke, unmask, openChunk, bind_some, plainData_eq, hstaged.expandChunk_eq] at hopened
    · rw [hstaged.toNat_index]
      exact (some.inj hopened).symm
    · rw [stagedPacket, getU16_flags]
      exact flags_stagedHeader _ _ _ _ _ _
  | sealed keys pn ts sid index data' compressed hkeys hstaged hmem =>
    rw [decodeDataInline_sealedData _ _ _ _ _ _ _ _ _ hstaged.length_lt] at hdecoded
    cases hdecoded
    obtain ⟨ke, hke⟩ := ne_none_iff_exists'.mp (fun hnone => hkeys (h.receiverKeys.mp hnone))
    obtain ⟨pt, hopen, hexpand⟩ := bind_eq_some_iff.mp hopened
    rw [hke] at hopen hexpand
    obtain ⟨r, hr, -, haad, hpt, hct⟩ := exists_record_of_openChunk hopen
    -- equal ciphertexts come from one seal, so the record is the datagram's own
    have hrecord := hlog r hr _ hmem hct
    subst hrecord
    subst hpt
    have hchunk := hstaged.expandChunk_of_aad haad
    rw [hstaged.toNat_index]
    exact some.inj (hexpand.symm.trans hchunk)

section

variable (h : DeliveryInv sess init s)
include h

lemma DeliveryInv.end_lt :
    ∀ p ∈ s.receiver.streams.map progress, p.chunkBase + p.chunkCount < 2 ^ 64 := by
  intro p hp
  have hend := h.file.end_le hp
  have htotal := sess.totalChunks_le
  simp only [maxTotalChunks] at htotal
  omega

lemma DeliveryInv.length_lt :
    (s.receiver.streams.map progress).length < 2 ^ 32 := by
  have hranges := congrArg List.length h.file.ranges
  have hstreams := (validateManifest_ok sess.accepted).2.2.1
  rw [length_map, Session.ranges, length_streamRanges] at hranges
  simp only [maxNumStreams] at hstreams
  omega

lemma DeliveryInv.send {ev : SendEvent} {sender : Sender}
    {out : Output} (hstep : s.sender.step sess.prims sess.send ev = some (sender, out))
    (hlossy : Lossy s (.send ev)) :
    DeliveryInv sess init { s with
      sender
      log := s.log ++ out.records
      toDaemon := s.toDaemon ++ out.datagrams } := by
  refine ⟨h.wire.send hstep, h.file, ?_, h.honest⟩
  rcases Sender.step_streams _ _ hstep with hsame | ⟨data, nowUs, pkt, rfl, hpkt, htype, hack⟩
  · rw [hsame]
    exact h.covered
  · rw [hack]
    refine h.covered.processAckBitmap h.end_lt ?_ _ _ _
    intro ack p hdecode hp
    exact h.honest data hlossy pkt ack p hpkt htype hdecode hp

lemma DeliveryInv.recv (hlog : CollisionFree s.log)
    {ev : RecvEvent} {receiver : Receiver} {out : List Bytes}
    (hstep : s.receiver.step sess.prims (openIn s.log) sess.recv ev = some (receiver, out))
    (hlossy : Lossy s (.recv ev)) :
    DeliveryInv sess init { s with receiver, toSender := s.toSender ++ out } := by
  have hsys : Transfer.step sess s (.recv ev) =
      some { s with receiver, toSender := s.toSender ++ out } := by
    simp only [Transfer.step, hstep]
  have hwire := h.wire.step hsys
  obtain ⟨hfile, hgrows⟩ := h.file.step hstep (by
    rintro pkt clock nowMs dp t l data rfl hplaced
    exact h.wire.chunk_of_sent hlog hlossy hplaced)
  have hreplies := (Receiver.step_effect hstep).2
  have hnew : DeliveryInv sess init { s with receiver } :=
    ⟨⟨h.wire.sent, h.wire.logged, h.wire.senderKeys, hwire.receiverKeys, h.wire.ranges⟩, hfile,
      h.covered.mono hgrows, fun d hd => (h.honest d hd).mono hgrows⟩
  refine ⟨hwire, hfile, hnew.covered, ?_⟩
  refine forall_mem_append.mpr ⟨hnew.honest, ?_⟩
  intro d hd
  exact honest_of_isReply hnew.length_lt hnew.end_lt (hreplies d hd)

lemma DeliveryInv.step {ev : SysEvent}
    (hlog : CollisionFree s.log) (hlossy : Lossy s ev) (hstep : step sess s ev = some s') :
    DeliveryInv sess init s' := by
  cases ev with
  | send ev =>
    obtain ⟨sender, out, hsender, rfl⟩ := of_step_send hstep
    exact h.send hsender hlossy
  | recv ev =>
    obtain ⟨receiver, out, hreceiver, rfl⟩ := of_step_recv hstep
    exact h.recv hlog hreceiver hlossy
  | manifestReply seq timestamp =>
    have hwire := h.wire.step hstep
    cases hstep
    refine ⟨hwire, h.file, h.covered, ?_⟩
    refine forall_mem_append.mpr ⟨h.honest, forall_mem_singleton.mpr ?_⟩
    exact honest_manifestAck sess seq timestamp h.end_lt

end

lemma covered_start (sess : Session) :
    Covered ((fresh sess).sendStreams.map StreamState.ackState)
      ((fresh sess).recvStreams.map progress) := by
  have hlen := congrArg List.length ((fresh sess).sendRanges.trans
    (fresh sess).recvRanges.symm)
  simp only [length_map] at hlen
  refine ⟨by rw [length_map, length_map, hlen], ?_⟩
  intro sid a p ha hp
  rw [getElem?_map, fresh, getElem?_buildStreams] at ha
  rw [getElem?_map, fresh, getElem?_buildRecvStreams] at hp
  rcases hr : sess.ranges[sid]? with _ | r
  · rw [hr] at hp
    cases hp
  rw [hr] at ha hp
  cases ha
  cases hp
  refine ⟨rfl, rfl, ?_⟩
  intro i hi
  simp [StreamState.ackState, StreamState.new] at hi

lemma deliveryInv_start (sess : Session) :
    DeliveryInv sess ((fresh sess).recvStreams.map progress)
      (start sess) where
  wire := wireInv_start (fresh sess)
  file := fileInv_start (fresh sess)
  covered := covered_start sess
  honest := by simp [start, sys]

lemma DeliveryInv.senderRanges (h : DeliveryInv sess init s) :
    s.sender.streams.map StreamState.range = sess.ranges := by
  rw [← h.file.ranges]
  apply ext_getElem (by simpa using h.covered.1)
  intro sid hs hp
  rw [length_map] at hs hp
  obtain ⟨hbase, hcount, -⟩ := h.covered.2 sid _ _
    (getElem?_eq_getElem (show sid < (s.sender.streams.map StreamState.ackState).length by
      simpa using hs)) (getElem?_eq_getElem hp)
  rw [getElem_map] at hbase hcount
  rw [getElem_map, getElem_map]
  exact Prod.ext hbase hcount

lemma DeliveryInv.received_of_acked (h : DeliveryInv sess init s) {c : ℕ} (hc : s.Acked c) :
    s.Received c := by
  obtain ⟨t, ht, hle, hacked⟩ := hc
  obtain ⟨sid, hsid, rfl⟩ := mem_iff_getElem.mp ht
  have hlen := h.covered.1
  rw [length_map, length_map] at hlen
  have hsid' : sid < s.receiver.streams.length := hlen ▸ hsid
  obtain ⟨hbase, -, hreceived⟩ := h.covered.2 sid s.sender.streams[sid].ackState
    s.receiver.streams[sid].progress (by simp [hsid]) (by simp [hsid'])
  have hbase' : s.sender.streams[sid].chunkBase = s.receiver.streams[sid].chunkBase := hbase
  refine ⟨_, getElem_mem hsid', hbase' ▸ hle, ?_⟩
  rw [← hbase']
  exact hreceived _ hacked

lemma DeliveryInv.chunk_of_received (h : DeliveryInv sess
    ((fresh sess).recvStreams.map progress) s) {c : ℕ}
    (hc : s.Received c) :
    chunkAt (s.destFile sess) sess.send.payloadSize c =
      chunkAt sess.send.fileData sess.send.payloadSize c := by
  obtain ⟨t, ht, hle, hreceived⟩ := hc
  obtain ⟨sid, hsid, rfl⟩ := mem_iff_getElem.mp ht
  have hget : (s.receiver.streams.map progress)[sid]? =
      some s.receiver.streams[sid].progress := by simp [hsid]
  have hinit : sid < (fresh sess).recvStreams.length := by
    have hlen := h.file.grows.1
    rw [length_map, length_map] at hlen
    rwa [hlen]
  have hfresh : ((fresh sess).recvStreams[sid]).received.getD
      (c - s.receiver.streams[sid].chunkBase) false = false := by
    have hinit' := getElem?_buildRecvStreams sess sid
    rw [show (buildRecvStreams _ _)[sid]? = _ from getElem?_eq_getElem hinit] at hinit'
    obtain ⟨r, -, hr⟩ := map_eq_some_iff.mp hinit'.symm
    rw [show (fresh sess).recvStreams[sid] = _ from hr.symm]
    simp [new]
  have hchunk := h.file.content sid _ ((fresh sess).recvStreams[sid]).progress _ hget
    (by simp [hinit]) hreceived hfresh
  rw [show s.receiver.streams[sid].progress.chunkBase = s.receiver.streams[sid].chunkBase from rfl,
    Nat.add_sub_cancel' hle] at hchunk
  -- a received chunk lies in its stream, so the file is not empty
  have hlt : c < sess.send.totalChunks := by
    have hend := h.file.end_le (mem_of_getElem? hget)
    have hcount : c - s.receiver.streams[sid].chunkBase < s.receiver.streams[sid].chunkCount := by
      by_contra hge
      rw [getD_eq_default _ _ (by rw [received_length]; omega)] at hreceived
      cases hreceived
    change s.receiver.streams[sid].chunkBase + s.receiver.streams[sid].chunkCount ≤ _ at hend
    omega
  have hsize := sess.lt_totalChunks_iff.mp hlt
  rw [Sys.destFile, ← h.file.mapped (by omega), take_length]
  exact hchunk

lemma DeliveryInv.destFile_eq (h : DeliveryInv sess
    ((fresh sess).recvStreams.map progress) s)
    (hall : sess.send.totalChunks ≤ s.sender.totalAcked) :
    s.destFile sess = sess.send.fileData := by
  by_cases hsize : sess.send.fileData.length = 0
  · rw [Sys.destFile, hsize, take_zero, length_eq_zero_iff.mp hsize]
  have hlen : (s.destFile sess).length = sess.send.fileData.length := by
    rw [Sys.destFile, length_take, h.file.mapped (by omega), min_self]
  have hsum : (s.sender.streams.map StreamState.chunkCount).sum = sess.send.totalChunks := by
    rw [← sess.sum_ranges, ← h.senderRanges, List.map_map]
    rfl
  have hacked := StreamState.acked_of_sum_le (hsum.trans_le hall)
  refine eq_of_chunks sess.payloadSize_pos hlen ?_
  intro i hi
  -- the chunk belongs to some stream, whose chunks are all acked
  obtain ⟨r, hr, hge, hlt⟩ := sess.exists_range (sess.lt_totalChunks_iff.mpr hi)
  rw [← h.senderRanges] at hr
  obtain ⟨t, ht, rfl⟩ := List.mem_map.mp hr
  change t.chunkBase ≤ i at hge
  change i < t.chunkBase + t.chunkCount at hlt
  exact h.chunk_of_received (h.received_of_acked ⟨t, ht, hge, hacked t ht _ (by omega)⟩)

lemma step_log {ev : SysEvent} (hstep : step sess s ev = some s') :
    ∃ new, s'.log = s.log ++ new := by
  cases ev with
  | send ev =>
    simp only [step] at hstep
    split at hstep
    · cases hstep
    · cases hstep
      exact ⟨_, rfl⟩
  | recv ev =>
    simp only [step] at hstep
    split at hstep
    · cases hstep
    · cases hstep
      exact ⟨[], (append_nil _).symm⟩
  | manifestReply seq timestamp =>
    cases hstep
    exact ⟨[], (append_nil _).symm⟩

/-- In every state that a transfer without resume and without holes reaches over a lossy
network, every acked chunk is received and every received chunk holds the source's
bytes; with all chunks acked, the output file is the source. -/
theorem delivery_over_lossy_network (sess : Session) (es : List SysEvent) (s : Sys)
    (hrun : exec (step sess) (start sess) es = some s)
    (hlossy : Along (step sess) Lossy (start sess) es)
    (hideal : CollisionFree s.log) :
    (∀ c, s.Acked c → s.Received c) ∧
      (∀ c, s.Received c → chunkAt (s.destFile sess) sess.send.payloadSize c =
        chunkAt sess.send.fileData sess.send.payloadSize c) ∧
      (sess.send.totalChunks ≤ s.sender.totalAcked → s.destFile sess = sess.send.fileData) := by
  have hinv : CollisionFree s.log → DeliveryInv sess
      ((fresh sess).recvStreams.map progress) s := by
    refine hlossy.invariant (P := fun t => CollisionFree t.log →
      DeliveryInv sess
      ((fresh sess).recvStreams.map progress) t) ?_ (fun _ => deliveryInv_start sess) hrun
    intro t ev u ht hok hstep hu
    obtain ⟨new, hnew⟩ := step_log hstep
    rw [hnew] at hu
    exact (ht hu.of_append).step hu.of_append hok hstep
  have h := hinv hideal
  exact ⟨fun c hc => h.received_of_acked hc, fun c hc => h.chunk_of_received hc,
    fun hall => h.destFile_eq hall⟩

def sampleOrigin : KeyOrigin := .handshake (.fill 32 0) [1] [2]

def sampleKeys : SessionKeys := sampleOrigin.keys nullPrimitives.hkdf

def sampleSession : Session where
  prims := nullPrimitives
  send := ⟨7, [1, 2, 3], 2, 1, false, true, 66, 1⟩
  nackEnabled := false
  ackEvery := 16
  maxFileSize := none
  keys := some sampleKeys
  manifestSeq := 1
  receiverSeq := 1
  accepted := by decide +kernel

def sampleRun : List SysEvent :=
  let chunk (seq : UInt64) (index : ℕ) (data : Bytes) :=
    sealedData nullPrimitives true sampleKeys 7 seq 5 0 index data false
  [.send (.stage 5 5 0), .send (.stage 5 5 0), .recv (.datagram (chunk 3 1 [3]) (fun _ => 9) 0),
    .recv (.datagram (chunk 2 0 [1, 2]) (fun _ => 9) 0),
    .recv (.datagram (chunk 3 1 [3]) (fun _ => 9) 0),
    .send (.feedback (encodeAckBitmapInto nullPrimitives.crc32c 7 1 9 0 0 1 []) 0)]

theorem delivery_over_lossy_network_sampleRun :
    ∃ s, exec (step sampleSession) (start sampleSession) sampleRun = some s ∧
      s.destFile sampleSession = [1, 2, 3] := by
  obtain ⟨s, hs, hideal, hacked⟩ :
      ∃ s, exec (step sampleSession) (start sampleSession) sampleRun = some s ∧
        CollisionFree s.log ∧ 2 ≤ s.sender.totalAcked := by
    decide +kernel
  have hlossy : Along (step sampleSession) Lossy (start sampleSession) sampleRun := by
    decide +kernel
  exact ⟨s, hs, (delivery_over_lossy_network sampleSession sampleRun s hs hlossy hideal).2.2 hacked⟩

end Favonius.Transfer
