import Favonius.Client.Sender

/-!
# Sending over one stream

How the send loop goes through a file chunk by chunk when there is one stream:
a chunk is staged, queued again by the timeout scan as often as the network
loses it, and the next one follows once it is acked.
-/

namespace Favonius.Client

open ByteCodec Proto Crypto Transfer List StreamState

structure Sends (n c next : ℕ) (queue : List ℕ) (t : StreamState) : Prop where
  id : t.id = 0
  base : t.chunkBase = 0
  count : t.chunkCount = n
  acked : ∀ i, t.acked.getD i false = decide (i < c)
  next_eq : t.nextLocal = next
  queue_eq : t.retxQueue = queue
  flags : ∀ i, i ∉ queue → t.flags.getD i 0 &&& chunkInRetx = 0
  applied : t.hcApplied ≤ c

namespace Sends

variable {n c next : ℕ} {queue : List ℕ} {t : StreamState}

lemma sends_new (n : ℕ) : Sends n 0 0 [] (.new 0 0 n) where
  id := rfl
  base := rfl
  count := rfl
  acked := by simp [new]
  next_eq := rfl
  queue_eq := rfl
  flags := by
    intro i _
    rw [new, getD_eq_getElem?_getD, getElem?_replicate]
    split <;> rfl
  applied := Nat.zero_le _

lemma stamp (h : Sends n c next queue t) (i : ℕ) (nowUs : UInt32) :
    Sends n c next queue { t with sentUs := t.sentUs.set i nowUs } :=
  ⟨h.id, h.base, h.count, h.acked, h.next_eq, h.queue_eq, h.flags, h.applied⟩

variable {i : ℕ} {nowUs retxTimeoutUs : UInt32}

lemma unacked_iff (h : Sends n c next queue t) : t.unacked i = true ↔ c ≤ i ∧ i < n := by
  rw [StreamState.unacked_iff, h.count, h.acked]
  simp only [decide_eq_false_iff_not]
  omega

lemma nAcked_lt (h : Sends n c next queue t) (hc : c < n) : t.nAcked < n := by
  by_contra hge
  have hacked := acked_of_nAcked (by rw [h.count]; omega) (h.count ▸ hc)
  rw [h.acked, decide_eq_true_eq] at hacked
  omega

lemma nAcked_eq (h : Sends n n next queue t) : t.nAcked = n := by
  rw [t.nAcked_eq, ← h.count, ← t.acked_length, count_eq_length]
  intro b hb
  obtain ⟨i, hi, rfl⟩ := mem_iff_getElem.mp hb
  have hget := h.acked i
  rw [getD_eq_getElem?_getD, getElem?_eq_getElem hi, Option.getD_some] at hget
  rw [hget, eq_comm, decide_eq_true_eq, ← h.count, ← t.acked_length]
  exact hi

lemma nextChunk_unsent (h : Sends n c c [] t) (hc : c < n) :
    ∃ t', t.nextChunk = (some c, t') ∧ Sends n c (c + 1) [] t' := by
  obtain ⟨id, chunkBase, chunkCount, nextLocal, acked, nAcked, sentUs, flags, scanCursor, hcApplied,
    retxQueue, hlength, hnAcked, hcursor, hbelow, hretx⟩ := t
  obtain rfl : nextLocal = c := h.next_eq
  obtain rfl : chunkCount = n := h.count
  obtain rfl : retxQueue = [] := h.queue_eq
  obtain ⟨fuel, hfuel⟩ : ∃ fuel, chunkCount - nextLocal = fuel + 1 :=
    Nat.exists_eq_succ_of_ne_zero (by omega)
  have hnew : acked.getD nextLocal false = false := by
    rw [h.acked nextLocal]
    simp
  refine ⟨⟨id, chunkBase, chunkCount, nextLocal + 1, acked, nAcked, sentUs, flags, scanCursor,
    hcApplied, [], hlength, hnAcked, hcursor, hbelow, by simp⟩, ?_, ?_⟩
  · simp only [nextChunk, popRetx, hfuel, nextUnsent, hc,
      if_true, hnew, Bool.false_eq_true, if_false]
  · exact ⟨h.id, h.base, rfl, h.acked, rfl, rfl, h.flags, h.applied⟩

lemma nextChunk_queued (h : Sends n c next [c] t) :
    ∃ t', t.nextChunk = (some c, t') ∧ Sends n c next [] t' := by
  obtain ⟨id, chunkBase, chunkCount, nextLocal, acked, nAcked, sentUs, flags, scanCursor, hcApplied,
    retxQueue, hlength, hnAcked, hcursor, hbelow, hretx⟩ := t
  obtain rfl : retxQueue = [c] := h.queue_eq
  have hnew : acked.getD c false = false := by
    rw [h.acked c]
    simp
  refine ⟨⟨id, chunkBase, chunkCount, nextLocal, acked, nAcked, sentUs,
    flags.modify c (· &&& ~~~chunkInRetx), scanCursor, hcApplied, [], hlength, hnAcked, hcursor,
    hbelow, by simp⟩, ?_, ?_⟩
  · simp only [nextChunk, popRetx, clearInRetx, hnew, if_true]
  refine ⟨h.id, h.base, h.count, h.acked, h.next_eq, rfl, ?_, h.applied⟩
  intro i _
  have hclear : ∀ b : UInt8, b &&& ~~~chunkInRetx &&& chunkInRetx = 0 := by
    intro b
    rw [UInt8.and_assoc]
    exact UInt8.and_zero
  have hother := h.flags i
  rw [getD_eq_getElem?_getD] at hother ⊢
  rw [getElem?_modify]
  by_cases hi : c = i
  · cases flags[i]? with
    | none => simp
    | some b => simp [hi, hclear]
  · simpa [hi, eq_comm] using hother

lemma not_timedOut (h : Sends n c next queue t) (hi : i < c) (nowUs retxTimeoutUs : UInt32) :
    t.timedOut nowUs retxTimeoutUs i = false := by
  have hacked : t.unacked i = false := by
    rw [Bool.eq_false_iff, ne_eq, h.unacked_iff]
    omega
  rw [StreamState.timedOut, hacked, Bool.false_and]

lemma timedOut (h : Sends n c next [] t) (hc : c < n)
    (hlate : retxTimeoutUs < nowUs - t.sentUs.getD c 0) :
    t.timedOut nowUs retxTimeoutUs c = true := by
  rw [StreamState.timedOut, Bool.and_eq_true, Bool.and_eq_true, h.unacked_iff]
  exact ⟨⟨le_rfl, hc⟩, beq_iff_eq.mpr (h.flags c (by simp)), decide_eq_true hlate⟩

lemma pushBack (h : Sends n c next [] t) (hc : c < t.chunkCount) :
    Sends n c next [c] (t.pushBack c hc) := by
  refine ⟨h.id, h.base, h.count, h.acked, h.next_eq, ?_, ?_, h.applied⟩
  · have hqueue : (t.pushBack c hc).retxQueue = t.retxQueue ++ [c] := rfl
    rw [hqueue, h.queue_eq, nil_append]
  intro i hi
  have hne : c ≠ i := fun heq => hi (by simp [heq])
  have hsame : (t.pushBack c hc).flags.getD i 0 = t.flags.getD i 0 := by
    simp [StreamState.pushBack, StreamState.flagRetx, getD_eq_getElem?_getD, hne]
  rw [hsame]
  exact h.flags i (by simp)

lemma queueTimedOut (h : Sends n c (c + 1) [] t) (hc : c < n)
    (hlate : retxTimeoutUs < nowUs - t.sentUs.getD c 0) :
    Sends n c (c + 1) [c] (t.queueTimedOut nowUs retxTimeoutUs).1 := by
  have hcursor : t.scanCursor ≤ c := by
    by_contra hlt
    have hacked := t.cursor_acked c (by omega)
    rw [h.acked, decide_eq_true_eq] at hacked
    omega
  have hskip : ∀ is : List ℕ, (∀ i ∈ is, i < c) →
      is.foldl (StreamState.timeoutStep nowUs retxTimeoutUs) (t, []) = (t, []) := by
    intro is his
    induction is with
    | nil => rfl
    | cons i is ih =>
      have hi := h.not_timedOut (his i mem_cons_self) nowUs retxTimeoutUs
      rw [foldl_cons, StreamState.timeoutStep, dif_neg (by simp [hi])]
      exact ih fun j hj => his j (mem_cons_of_mem i hj)
  have hsplit : c + 1 - t.scanCursor = c - t.scanCursor + 1 := by omega
  rw [StreamState.queueTimedOut, h.next_eq, h.count, min_eq_left (by omega), min_eq_left (by omega),
    hsplit, range'_1_concat, foldl_concat, hskip _ (by simp; omega),
    Nat.add_sub_cancel' hcursor, StreamState.timeoutStep, dif_pos (h.timedOut hc hlate)]
  exact h.pushBack (h.count ▸ hc)

lemma applyAck (h : Sends n c (c + 1) [] t) (hc : c < n) (hn : n < 2 ^ 64) {ack : AckBitmap}
    (hbase : ack.basePacketNumber = 0) (hhigh : ack.highestContiguous = UInt64.ofNat c)
    (hbits : bitmapPns ack = []) (wireSize : ℕ) (nowUs : UInt32) (inFlight : ℕ) :
    Sends n (c + 1) (c + 1) [] (applyAck ack wireSize nowUs t inFlight).stream := by
  have hframe := sendState_applyAck ack wireSize nowUs t inFlight
  have hcount := congrArg StreamState.SendState.chunkCount hframe
  have hhc : ack.highestContiguous.toNat = c := by
    rw [hhigh, UInt64.toNat_ofNat']
    omega
  have hstart : prefixStart ack t = some t.hcApplied := by
    have happlied := h.applied
    have hclamp : ack.basePacketNumber ≤ ack.highestContiguous ∧
        ack.highestContiguous.toNat < t.chunkBase + t.chunkCount := by
      rw [hhc, h.base, h.count, hbase]
      exact ⟨UInt64.zero_le, by omega⟩
    rw [prefixStart, if_pos hclamp]
    simp [hhc, h.base, hbase, happlied]
  refine ⟨(congrArg StreamState.SendState.id hframe).trans h.id,
    (congrArg StreamState.SendState.chunkBase hframe).trans h.base, hcount.trans h.count, ?_,
    (congrArg StreamState.SendState.nextLocal hframe).trans h.next_eq,
    (congrArg StreamState.SendState.retxQueue hframe).trans h.queue_eq, ?_, ?_⟩
  · intro i
    rw [Bool.eq_iff_iff, getD_acked_applyAck ack wireSize nowUs t inFlight
      (by rw [h.base, h.count]; omega), hstart, hbits, h.acked, h.base, hhc]
    have happlied := h.applied
    simp
    omega
  · intro i hi
    rw [show (Client.applyAck ack wireSize nowUs t inFlight).stream.flags = t.flags from
      congrArg StreamState.SendState.flags hframe]
    exact h.flags i hi
  · rw [Client.applyAck, hbits, foldl_nil, applyPrefix, hstart]
    dsimp only
    omega

end Sends

variable (P : Primitives) (cfg : SendConfig)

structure SendsFile (c next : ℕ) (queue : List ℕ) (s : Sender) : Prop where
  sending : s.phase = .sending
  current : s.currentStream = 0
  stream : ∃ t, s.streams = [t] ∧ Sends cfg.totalChunks c next queue t

namespace SendsFile

variable {P cfg} {c next : ℕ} {queue : List ℕ} {s : Sender} {ke : KeyEpoch}

lemma stage (h : SendsFile cfg c next queue s) (hc : c < cfg.totalChunks)
    (hcompress : cfg.compress = false) (hkeys : s.keyEpoch = some ke)
    (hnext : (next = c ∧ queue = []) ∨ (next = c + 1 ∧ queue = [c]))
    (batchTs keyUpdateTs : UInt64) (nowUs : UInt32) :
    ∃ s' staged, s.step P cfg (.stage batchTs keyUpdateTs nowUs) = some (s', staged.out) ∧
      transmit P cfg s 0 c (chunkAt cfg.fileData cfg.payloadSize c) false batchTs keyUpdateTs =
        .ok staged ∧
      SendsFile cfg c (c + 1) [] s' ∧ s'.keyEpoch = staged.keyEpoch ∧
      s'.pendingKeyUpdate = staged.pendingKeyUpdate := by
  obtain ⟨t, hstreams, ht⟩ := h.stream
  obtain ⟨t', hchunk, ht'⟩ : ∃ t', t.nextChunk = (some c, t') ∧
      Sends cfg.totalChunks c (c + 1) [] t' := by
    rcases hnext with ⟨rfl, rfl⟩ | ⟨rfl, rfl⟩
    · exact ht.nextChunk_unsent hc
    · exact ht.nextChunk_queued
  have hwork : t.hasWork = true := by
    rcases hnext with ⟨rfl, rfl⟩ | ⟨rfl, rfl⟩
    · simp [hasWork, ht.next_eq, ht.count, hc]
    · simp [hasWork, ht.queue_eq]
  have hguard : ¬(s.phase ≠ .sending ∨ cfg.totalChunks ≤ s.totalAcked) := by
    have hlt := ht.nAcked_lt hc
    simp only [Sender.totalAcked, hstreams, map_cons, map_nil, sum_cons,
      sum_nil, h.sending, ne_eq, not_true_eq_false, false_or]
    omega
  have hglobal : t'.toGlobal c = c := by simp [toGlobal, ht'.base]
  obtain ⟨staged, hstaged⟩ : ∃ staged, transmit P cfg s 0 c
      (chunkAt cfg.fileData cfg.payloadSize c) false batchTs keyUpdateTs = .ok staged :=
    ⟨_, transmit_sealed P cfg hkeys⟩
  refine ⟨s.afterStaged cfg 0 t' c nowUs staged, staged, ?_, hstaged, ?_, rfl, rfl⟩
  · simp only [Sender.step, Sender.stage, if_neg hguard, h.current, hstreams, length_singleton,
      findWork, getElem?_cons_zero, hwork, if_true, hchunk, hglobal, compressChunk, hcompress,
      Bool.false_eq_true, if_false, ht'.id, hstaged]
  · refine ⟨h.sending, ?_, _, ?_, ht'.stamp c nowUs⟩
    · simp [Sender.afterStaged, hstreams]
    · simp [Sender.afterStaged, hstreams]

lemma scan (h : SendsFile cfg c (c + 1) [] s) (hc : c < cfg.totalChunks) :
    ∃ s' nowUs retxTimeoutUs, s.step P cfg (.scan nowUs retxTimeoutUs) = some (s', ⟨[], []⟩) ∧
      SendsFile cfg c (c + 1) [c] s' ∧ s'.keyEpoch = s.keyEpoch ∧
      s'.pendingKeyUpdate = s.pendingKeyUpdate := by
  obtain ⟨t, hstreams, ht⟩ := h.stream
  -- 200 ms after the last send, with a timeout of 100 ms
  let nowUs := t.sentUs.getD c 0 + 200000
  have hlate : (100000 : UInt32) < nowUs - t.sentUs.getD c 0 := by
    dsimp only [nowUs]
    rw [UInt32.add_comm, UInt32.add_sub_cancel]
    decide
  refine ⟨(s.scan cfg nowUs 100000).1, nowUs, 100000, ?_, ⟨h.sending, h.current, _, ?_,
    ht.queueTimedOut hc hlate⟩, rfl, rfl⟩
  · simp only [Sender.step, h.sending, if_true]
  · simp only [Sender.scan, hstreams, map_cons, map_nil]

lemma feedback (h : SendsFile cfg c (c + 1) [] s) (hc : c < cfg.totalChunks)
    (hn : cfg.totalChunks < 2 ^ 64) {data : Bytes} {pkt : Packet} {ack : AckBitmap}
    (hpkt : decodePacket P.crc32c data = .ok pkt) (htype : pkt.header.packetType = .ackBitmap)
    (hdecode : AckBitmap.decode pkt.payload = .ok ack) (hstream : ack.streamId = 0)
    (hbase : ack.basePacketNumber = 0) (hhigh : ack.highestContiguous = UInt64.ofNat c)
    (hbits : bitmapPns ack = []) (nowUs : UInt32) :
    ∃ s', s.step P cfg (.feedback data nowUs) = some (s', ⟨[], []⟩) ∧
      SendsFile cfg (c + 1) (c + 1) [] s' ∧ s'.keyEpoch = s.keyEpoch ∧
      s'.pendingKeyUpdate = s.pendingKeyUpdate := by
  obtain ⟨t, hstreams, ht⟩ := h.stream
  refine ⟨(s.processFeedback P cfg nowUs data).1, ?_, ?_⟩
  · simp only [Sender.step, h.sending]
  · simp only [Sender.processFeedback, hpkt, htype, processAckBitmap, hdecode, hstream, hstreams,
      UInt32.toNat_zero, getElem?_cons_zero, set_cons_zero, and_true]
    exact ⟨h.sending, h.current, _, rfl, ht.applyAck hc hn hbase hhigh hbits _ _ _⟩

lemma finish (h : SendsFile cfg cfg.totalChunks next queue s) (timestamp : UInt64) :
    s.step P cfg (.finish timestamp) = some ({ s with phase := .finishing },
      sendCtrlSealed P .finish cfg.connId s.seq timestamp [] (s.keyEpoch.map KeyEpoch.keys)) := by
  obtain ⟨t, hstreams, ht⟩ := h.stream
  have hall : s.totalAcked = cfg.totalChunks := by
    simp [Sender.totalAcked, hstreams, ht.nAcked_eq]
  simp only [Sender.step, Sender.finish, h.sending, hall, le_refl, and_self, if_true]

end SendsFile

end Favonius.Client
