import Favonius.Client.Bookkeeping
import Favonius.Sync.SkipSets

/-!
# Runs of the send loop, stream by stream

A run of the send loop is kept together with the log of its transmissions.  Each of its steps moves
every stream by the moves of the retransmit bookkeeping, so that what the moves keep holds in every
run, from any resume bitmap and any zero runs.
-/

namespace Favonius.Client

open Execution ByteCodec Partition Proto Crypto Sync List Option Sender StreamState

abbrev WireLog := List (ℕ × ℕ × UInt32)

def streamLog (i : ℕ) (log : WireLog) : SendLog :=
  log.filterMap fun e => if e.1 = i then some e.2 else none

lemma streamLog_append (i : ℕ) (log later : WireLog) :
    streamLog i (log ++ later) = streamLog i log ++ streamLog i later :=
  filterMap_append

variable (P : Primitives) (cfg : SendConfig)

def Sender.chosen (s : Sender) : Option (ℕ × ℕ) :=
  (findWork s.streams s.streams.length s.currentStream).bind fun cur =>
    s.streams[cur]?.bind fun stream => stream.nextChunk.1.map fun c => (cur, c)

/-- What a step from `s` to `s'` sends.  Staging that fails sends nothing. -/
def Sender.sentBy (s s' : Sender) : SendEvent → WireLog
  | .stage _ _ nowUs =>
    if s'.phase = .sending then s.chosen.toList.map fun p => (p.1, p.2, nowUs) else []
  | _ => []

def Sender.logStep (a : Sender × WireLog) (ev : SendEvent) : Option (Sender × WireLog) :=
  (a.1.step P cfg ev).map fun p => (p.1, a.2 ++ a.1.sentBy p.1 ev)

/-- The sender at the start of its loop, with the chunks of a resume bitmap and of zero runs
marked. -/
def Sender.Starts (s : Sender) : Prop :=
  ∃ bitmap runs skips seq keys,
    senderSkips cfg.totalChunks cfg.numStreams bitmap runs = some skips ∧
      s = .init skips.1 seq keys

variable {P cfg}

/-! ## One step -/

def Advances (a b : List StreamState × WireLog) : Prop :=
  ∀ (i : ℕ) (t' : StreamState), b.1[i]? = some t' → ∃ t, a.1[i]? = some t ∧
    Moves True (t, streamLog i a.2) (t', streamLog i b.2)

lemma Advances.refl (a : List StreamState × WireLog) : Advances a a :=
  fun _ t' ht' => ⟨t', ht', .refl⟩

lemma Advances.trans {a b c : List StreamState × WireLog} (hab : Advances a b)
    (hbc : Advances b c) : Advances a c := by
  intro i t'' ht''
  obtain ⟨t', ht', hlater⟩ := hbc i t'' ht''
  obtain ⟨t, ht, hearlier⟩ := hab i t' ht'
  exact ⟨t, ht, hearlier.trans hlater⟩

variable {t : StreamState} {streams : List StreamState} {cur : ℕ} {t' : StreamState}
  {batchTs keyUpdateTs : UInt64} {out : Output} {i : ℕ} {events : List SendEvent} {d : ℕ}
  {nacks : Prop} {a b : StreamState × SendLog} {p : AckProgress}

lemma advances_set {log sent : WireLog} (hcur : streams[cur]? = some t)
    (hsent : ∀ e ∈ sent, e.1 = cur)
    (hmoves : Moves True (t, streamLog cur log) (t', streamLog cur (log ++ sent))) :
    Advances (streams, log) (streams.set cur t', log ++ sent) := by
  intro i u hu
  rw [getElem?_set] at hu
  split_ifs at hu with heq hlt
  · obtain rfl := some.inj hu
    subst heq
    exact ⟨t, hcur, hmoves⟩
  · have hnone : streamLog i sent = [] := by
      refine filterMap_eq_nil_iff.mpr fun e he => if_neg ?_
      rw [hsent e he]
      exact heq
    refine ⟨u, hu, ?_⟩
    rw [streamLog_append, hnone, append_nil]

lemma advances_set_quiet {log : WireLog} (hcur : streams[cur]? = some t)
    (hmoves : Moves True (t, streamLog cur log) (t', streamLog cur log)) :
    Advances (streams, log) (streams.set cur t', log) := by
  have hset : Moves True (t, streamLog cur log) (t', streamLog cur (log ++ [])) →
      Advances (streams, log) (streams.set cur t', log ++ []) :=
    advances_set hcur (forall_mem_nil _)
  rw [append_nil] at hset
  exact hset hmoves

variable {nowUs : UInt32}

lemma Sender.stage_streams {s s' : Sender}
    (h : s.stage P cfg batchTs keyUpdateTs nowUs = some (s', out)) :
    (s'.phase = .failed ∧ s'.streams = s.streams) ∨
      ∃ cur stream, findWork s.streams s.streams.length s.currentStream = some cur ∧
        s.streams[cur]? = some stream ∧ s'.phase = .sending ∧
        s'.streams = s.streams.set cur (staged stream.nextChunk nowUs []).1 := by
  obtain ⟨hphase, hfailed | ⟨cur, stream, hwork, hcur, hturn⟩⟩ := stage_cases P cfg h
  · cases hfailed
    exact .inl ⟨rfl, rfl⟩
  rcases hturn with ⟨next, hnext, ⟨⟩⟩ | ⟨localCi, next, data, compressed, staged, hnext, -, -, ⟨⟩⟩
  all_goals exact .inr ⟨cur, stream, hwork, hcur, hphase, by rw [hnext]; rfl⟩

lemma advances_stage {s s' : Sender}
    (h : s.stage P cfg batchTs keyUpdateTs nowUs = some (s', out)) (log : WireLog) :
    Advances (s.streams, log)
      (s'.streams, log ++ s.sentBy s' (.stage batchTs keyUpdateTs nowUs)) := by
  rcases stage_streams h with
    ⟨hfailed, hsame⟩ | ⟨cur, stream, hwork, hcur, hphase, hstreams⟩
  · rw [sentBy, hfailed, if_neg Phase.noConfusion, append_nil, hsame]
    exact .refl _
  have hchosen : s.chosen = stream.nextChunk.1.map fun c => (cur, c) := by
    simp only [chosen, hwork, bind_some, hcur]
  have hmoves : Moves True (stream, streamLog cur log)
      (staged stream.nextChunk nowUs (streamLog cur log)) := moves_nextChunk stream nowUs
  rw [sentBy, if_pos hphase, hchosen, hstreams]
  generalize stream.nextChunk = r at hmoves
  obtain ⟨_ | c, next⟩ := r
  · apply advances_set hcur (forall_mem_nil _)
    rwa [append_nil]
  apply advances_set hcur
  · exact forall_mem_singleton.mpr rfl
  · have hsent : streamLog cur [(cur, c, nowUs)] = [(c, nowUs)] := by simp [streamLog]
    rw [streamLog_append]
    exact hsent ▸ hmoves

lemma advances_ack (payload : Bytes) (streams : List StreamState) (inFlight wireSize : ℕ)
    (nowUs : UInt32) (log : WireLog) :
    Advances (streams, log)
      ((processAckBitmap payload streams inFlight wireSize nowUs).1, log) := by
  unfold processAckBitmap
  split
  · exact .refl _
  rename_i ack _
  split
  · exact .refl _
  · rename_i s hs
    exact advances_set_quiet hs (moves_applyAck ack wireSize nowUs s inFlight)

lemma advances_nack (payload : Bytes) (streams : List StreamState) (nowUs : UInt32)
    (log : WireLog) : Advances (streams, log) ((processNack payload streams nowUs).1, log) := by
  unfold processNack
  split
  · exact .refl _
  rename_i nack _
  split
  · exact .refl _
  · rename_i s hs
    exact advances_set_quiet hs (moves_nack trivial nowUs nack.ranges s)

lemma advances_feedback (nowUs : UInt32) (data : Bytes) (s : Sender) (log : WireLog) :
    Advances (s.streams, log) ((s.processFeedback P cfg nowUs data).1.streams, log) := by
  unfold processFeedback
  split
  · exact .refl _
  split
  · exact advances_ack _ _ _ _ _ _
  · exact advances_nack _ _ _ _
  · exact .refl _
  · split <;> exact .refl _
  · exact .refl _

lemma advances_scan (nowUs retxTimeoutUs : UInt32) (s : Sender) (log : WireLog) :
    Advances (s.streams, log) ((s.scan cfg nowUs retxTimeoutUs).1.streams, log) := by
  intro i t' ht'
  simp only [scan, List.map_map, getElem?_map] at ht'
  obtain ⟨t, ht, rfl⟩ := map_eq_some_iff.mp ht'
  exact ⟨t, ht, moves_queueTimedOut nowUs retxTimeoutUs t⟩

lemma advances_step {a b : Sender × WireLog} {ev : SendEvent} (h : logStep P cfg a ev = some b) :
    Advances (a.1.streams, a.2) (b.1.streams, b.2) := by
  obtain ⟨⟨s', out⟩, hstep, rfl⟩ := map_eq_some_iff.mp h
  have hquiet : ∀ {sent : WireLog}, Advances (a.1.streams, a.2) (s'.streams, a.2) → sent = [] →
      Advances (a.1.streams, a.2) (s'.streams, a.2 ++ sent) := by
    rintro sent hadvances rfl
    rwa [append_nil]
  cases turn_of_step P cfg hstep with
  | stage _ _ _ _ _ _ hstage => exact advances_stage hstage a.2
  | feedback data nowUs _ => exact hquiet (advances_feedback nowUs data a.1 a.2) rfl
  | scan nowUs retxTimeoutUs _ => exact hquiet (advances_scan nowUs retxTimeoutUs a.1 a.2) rfl
  | finishFeedback | pass | resend | finish | ticket => exact hquiet (.refl _) rfl
  | leave _ _ _ => exact hquiet (.refl _) (by cases ev <;> rfl)

/-! ## The start -/

lemma moves_skipResumed (bitmap : Bytes) (s : StreamState) (log : SendLog) :
    Moves True (s, log) ((skipResumed bitmap s).1, log) := by
  refine foldl_moves (fun acc : StreamState × ℕ => (acc.1, log)) ?_ _ (s, 0)
  intro acc localCi
  unfold skipResumedChunk
  split
  · exact moves_markAcked acc.1 localCi
  · exact .refl

lemma moves_resumedSender (bitmap : Option Bytes) (s : StreamState) (log : SendLog) :
    Moves True (s, log) (resumedSender bitmap s, log) := by
  cases bitmap with
  | none => exact .refl
  | some bitmap => exact moves_skipResumed bitmap s log

lemma moves_markOwn (runs : List (ℕ × ℕ)) (s : StreamState) (log : SendLog) :
    Moves True (s, log) ((zeroRunChunks runs).foldl senderMarking.markOwn s, log) := by
  refine foldl_moves (fun t : StreamState => (t, log)) ?_ _ s
  intro t g
  unfold Marking.markOwn
  split
  · exact moves_markAcked t _
  · exact .refl

lemma Sender.Starts.moves {s : Sender} (h : s.Starts cfg) (ht : s.streams[i]? = some t) :
    ∃ t₀ ∈ buildStreams cfg.totalChunks cfg.numStreams, Moves True (t₀, []) (t, []) := by
  obtain ⟨bitmap, runs, skips, seq, keys, hskips, rfl⟩ := h
  obtain ⟨_, _, hmarked⟩ := exists_senderSkips bitmap runs cfg.totalChunks cfg.numStreams
  obtain rfl := some.inj (hskips.symm.trans hmarked)
  obtain ⟨t₀, ht₀, rfl⟩ := List.mem_map.mp (mem_of_getElem? ht)
  exact ⟨t₀, ht₀, (moves_resumedSender bitmap t₀ []).trans (moves_markOwn runs _ [])⟩

/-! ## Runs -/

lemma advances_run {a b : Sender × WireLog} (h : exec (logStep P cfg) a events = some b) :
    Advances (a.1.streams, a.2) (b.1.streams, b.2) :=
  exec_invariant (P := fun c : Sender × WireLog =>
    Advances (a.1.streams, a.2) (c.1.streams, c.2))
    (fun _ _ _ hc hstep => hc.trans (advances_step hstep)) (.refl _) h

lemma moves_of_run {start s : Sender} {log : WireLog} (hstart : start.Starts cfg)
    (hrun : exec (logStep P cfg) (start, []) events = some (s, log)) (ht : s.streams[i]? = some t) :
    ∃ t₀ ∈ buildStreams cfg.totalChunks cfg.numStreams,
      Moves True (t₀, []) (t, streamLog i log) := by
  obtain ⟨u, hu, hlater⟩ := advances_run hrun i t ht
  obtain ⟨t₀, ht₀, hfirst⟩ := hstart.moves hu
  exact ⟨t₀, ht₀, hfirst.trans hlater⟩

/-! ## Transmissions of one chunk -/

def times (c : ℕ) (log : SendLog) : List UInt32 := (log.filter (·.1 = c)).map Prod.snd

lemma times_concat_self (c : ℕ) (time : UInt32) (log : SendLog) :
    times c (log ++ [(c, time)]) = times c log ++ [time] := by
  simp [times]

variable {c : ℕ}

lemma times_concat_of_ne (hne : d ≠ c) (time : UInt32) (log : SendLog) :
    times d (log ++ [(c, time)]) = times d log := by
  simp [times, Ne.symm hne]

variable {s : StreamState}

lemma getD_sentUs_stamp_of_ne (hne : d ≠ c) (nowUs : UInt32) :
    (s.stamp c nowUs).sentUs.getD d 0 = s.sentUs.getD d 0 := by
  rw [stamp, getD_eq_getElem?_getD, getElem?_set_ne hne.symm, getD_eq_getElem?_getD]

lemma getD_sentUs_stamp (hc : c < s.sentUs.length) (nowUs : UInt32) :
    (s.stamp c nowUs).sentUs.getD c 0 = nowUs := by
  rw [stamp, getD_eq_getElem?_getD, getElem?_set_self hc, getD_some]

/-- A chunk that was never queued for a retransmit was sent at most once, by the send cursor, and
its time of that is recorded. -/
structure Attributed (a : StreamState × SendLog) : Prop where
  booked : a.1.Booked
  queued : ∀ c ∈ a.1.retxQueue, a.1.Retransmitted c
  once : ∀ c, ¬a.1.Retransmitted c → times c a.2 = [] ∨
    (c < a.1.nextLocal ∧ times c a.2 = [a.1.sentUs.getD c 0])

lemma attributed_of_mem_buildStreams {totalChunks numStreams : ℕ}
    (hs : s ∈ buildStreams totalChunks numStreams) : Attributed (s, []) where
  booked := booked_buildStreams hs
  queued := by
    rw [(new_of_mem_buildStreams hs).2]
    exact forall_mem_nil _
  once _ _ := .inl rfl

variable {log : SendLog}

lemma Attributed.push (h : Attributed (s, log)) (hbooked : t.Booked)
    (hqueue : ∀ d ∈ t.retxQueue, d = c ∨ d ∈ s.retxQueue) (hflags : t.flags = s.flagRetx c)
    (hlt : c < s.chunkCount) (hnext : t.nextLocal = s.nextLocal) (hsent : t.sentUs = s.sentUs) :
    Attributed (t, log) := by
  have hflag : ∀ d, t.Retransmitted d ↔ d = c ∨ s.Retransmitted d := by
    intro d
    rw [StreamState.Retransmitted, hflags]
    exact flagRetx_bit (h.booked.flags_length ▸ hlt) (by decide) d
  refine ⟨hbooked, ?_, ?_⟩
  · intro d hd
    exact (hflag d).mpr ((hqueue d hd).imp_right (h.queued d))
  · intro d hd
    rw [hnext, hsent]
    exact h.once d fun hold => hd ((hflag d).mpr (.inr hold))

lemma Attributed.clearInRetx (h : Attributed (s, log)) {rest : List ℕ}
    (hrest : ∀ d ∈ rest, d < s.chunkCount) (hqueue : s.retxQueue = c :: rest) :
    Attributed (s.clearInRetx c rest hrest, log) := by
  have hlt : c < s.flags.length := by
    rw [h.booked.flags_length]
    exact s.retx_lt c (hqueue ▸ mem_cons_self)
  refine ⟨h.booked.clearInRetx hrest hqueue, ?_, ?_⟩
  · intro d hd
    rw [retransmitted_clearInRetx hlt]
    exact h.queued d (hqueue ▸ mem_cons_of_mem c hd)
  · intro d hd
    rw [retransmitted_clearInRetx hlt] at hd
    exact h.once d hd

lemma Attributed.reachNext (h : Attributed (s, log)) (hlt : s.nextLocal < s.chunkCount) :
    Attributed (s.reachNext, log) where
  booked := h.booked.reachNext hlt
  queued := h.queued
  once c hc := (h.once c hc).imp_right fun hsent => ⟨hsent.1.trans (Nat.lt_succ_self _), hsent.2⟩

lemma Attributed.stamp (h : Attributed (s, log))
    (hfirst : s.Retransmitted c ∨ c < s.nextLocal ∧ c < s.chunkCount ∧ times c log = [])
    (nowUs : UInt32) : Attributed (s.stamp c nowUs, log ++ [(c, nowUs)]) := by
  refine ⟨h.booked.stamp c nowUs, h.queued, ?_⟩
  intro d hd
  have hold : ¬s.Retransmitted d := hd
  by_cases heq : d = c
  · subst heq
    obtain ⟨hreached, hlt, hnone⟩ := hfirst.resolve_left hold
    right
    rw [times_concat_self, hnone, getD_sentUs_stamp (h.booked.sentUs_length ▸ hlt)]
    exact ⟨hreached, rfl⟩
  · rw [times_concat_of_ne heq, getD_sentUs_stamp_of_ne heq]
    exact h.once d hold

lemma Attributed.move (h : Attributed a) (hmove : Move nacks a b) : Attributed b := by
  have hbooked := h.booked.move hmove
  cases hmove with
  | @mark s log c hopen =>
    have hframe := s.sendState_markAcked c
    simp only [sendState, StreamState.SendState.mk.injEq] at hframe
    obtain ⟨-, -, -, hnext, hsent, hflags, hqueue⟩ := hframe
    refine ⟨hbooked, ?_, ?_⟩
    · intro d hd
      rw [StreamState.Retransmitted, hflags]
      exact h.queued d (hqueue ▸ hd)
    · intro d hd
      rw [StreamState.Retransmitted, hflags] at hd
      rw [hnext, hsent]
      exact h.once d hd
  | pushBack hlt hopen hout hreached =>
    refine h.push hbooked ?_ rfl hlt rfl rfl
    intro d hd
    rcases mem_append.mp hd with hd | hd
    · exact .inr hd
    · exact .inl (mem_singleton.mp hd)
  | pushFront hlt hopen hout hnacks =>
    exact h.push hbooked (fun d hd => mem_cons.mp hd) rfl hlt rfl rfl
  | drop hrest hqueue hacked => exact h.clearInRetx hrest hqueue
  | @resend s log c rest hrest hqueue hopen nowUs =>
    refine (h.clearInRetx hrest hqueue).stamp (.inl ?_) nowUs
    have hlt : c < s.flags.length := by
      rw [h.booked.flags_length]
      exact s.retx_lt c (hqueue ▸ mem_cons_self)
    rw [retransmitted_clearInRetx hlt]
    exact h.queued c (hqueue ▸ mem_cons_self)
  | skip hlt hacked => exact h.reachNext hlt
  | @first s log hlt hopen nowUs =>
    refine (h.reachNext hlt).stamp ?_ nowUs
    by_cases hflag : s.Retransmitted s.nextLocal
    · exact .inl hflag
    · -- the cursor takes each chunk once
      rcases h.once s.nextLocal hflag with hnone | ⟨hpassed, -⟩
      · exact .inr ⟨Nat.lt_succ_self _, hlt, hnone⟩
      · exact absurd hpassed (Nat.lt_irrefl _)
  | cache hcApplied => exact ⟨hbooked, h.queued, h.once⟩

/-! ## RTT samples -/

structure Sampled (t : StreamState) (nowUs : UInt32) (p : AckProgress) : Prop where
  frame : p.stream.sendState = t.sendState
  samples : ∀ e ∈ p.newlyAcked,
    e.2 = t.rttSample (e.1 - UInt64.ofNat t.chunkBase).toNat nowUs

lemma StreamState.rttSample_congr (h : s.sendState = t.sendState) (c : ℕ) (nowUs : UInt32) :
    s.rttSample c nowUs = t.rttSample c nowUs := by
  have hflags : s.flags = t.flags := congrArg StreamState.SendState.flags h
  have hsent : s.sentUs = t.sentUs := congrArg StreamState.SendState.sentUs h
  rw [rttSample, rttSample, hflags, hsent]

lemma Sampled.ackPn (h : Sampled t nowUs p) (wireSize : ℕ) (pn : UInt64) :
    Sampled t nowUs (ackPn wireSize nowUs p pn) := by
  have hbase : p.stream.chunkBase = t.chunkBase :=
    congrArg StreamState.SendState.chunkBase h.frame
  unfold Client.ackPn
  dsimp only
  split
  · refine ⟨(p.stream.sendState_markAcked _).trans h.frame, ?_⟩
    refine forall_mem_append.mpr ⟨h.samples, forall_mem_singleton.mpr ?_⟩
    dsimp only
    rw [rttSample_congr h.frame, hbase]
  · exact h

lemma Sampled.foldl (h : Sampled t nowUs p) (wireSize : ℕ) (pns : List UInt64) :
    Sampled t nowUs (pns.foldl (Client.ackPn wireSize nowUs) p) := by
  induction pns generalizing p with
  | nil => exact h
  | cons pn pns ih => exact ih (h.ackPn wireSize pn)

lemma sampled_applyAck (ack : AckBitmap) (wireSize : ℕ) (nowUs : UInt32) (t : StreamState)
    (inFlight : ℕ) : Sampled t nowUs (applyAck ack wireSize nowUs t inFlight) := by
  have hstart : Sampled t nowUs ⟨t, inFlight, []⟩ := ⟨rfl, forall_mem_nil _⟩
  apply Sampled.foldl
  unfold applyPrefix
  split
  · exact hstart
  · have hall := hstart.foldl wireSize
    exact ⟨(hall _).frame, (hall _).samples⟩

/-- In every run, an ACK that names a chunk which was sent takes a sample for it only if the chunk
was sent once, and the sample is the time since then. -/
theorem samples_of_single_sends {start s : Sender} {log : WireLog} {events : List SendEvent}
    (hstart : start.Starts cfg)
    (hrun : exec (logStep P cfg) (start, []) events = some (s, log))
    {data : Bytes} {pkt : Packet} {ack : AckBitmap} {t : StreamState}
    (hpkt : decodePacket P.crc32c data = .ok pkt) (htype : pkt.header.packetType = .ackBitmap)
    (hack : AckBitmap.decode pkt.payload = .ok ack)
    (ht : s.streams[ack.streamId.toNat]? = some t) (nowUs : UInt32) :
    ∃ chunks, (s.processFeedback P cfg nowUs data).2 = [.acked chunks] ∧
      ∀ e ∈ chunks,
        let sends := times (e.1 - UInt64.ofNat t.chunkBase).toNat
          (streamLog ack.streamId.toNat log)
        sends ≠ [] → ∀ rtt, e.2 = some rtt →
          ∃ time, sends = [time] ∧ rtt = max (nowUs - time).toNat 1 := by
  obtain ⟨t₀, ht₀, hmoves⟩ := moves_of_run hstart hrun ht
  have hattributed : Attributed (t, streamLog ack.streamId.toNat log) :=
    moves_invariant (fun _ _ h hmove => h.move hmove) hmoves
      (attributed_of_mem_buildStreams ht₀)
  refine ⟨(applyAck ack cfg.wireSize nowUs t s.inFlight).newlyAcked, ?_, ?_⟩
  · simp only [processFeedback, hpkt, htype, processAckBitmap, hack, ht]
  intro e he sends hsent rtt hrtt
  rw [(sampled_applyAck ack cfg.wireSize nowUs t s.inFlight).samples e he, rttSample] at hrtt
  split at hrtt
  · cases hrtt
  · rename_i hflag
    rcases hattributed.once _ hflag with hnone | ⟨-, hone⟩
    · exact absurd hnone hsent
    · exact ⟨_, hone, (some.inj hrtt).symm⟩

def fourChunks : SendConfig := ⟨7, [1, 2, 3, 4], 1, 1, false, false, 100, 1⟩

def fourChunksStart : Sender := .init (buildStreams 4 1) 0 none

lemma fourChunksStart_starts : fourChunksStart.Starts fourChunks :=
  ⟨none, [], (buildStreams 4 1, 0, 0), 0, none, by decide +kernel, rfl⟩

def firstTwo : Bytes := encodeAckBitmapInto nullPrimitives.crc32c 7 0 0 0 0 1 []

lemma firstTwo_decoded : ∃ pkt ack, decodePacket nullPrimitives.crc32c firstTwo = .ok pkt ∧
    pkt.header.packetType = .ackBitmap ∧ AckBitmap.decode pkt.payload = .ok ack ∧
    ack.streamId.toNat = 0 :=
  ⟨_, _, rfl, rfl, rfl, rfl⟩

/-- Chunk 0 times out and is sent again, chunk 1 is sent once: only the latter gives a sample. -/
def resentFirst : List SendEvent :=
  [.stage 0 0 10, .scan 200000 100000, .stage 0 0 200010, .stage 0 0 200020]

theorem samples_of_single_sends_two :
    ∃ s log chunks,
      exec (logStep nullPrimitives fourChunks) (fourChunksStart, []) resentFirst = some (s, log) ∧
      log = [(0, 0, 10), (0, 0, 200010), (0, 1, 200020)] ∧
      (s.processFeedback nullPrimitives fourChunks 200060 firstTwo).2 = [.acked chunks] ∧
      chunks = [(0, none), (1, some 40)] ∧
      ∃ time, times 1 (streamLog 0 log) = [time] ∧ 40 = max (200060 - time).toNat 1 := by
  obtain ⟨⟨s, log⟩, hrun, hlog, hsignal, t, ht, hbase⟩ :
      ∃ a, exec (logStep nullPrimitives fourChunks) (fourChunksStart, []) resentFirst = some a ∧
        a.2 = [(0, 0, 10), (0, 0, 200010), (0, 1, 200020)] ∧
        (a.1.processFeedback nullPrimitives fourChunks 200060 firstTwo).2 =
          [.acked [(0, none), (1, some 40)]] ∧
        ∃ t, a.1.streams[0]? = some t ∧ t.chunkBase = 0 := by
    decide +kernel
  obtain ⟨pkt, ack, hpkt, htype, hack, hsid⟩ := firstTwo_decoded
  rw [← hsid] at ht
  obtain ⟨chunks, hchunks, hsamples⟩ :=
    samples_of_single_sends fourChunksStart_starts hrun hpkt htype hack ht 200060
  obtain rfl : log = [(0, 0, 10), (0, 0, 200010), (0, 1, 200020)] := hlog
  have hnew : chunks = [(0, none), (1, some 40)] := by
    have hsame := hchunks.symm.trans hsignal
    rwa [singleton_inj, CcSignal.acked.injEq] at hsame
  refine ⟨s, _, chunks, hrun, rfl, hchunks, hnew, ?_⟩
  have hlast := hsamples (1, some 40) (by rw [hnew]; decide)
  rw [hsid, hbase] at hlast
  exact hlast (by decide) 40 rfl

/-! ## Acknowledged chunks -/

lemma Move.acked (hmove : Move nacks a b) (hacked : a.1.acked.getD c false = true) :
    b.1.acked.getD c false = true ∧ times c b.2 = times c a.2 := by
  cases hmove with
  | mark hopen =>
    rw [getD_acked_markAcked hopen, hacked, Bool.true_or]
    exact ⟨rfl, rfl⟩
  | resend hrest hqueue hopen nowUs | first hlt hopen nowUs =>
    -- what is sent is open
    refine ⟨hacked, times_concat_of_ne ?_ nowUs _⟩
    rintro rfl
    cases hacked.symm.trans hopen
  | pushBack | pushFront | drop | skip | cache => exact ⟨hacked, rfl⟩

/-- A chunk that is acknowledged, or was marked before the start, stays so and is not sent again,
whatever the feedback says and whichever scans there are. -/
theorem acked_never_sent {a b : Sender × WireLog} {events : List SendEvent}
    (hrun : exec (logStep P cfg) a events = some b) {i c : ℕ} {t t' : StreamState}
    (ht : a.1.streams[i]? = some t) (ht' : b.1.streams[i]? = some t')
    (hacked : t.acked.getD c false = true) :
    t'.acked.getD c false = true ∧ times c (streamLog i b.2) = times c (streamLog i a.2) := by
  obtain ⟨u, hu, hmoves⟩ := advances_run hrun i t' ht'
  obtain rfl := some.inj (ht.symm.trans hu)
  exact moves_invariant (P := fun x : StreamState × SendLog =>
      x.1.acked.getD c false = true ∧ times c x.2 = times c (streamLog i a.2))
    (fun _ _ hx hmove => (hmove.acked hx.1).imp_right fun h => h.trans hx.2) hmoves ⟨hacked, rfl⟩

theorem acked_never_sent_resumed :
    let t := ((StreamState.new 0 0 4).markAcked 0).1
    ∃ b t', exec (logStep nullPrimitives fourChunks) (.init [t] 0 none, [])
        [.stage 0 0 10, .scan 200000 100000, .stage 0 0 200010] = some b ∧
      b.1.streams[0]? = some t' ∧ t'.acked.getD 0 false = true ∧
      times 0 (streamLog 0 b.2) = [] := by
  intro t
  obtain ⟨b, hrun, hsome⟩ : ∃ b, exec (logStep nullPrimitives fourChunks) (.init [t] 0 none, [])
      [.stage 0 0 10, .scan 200000 100000, .stage 0 0 200010] = some b ∧
        b.1.streams[0]?.isSome = true := by
    decide +kernel
  obtain ⟨t', ht'⟩ := isSome_iff_exists.mp hsome
  exact ⟨b, t', hrun, ht', acked_never_sent hrun (t := t) rfl ht' (by decide)⟩

end Favonius.Client
