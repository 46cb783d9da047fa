import Favonius.Daemon.CheckedReceive
import Favonius.Sync.SkipSets

/-!
# Hostile datagrams

Whatever reaches the data sockets of a transfer with an accepted manifest: a datagram writes
at most inside the one chunk that it names, and only while that chunk is missing.
-/

namespace Favonius.Daemon

open Execution ByteCodec Proto Crypto Transfer Sync List StreamRecvState Receiver
open Checked (StreamSound ConfigSound Ready TagLength)

/-! ## What the loop is started with -/

/-- Packets of one stream between two ACKs; the environment may set another number. -/
def ackEvery (override : Option ℕ) (numStreams : ℕ) : ℕ :=
  match override.filter fun n => decide (1 ≤ n ∧ n ≤ 8192) with
  | some n => n
  | none => max (128 / max numStreams 1) 16

structure TransferOptions where
  connId : UInt64
  compressed : Bool
  nackEnabled : Bool
  headerProtected : Bool
  ackOverride : Option ℕ

def recvConfig (m : FileManifest) (o : TransferOptions) : RecvConfig where
  connId := o.connId
  payloadSize := m.payloadSize
  totalChunks := m.totalChunks
  compressed := o.compressed
  nackEnabled := o.nackEnabled
  headerProtected := o.headerProtected
  ackEvery := ackEvery o.ackOverride (max m.numStreams 1)

/-- An existing file is resumed only if it has the manifest's size, a fresh one is extended to
it, and an empty one is mapped to a placeholder byte. -/
def mappedLength (fileSize : ℕ) : ℕ := if 0 < fileSize then fileSize else 1

def receiveStart (m : FileManifest) (bitmap : Option Bytes) (mmap : Bytes) (seq : UInt64)
    (keys : Option SessionKeys) : Option Receiver :=
  (daemonSkips m.totalChunks m.numStreams bitmap m.zeroRuns).map fun s => .init seq mmap s.1 keys

variable {P : Primitives} {openFn : OpenFn} {cfg : RecvConfig} {m : FileManifest}

lemma ackEvery_bounds (override : Option ℕ) (numStreams : ℕ) :
    0 < ackEvery override numStreams ∧ ackEvery override numStreams ≤ 8192 := by
  unfold ackEvery
  split
  · rename_i n hn
    have hn' := (Option.filter_eq_some_iff.mp hn).2
    simp only [decide_eq_true_eq] at hn'
    omega
  · have hdiv : 128 / max numStreams 1 ≤ 128 := Nat.div_le_self _ _
    omega

variable {maxFileSize : Option ℕ} {bitmap : Option Bytes} {mmap : Bytes} {seq : UInt64}
  {keys : Option SessionKeys} {start : Receiver} {k : ℕ}

lemma configSound_recvConfig (hvalid : validateManifest m maxFileSize = .ok ())
    (o : TransferOptions) : ConfigSound (recvConfig m o) := by
  obtain ⟨hpos, hle, -, htotal, -⟩ := validateManifest_ok hvalid
  have hack := ackEvery_bounds o.ackOverride (max m.numStreams 1)
  exact ⟨hpos, hle, htotal, hack.1, hack.2⟩

/-! ## Streams at the start -/

def StreamRecvState.pacing (s : StreamRecvState) : ℕ × ℕ := (s.sinceAck, s.gapCounter)

lemma pacing_resumedDaemon (bitmap : Option Bytes) (s : StreamRecvState) :
    (resumedDaemon bitmap s).pacing = s.pacing := by
  cases bitmap with
  | none => rfl
  | some bitmap =>
    refine foldl_frame (fun a : StreamRecvState × ℕ => a.1.pacing) ?_ _ _
    intro a localCi
    unfold resumeChunk
    split <;> rfl

lemma pacing_markOwn (s : StreamRecvState) (gs : List ℕ) :
    (gs.foldl daemonMarking.markOwn s).pacing = s.pacing := by
  refine foldl_frame pacing ?_ _ _
  intro s g
  unfold Partition.Marking.markOwn
  split
  · dsimp only [daemonMarking]
    split <;> rfl
  · rfl

lemma receiveStart_streams {r : Receiver} (hack : 0 < cfg.ackEvery)
    (htotal : cfg.totalChunks = m.totalChunks) (h : receiveStart m bitmap mmap seq keys = some r) :
    (∀ s ∈ r.streams, StreamSound cfg s) ∧
      (r.streams.map progress).map Progress.range =
        streamRanges m.totalChunks (max m.numStreams 1) (max m.numStreams 1) 0 0 := by
  obtain ⟨resumed, marked, hskips⟩ :=
    exists_daemonSkips bitmap m.zeroRuns m.totalChunks m.numStreams
  rw [receiveStart, hskips] at h
  obtain rfl := Option.some.inj h
  have hranges : ∀ p : ℕ × ℕ, ((zeroRunChunks m.zeroRuns).foldl daemonMarking.markOwn
      (resumedDaemon bitmap (.new p.1 p.2))).progress.range = p := by
    intro p
    obtain ⟨hbase, hcount, -⟩ := resumedDaemon_new bitmap p.1 p.2
    obtain ⟨hbase', hcount'⟩ := daemonMarking.range_foldl_markOwn (zeroRunChunks m.zeroRuns)
      (resumedDaemon bitmap (.new p.1 p.2))
    exact Prod.ext (hbase'.trans hbase) (hcount'.trans hcount)
  dsimp only [init]
  constructor
  · intro s hs
    obtain ⟨t, ht, rfl⟩ := List.mem_map.mp hs
    obtain ⟨p, hp, rfl⟩ := List.mem_map.mp ht
    have hend := (mem_streamRanges_lt hp).2
    rw [rangesEnd_all (lt_max_of_lt_right Nat.one_pos)] at hend
    have hpacing := (pacing_markOwn (resumedDaemon bitmap (.new p.1 p.2))
      (zeroRunChunks m.zeroRuns)).trans (pacing_resumedDaemon bitmap (.new p.1 p.2))
    have hsince := congrArg Prod.fst hpacing
    have hgap := congrArg Prod.snd hpacing
    have hbase := congrArg Prod.fst (hranges p)
    have hcount := congrArg Prod.snd (hranges p)
    refine ⟨?_, ?_, ?_, ?_⟩
    · rw [htotal]
      exact (congrArg₂ (· + ·) hbase hcount).trans_le hend
    · exact (daemonMarking.good_foldl_markOwn (zeroRunChunks m.zeroRuns)
        (resumedDaemon_new bitmap p.1 p.2).2.2.1).1
    · exact hsince.trans_lt hack
    · exact hgap.trans_lt (Nat.zero_lt_succ 31)
  · rw [buildRecvStreams, map_map, map_map, map_map]
    exact (map_congr_left fun p _ => hranges p).trans (map_id _)

/-! ## What a step does to the streams and the reply counter -/

lemma streams_completionCheck (clock : Clock) (a : Receiver × List Bytes) :
    (completionCheck P cfg clock a).1.streams = a.1.streams := by
  obtain ⟨seq, out, h, -⟩ := completionCheck_spec P cfg clock a
  rw [h]

lemma streamSound_setSinceAck {r : Receiver} {sid : ℕ} (h : ∀ i s, r.streams[i]? = some s →
      StreamSound cfg (if i = sid then { s with sinceAck := 0 } else s)) :
    ∀ s ∈ (r.setSinceAck sid 0).streams, StreamSound cfg s := by
  intro s hs
  obtain ⟨i, hi⟩ := mem_iff_getElem?.mp hs
  rw [setSinceAck, getElem?_modify] at hi
  obtain ⟨t, ht, rfl⟩ := Option.map_eq_some_iff.mp hi
  have hsound := h i t ht
  by_cases heq : sid = i
  · rw [if_pos heq.symm] at hsound
    rwa [if_pos heq]
  · rw [if_neg (Ne.symm heq)] at hsound
    rwa [if_neg heq]

variable {s : StreamRecvState}

lemma Checked.StreamSound.reset (hack : 0 < cfg.ackEvery) (h : StreamSound cfg s) :
    StreamSound cfg { s with sinceAck := 0 } :=
  ⟨h.inside, h.counted, hack, h.gapCounter_lt⟩

variable {stream : StreamRecvState}

lemma gapResult_spec {next : StreamRecvState} {localCi nowMs : ℕ} {ranges : List (ℕ × ℕ)}
    (h : gapResult cfg stream localCi nowMs = (next, ranges)) (hgap : stream.gapCounter < 32) :
    next.sinceAck = stream.sinceAck + 1 ∧ next.gapCounter < 32 := by
  have hage : ∀ s : StreamRecvState, (s.ageGap nowMs).sinceAck = s.sinceAck := by
    intro s
    unfold ageGap
    cases s.gapStartLocal <;> rfl
  unfold gapResult at h
  split at h
  · unfold detectGap at h
    split at h
    · dsimp only at h
      split at h
      · cases h
        exact ⟨hage _, Nat.zero_lt_succ 31⟩
      rename_i hdue
      cases h
      refine ⟨hage _, ?_⟩
      rw [gapDue, Bool.or_eq_true, decide_eq_true_eq, not_or, Nat.not_le] at hdue
      exact hdue.1
    · cases h
      exact ⟨rfl, hgap⟩
  · cases h
    exact ⟨rfl, hgap⟩

lemma streamSound_dataFeedback (hack : 0 < cfg.ackEvery) {r : Receiver}
    (hr : ∀ s ∈ r.streams, StreamSound cfg s) (hstream : StreamSound cfg stream) (clock : Clock)
    (nowMs sid localCi : ℕ) :
    ∀ s ∈ (dataFeedback P cfg clock nowMs sid localCi stream r).1.streams, StreamSound cfg s := by
  obtain ⟨next, ranges, hnext, hprogress⟩ := exists_gapResult cfg stream localCi nowMs
  obtain ⟨hsince, hgap⟩ := gapResult_spec hnext hstream.gapCounter_lt
  obtain ⟨seq, out, hnacked, -⟩ :=
    nacked_spec P cfg clock sid ranges { r with streams := r.streams.set sid next }
  have hreset : StreamSound cfg { next with sinceAck := 0 } := by
    have hbase : next.chunkBase = stream.chunkBase := congrArg Progress.chunkBase hprogress
    have hcount : next.chunkCount = stream.chunkCount := congrArg Progress.chunkCount hprogress
    have hn : next.nReceived = stream.nReceived := congrArg Progress.nReceived hprogress
    have hflags : next.received = stream.received := congrArg Progress.received hprogress
    refine ⟨?_, ?_, hack, hgap⟩
    · exact (congrArg₂ (· + ·) hbase hcount).trans_le hstream.inside
    · exact hn.trans (hstream.counted.trans (congrArg (count true) hflags.symm))
  rw [dataFeedback_of_gap P hnext, hnacked]
  dsimp only
  split
  · apply streamSound_setSinceAck
    intro i s hi
    rw [reply, getElem?_set] at hi
    by_cases hsid : sid = i
    · rw [if_pos hsid] at hi
      split at hi
      · obtain rfl := Option.some.inj hi
        rwa [if_pos hsid.symm]
      · cases hi
    · rw [if_neg hsid] at hi
      rw [if_neg (Ne.symm hsid)]
      exact hr s (mem_of_getElem? hi)
  · rename_i hmany
    intro s hs
    rcases mem_or_eq_of_mem_set hs with hold | rfl
    · exact hr s hold
    · exact ⟨hreset.inside, hreset.counted, Nat.not_le.mp hmany, hgap⟩

lemma streamSound_ackTimer (hack : 0 < cfg.ackEvery) {r : Receiver}
    (hr : ∀ s ∈ r.streams, StreamSound cfg s) (clock : Clock) :
    ∀ s ∈ (ackTimer P cfg clock r).1.streams, StreamSound cfg s := by
  refine ackTimer_induction P cfg clock r (fun a => ∀ s ∈ a.1.streams, StreamSound cfg s) hr ?_
  intro a p _ ha
  apply streamSound_setSinceAck
  intro i s hi
  have hsound := ha s (mem_of_getElem? hi)
  split
  · exact hsound.reset hack
  · exact hsound

/-! ## Runs -/

structure Sound (cfg : RecvConfig) (fileSize : ℕ) (ranges : List (ℕ × ℕ)) (r : Receiver) :
    Prop where
  streams : ∀ s ∈ r.streams, StreamSound cfg s
  ranges_eq : (r.streams.map progress).map Progress.range = ranges
  mapped : r.mmap.length = mappedLength fileSize

variable {fileSize : ℕ} {ranges : List (ℕ × ℕ)} {r r' : Receiver} {ev : RecvEvent}
  {out : List Bytes}

lemma Sound.length_streams (h : Sound cfg fileSize ranges r) :
    r.streams.length = ranges.length := by
  rw [← h.ranges_eq, length_map, length_map]

lemma streamSound_recvData (hack : 0 < cfg.ackEvery) (hr : ∀ s ∈ r.streams, StreamSound cfg s)
    (clock : Clock) (nowMs : ℕ) (pkt : Bytes) :
    ∀ s ∈ (recvData P openFn cfg clock nowMs pkt r).1.streams, StreamSound cfg s := by
  rcases recvData_cases P openFn cfg clock nowMs pkt r with
    hdrop | hnone | ⟨dp, stream, localCi, mmap, next, -, hget, hlocal, hplace, hfed, -⟩
  · rwa [hdrop]
  · rwa [hnone, streams_completionCheck]
  · obtain ⟨hnext, -⟩ := (hr stream (mem_of_getElem? hget)).of_placeChunk hlocal hplace
    rw [hfed, streams_completionCheck]
    exact streamSound_dataFeedback (r := { r with mmap }) hack hr hnext clock nowMs
      dp.streamId.toNat localCi

variable (P openFn cfg) in
lemma toNat_seq_recvData_le (clock : Clock) (nowMs : ℕ) (pkt : Bytes) (r : Receiver) :
    (recvData P openFn cfg clock nowMs pkt r).1.seq.toNat ≤
      r.seq.toNat + 3 * r.streams.length + 2 := by
  rcases recvData_cases P openFn cfg clock nowMs pkt r with
    hdrop | hnone | ⟨dp, stream, localCi, mmap, next, -, -, -, -, hfed, -⟩
  · rw [hdrop]
    exact (Nat.le_add_right _ _).trans (Nat.le_add_right _ _)
  · obtain ⟨seq, out, h, hseq, -⟩ := completionCheck_spec P cfg clock (r, [])
    rw [hnone, h]
    exact hseq.trans (Nat.le_add_right _ _)
  obtain ⟨seq, out, h, hseq, -⟩ := completionCheck_spec P cfg clock
    (dataFeedback P cfg clock nowMs dp.streamId.toNat localCi next { r with mmap })
  have hturn := feedbackTurn P cfg clock nowMs dp.streamId.toNat localCi next { r with mmap }
  have hfeedback := hturn.seq_le
  have hlength := congrArg List.length hturn.progress
  simp only [length_map, length_set] at hlength
  rw [hfed, h]
  dsimp only at hfeedback ⊢
  omega

lemma streamSound_step (hack : 0 < cfg.ackEvery) (hr : ∀ s ∈ r.streams, StreamSound cfg s)
    (hstep : r.step P openFn cfg ev = some (r', out)) :
    (∀ s ∈ r'.streams, StreamSound cfg s) ∧
      r'.seq.toNat ≤ r.seq.toNat + 3 * r.streams.length + 2 := by
  have hsame : r.seq.toNat ≤ r.seq.toNat + 3 * r.streams.length + 2 := by omega
  cases turn_of_step hstep with
  | data pkt clock nowMs _ =>
    exact ⟨streamSound_recvData hack hr clock nowMs pkt,
      toNat_seq_recvData_le P openFn cfg clock nowMs pkt r⟩
  | control pkt clock _ _ =>
    have hturn := controlTurn P openFn cfg clock pkt r
    have hseq := hturn.seq_le
    rw [hturn.streams]
    exact ⟨hr, by omega⟩
  | empty | tailGrace | peerInactive => exact ⟨hr, hsame⟩
  | ackTimer clock =>
    have hseq := Checked.toNat_seq_ackTimer_le P cfg clock r
    exact ⟨streamSound_ackTimer hack hr clock, by omega⟩

lemma ranges_step (hstep : r.step P openFn cfg ev = some (r', out)) :
    (r'.streams.map progress).map Progress.range =
      (r.streams.map progress).map Progress.range := by
  cases (step_effect hstep).1 with
  | kept _ _ hprogress _ | rotated _ _ _ _ _ _ _ _ hprogress _ => rw [hprogress]
  | placed _ _ _ dp stream localCi _ _ hplaced _ hprogress _ =>
    rw [hprogress]
    apply ext_getElem?
    intro i
    rw [getElem?_map, getElem?_map, getElem?_set]
    by_cases hi : dp.streamId.toNat = i
    · subst hi
      have hget : (r.streams.map progress)[dp.streamId.toNat]? = some stream.progress := by
        rw [getElem?_map, hplaced.stream_eq, Option.map_some]
      rw [if_pos rfl, if_pos (List.getElem?_eq_some_iff.mp hget).1, hget]
      rfl
    · rw [if_neg hi]

lemma Sound.step (hcfg : ConfigSound cfg) (h : Sound cfg fileSize ranges r)
    (hstep : r.step P openFn cfg ev = some (r', out)) : Sound cfg fileSize ranges r' := by
  refine ⟨(streamSound_step hcfg.ackEvery_pos h.streams hstep).1,
    (ranges_step hstep).trans h.ranges_eq, ?_⟩
  cases (step_effect hstep).1 with
  | kept _ hmmap | rotated _ _ _ _ _ _ _ hmmap => exact hmmap ▸ h.mapped
  | placed _ _ _ _ _ _ _ _ _ hmmap =>
    rw [hmmap, length_writeChunk]
    exact h.mapped

lemma epoch_step (hstep : r.step P openFn cfg ev = some (r', out)) {n : ℕ}
    (h : ∀ ke, r.keyEpoch = some ke → ke.epoch ≤ n) :
    ∀ ke, r'.keyEpoch = some ke → ke.epoch ≤ n + 1 := by
  intro ke' hke'
  cases (step_effect hstep).1 with
  | kept _ _ _ hkeys | placed _ _ _ _ _ _ _ _ _ _ _ hkeys =>
    exact (h ke' (hkeys ▸ hke')).trans (Nat.le_succ n)
  | rotated _ _ _ ke _ _ hrotated _ _ hkeys =>
    obtain rfl := Option.some.inj (hkeys.symm.trans hke')
    exact Nat.succ_le_succ (h ke hrotated.keys)

def receiveStep (P : Primitives) (openFn : OpenFn) (cfg : RecvConfig) (r : Receiver)
    (ev : RecvEvent) : Option Receiver :=
  (r.step P openFn cfg ev).map Prod.fst

lemma Sound.run (hcfg : ConfigSound cfg) (hlen : ranges.length ≤ 64)
    (h : Sound cfg fileSize ranges start) (hepoch : ∀ ke, start.keyEpoch = some ke → ke.epoch ≤ 0)
    {es : List RecvEvent} (hrun : exec (receiveStep P openFn cfg) start es = some r) :
    Sound cfg fileSize ranges r ∧ r.seq.toNat ≤ start.seq.toNat + 194 * es.length ∧
      ∀ ke, r.keyEpoch = some ke → ke.epoch ≤ es.length := by
  induction es using reverseRecOn generalizing r with
  | nil =>
    obtain rfl := Option.some.inj hrun
    exact ⟨h, le_rfl, hepoch⟩
  | append_singleton es ev ih =>
    obtain ⟨s, hs, hstep⟩ := exec_concat_eq_some.mp hrun
    obtain ⟨hsound, hseq, hke⟩ := ih hs
    obtain ⟨p, hp, rfl⟩ := Option.map_eq_some_iff.mp hstep
    have hnext := (streamSound_step hcfg.ackEvery_pos hsound.streams hp).2
    have hstreams := hsound.length_streams
    rw [length_append, length_singleton]
    exact ⟨hsound.step hcfg hp, by omega, epoch_step hp hke⟩

lemma Sound.ready (h : Sound cfg fileSize ranges r)
    (hsum : (ranges.map Prod.snd).sum ≤ cfg.totalChunks) (hsize : mappedLength fileSize < 2 ^ 64)
    (hroom : r.seq.toNat + 3 * r.streams.length + 2 < 2 ^ 64)
    (hepoch : ∀ ke, r.keyEpoch = some ke → ke.epoch + 1 < 2 ^ 64) : Ready cfg r := by
  refine ⟨h.streams, ⟨?_, ?_, ?_⟩, by rwa [h.mapped], hroom, hepoch⟩
  · intro p hp
    obtain ⟨s, hs, rfl⟩ := List.mem_map.mp hp
    exact (h.streams s hs).inside
  · intro p hp
    obtain ⟨s, hs, rfl⟩ := List.mem_map.mp hp
    exact (h.streams s hs).nReceived_le
  · rw [← h.ranges_eq, map_map] at hsum
    exact hsum

/-! ## Writes -/

lemma length_le_of_placed (hopen : TagLength openFn)
    (hzstd : ∀ data n out, P.zstdDecompress data n = some out → out.length ≤ n) {pkt : Bytes}
    {dp : DataPayloadRef} {localCi : ℕ} {data : Bytes}
    (h : Placed P openFn cfg r pkt dp stream localCi data) : data.length ≤ cfg.payloadSize := by
  obtain ⟨payload, hpayload, hdata⟩ := Option.bind_eq_some_iff.mp h.opened
  have hbounded := h.bounded
  have hle : payload.length ≤ cfg.payloadSize := by
    cases hkeys : r.keyEpoch with
    | none =>
      rw [hkeys] at hpayload hbounded
      obtain rfl := Option.some.inj hpayload
      exact hbounded
    | some ke =>
      rw [hkeys] at hpayload hbounded
      have hlen := hopen _ _ _ _ _ (openFn_of_openPacket hpayload)
      have hcap : dp.data.length ≤ cfg.payloadSize + aeadTagLen :=
        hbounded.trans (min_le_left _ _)
      simp only [aeadTagLen] at hcap
      omega
  unfold expandChunk at hdata
  split at hdata
  · exact hzstd _ _ _ hdata
  · exact (Option.some.inj hdata) ▸ hle

/-- The event is a DATA datagram that names a chunk which is in range of the stream that it
addresses and still missing, and the byte is one of that chunk and of the file. -/
def NamesByte (P : Primitives) (cfg : RecvConfig) (fileSize : ℕ) (r : Receiver) (ev : RecvEvent)
    (k : ℕ) : Prop :=
  ∃ pkt clock nowMs dp stream localCi, ev = .datagram pkt clock nowMs ∧
    (1 < pkt.length ∧ pkt.getD 1 0 = 0x20) ∧
    decodeDataInline (unmask P cfg r.keyEpoch pkt) = some dp ∧
    r.streams[dp.streamId.toNat]? = some stream ∧
    stream.localChunkIndex dp.chunkIndex.toNat = some localCi ∧
    stream.received.getD localCi false = false ∧
    dp.chunkIndex.toNat * cfg.payloadSize ≤ k ∧
    k < min ((dp.chunkIndex.toNat + 1) * cfg.payloadSize) fileSize

lemma namesByte_of_changed (hopen : TagLength openFn)
    (hzstd : ∀ data n out, P.zstdDecompress data n = some out → out.length ≤ n)
    (h : Sound cfg fileSize ranges r) (hempty : fileSize = 0 → cfg.totalChunks = 0)
    (hstep : r.step P openFn cfg ev = some (r', out)) (hk : r'.mmap[k]? ≠ r.mmap[k]?) :
    NamesByte P cfg fileSize r ev k := by
  cases (step_effect hstep).1 with
  | kept _ hmmap | rotated _ _ _ _ _ _ _ hmmap => exact (hk (by rw [hmmap])).elim
  | placed pkt clock nowMs dp stream localCi data hdata hplaced hmmap _ _ =>
    have hlen := length_le_of_placed hopen hzstd hplaced
    obtain ⟨hci, hlt⟩ := localChunkIndex_eq_some.mp hplaced.chunk_eq
    have hinside := (h.streams stream (mem_of_getElem? hplaced.stream_eq)).inside
    rw [hmmap, getElem?_writeChunk] at hk
    split at hk
    · rename_i hin
      refine ⟨pkt, clock, nowMs, dp, stream, localCi, rfl, hdata, hplaced.decoded,
        hplaced.stream_eq, hplaced.chunk_eq, hplaced.fresh, hin.1, ?_⟩
      have hmapped := h.mapped
      have hpos : 0 < fileSize := by
        by_contra hzero
        omega
      rw [mappedLength, if_pos hpos] at hmapped
      rw [Nat.succ_mul]
      omega
    · exact (hk rfl).elim

lemma Sound.owner_unique (h : Sound cfg fileSize ranges r)
    (hpair : ranges.Pairwise fun a b => a.1 + a.2 ≤ b.1) {t : StreamRecvState} {c : ℕ}
    (hs : s ∈ r.streams) (ht : t ∈ r.streams)
    (hsc : s.chunkBase ≤ c ∧ c < s.chunkBase + s.chunkCount)
    (htc : t.chunkBase ≤ c ∧ c < t.chunkBase + t.chunkCount) : s = t := by
  have hpair' : r.streams.Pairwise fun a b => a.chunkBase + a.chunkCount ≤ b.chunkBase := by
    rw [← h.ranges_eq, map_map, pairwise_map] at hpair
    exact hpair
  obtain ⟨i, hi, rfl⟩ := getElem_of_mem hs
  obtain ⟨j, hj, rfl⟩ := getElem_of_mem ht
  rw [pairwise_iff_getElem] at hpair'
  rcases lt_trichotomy i j with hlt | rfl | hlt
  · have hbefore := hpair' i j hi hj hlt
    omega
  · rfl
  · have hbefore := hpair' j i hj hi hlt
    omega

lemma mappedLength_lt (hvalid : validateManifest m maxFileSize = .ok ()) :
    mappedLength m.fileSize < 2 ^ 64 ∧ (m.fileSize = 0 → m.totalChunks = 0) := by
  obtain ⟨hpos, hle, -, htotal, heq⟩ := validateManifest_ok hvalid
  have hdiv : m.fileSize ≤ m.totalChunks * m.payloadSize := by
    by_contra hlt
    have hmore := (lt_totalChunks_iff (i := m.totalChunks) hpos).mpr (Nat.not_le.mp hlt)
    rw [← heq] at hmore
    exact lt_irrefl _ hmore
  have hprod : m.totalChunks * m.payloadSize ≤ 2 ^ 26 * 1500 := Nat.mul_le_mul htotal hle
  constructor
  · unfold mappedLength
    split <;> omega
  · intro hzero
    rw [heq, hzero, Nat.zero_add]
    exact Nat.div_eq_of_lt (by omega)

lemma Sound.not_received_of_namesByte (h : Sound cfg fileSize ranges r)
    (hpair : ranges.Pairwise fun a b => a.1 + a.2 ≤ b.1) (hk : NamesByte P cfg fileSize r ev k)
    (hs : s ∈ r.streams) {l : ℕ} (hl : l < s.chunkCount)
    (hlow : (s.chunkBase + l) * cfg.payloadSize ≤ k)
    (hhigh : k < (s.chunkBase + l + 1) * cfg.payloadSize) : s.received.getD l false = false := by
  obtain ⟨pkt, clock, nowMs, dp, t, localCi, -, -, -, hget, hlocal, hfresh, hlow', hhigh'⟩ := hk
  obtain ⟨hci, hlt⟩ := localChunkIndex_eq_some.mp hlocal
  have hnamed : k / cfg.payloadSize = dp.chunkIndex.toNat :=
    Nat.div_eq_of_lt_le hlow' (hhigh'.trans_le (min_le_left _ _))
  have hsame : dp.chunkIndex.toNat = s.chunkBase + l :=
    hnamed.symm.trans (Nat.div_eq_of_lt_le hlow hhigh)
  obtain rfl := h.owner_unique hpair hs (mem_of_getElem? hget) (c := s.chunkBase + l)
    (by omega) (by omega)
  obtain rfl : l = localCi := by omega
  exact hfresh

lemma sound_receiveStart (hcfg : ConfigSound cfg) (htotal : cfg.totalChunks = m.totalChunks)
    (hmap : mmap.length = mappedLength m.fileSize)
    (hstart : receiveStart m bitmap mmap seq keys = some start) :
    Sound cfg m.fileSize
        (streamRanges m.totalChunks (max m.numStreams 1) (max m.numStreams 1) 0 0) start ∧
      start.seq = seq ∧ ∀ ke, start.keyEpoch = some ke → ke.epoch ≤ 0 := by
  obtain ⟨hsound, hranges⟩ := receiveStart_streams hcfg.ackEvery_pos htotal hstart
  obtain ⟨skips, -, rfl⟩ := Option.map_eq_some_iff.mp hstart
  refine ⟨⟨hsound, hranges, hmap⟩, rfl, ?_⟩
  intro ke hke
  obtain ⟨keys, -, rfl⟩ := Option.map_eq_some_iff.mp hke
  exact le_rfl

lemma sum_streamRanges_le (totalChunks numStreams : ℕ) :
    ((streamRanges totalChunks (max numStreams 1) (max numStreams 1) 0 0).map Prod.snd).sum ≤
      totalChunks := by
  have hall := sum_counts_streamRanges totalChunks (max numStreams 1) (max numStreams 1) 0 0
  rw [rangesEnd_all (lt_max_of_lt_right Nat.one_pos), Nat.zero_add] at hall
  exact hall.le

/-- Whatever datagrams come in after an accepted manifest: every change of the mapping is in the
missing chunk that a DATA datagram names, no received chunk is written again, the counters count
the flags, and as long as 64 bits are enough to number the replies of the run no access is out of
bounds and nothing overflows. -/
theorem hostile_datagrams_confined {maxFileSize : Option ℕ}
    (hvalid : validateManifest m maxFileSize = .ok ()) (o : TransferOptions)
    (bitmap : Option Bytes) {mmap : Bytes} (hmap : mmap.length = mappedLength m.fileSize)
    (seq : UInt64) (keys : Option SessionKeys) (hopen : TagLength openFn)
    (hzstd : ∀ data n out, P.zstdDecompress data n = some out → out.length ≤ n)
    {start : Receiver} (hstart : receiveStart m bitmap mmap seq keys = some start)
    {es : List RecvEvent}
    (hrun : exec (receiveStep P openFn (recvConfig m o)) start es = some r)
    (hstep : r.step P openFn (recvConfig m o) ev = some (r', out)) :
    (∀ k, r'.mmap[k]? ≠ r.mmap[k]? → NamesByte P (recvConfig m o) m.fileSize r ev k) ∧
    (∀ s ∈ r.streams, ∀ l < s.chunkCount, s.received.getD l false = true →
      ∀ k, (s.chunkBase + l) * m.payloadSize ≤ k → k < (s.chunkBase + l + 1) * m.payloadSize →
        r'.mmap[k]? = r.mmap[k]?) ∧
    (∀ s ∈ r.streams, s.nReceived = s.received.count true) ∧
    (seq.toNat + 194 * (es.length + 1) < 2 ^ 64 →
      Checked.step P openFn (recvConfig m o) r ev = some (r', out)) := by
  have hcfg := configSound_recvConfig hvalid o
  obtain ⟨hsize, hempty⟩ := mappedLength_lt hvalid
  obtain ⟨-, -, hstreams, -, -⟩ := validateManifest_ok hvalid
  obtain ⟨hinit, hseq0, hepoch⟩ := sound_receiveStart hcfg rfl hmap hstart
  have hlen : (streamRanges m.totalChunks (max m.numStreams 1) (max m.numStreams 1) 0 0).length ≤
      64 := by
    rw [length_streamRanges]
    simp only [maxNumStreams] at hstreams
    omega
  obtain ⟨h, hseq, hke⟩ := Sound.run hcfg hlen hinit hepoch hrun
  have hchanged : ∀ k, r'.mmap[k]? ≠ r.mmap[k]? →
      NamesByte P (recvConfig m o) m.fileSize r ev k :=
    fun k => namesByte_of_changed hopen hzstd h hempty hstep
  refine ⟨hchanged, ?_, fun s hs => (h.streams s hs).counted, ?_⟩
  · intro s hs l hl hreceived k hlow hhigh
    by_contra hk
    have hmissing := h.not_received_of_namesByte (pairwise_streamRanges _ _ _ _ _) (hchanged k hk)
      hs hl hlow hhigh
    rw [hmissing] at hreceived
    cases hreceived
  · intro hroom
    have hcount := h.length_streams
    have hready : Ready (recvConfig m o) r := by
      apply h.ready (sum_streamRanges_le m.totalChunks m.numStreams) hsize
      · rw [hseq0] at hseq
        omega
      · intro ke hkeys
        have hle := hke ke hkeys
        omega
    rw [Checked.step_eq hopen hcfg hready]
    exact hstep

/-! ## A two-byte file -/

def sampleManifest : FileManifest := ⟨2, 1, 2, 1, []⟩

def sampleOptions : TransferOptions := ⟨7, false, false, false, none⟩

def dropTag : OpenFn := fun _ _ _ ct =>
  if 16 ≤ ct.length then some (ct.take (ct.length - 16)) else none

abbrev sampleConfig : RecvConfig := recvConfig sampleManifest sampleOptions

abbrev sampleStep : Receiver → RecvEvent → Option Receiver :=
  receiveStep nullPrimitives dropTag sampleConfig

lemma tagLength_dropTag : TagLength dropTag := by
  intro key nonce aad ct pt h
  unfold dropTag at h
  split at h
  · cases h
    rw [length_take]
    omega
  · cases h

def sampleData (chunk : UInt64) (b : UInt8) : RecvEvent :=
  .datagram (encodeDataPacketInto nullPrimitives.crc32c 7 chunk 0 0 0 chunk 0 [b]) (fun _ => 0) 0

lemma zstd_nullPrimitives (data : Bytes) (n : ℕ) (out : Bytes)
    (h : nullPrimitives.zstdDecompress data n = some out) : out.length ≤ n := by
  dsimp only [nullPrimitives] at h
  split at h
  · cases h
    assumption
  · cases h

theorem hostile_datagrams_confined_sampleData :
    ∃ start r r' out, receiveStart sampleManifest none [0, 0] 0 none = some start ∧
      exec sampleStep start [sampleData 1 9] = some r ∧
      r.step nullPrimitives dropTag sampleConfig (sampleData 0 5) = some (r', out) ∧
      r.mmap = [0, 9] ∧ r'.mmap = [5, 9] ∧
      NamesByte nullPrimitives sampleConfig 2 r (sampleData 0 5) 0 ∧
      Checked.step nullPrimitives dropTag sampleConfig r (sampleData 0 5) = some (r', out) := by
  have hvalid : validateManifest sampleManifest none = .ok () := rfl
  obtain ⟨start, r, r', out, hstart, hrun, hstep, hbefore, hafter⟩ : ∃ start r r' out,
      receiveStart sampleManifest none [0, 0] 0 none = some start ∧
      exec sampleStep start [sampleData 1 9] = some r ∧
      r.step nullPrimitives dropTag sampleConfig (sampleData 0 5) = some (r', out) ∧
      r.mmap = [0, 9] ∧ r'.mmap = [5, 9] :=
    ⟨_, _, _, _, rfl, rfl, rfl, rfl, rfl⟩
  obtain ⟨hnames, -, -, hchecked⟩ := hostile_datagrams_confined hvalid sampleOptions none rfl 0 none
    tagLength_dropTag zstd_nullPrimitives hstart hrun hstep
  refine ⟨start, r, r', out, hstart, hrun, hstep, hbefore, hafter, hnames 0 ?_, hchecked ?_⟩
  · rw [hbefore, hafter]
    decide
  · decide

/-- The state after the first chunk came and `seq` replies went out; `fresh` says whether it came
once more since the last ACK. -/
def repeated (fresh : Bool) (seq : UInt64) : Receiver where
  seq := seq
  mmap := [5, 0]
  streams := [{ (new 0 2).markReceived 0 with sinceAck := if fresh then 1 else 0 }]
  keyEpoch := none
  tailArmed := false
  finishReplied := false
  pendingHello := none
  phase := .receiving

lemma exec_repeated (seq : UInt64) :
    exec sampleStep (repeated true seq) [.ackTimer fun _ => 0, sampleData 0 5] =
        some (repeated true (seq + 1)) :=
  rfl

def repeats (n : ℕ) : List RecvEvent :=
  (List.replicate n [.ackTimer fun _ => 0, sampleData 0 5]).flatten

lemma exec_repeats (n : ℕ) (seq : UInt64) :
    exec sampleStep (repeated true seq) (repeats n) =
      some (repeated true (seq + UInt64.ofNat n)) := by
  induction n generalizing seq with
  | zero => exact congrArg (fun q => some (repeated true q)) (UInt64.add_zero seq).symm
  | succ n ih =>
    have hnext : seq + 1 + UInt64.ofNat n = seq + UInt64.ofNat (n + 1) := by
      rw [UInt64.ofNat_add, UInt64.add_assoc, UInt64.add_comm 1]
      rfl
    have hsplit : repeats (n + 1) = [.ackTimer fun _ => 0, sampleData 0 5] ++ repeats n := rfl
    rw [hsplit, exec_append_of (exec_repeated seq) (ih (seq + 1)), hnext]

/-- After `2 ^ 64 - 1` replies to one repeated datagram the next one overflows the counter. -/
theorem reply_counter_overflows :
    ∃ start es r r' out, validateManifest sampleManifest none = .ok () ∧
      receiveStart sampleManifest none [0, 0] 0 none = some start ∧
      exec sampleStep start es = some r ∧
      r.step nullPrimitives dropTag sampleConfig (.ackTimer fun _ => 0) = some (r', out) ∧
      Checked.step nullPrimitives dropTag sampleConfig r (.ackTimer fun _ => 0) = none := by
  obtain ⟨start, hstart, hfirst⟩ : ∃ start,
      receiveStart sampleManifest none [0, 0] 0 none = some start ∧
        exec sampleStep start [sampleData 0 5] = some (repeated true 0) :=
    ⟨_, rfl, rfl⟩
  have hrun := exec_append_of hfirst (exec_repeats (2 ^ 64 - 1) 0)
  exact ⟨start, _, _, _, _, rfl, hstart, hrun, rfl, by decide +kernel⟩

end Favonius.Daemon
