import Favonius.Lib.Execution
import Favonius.Lib.FlagBits
import Favonius.Proto.Packet
import Favonius.Transfer.Geometry

/-!
# Send streams of the client

Per-stream send state and the feedback that moves it: which chunks are acked,
which wait for a retransmit, and how an ACK bitmap or a NACK is applied.  Times
are microseconds since the start of the transfer in a wrapping 32-bit counter.
-/

namespace Favonius.Client

open Execution ByteCodec FlagBits Proto Transfer List
open UInt64 (ofNat)

def chunkInRetx : UInt8 := 0b01

/-- The chunk exists in more than one copy on the wire, so it yields no RTT sample. -/
def chunkRetransmitted : UInt8 := 0b10

structure StreamState where
  id : UInt32
  chunkBase : ℕ
  chunkCount : ℕ
  nextLocal : ℕ
  acked : List Bool
  nAcked : ℕ
  sentUs : List UInt32
  flags : List UInt8
  scanCursor : ℕ
  hcApplied : ℕ
  retxQueue : List ℕ
  acked_length : acked.length = chunkCount
  nAcked_eq : nAcked = acked.count true
  cursor_le : scanCursor ≤ chunkCount
  cursor_acked : ∀ i < scanCursor, acked.getD i false = true
  retx_lt : ∀ c ∈ retxQueue, c < chunkCount
  deriving DecidableEq

namespace StreamState

def new (id : UInt32) (chunkBase chunkCount : ℕ) : StreamState where
  id := id
  chunkBase := chunkBase
  chunkCount := chunkCount
  nextLocal := 0
  acked := List.replicate chunkCount false
  nAcked := 0
  sentUs := List.replicate chunkCount 0
  flags := List.replicate chunkCount 0
  scanCursor := 0
  hcApplied := 0
  retxQueue := []
  acked_length := length_replicate
  nAcked_eq := by simp [count_replicate]
  cursor_le := Nat.zero_le _
  cursor_acked := by simp
  retx_lt := by simp

def hasWork (s : StreamState) : Bool := !s.retxQueue.isEmpty || s.nextLocal < s.chunkCount

def toGlobal (s : StreamState) (localCi : ℕ) : ℕ := s.chunkBase + localCi

def unacked (s : StreamState) (localCi : ℕ) : Bool :=
  localCi < s.acked.length && !s.acked.getD localCi false

/-- Mark a chunk acked and advance the scan cursor over the run this completes;
the flag says whether the chunk was newly acked. -/
def markAcked (s : StreamState) (localCi : ℕ) : StreamState × Bool :=
  if h : s.unacked localCi = true then
    have hnew : localCi < s.acked.length ∧ s.acked.getD localCi false = false := by
      simpa [unacked] using h
    let acked := s.acked.set localCi true
    have hspec := advanceCursor_spec acked s.scanCursor
      (by rw [length_set, s.acked_length]; exact s.cursor_le)
      fun i hi => getD_set_true (s.cursor_acked i hi)
    ({ s with
      acked := acked
      nAcked := s.nAcked + 1
      scanCursor := advanceCursor acked s.scanCursor
      acked_length := by rw [length_set]; exact s.acked_length
      nAcked_eq := by rw [count_set_true hnew.1 hnew.2, s.nAcked_eq]
      cursor_le := by
        have hle := hspec.2.1
        rwa [length_set, s.acked_length] at hle
      cursor_acked := hspec.2.2 }, true)
  else (s, false)

variable {s : StreamState}

lemma unacked_iff {li : ℕ} :
    s.unacked li = true ↔ li < s.chunkCount ∧ s.acked.getD li false = false := by
  simp [unacked, s.acked_length]

/-- What sending reads of a stream; acknowledgements leave it alone. -/
structure SendState where
  id : UInt32
  chunkBase : ℕ
  chunkCount : ℕ
  nextLocal : ℕ
  sentUs : List UInt32
  flags : List UInt8
  retxQueue : List ℕ

def range (s : StreamState) : ℕ × ℕ := (s.chunkBase, s.chunkCount)

def sendState (s : StreamState) : SendState :=
  ⟨s.id, s.chunkBase, s.chunkCount, s.nextLocal, s.sentUs, s.flags, s.retxQueue⟩

/-- What acknowledgements move; sending and retransmits leave it alone. -/
structure AckState where
  id : UInt32
  chunkBase : ℕ
  chunkCount : ℕ
  acked : List Bool

def ackState (s : StreamState) : AckState := ⟨s.id, s.chunkBase, s.chunkCount, s.acked⟩

lemma sendState_markAcked (s : StreamState) (li : ℕ) :
    (s.markAcked li).1.sendState = s.sendState := by
  unfold markAcked
  split <;> rfl

lemma getD_acked_markAcked {li : ℕ} (h : s.unacked li = true) (i : ℕ) :
    (s.markAcked li).1.acked.getD i false = (s.acked.getD i false || decide (i = li)) := by
  have hlt : li < s.acked.length := by
    rw [s.acked_length]
    exact (unacked_iff.mp h).1
  rw [markAcked, dif_pos h]
  simp only [getD_eq_getElem?_getD, getElem?_set]
  by_cases hi : li = i
  · rw [if_pos hi, if_pos hlt]
    simp [hi]
  · simp [if_neg hi, Ne.symm hi]

def rttSample (s : StreamState) (localCi : ℕ) (nowUs : UInt32) : Option ℕ :=
  if s.flags.getD localCi 0 &&& chunkRetransmitted ≠ 0 then none
  else some (max (nowUs - s.sentUs.getD localCi 0).toNat 1)

def flagRetx (s : StreamState) (localCi : ℕ) : List UInt8 :=
  s.flags.modify localCi (· ||| (chunkInRetx ||| chunkRetransmitted))

def pushBack (s : StreamState) (localCi : ℕ) (h : localCi < s.chunkCount) : StreamState :=
  { s with
    retxQueue := s.retxQueue ++ [localCi]
    flags := s.flagRetx localCi
    retx_lt := by
      intro c hc
      rcases mem_append.mp hc with hc | hc
      · exact s.retx_lt c hc
      · rwa [mem_singleton.mp hc] }

def pushFront (s : StreamState) (localCi : ℕ) (h : localCi < s.chunkCount) : StreamState :=
  { s with
    retxQueue := localCi :: s.retxQueue
    flags := s.flagRetx localCi
    retx_lt := by
      intro c hc
      rcases mem_cons.mp hc with rfl | hc
      · exact h
      · exact s.retx_lt c hc }

def timedOut (s : StreamState) (nowUs retxTimeoutUs : UInt32) (li : ℕ) : Bool :=
  s.unacked li && (s.flags.getD li 0 &&& chunkInRetx == 0 &&
    retxTimeoutUs < nowUs - s.sentUs.getD li 0)

def timeoutStep (nowUs retxTimeoutUs : UInt32) (acc : StreamState × List ℕ) (li : ℕ) :
    StreamState × List ℕ :=
  if h : acc.1.timedOut nowUs retxTimeoutUs li = true then
    (acc.1.pushBack li (unacked_iff.mp (Bool.and_eq_true _ _ ▸ h).1).1,
      acc.2 ++ [acc.1.toGlobal li])
  else acc

/-- Queue the sent chunks whose last send is older than the timeout; the second
component lists them by global index. -/
def queueTimedOut (s : StreamState) (nowUs retxTimeoutUs : UInt32) : StreamState × List ℕ :=
  let sentCount := min s.nextLocal s.chunkCount
  let first := min s.scanCursor sentCount
  (List.range' first (sentCount - first)).foldl (timeoutStep nowUs retxTimeoutUs) (s, [])

lemma ackState_timeoutStep (nowUs retxTimeoutUs : UInt32) (acc : StreamState × List ℕ) (li : ℕ) :
    (timeoutStep nowUs retxTimeoutUs acc li).1.ackState = acc.1.ackState := by
  unfold timeoutStep
  split <;> rfl

lemma ackState_queueTimedOut (s : StreamState) (nowUs retxTimeoutUs : UInt32) :
    (s.queueTimedOut nowUs retxTimeoutUs).1.ackState = s.ackState :=
  foldl_frame (fun acc : StreamState × List ℕ => acc.1.ackState)
    (ackState_timeoutStep nowUs retxTimeoutUs) _ _

lemma nAcked_le (s : StreamState) : s.nAcked ≤ s.chunkCount := by
  rw [s.nAcked_eq, ← s.acked_length]
  exact count_le_length

lemma acked_of_nAcked (h : s.chunkCount ≤ s.nAcked) {i : ℕ} (hi : i < s.chunkCount) :
    s.acked.getD i false = true := by
  have hcount : s.acked.count true = s.acked.length := by
    rw [← s.nAcked_eq, s.acked_length]
    exact le_antisymm s.nAcked_le h
  have hlt : i < s.acked.length := by rwa [s.acked_length]
  rw [getD_eq_getElem?_getD, getElem?_eq_getElem hlt]
  exact (count_eq_length.mp hcount _ (getElem_mem hlt)).symm

lemma acked_of_sum_le {streams : List StreamState}
    (h : (streams.map chunkCount).sum ≤ (streams.map nAcked).sum) :
    ∀ s ∈ streams, ∀ i < s.chunkCount, s.acked.getD i false = true := by
  induction streams with
  | nil => simp
  | cons t streams ih =>
    have hrest : (streams.map nAcked).sum ≤ (streams.map chunkCount).sum :=
      sum_le_sum fun s _ => s.nAcked_le
    have ht := t.nAcked_le
    simp only [map_cons, sum_cons] at h
    intro s hs i hi
    rcases mem_cons.mp hs with rfl | hs
    · exact acked_of_nAcked (by omega) hi
    · exact ih (by omega) s hs i hi

end StreamState

def buildStreams (totalChunks numStreams : ℕ) : List StreamState :=
  ((streamRanges totalChunks (max numStreams 1) numStreams 0 0).zipIdx).map fun r =>
    .new (UInt32.ofNat r.2) r.1.1 r.1.2

structure AckProgress where
  stream : StreamState
  inFlight : ℕ
  /-- Packet number and RTT sample of each chunk newly acked, for congestion control. -/
  newlyAcked : List (UInt64 × Option ℕ)

/-- One reported packet number.  Numbers outside the stream are ignored. -/
def ackPn (wireSize : ℕ) (nowUs : UInt32) (p : AckProgress) (pn : UInt64) : AckProgress :=
  let localCi := (pn - ofNat p.stream.chunkBase).toNat
  if p.stream.unacked localCi then
    { stream := (p.stream.markAcked localCi).1
      inFlight := p.inFlight - wireSize
      newlyAcked := p.newlyAcked ++ [(pn, p.stream.rttSample localCi nowUs)] }
  else p

variable (wireSize : ℕ) (ack : AckBitmap) (payload : Bytes) (nowUs : UInt32)

lemma sendState_foldl_ackPn (pns : List UInt64) (p : AckProgress) :
    (pns.foldl (ackPn wireSize nowUs) p).stream.sendState = p.stream.sendState := by
  refine foldl_frame (fun q : AckProgress => q.stream.sendState) ?_ pns p
  intro q pn
  dsimp only [ackPn]
  split
  · exact q.stream.sendState_markAcked _
  · rfl

lemma chunkBase_foldl_ackPn (pns : List UInt64) (p : AckProgress) :
    (pns.foldl (ackPn wireSize nowUs) p).stream.chunkBase = p.stream.chunkBase :=
  congrArg StreamState.SendState.chunkBase (sendState_foldl_ackPn wireSize nowUs pns p)

lemma chunkCount_foldl_ackPn (pns : List UInt64) (p : AckProgress) :
    (pns.foldl (ackPn wireSize nowUs) p).stream.chunkCount = p.stream.chunkCount :=
  congrArg StreamState.SendState.chunkCount (sendState_foldl_ackPn wireSize nowUs pns p)

lemma getD_acked_ackPn (p : AckProgress) (pn : UInt64) (i : ℕ) :
    (ackPn wireSize nowUs p pn).stream.acked.getD i false = true ↔
      p.stream.acked.getD i false = true ∨
        (i < p.stream.chunkCount ∧ (pn - ofNat p.stream.chunkBase).toNat = i) := by
  unfold ackPn
  dsimp only
  split
  · rename_i hnew
    rw [StreamState.getD_acked_markAcked hnew, Bool.or_eq_true, decide_eq_true_eq]
    have hlt := (StreamState.unacked_iff.mp hnew).1
    constructor
    · rintro (h | rfl)
      · exact .inl h
      · exact .inr ⟨hlt, rfl⟩
    · rintro (h | ⟨-, rfl⟩)
      · exact .inl h
      · exact .inr rfl
  · rename_i hold
    refine ⟨.inl, ?_⟩
    rintro (h | ⟨hi, rfl⟩)
    · exact h
    · by_contra hne
      exact hold (StreamState.unacked_iff.mpr ⟨hi, by simpa using hne⟩)

lemma getD_acked_foldl_ackPn (pns : List UInt64) (p : AckProgress) (i : ℕ) :
    (pns.foldl (ackPn wireSize nowUs) p).stream.acked.getD i false = true ↔
      p.stream.acked.getD i false = true ∨
        (i < p.stream.chunkCount ∧
          ∃ pn ∈ pns, (pn - ofNat p.stream.chunkBase).toNat = i) := by
  induction pns generalizing p with
  | nil => simp
  | cons pn pns ih =>
    have hbase := chunkBase_foldl_ackPn wireSize nowUs [pn] p
    have hcount := chunkCount_foldl_ackPn wireSize nowUs [pn] p
    simp only [foldl_cons, foldl_nil] at hbase hcount
    rw [foldl_cons, ih, getD_acked_ackPn, hbase, hcount]
    simp only [exists_mem_cons_iff]
    tauto

/-- The contiguous prefix is clamped to the stream, which also rejects the
receiver's "nothing contiguous yet" sentinel, and starts at what was applied before. -/
def prefixStart (ack : AckBitmap) (s : StreamState) : Option ℕ :=
  if ack.basePacketNumber ≤ ack.highestContiguous ∧
      ack.highestContiguous.toNat < s.chunkBase + s.chunkCount then
    let lo := max (max ack.basePacketNumber.toNat s.chunkBase) (s.chunkBase + s.hcApplied)
    if lo ≤ ack.highestContiguous.toNat then some lo else none
  else none

def applyPrefix (ack : AckBitmap) (wireSize : ℕ) (nowUs : UInt32) (p : AckProgress) :
    AckProgress :=
  match prefixStart ack p.stream with
  | none => p
  | some lo =>
    let q := ((List.range' lo (ack.highestContiguous.toNat + 1 - lo)).map ofNat).foldl
      (ackPn wireSize nowUs) p
    { q with
      stream := { q.stream with
        hcApplied := ack.highestContiguous.toNat - q.stream.chunkBase + 1 } }

def bitmapPns (ack : AckBitmap) : List UInt64 :=
  ((List.range (8 * ack.bitmap.length)).filter (bitSet ack.bitmap)).map fun j =>
    ack.highestContiguous + 1 + ofNat j

def applyAck (ack : AckBitmap) (wireSize : ℕ) (nowUs : UInt32) (s : StreamState)
    (inFlight : ℕ) : AckProgress :=
  (bitmapPns ack).foldl (ackPn wireSize nowUs) (applyPrefix ack wireSize nowUs ⟨s, inFlight, []⟩)

lemma sendState_applyPrefix (wireSize : ℕ) (nowUs : UInt32) (p : AckProgress) :
    (applyPrefix ack wireSize nowUs p).stream.sendState = p.stream.sendState := by
  rw [applyPrefix]
  split
  · rfl
  · exact sendState_foldl_ackPn _ _ _ _

lemma sendState_applyAck (wireSize : ℕ) (nowUs : UInt32) (s : StreamState) (inFlight : ℕ) :
    (applyAck ack wireSize nowUs s inFlight).stream.sendState = s.sendState := by
  rw [applyAck, sendState_foldl_ackPn, sendState_applyPrefix]

lemma getD_acked_applyPrefix (wireSize : ℕ) (nowUs : UInt32) (p : AckProgress)
    (hend : p.stream.chunkBase + p.stream.chunkCount ≤ 2 ^ 64) (i : ℕ) :
    (applyPrefix ack wireSize nowUs p).stream.acked.getD i false = true ↔
      p.stream.acked.getD i false = true ∨
        ∃ lo, prefixStart ack p.stream = some lo ∧ lo ≤ p.stream.chunkBase + i ∧
          p.stream.chunkBase + i ≤ ack.highestContiguous.toNat := by
  unfold applyPrefix
  cases hstart : prefixStart ack p.stream with
  | none => simp
  | some lo =>
    obtain ⟨hhc, hlo⟩ : ack.highestContiguous.toNat < p.stream.chunkBase + p.stream.chunkCount ∧
        p.stream.chunkBase ≤ lo := by
      simp only [prefixStart] at hstart
      split_ifs at hstart with hclamp hle
      refine ⟨hclamp.2, ?_⟩
      cases hstart
      omega
    simp only [getD_acked_foldl_ackPn, Option.some.injEq]
    refine or_congr_right ?_
    -- a number of the range minus the base never wraps
    have hlocal : ∀ pn : ℕ, lo ≤ pn → pn ≤ ack.highestContiguous.toNat →
        (ofNat pn - ofNat p.stream.chunkBase).toNat = pn - p.stream.chunkBase := by
      intro pn hge hle
      exact toNat_ofNat_sub_ofNat (by omega) (by omega)
    constructor
    · rintro ⟨hi, pn, hmem, hpn⟩
      obtain ⟨k, hk, rfl⟩ := List.mem_map.mp hmem
      rw [mem_range'_1] at hk
      rw [hlocal k hk.1 (by omega)] at hpn
      exact ⟨lo, rfl, by omega, by omega⟩
    · rintro ⟨lo, rfl, hge, hle⟩
      refine ⟨by omega, ofNat (p.stream.chunkBase + i), ?_, ?_⟩
      · exact mem_map_of_mem (mem_range'_1.mpr ⟨hge, by omega⟩)
      · rw [hlocal _ hge hle]
        omega

lemma getD_acked_applyAck (wireSize : ℕ) (nowUs : UInt32) (s : StreamState) (inFlight : ℕ)
    (hend : s.chunkBase + s.chunkCount ≤ 2 ^ 64) (i : ℕ) :
    (applyAck ack wireSize nowUs s inFlight).stream.acked.getD i false = true ↔
      s.acked.getD i false = true ∨
        (∃ lo, prefixStart ack s = some lo ∧ lo ≤ s.chunkBase + i ∧
          s.chunkBase + i ≤ ack.highestContiguous.toNat) ∨
        (i < s.chunkCount ∧
          ∃ pn ∈ bitmapPns ack, (pn - ofNat s.chunkBase).toNat = i) := by
  have hframe := sendState_applyPrefix ack wireSize nowUs ⟨s, inFlight, []⟩
  have hbase : (applyPrefix ack wireSize nowUs ⟨s, inFlight, []⟩).stream.chunkBase =
      s.chunkBase := congrArg StreamState.SendState.chunkBase hframe
  have hcount : (applyPrefix ack wireSize nowUs ⟨s, inFlight, []⟩).stream.chunkCount =
      s.chunkCount := congrArg StreamState.SendState.chunkCount hframe
  rw [applyAck, getD_acked_foldl_ackPn, hbase, hcount,
    getD_acked_applyPrefix ack wireSize nowUs ⟨s, inFlight, []⟩ hend, or_assoc]

def processAckBitmap (payload : Bytes) (streams : List StreamState) (inFlight wireSize : ℕ)
    (nowUs : UInt32) : List StreamState × ℕ × List (UInt64 × Option ℕ) :=
  match AckBitmap.decode payload with
  | .error _ => (streams, inFlight, [])
  | .ok ack =>
    match streams[ack.streamId.toNat]? with
    | none => (streams, inFlight, [])
    | some s =>
      let p := applyAck ack wireSize nowUs s inFlight
      (streams.set ack.streamId.toNat p.stream, p.inFlight, p.newlyAcked)

lemma map_sendState_processAckBitmap (streams : List StreamState) (inFlight wireSize : ℕ)
    (nowUs : UInt32) :
    (processAckBitmap payload streams inFlight wireSize nowUs).1.map StreamState.sendState =
      streams.map StreamState.sendState := by
  unfold processAckBitmap
  cases AckBitmap.decode payload with
  | error e => rfl
  | ok ack =>
    dsimp only
    cases hs : streams[ack.streamId.toNat]? with
    | none => rfl
    | some s =>
      obtain ⟨hlt, rfl⟩ := List.getElem?_eq_some_iff.mp hs
      rw [map_set, sendState_applyAck, ← map_set, set_getElem_self hlt]

/-- A NACK for a chunk sent within the last 50 ms was for an older transmission. -/
def nackPn (nowUs : UInt32) (acc : StreamState × List ℕ) (pn : ℕ) : StreamState × List ℕ :=
  let s := acc.1
  let localCi := (ofNat pn - ofNat s.chunkBase).toNat
  if h : s.unacked localCi = true then
    if s.flags.getD localCi 0 &&& chunkInRetx = 0 then
      let recentlySent := if localCi < s.sentUs.length then
        decide (nowUs - s.sentUs.getD localCi 0 < 50000) else false
      if recentlySent then acc
      else (s.pushFront localCi (StreamState.unacked_iff.mp h).1, acc.2 ++ [pn])
    else acc
  else acc

def nackRange (nowUs : UInt32) (acc : StreamState × List ℕ) (r : UInt64 × UInt64) :
    StreamState × List ℕ :=
  let lo := max r.1.toNat acc.1.chunkBase
  let hi := min r.2.toNat (acc.1.chunkBase + acc.1.chunkCount - 1)
  (List.range' lo (hi + 1 - lo)).foldl (nackPn nowUs) acc

lemma ackState_nackPn (acc : StreamState × List ℕ) (pn : ℕ) :
    (nackPn nowUs acc pn).1.ackState = acc.1.ackState := by
  dsimp only [nackPn]
  split_ifs <;> rfl

lemma ackState_nackRange (acc : StreamState × List ℕ) (r : UInt64 × UInt64) :
    (nackRange nowUs acc r).1.ackState = acc.1.ackState :=
  foldl_frame (fun acc : StreamState × List ℕ => acc.1.ackState)
    (ackState_nackPn nowUs) _ _

/-- Queue the missing chunks for retransmit; the list is what congestion control is told. -/
def processNack (payload : Bytes) (streams : List StreamState) (nowUs : UInt32) :
    List StreamState × List ℕ :=
  match NackRange.decode payload with
  | .error _ => (streams, [])
  | .ok nack =>
    match streams[nack.streamId.toNat]? with
    | none => (streams, [])
    | some s =>
      let acc := nack.ranges.foldl (nackRange nowUs) (s, [])
      (streams.set nack.streamId.toNat acc.1, acc.2)

lemma map_ackState_processNack (streams : List StreamState) (nowUs : UInt32) :
    (processNack payload streams nowUs).1.map StreamState.ackState =
      streams.map StreamState.ackState := by
  unfold processNack
  cases NackRange.decode payload with
  | error e => rfl
  | ok nack =>
    dsimp only
    cases hs : streams[nack.streamId.toNat]? with
    | none => rfl
    | some s =>
      have hstate : (nack.ranges.foldl (nackRange nowUs) (s, [])).1.ackState = s.ackState :=
        foldl_frame (fun acc : StreamState × List ℕ => acc.1.ackState)
          (ackState_nackRange nowUs) _ _
      obtain ⟨hlt, rfl⟩ := List.getElem?_eq_some_iff.mp hs
      rw [map_set, hstate, ← map_set, set_getElem_self hlt]

end Favonius.Client
