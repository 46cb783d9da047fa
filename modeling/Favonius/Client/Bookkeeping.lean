import Favonius.Client.Sender

/-!
# Retransmit bookkeeping of a send stream

Marking, staging, ACKs, NACKs and timeout scans all change the queue, the flags and the cursors of a
stream.  Each of them is a sequence of a few small moves, and what holds of a stream is proved of
the moves.  The log lists the transmissions so far, chunk and time, the latest one last.
-/

namespace Favonius.Client

open Execution FlagBits Proto List

namespace StreamState

def InRetx (s : StreamState) (c : ℕ) : Prop := s.flags.getD c 0 &&& chunkInRetx ≠ 0

def Retransmitted (s : StreamState) (c : ℕ) : Prop := s.flags.getD c 0 &&& chunkRetransmitted ≠ 0

def stamp (s : StreamState) (c : ℕ) (nowUs : UInt32) : StreamState :=
  { s with sentUs := s.sentUs.set c nowUs }

def reachNext (s : StreamState) : StreamState := { s with nextLocal := s.nextLocal + 1 }

end StreamState

abbrev SendLog := List (ℕ × UInt32)

/-! ## Operations -/

inductive StreamOp where
  | mark (localCi : ℕ)
  | stage (nowUs : UInt32)
  | ack (report : AckBitmap) (wireSize inFlight : ℕ) (nowUs : UInt32)
  | nack (ranges : List (UInt64 × UInt64)) (nowUs : UInt32)
  | scan (nowUs retxTimeoutUs : UInt32)

def StreamOp.isNack : StreamOp → Bool
  | .nack _ _ => true
  | _ => false

/-- What staging leaves once a chunk was chosen, or none. -/
def staged (chosen : Option ℕ × StreamState) (nowUs : UInt32) (log : SendLog) :
    StreamState × SendLog :=
  match chosen with
  | (none, s) => (s, log)
  | (some c, s) => (s.stamp c nowUs, log ++ [(c, nowUs)])

def StreamOp.apply (a : StreamState × SendLog) : StreamOp → StreamState × SendLog
  | .mark localCi => ((a.1.markAcked localCi).1, a.2)
  | .stage nowUs => staged a.1.nextChunk nowUs a.2
  | .ack report wireSize inFlight nowUs =>
    ((applyAck report wireSize nowUs a.1 inFlight).stream, a.2)
  | .nack ranges nowUs => ((ranges.foldl (nackRange nowUs) (a.1, [])).1, a.2)
  | .scan nowUs retxTimeoutUs => ((a.1.queueTimedOut nowUs retxTimeoutUs).1, a.2)

def StreamState.run (s : StreamState) (ops : List StreamOp) : StreamState × SendLog :=
  ops.foldl StreamOp.apply (s, [])

/-! ## Moves -/

/-- One change of a stream.  Only NACKs, where there are any, queue a chunk that was never
reached. -/
inductive Move (nacks : Prop) : StreamState × SendLog → StreamState × SendLog → Prop where
  | mark {s : StreamState} {log : SendLog} {c : ℕ} (hopen : s.unacked c = true) :
      Move nacks (s, log) ((s.markAcked c).1, log)
  | pushBack {s : StreamState} {log : SendLog} {c : ℕ} (hlt : c < s.chunkCount)
      (hopen : s.unacked c = true) (hout : ¬s.InRetx c) (hreached : c < s.nextLocal) :
      Move nacks (s, log) (s.pushBack c hlt, log)
  | pushFront {s : StreamState} {log : SendLog} {c : ℕ} (hlt : c < s.chunkCount)
      (hopen : s.unacked c = true) (hout : ¬s.InRetx c) (hnacks : nacks) :
      Move nacks (s, log) (s.pushFront c hlt, log)
  | drop {s : StreamState} {log : SendLog} {c : ℕ} {rest : List ℕ}
      (hrest : ∀ d ∈ rest, d < s.chunkCount) (hqueue : s.retxQueue = c :: rest)
      (hacked : s.acked.getD c false = true) :
      Move nacks (s, log) (s.clearInRetx c rest hrest, log)
  | resend {s : StreamState} {log : SendLog} {c : ℕ} {rest : List ℕ}
      (hrest : ∀ d ∈ rest, d < s.chunkCount) (hqueue : s.retxQueue = c :: rest)
      (hopen : s.acked.getD c false = false) (nowUs : UInt32) :
      Move nacks (s, log) ((s.clearInRetx c rest hrest).stamp c nowUs, log ++ [(c, nowUs)])
  | skip {s : StreamState} {log : SendLog} (hlt : s.nextLocal < s.chunkCount)
      (hacked : s.acked.getD s.nextLocal false = true) : Move nacks (s, log) (s.reachNext, log)
  | first {s : StreamState} {log : SendLog} (hlt : s.nextLocal < s.chunkCount)
      (hopen : s.acked.getD s.nextLocal false = false) (nowUs : UInt32) :
      Move nacks (s, log) (s.reachNext.stamp s.nextLocal nowUs, log ++ [(s.nextLocal, nowUs)])
  | cache {s : StreamState} {log : SendLog} (hcApplied : ℕ) :
      Move nacks (s, log) ({ s with hcApplied }, log)

abbrev Moves (nacks : Prop) : StreamState × SendLog → StreamState × SendLog → Prop :=
  Relation.ReflTransGen (Move nacks)

section Moves

variable {nacks : Prop} {log : SendLog}

lemma moves_markAcked (s : StreamState) (c : ℕ) :
    Moves nacks (s, log) ((s.markAcked c).1, log) := by
  by_cases hopen : s.unacked c = true
  · exact .single (.mark hopen)
  · rw [StreamState.markAcked, dif_neg hopen]

lemma moves_ackPn (wireSize : ℕ) (nowUs : UInt32) (pns : List UInt64) (p : AckProgress) :
    Moves nacks (p.stream, log) ((pns.foldl (ackPn wireSize nowUs) p).stream, log) := by
  refine foldl_moves (fun q : AckProgress => (q.stream, log)) ?_ pns p
  intro q pn
  dsimp only [ackPn]
  split
  · rename_i hopen
    exact .single (.mark hopen)
  · exact .refl

lemma moves_applyAck (ack : AckBitmap) (wireSize : ℕ) (nowUs : UInt32) (s : StreamState)
    (inFlight : ℕ) :
    Moves nacks (s, log) ((applyAck ack wireSize nowUs s inFlight).stream, log) := by
  have hprefix : Moves nacks (s, log)
      ((applyPrefix ack wireSize nowUs ⟨s, inFlight, []⟩).stream, log) := by
    unfold applyPrefix
    split
    · exact .refl
    · exact (moves_ackPn wireSize nowUs _ ⟨s, inFlight, []⟩).tail (.cache _)
  exact hprefix.trans (moves_ackPn wireSize nowUs _ _)

lemma moves_nackPn (hnacks : nacks) (nowUs : UInt32) (acc : StreamState × List ℕ) (pn : ℕ) :
    Moves nacks (acc.1, log) ((nackPn nowUs acc pn).1, log) := by
  dsimp only [nackPn]
  split_ifs with hopen hflag
  all_goals try exact .refl
  all_goals exact .single (.pushFront (StreamState.unacked_iff.mp hopen).1 hopen (not_not.mpr hflag)
    hnacks)

lemma moves_nack (hnacks : nacks) (nowUs : UInt32) (ranges : List (UInt64 × UInt64))
    (s : StreamState) :
    Moves nacks (s, log) ((ranges.foldl (nackRange nowUs) (s, [])).1, log) := by
  refine foldl_moves (fun acc : StreamState × List ℕ => (acc.1, log)) ?_ ranges (s, [])
  intro acc r
  exact foldl_moves (fun acc : StreamState × List ℕ => (acc.1, log))
    (moves_nackPn hnacks nowUs) _ acc

lemma nextLocal_timeoutStep (nowUs retxTimeoutUs : UInt32) (acc : StreamState × List ℕ) (li : ℕ) :
    (StreamState.timeoutStep nowUs retxTimeoutUs acc li).1.nextLocal = acc.1.nextLocal := by
  unfold StreamState.timeoutStep
  split <;> rfl

lemma nextLocal_queueTimedOut (s : StreamState) (nowUs retxTimeoutUs : UInt32) :
    (s.queueTimedOut nowUs retxTimeoutUs).1.nextLocal = s.nextLocal :=
  foldl_frame (fun acc : StreamState × List ℕ => acc.1.nextLocal)
    (nextLocal_timeoutStep nowUs retxTimeoutUs) _ _

lemma moves_queueTimedOut (nowUs retxTimeoutUs : UInt32) (s : StreamState) :
    Moves nacks (s, log) ((s.queueTimedOut nowUs retxTimeoutUs).1, log) := by
  -- the scan ends below the next unsent chunk, which it does not move
  refine (foldlRecOn (motive := fun acc : StreamState × List ℕ =>
    Moves nacks (s, log) (acc.1, log) ∧ acc.1.nextLocal = s.nextLocal) _ _ ⟨.refl, rfl⟩ ?_).1
  rintro acc ⟨hmoves, hnext⟩ li hli
  refine ⟨hmoves.trans ?_, (nextLocal_timeoutStep nowUs retxTimeoutUs acc li).trans hnext⟩
  rw [mem_range'_1] at hli
  unfold StreamState.timeoutStep
  split
  · rename_i hdue
    obtain ⟨hopen, hrest⟩ := Bool.and_eq_true_iff.mp hdue
    obtain ⟨hflag, -⟩ := Bool.and_eq_true_iff.mp hrest
    exact .single (.pushBack (StreamState.unacked_iff.mp hopen).1 hopen
      (not_not.mpr (beq_iff_eq.mp hflag)) (by omega))
  · exact .refl

lemma moves_popRetx (s : StreamState) (queue : List ℕ) (h : ∀ c ∈ queue, c < s.chunkCount)
    (hqueue : s.retxQueue = queue) (nowUs : UInt32) :
    Moves nacks (s, log) (staged (s.popRetx queue h) nowUs log) := by
  induction queue generalizing s with
  | nil =>
    cases s
    subst hqueue
    exact .refl
  | cons c rest ih =>
    have hrest : ∀ d ∈ rest, d < s.chunkCount := fun d hd => h d (mem_cons_of_mem c hd)
    simp only [StreamState.popRetx]
    split
    · rename_i hopen
      exact .single (.resend hrest hqueue hopen nowUs)
    · rename_i hacked
      refine .trans (.single (.drop hrest hqueue ?_)) (ih (s.clearInRetx c rest hrest) hrest rfl)
      exact Bool.not_eq_false _ ▸ hacked

lemma moves_nextUnsent (fuel : ℕ) (s : StreamState) (nowUs : UInt32) :
    Moves nacks (s, log) (staged (StreamState.nextUnsent fuel s) nowUs log) := by
  induction fuel generalizing s with
  | zero => exact .refl
  | succ fuel ih =>
    simp only [StreamState.nextUnsent]
    split_ifs with hlt hacked
    · exact .trans (.single (.skip hlt hacked)) (ih s.reachNext)
    · exact .single (.first hlt (Bool.not_eq_true _ ▸ hacked) nowUs)
    · exact .refl

lemma moves_nextChunk (s : StreamState) (nowUs : UInt32) :
    Moves nacks (s, log) (staged s.nextChunk nowUs log) := by
  have hpop : Moves nacks (s, log) (staged (s.popRetx s.retxQueue s.retx_lt) nowUs log) :=
    moves_popRetx s s.retxQueue s.retx_lt rfl nowUs
  unfold StreamState.nextChunk
  split
  · rename_i hpopped
    rwa [hpopped] at hpop
  · rename_i hpopped
    rw [hpopped] at hpop
    exact .trans hpop (moves_nextUnsent _ _ nowUs)

lemma moves_apply (a : StreamState × SendLog) (op : StreamOp) (hop : op.isNack = true → nacks) :
    Moves nacks a (op.apply a) := by
  obtain ⟨s, log⟩ := a
  cases op with
  | mark localCi => exact moves_markAcked s localCi
  | stage nowUs => exact moves_nextChunk s nowUs
  | ack report wireSize inFlight nowUs => exact moves_applyAck report wireSize nowUs s inFlight
  | nack ranges nowUs => exact moves_nack (hop rfl) nowUs ranges s
  | scan nowUs retxTimeoutUs => exact moves_queueTimedOut nowUs retxTimeoutUs s

lemma moves_run (s : StreamState) (ops : List StreamOp)
    (hops : ∀ op ∈ ops, op.isNack = true → nacks) : Moves nacks (s, []) (s.run ops) := by
  refine foldlRecOn (motive := fun b : StreamState × SendLog => Moves nacks (s, []) b) _ _
    .refl ?_
  intro b hb op hop
  exact hb.trans (moves_apply b op (hops op hop))

end Moves

/-! ## Flags -/

namespace StreamState

variable {s : StreamState} {c : ℕ}

lemma flagRetx_bit (hc : c < s.flags.length) {bit : UInt8}
    (hbit : (chunkInRetx ||| chunkRetransmitted) &&& bit ≠ 0) (d : ℕ) :
    (s.flagRetx c).getD d 0 &&& bit ≠ 0 ↔ d = c ∨ s.flags.getD d 0 &&& bit ≠ 0 := by
  rw [flagRetx, getD_modify _ hc]
  split
  · rename_i heq
    exact ⟨fun _ => .inl heq, fun _ => or_and_ne_zero hbit _⟩
  · rename_i hne
    exact ⟨.inr, fun h => h.resolve_left hne⟩

variable {rest : List ℕ}

lemma inRetx_clearInRetx (hc : c < s.flags.length) (hrest : ∀ d ∈ rest, d < s.chunkCount)
    (d : ℕ) : (s.clearInRetx c rest hrest).InRetx d ↔ d ≠ c ∧ s.InRetx d := by
  rw [InRetx, clearInRetx, getD_modify _ hc]
  split
  · rename_i heq
    refine ⟨fun h => absurd ?_ h, fun h => absurd heq h.1⟩
    rw [UInt8.and_assoc]
    exact UInt8.and_zero
  · rename_i hne
    exact ⟨fun h => ⟨hne, h⟩, fun h => h.2⟩

lemma retransmitted_clearInRetx (hc : c < s.flags.length) (hrest : ∀ d ∈ rest, d < s.chunkCount)
    (d : ℕ) : (s.clearInRetx c rest hrest).Retransmitted d ↔ s.Retransmitted d := by
  rw [Retransmitted, clearInRetx, getD_modify _ hc]
  split
  · rw [UInt8.and_assoc]
    rfl
  · rfl

/-! ## The queue and its flags -/

structure Booked (s : StreamState) : Prop where
  flags_length : s.flags.length = s.chunkCount
  sentUs_length : s.sentUs.length = s.chunkCount
  nextLocal_le : s.nextLocal ≤ s.chunkCount
  nodup : s.retxQueue.Nodup
  flagged : ∀ c, s.InRetx c ↔ c ∈ s.retxQueue

lemma booked_new (id : UInt32) (chunkBase chunkCount : ℕ) :
    (new id chunkBase chunkCount).Booked where
  flags_length := length_replicate
  sentUs_length := length_replicate
  nextLocal_le := Nat.zero_le _
  nodup := nodup_nil
  flagged c := by
    have hzero : (List.replicate chunkCount (0 : UInt8)).getD c 0 = 0 := by
      rw [getD_eq_getElem?_getD, getElem?_replicate]
      split <;> rfl
    rw [InRetx, new, hzero]
    simp

section

variable (h : s.Booked)
include h

lemma Booked.congr {t : StreamState} (heq : t.sendState = s.sendState) :
    t.Booked := by
  simp only [sendState, SendState.mk.injEq] at heq
  obtain ⟨-, -, hcount, hnext, hsent, hflags, hqueue⟩ := heq
  constructor
  · rw [hflags, hcount]
    exact h.flags_length
  · rw [hsent, hcount]
    exact h.sentUs_length
  · rw [hnext, hcount]
    exact h.nextLocal_le
  · rw [hqueue]
    exact h.nodup
  · intro c
    rw [InRetx, hflags, hqueue]
    exact h.flagged c

lemma Booked.fresh (hout : ¬s.InRetx c) : c ∉ s.retxQueue :=
  fun hmem => hout ((h.flagged c).mpr hmem)

lemma Booked.pushBack (hlt : c < s.chunkCount) (hout : ¬s.InRetx c) :
    (s.pushBack c hlt).Booked where
  flags_length := (length_modify ..).trans h.flags_length
  sentUs_length := h.sentUs_length
  nextLocal_le := h.nextLocal_le
  nodup := by
    refine Nodup.append h.nodup (nodup_singleton c) ?_
    rw [disjoint_singleton]
    exact h.fresh hout
  flagged d := by
    rw [InRetx, StreamState.pushBack, flagRetx_bit (h.flags_length ▸ hlt) (by decide),
      mem_append, mem_singleton, or_comm]
    exact or_congr_left (h.flagged d)

lemma Booked.pushFront (hlt : c < s.chunkCount) (hout : ¬s.InRetx c) :
    (s.pushFront c hlt).Booked where
  flags_length := (length_modify ..).trans h.flags_length
  sentUs_length := h.sentUs_length
  nextLocal_le := h.nextLocal_le
  nodup := nodup_cons.mpr ⟨h.fresh hout, h.nodup⟩
  flagged d := by
    rw [InRetx, StreamState.pushFront, flagRetx_bit (h.flags_length ▸ hlt) (by decide), mem_cons]
    exact or_congr_right (h.flagged d)

lemma Booked.clearInRetx (hrest : ∀ d ∈ rest, d < s.chunkCount)
    (hqueue : s.retxQueue = c :: rest) :
    (s.clearInRetx c rest hrest).Booked where
  flags_length := (length_modify ..).trans h.flags_length
  sentUs_length := h.sentUs_length
  nextLocal_le := h.nextLocal_le
  nodup := by
    have hnodup := h.nodup
    rw [hqueue] at hnodup
    exact hnodup.of_cons
  flagged d := by
    have hlt : c < s.flags.length := by
      rw [h.flags_length]
      exact s.retx_lt c (hqueue ▸ mem_cons_self)
    have hnodup := h.nodup
    rw [hqueue, nodup_cons] at hnodup
    rw [inRetx_clearInRetx hlt, h.flagged d, hqueue, mem_cons]
    constructor
    · rintro ⟨hne, hmem⟩
      exact hmem.resolve_left hne
    · intro hmem
      exact ⟨fun heq => hnodup.1 (heq ▸ hmem), .inr hmem⟩

lemma Booked.stamp (c : ℕ) (nowUs : UInt32) : (s.stamp c nowUs).Booked :=
  ⟨h.flags_length, length_set.trans h.sentUs_length, h.nextLocal_le, h.nodup, h.flagged⟩

lemma Booked.reachNext (hlt : s.nextLocal < s.chunkCount) : s.reachNext.Booked :=
  ⟨h.flags_length, h.sentUs_length, hlt, h.nodup, h.flagged⟩

end

variable {a b : StreamState × SendLog}

lemma Booked.move {nacks : Prop} (h : a.1.Booked) (hmove : Move nacks a b) : b.1.Booked := by
  cases hmove with
  | mark hopen => exact h.congr (sendState_markAcked _ _)
  | pushBack hlt hopen hout hreached => exact h.pushBack hlt hout
  | pushFront hlt hopen hout hnacks => exact h.pushFront hlt hout
  | drop hrest hqueue hacked => exact h.clearInRetx hrest hqueue
  | resend hrest hqueue hopen nowUs => exact (h.clearInRetx hrest hqueue).stamp _ _
  | skip hlt hacked => exact h.reachNext hlt
  | first hlt hopen nowUs => exact (h.reachNext hlt).stamp _ _
  | cache hcApplied => exact h.congr rfl

lemma Booked.moves {nacks : Prop} (h : a.1.Booked) (hmoves : Moves nacks a b) : b.1.Booked :=
  moves_invariant (P := fun c : StreamState × SendLog => c.1.Booked)
    (fun _ _ hc hmove => hc.move hmove) hmoves h

structure Bookkept (s : StreamState) : Prop where
  queue_nodup : s.retxQueue.Nodup
  flagged_iff : ∀ c, s.InRetx c ↔ c ∈ s.retxQueue
  queue_lt : ∀ c ∈ s.retxQueue, c < s.chunkCount
  acked_below : ∀ i < s.scanCursor, s.acked.getD i false = true
  nAcked_count : s.acked.length = s.chunkCount ∧ s.nAcked = s.acked.count true
  /-- An unacked chunk is queued, not reached yet, or looked at by the next scan. -/
  pending : ∀ i < s.chunkCount, s.acked.getD i false = false →
    i ∈ s.retxQueue ∨ s.nextLocal ≤ i ∨
      (min s.scanCursor (min s.nextLocal s.chunkCount) ≤ i ∧ i < min s.nextLocal s.chunkCount)

lemma Booked.bookkept (h : s.Booked) : s.Bookkept where
  queue_nodup := h.nodup
  flagged_iff := h.flagged
  queue_lt := s.retx_lt
  acked_below := s.cursor_acked
  nAcked_count := ⟨s.acked_length, s.nAcked_eq⟩
  pending := by
    intro i hi hopen
    have hcursor : s.scanCursor ≤ i := by
      by_contra hlt
      rw [s.cursor_acked i (by omega)] at hopen
      cases hopen
    omega

lemma nextChunk_open (hc : s.nextChunk.1 = some c) : s.acked.getD c false = false :=
  (s.nextChunk_spec.2.1 c hc).2

end StreamState

variable {s : StreamState}

lemma booked_buildStreams {totalChunks numStreams : ℕ}
    (hs : s ∈ buildStreams totalChunks numStreams) : s.Booked := by
  obtain ⟨r, -, rfl⟩ := List.mem_map.mp hs
  exact StreamState.booked_new _ _ _

/-- Whatever is marked, staged, acked, NACKed and scanned, and in which order. -/
theorem retransmit_bookkeeping {totalChunks numStreams : ℕ} {s : StreamState}
    (hs : s ∈ buildStreams totalChunks numStreams) (ops : List StreamOp) :
    (s.run ops).1.Bookkept ∧
      ∀ c, (s.run ops).1.nextChunk.1 = some c → (s.run ops).1.acked.getD c false = false := by
  have hmoves : Moves True (s, []) (s.run ops) := moves_run s ops fun _ _ _ => trivial
  exact ⟨((booked_buildStreams hs).moves hmoves).bookkept, fun c => StreamState.nextChunk_open⟩

/-- A chunk is staged, times out and is NACKed while it waits. -/
theorem retransmit_bookkeeping_queued :
    ∃ s ∈ buildStreams 3 1,
      (s.run [.stage 10, .scan 200000 100000, .nack [(0, 1)] 200001]).1.retxQueue = [1, 0] ∧
      (s.run [.stage 10, .scan 200000 100000, .nack [(0, 1)] 200001]).1.Bookkept := by
  have hs : StreamState.new 0 0 3 ∈ buildStreams 3 1 := by decide
  exact ⟨_, hs, by decide, (retransmit_bookkeeping hs _).1⟩

/-! ## The scan without its cursor -/

namespace StreamState

/-- The timeout scan over all sent chunks, acked prefix included. -/
def sweepTimedOut (s : StreamState) (nowUs retxTimeoutUs : UInt32) : StreamState × List ℕ :=
  (List.range (min s.nextLocal s.chunkCount)).foldl (timeoutStep nowUs retxTimeoutUs) (s, [])

/-- The sent chunks that are unacked, not queued and older than the timeout. -/
def overdue (s : StreamState) (nowUs retxTimeoutUs : UInt32) : List ℕ :=
  (List.range (min s.nextLocal s.chunkCount)).filter fun c =>
    !s.acked.getD c false && decide (c ∉ s.retxQueue) &&
      decide (retxTimeoutUs < nowUs - s.sentUs.getD c 0)

variable {nowUs retxTimeoutUs : UInt32}

variable {s : StreamState}

lemma foldl_timeoutStep_of_acked {cs lost : List ℕ} (h : ∀ c ∈ cs, s.acked.getD c false = true) :
    cs.foldl (timeoutStep nowUs retxTimeoutUs) (s, lost) = (s, lost) := by
  induction cs with
  | nil => rfl
  | cons c cs ih =>
    obtain ⟨hacked, hrest⟩ := forall_mem_cons.mp h
    have hskip : ¬s.timedOut nowUs retxTimeoutUs c = true := by
      rw [timedOut, unacked, hacked]
      simp
    rw [foldl_cons, timeoutStep, dif_neg hskip]
    exact ih hrest

lemma queueTimedOut_eq (s : StreamState) :
    s.queueTimedOut nowUs retxTimeoutUs = s.sweepTimedOut nowUs retxTimeoutUs := by
  unfold queueTimedOut sweepTimedOut
  dsimp only
  generalize hsent : min s.nextLocal s.chunkCount = sentCount
  obtain ⟨later, hlater⟩ := Nat.exists_eq_add_of_le (Nat.min_le_right s.scanCursor sentCount)
  have hprefix : (List.range (min s.scanCursor sentCount)).foldl (timeoutStep nowUs retxTimeoutUs)
      (s, []) = (s, []) := by
    apply foldl_timeoutStep_of_acked
    intro c hc
    rw [mem_range] at hc
    exact s.cursor_acked c (by omega)
  generalize min s.scanCursor sentCount = first at hlater hprefix
  rw [hlater, Nat.add_sub_cancel_left, range_add, foldl_append, hprefix, range'_eq_map_range]

lemma getD_flagRetx_of_ne {c d : ℕ} (hne : d ≠ c) :
    (s.flagRetx c).getD d 0 = s.flags.getD d 0 := by
  rw [flagRetx, getD_eq_getElem?_getD, getElem?_modify, getD_eq_getElem?_getD]
  simp [hne.symm]

lemma timedOut_pushBack {c d : ℕ} (hlt : c < s.chunkCount) (hne : d ≠ c) :
    (s.pushBack c hlt).timedOut nowUs retxTimeoutUs d = s.timedOut nowUs retxTimeoutUs d := by
  dsimp only [timedOut, unacked, pushBack]
  rw [getD_flagRetx_of_ne hne]

lemma foldl_timeoutStep {cs : List ℕ} (hnodup : cs.Nodup) (s : StreamState) (lost : List ℕ) :
    let due := cs.filter (s.timedOut nowUs retxTimeoutUs)
    let swept := cs.foldl (timeoutStep nowUs retxTimeoutUs) (s, lost)
    swept.2 = lost ++ due.map s.toGlobal ∧ swept.1.retxQueue = s.retxQueue ++ due ∧
      swept.1.flags = due.foldl
        (fun flags c => flags.modify c (· ||| (chunkInRetx ||| chunkRetransmitted))) s.flags := by
  induction cs generalizing s lost with
  | nil => simp
  | cons c cs ih =>
    obtain ⟨hout, hrest⟩ := nodup_cons.mp hnodup
    by_cases hdue : s.timedOut nowUs retxTimeoutUs c = true
    · have hlt : c < s.chunkCount := (unacked_iff.mp (Bool.and_eq_true_iff.mp hdue).1).1
      have hsame : cs.filter ((s.pushBack c hlt).timedOut nowUs retxTimeoutUs) =
          cs.filter (s.timedOut nowUs retxTimeoutUs) := by
        apply filter_congr
        intro d hd
        exact timedOut_pushBack hlt fun heq => hout (heq ▸ hd)
      have hlater := ih hrest (s.pushBack c hlt) (lost ++ [s.toGlobal c])
      rw [hsame] at hlater
      rw [foldl_cons, timeoutStep, dif_pos hdue, filter_cons_of_pos hdue]
      obtain ⟨hlost, hqueue, hflags⟩ := hlater
      refine ⟨?_, ?_, ?_⟩
      · rw [hlost, append_assoc]
        rfl
      · rw [hqueue]
        exact append_assoc _ _ _
      · exact hflags
    · rw [foldl_cons, timeoutStep, dif_neg hdue, filter_cons_of_neg hdue]
      exact ih hrest s lost

lemma Booked.filter_timedOut (h : s.Booked) :
    (List.range (min s.nextLocal s.chunkCount)).filter (s.timedOut nowUs retxTimeoutUs) =
      s.overdue nowUs retxTimeoutUs := by
  apply filter_congr
  intro c hc
  rw [mem_range] at hc
  have hflag : (s.flags.getD c 0 &&& chunkInRetx == 0) = decide (c ∉ s.retxQueue) := by
    rw [Bool.eq_iff_iff, beq_iff_eq, decide_eq_true_eq, ← h.flagged c]
    exact not_not.symm
  rw [timedOut, unacked, s.acked_length, hflag, decide_eq_true (by omega : c < s.chunkCount),
    Bool.true_and, Bool.and_assoc]

lemma foldl_modify_bit {due : List ℕ} {bit : UInt8}
    (hbit : (chunkInRetx ||| chunkRetransmitted) &&& bit ≠ 0) {flags : List UInt8}
    (hlt : ∀ c ∈ due, c < flags.length) (d : ℕ) :
    (due.foldl (fun flags c => flags.modify c (· ||| (chunkInRetx ||| chunkRetransmitted)))
        flags).getD d 0 &&& bit ≠ 0 ↔ flags.getD d 0 &&& bit ≠ 0 ∨ d ∈ due := by
  induction due generalizing flags with
  | nil => simp
  | cons c due ih =>
    obtain ⟨hc, hrest⟩ := forall_mem_cons.mp hlt
    have hlength : ∀ e ∈ due,
        e < (flags.modify c (· ||| (chunkInRetx ||| chunkRetransmitted))).length := by
      simpa using hrest
    rw [foldl_cons, ih hlength, getD_modify _ hc, mem_cons]
    split
    · rename_i heq
      exact ⟨fun _ => .inr (.inl heq), fun _ => .inl (or_and_ne_zero hbit _)⟩
    · rename_i hne
      exact or_congr_right (or_iff_right hne).symm

end StreamState

/-! ## Chunks and transmissions -/

/-- What the send cursor has passed was acked in time or sent. -/
def Served (a : StreamState × SendLog) : Prop :=
  ∀ c < a.1.nextLocal, a.1.acked.getD c false = true ∨ ∃ time, (c, time) ∈ a.2

variable {a b : StreamState × SendLog}

lemma Served.move {nacks : Prop} (h : Served a) (hmove : Move nacks a b) : Served b := by
  have hsent : ∀ {log : SendLog} {c : ℕ} (p : ℕ × UInt32), (∃ time, (c, time) ∈ log) →
      ∃ time, (c, time) ∈ log ++ [p] := by
    rintro log c p ⟨time, htime⟩
    exact ⟨time, mem_append_left _ htime⟩
  intro c hc
  cases hmove with
  | @mark s log d hopen =>
    have hframe := congrArg StreamState.SendState.nextLocal (s.sendState_markAcked d)
    have hold := h c (lt_of_lt_of_eq hc hframe)
    rw [StreamState.getD_acked_markAcked hopen]
    exact hold.imp_left fun hacked => by simp only [hacked, Bool.true_or]
  | pushBack | pushFront | drop | cache => exact h c hc
  | resend hrest hqueue hopen nowUs => exact (h c hc).imp_right (hsent _)
  | @skip s log hlt hacked =>
    rcases Nat.lt_succ_iff_lt_or_eq.mp hc with hc | rfl
    · exact h c hc
    · exact .inl hacked
  | @first s log hlt hopen nowUs =>
    rcases Nat.lt_succ_iff_lt_or_eq.mp hc with hc | rfl
    · exact (h c hc).imp_right (hsent _)
    · exact .inr ⟨nowUs, mem_append_right _ (mem_singleton_self _)⟩

/-- The send cursor has passed what is queued and what was sent. -/
def Ordered (a : StreamState × SendLog) : Prop :=
  (∀ c ∈ a.1.retxQueue, c < a.1.nextLocal) ∧ ∀ p ∈ a.2, p.1 < a.1.nextLocal

lemma Ordered.move (h : Ordered a) (hmove : Move False a b) : Ordered b := by
  obtain ⟨hqueued, hlog⟩ := h
  cases hmove with
  | @mark s log d hopen =>
    have hframe := s.sendState_markAcked d
    have hnext : (s.markAcked d).1.nextLocal = s.nextLocal :=
      congrArg StreamState.SendState.nextLocal hframe
    have hqueue : (s.markAcked d).1.retxQueue = s.retxQueue :=
      congrArg StreamState.SendState.retxQueue hframe
    rw [Ordered, hnext, hqueue]
    exact ⟨hqueued, hlog⟩
  | pushBack hlt hopen hout hreached =>
    exact ⟨forall_mem_append.mpr ⟨hqueued, forall_mem_singleton.mpr hreached⟩, hlog⟩
  | pushFront hlt hopen hout hnacks => exact hnacks.elim
  | drop hrest hqueue hacked =>
    exact ⟨fun c hc => hqueued c (hqueue ▸ mem_cons_of_mem _ hc), hlog⟩
  | resend hrest hqueue hopen nowUs =>
    refine ⟨fun c hc => hqueued c (hqueue ▸ mem_cons_of_mem _ hc), ?_⟩
    have hhead := hqueued _ (hqueue ▸ mem_cons_self)
    exact forall_mem_append.mpr ⟨hlog, forall_mem_singleton.mpr hhead⟩
  | skip hlt hacked =>
    exact ⟨fun c hc => (hqueued c hc).trans (Nat.lt_succ_self _),
      fun p hp => (hlog p hp).trans (Nat.lt_succ_self _)⟩
  | first hlt hopen nowUs =>
    refine ⟨fun c hc => (hqueued c hc).trans (Nat.lt_succ_self _), ?_⟩
    exact forall_mem_append.mpr ⟨fun p hp => (hlog p hp).trans (Nat.lt_succ_self _),
      forall_mem_singleton.mpr (Nat.lt_succ_self _)⟩
  | cache hcApplied => exact ⟨hqueued, hlog⟩

lemma served_start (hnext : s.nextLocal = 0) (log : SendLog) : Served (s, log) :=
  fun c hc => absurd hc (by dsimp only; omega)

lemma new_of_mem_buildStreams {totalChunks numStreams : ℕ}
    (hs : s ∈ buildStreams totalChunks numStreams) : s.nextLocal = 0 ∧ s.retxQueue = [] := by
  obtain ⟨r, -, rfl⟩ := List.mem_map.mp hs
  exact ⟨rfl, rfl⟩

/-! ## What a scan does -/

structure Scanned (s : StreamState) (due : List ℕ) (swept : StreamState × List ℕ) : Prop where
  lost : swept.2 = due.map s.toGlobal
  queue : swept.1.retxQueue = s.retxQueue ++ due
  inRetx : ∀ c, swept.1.InRetx c ↔ s.InRetx c ∨ c ∈ due
  retransmitted : ∀ c, swept.1.Retransmitted c ↔ s.Retransmitted c ∨ c ∈ due

lemma StreamState.Booked.scanned (h : s.Booked) (nowUs retxTimeoutUs : UInt32) :
    Scanned s (s.overdue nowUs retxTimeoutUs) (s.sweepTimedOut nowUs retxTimeoutUs) := by
  obtain ⟨hlost, hqueue, hflags⟩ := @StreamState.foldl_timeoutStep nowUs retxTimeoutUs
    (List.range (min s.nextLocal s.chunkCount)) nodup_range s []
  rw [h.filter_timedOut] at hlost hqueue hflags
  have hlt : ∀ c ∈ s.overdue nowUs retxTimeoutUs, c < s.flags.length := by
    intro c hc
    have hrange := mem_range.mp (mem_filter.mp hc).1
    rw [h.flags_length]
    omega
  refine ⟨hlost, hqueue, ?_, ?_⟩
  · intro c
    rw [StreamState.InRetx, StreamState.sweepTimedOut, hflags,
      StreamState.foldl_modify_bit (by decide) hlt]
    rfl
  · intro c
    rw [StreamState.Retransmitted, StreamState.sweepTimedOut, hflags,
      StreamState.foldl_modify_bit (by decide) hlt]
    rfl

/-- In every state of a stream and at every time, the scan from the cursor is the sweep over all
sent chunks.  Without NACKs the sent ones are those with a transmission. -/
theorem cursor_scan_eq_sweep {totalChunks numStreams : ℕ} {s : StreamState}
    (hs : s ∈ buildStreams totalChunks numStreams) (ops : List StreamOp)
    (nowUs retxTimeoutUs : UInt32) :
    let t := (s.run ops).1
    t.queueTimedOut nowUs retxTimeoutUs = t.sweepTimedOut nowUs retxTimeoutUs ∧
      Scanned t (t.overdue nowUs retxTimeoutUs) (t.queueTimedOut nowUs retxTimeoutUs) ∧
      ((∀ op ∈ ops, op.isNack = false) → ∀ c < t.chunkCount, (c ∈ t.overdue nowUs retxTimeoutUs ↔
          (∃ time, (c, time) ∈ (s.run ops).2) ∧ t.acked.getD c false = false ∧
            c ∉ t.retxQueue ∧ retxTimeoutUs < nowUs - t.sentUs.getD c 0)) := by
  intro t
  have hmoves : Moves True (s, []) (s.run ops) := moves_run s ops fun _ _ _ => trivial
  have hbooked : t.Booked := (booked_buildStreams hs).moves hmoves
  obtain ⟨hnext, hqueue⟩ := new_of_mem_buildStreams hs
  refine ⟨t.queueTimedOut_eq, t.queueTimedOut_eq ▸ hbooked.scanned nowUs retxTimeoutUs, ?_⟩
  intro hnacks c hc
  have hplain : Moves False (s, []) (s.run ops) :=
    moves_run s ops fun op hop hnack => Bool.false_ne_true ((hnacks op hop).symm.trans hnack)
  have hserved : Served (s.run ops) := moves_invariant (fun _ _ h hmove => h.move hmove)
    hmoves (served_start hnext [])
  have hordered : Ordered (s.run ops) := by
    refine moves_invariant (fun _ _ h hmove => h.move hmove) hplain ?_
    rw [Ordered, hqueue]
    exact ⟨forall_mem_nil _, forall_mem_nil _⟩
  rw [StreamState.overdue, mem_filter, mem_range, Bool.and_eq_true, Bool.and_eq_true,
    Bool.not_eq_true', decide_eq_true_eq, decide_eq_true_eq, and_assoc]
  apply and_congr_left
  rintro ⟨hopen, -⟩
  constructor
  · intro hlt
    refine (hserved c (lt_of_lt_of_le hlt (Nat.min_le_left _ _))).resolve_left ?_
    rw [hopen]
    exact Bool.false_ne_true
  · rintro ⟨time, htime⟩
    have hreached := hordered.2 _ htime
    exact lt_min hreached hc

/-- The second of three chunks is acked first, then the timer expires for the others. -/
theorem cursor_scan_eq_sweep_holes :
    ∃ s ∈ buildStreams 3 1,
      let t := (s.run [.stage 10, .stage 20, .stage 30, .mark 1]).1
      (t.queueTimedOut 200000 100000).2 = [0, 2] ∧
      t.queueTimedOut 200000 100000 = t.sweepTimedOut 200000 100000 := by
  have hs : StreamState.new 0 0 3 ∈ buildStreams 3 1 := by decide
  exact ⟨_, hs, by decide, (cursor_scan_eq_sweep hs _ 200000 100000).1⟩

end Favonius.Client
