import Favonius.Client.SendRuns

/-!
# The in-flight count after a timeout scan

The scan rebuilds the in-flight count from the send cursors, the acked counts, the lengths of the
retransmit queues and the chunks it queues itself.  The counters overlap when a chunk is acked ahead
of the cursor or while it waits in a queue; where they do not, the count is that of the chunks that
are on the wire.
-/

namespace Favonius.Client

open Execution Proto Crypto Sync List Sender

variable {n : ℕ}

lemma countP_three {p q r : ℕ → Bool} (h : ∀ c < n, (p c).toNat + (q c).toNat + (r c).toNat = 1) :
    (List.range n).countP p + (List.range n).countP q + (List.range n).countP r = n := by
  induction n with
  | zero => rfl
  | succ n ih =>
    have hone := h n (Nat.lt_succ_self n)
    have hrest := ih fun c hc => h c (hc.trans (Nat.lt_succ_self n))
    have hlast : ∀ f : ℕ → Bool, (List.range (n + 1)).countP f =
        (List.range n).countP f + (f n).toNat := by
      intro f
      rw [range_succ, countP_append, countP_singleton]
      cases f n <;> rfl
    rw [hlast p, hlast q, hlast r]
    omega

lemma countP_range_of_le {p : ℕ → Bool} {k : ℕ} (hk : k ≤ n) (h : ∀ c < n, p c = true → c < k) :
    (List.range n).countP p = (List.range k).countP p := by
  obtain ⟨m, rfl⟩ := Nat.exists_eq_add_of_le hk
  rw [range_add, countP_append, Nat.add_eq_left, countP_eq_zero]
  intro c hc hp
  obtain ⟨j, hj, rfl⟩ := List.mem_map.mp hc
  rw [mem_range] at hj
  have hlt := h (k + j) (by omega) hp
  omega

lemma countP_mem_range {queue : List ℕ} (hnodup : queue.Nodup) (hlt : ∀ c ∈ queue, c < n) :
    (List.range n).countP (fun c => decide (c ∈ queue)) = queue.length := by
  rw [countP_eq_length_filter]
  apply Perm.length_eq
  apply (perm_ext_iff_of_nodup (nodup_range.filter _) hnodup).mpr
  intro c
  rw [mem_filter, mem_range, decide_eq_true_eq]
  exact ⟨fun h => h.2, fun h => ⟨hlt c h, h⟩⟩

lemma StreamState.nAcked_eq_countP (s : StreamState) :
    s.nAcked = (List.range s.chunkCount).countP fun c => s.acked.getD c false := by
  have hmap : s.acked = (List.range s.chunkCount).map fun c => s.acked.getD c false := by
    apply eq_map_range s.acked_length
    intro c
    by_cases hc : c < s.chunkCount
    · rw [decide_eq_true hc, Bool.true_and]
    · have hlen : s.acked.length ≤ c := by
        rw [s.acked_length]
        omega
      rw [decide_eq_false hc, Bool.false_and, getD_eq_default _ _ hlen]
  rw [s.nAcked_eq]
  nth_rewrite 1 [hmap]
  rw [count, countP_map]
  congr 1
  funext c
  exact beq_true _

/-- The chunks that were sent, are not acked and wait in no queue. -/
def onWire (s : StreamState) (log : SendLog) : ℕ :=
  (List.range s.chunkCount).countP fun c =>
    decide (times c log ≠ []) && (!s.acked.getD c false && decide (c ∉ s.retxQueue))

/-- The send cursor has passed every chunk that is acked, queued or sent, and no chunk is acked
while it is queued. -/
structure Aligned (s : StreamState) (log : SendLog) : Prop where
  acked_passed : ∀ c < s.chunkCount, s.acked.getD c false = true → c < s.nextLocal
  queued_passed : ∀ c ∈ s.retxQueue, c < s.nextLocal
  queued_open : ∀ c ∈ s.retxQueue, s.acked.getD c false = false
  sent_passed : ∀ p ∈ log, p.1 < s.nextLocal

instance (s : StreamState) (log : SendLog) : Decidable (Aligned s log) :=
  decidable_of_iff ((∀ c < s.chunkCount, s.acked.getD c false = true → c < s.nextLocal) ∧
      (∀ c ∈ s.retxQueue, c < s.nextLocal) ∧
      (∀ c ∈ s.retxQueue, s.acked.getD c false = false) ∧ ∀ p ∈ log, p.1 < s.nextLocal)
    ⟨fun h => ⟨h.1, h.2.1, h.2.2.1, h.2.2.2⟩, fun h => ⟨h.1, h.2, h.3, h.4⟩⟩

variable {log : SendLog}

lemma times_ne_nil {c : ℕ} : times c log ≠ [] ↔ ∃ time, (c, time) ∈ log := by
  rw [times, Ne, map_eq_nil_iff, filter_eq_nil_iff]
  push Not
  constructor
  · rintro ⟨⟨d, time⟩, hmem, hd⟩
    obtain rfl : d = c := of_decide_eq_true hd
    exact ⟨time, hmem⟩
  · rintro ⟨time, hmem⟩
    exact ⟨(c, time), hmem, decide_eq_true rfl⟩

variable {s : StreamState}

lemma Aligned.nextLocal_eq (h : Aligned s log) (hbooked : s.Booked) (hserved : Served (s, log)) :
    s.nextLocal = s.nAcked + s.retxQueue.length + onWire s log := by
  have hsent : ∀ c, times c log ≠ [] → c < s.nextLocal := by
    intro c hc
    obtain ⟨time, htime⟩ := times_ne_nil.mp hc
    exact h.sent_passed _ htime
  rw [s.nAcked_eq_countP, countP_range_of_le hbooked.nextLocal_le h.acked_passed, onWire,
    countP_range_of_le hbooked.nextLocal_le, ← countP_mem_range hbooked.nodup h.queued_passed]
  · apply (countP_three _).symm
    intro c hc
    by_cases hqueued : c ∈ s.retxQueue
    · rw [h.queued_open c hqueued, decide_eq_true hqueued, decide_eq_false (not_not.mpr hqueued)]
      simp
    have hreached := hserved c hc
    cases hacked : s.acked.getD c false with
    | true => simp [hqueued]
    | false =>
      rw [hacked] at hreached
      have htimes := times_ne_nil.mpr (hreached.resolve_left Bool.false_ne_true)
      simp [hqueued, htimes]
  · intro c _ hc
    exact hsent c (of_decide_eq_true (Bool.and_eq_true_iff.mp hc).1)

lemma Aligned.queueTimedOut (h : Aligned s log) (hbooked : s.Booked)
    (nowUs retxTimeoutUs : UInt32) : Aligned (s.queueTimedOut nowUs retxTimeoutUs).1 log := by
  have hstate := s.ackState_queueTimedOut nowUs retxTimeoutUs
  have hacked : (s.queueTimedOut nowUs retxTimeoutUs).1.acked = s.acked :=
    congrArg StreamState.AckState.acked hstate
  have hcount : (s.queueTimedOut nowUs retxTimeoutUs).1.chunkCount = s.chunkCount :=
    congrArg StreamState.AckState.chunkCount hstate
  have hnext := nextLocal_queueTimedOut s nowUs retxTimeoutUs
  have hqueue : (s.queueTimedOut nowUs retxTimeoutUs).1.retxQueue =
      s.retxQueue ++ s.overdue nowUs retxTimeoutUs := by
    rw [s.queueTimedOut_eq]
    exact (hbooked.scanned nowUs retxTimeoutUs).queue
  have hdue : ∀ c ∈ s.overdue nowUs retxTimeoutUs,
      c < s.nextLocal ∧ s.acked.getD c false = false := by
    intro c hc
    obtain ⟨hrange, hselected⟩ := mem_filter.mp hc
    rw [mem_range] at hrange
    obtain ⟨hopen, -⟩ := Bool.and_eq_true_iff.mp hselected
    exact ⟨by omega, by simpa using (Bool.and_eq_true_iff.mp hopen).1⟩
  constructor
  · rw [hcount, hacked, hnext]
    exact h.acked_passed
  · rw [hqueue, hnext]
    exact forall_mem_append.mpr ⟨h.queued_passed, fun c hc => (hdue c hc).1⟩
  · rw [hqueue, hacked]
    exact forall_mem_append.mpr ⟨h.queued_open, fun c hc => (hdue c hc).2⟩
  · rw [hnext]
    exact h.sent_passed

lemma Aligned.sent_eq (h : Aligned s log) (hbooked : s.Booked) (hserved : Served (s, log))
    (nowUs retxTimeoutUs : UInt32) :
    min s.nextLocal s.chunkCount = s.nAcked + s.retxQueue.length +
      (s.queueTimedOut nowUs retxTimeoutUs).2.length +
        onWire (s.queueTimedOut nowUs retxTimeoutUs).1 log := by
  have hmoves : Moves True (s, log) ((s.queueTimedOut nowUs retxTimeoutUs).1, log) :=
    moves_queueTimedOut nowUs retxTimeoutUs s
  have hbooked' : (s.queueTimedOut nowUs retxTimeoutUs).1.Booked := hbooked.moves hmoves
  have hserved' : Served ((s.queueTimedOut nowUs retxTimeoutUs).1, log) :=
    moves_invariant (fun _ _ hc hmove => hc.move hmove) hmoves hserved
  have hsum := (h.queueTimedOut hbooked nowUs retxTimeoutUs).nextLocal_eq hbooked' hserved'
  have hscanned := hbooked.scanned nowUs retxTimeoutUs
  rw [← s.queueTimedOut_eq] at hscanned
  have hnAcked : (s.queueTimedOut nowUs retxTimeoutUs).1.nAcked = s.nAcked := by
    rw [StreamState.nAcked_eq, StreamState.nAcked_eq]
    exact congrArg (fun a : StreamState.AckState => a.acked.count true)
      (s.ackState_queueTimedOut nowUs retxTimeoutUs)
  have hnext := nextLocal_queueTimedOut s nowUs retxTimeoutUs
  rw [hnext, hnAcked, hscanned.queue, length_append] at hsum
  rw [hscanned.lost, length_map, min_eq_left hbooked.nextLocal_le]
  omega

lemma foldl_sub_eq {α : Type*} (f : α → ℕ) (xs : List α) (n : ℕ) :
    xs.foldl (fun n x => n - f x) n = n - (xs.map f).sum := by
  induction xs generalizing n with
  | nil => rfl
  | cons x xs ih => rw [foldl_cons, ih, map_cons, sum_cons, Nat.sub_sub]

def Sender.bytesOnWire (s : Sender) (wireSize : ℕ) (log : WireLog) : ℕ :=
  wireSize * (s.streams.zipIdx.map fun p => onWire p.1 (streamLog p.2 log)).sum

variable {P : Primitives} {cfg : SendConfig}

lemma sum_sent_eq {streams : List (StreamState × ℕ)} {log : WireLog}
    (h : ∀ p ∈ streams, Aligned p.1 (streamLog p.2 log) ∧ p.1.Booked ∧
      Served (p.1, streamLog p.2 log)) (nowUs retxTimeoutUs : UInt32) :
    (streams.map fun p => min p.1.nextLocal p.1.chunkCount).sum =
      (streams.map fun p => p.1.nAcked).sum + (streams.map fun p => p.1.retxQueue.length).sum +
        (streams.map fun p => (p.1.queueTimedOut nowUs retxTimeoutUs).2.length).sum +
          (streams.map fun p =>
            onWire (p.1.queueTimedOut nowUs retxTimeoutUs).1 (streamLog p.2 log)).sum := by
  induction streams with
  | nil => rfl
  | cons p streams ih =>
    obtain ⟨⟨haligned, hbooked, hserved⟩, hrest⟩ := forall_mem_cons.mp h
    have hone := haligned.sent_eq hbooked hserved nowUs retxTimeoutUs
    have hsum := ih hrest
    simp only [map_cons, sum_cons]
    omega

lemma inFlight_scan {s : Sender} {log : WireLog}
    (h : ∀ p ∈ s.streams.zipIdx, Aligned p.1 (streamLog p.2 log) ∧ p.1.Booked ∧
      Served (p.1, streamLog p.2 log)) (nowUs retxTimeoutUs : UInt32) :
    (s.scan cfg nowUs retxTimeoutUs).1.inFlight =
      (s.scan cfg nowUs retxTimeoutUs).1.bytesOnWire cfg.wireSize log := by
  have hsum := sum_sent_eq h nowUs retxTimeoutUs
  have hzip : ∀ f : StreamState → ℕ,
      (s.streams.zipIdx.map fun p => f p.1).sum = (s.streams.map f).sum := by
    intro f
    have hfst : s.streams.zipIdx.map (fun p => f p.1) = (s.streams.zipIdx.map Prod.fst).map f := by
      rw [map_map]
      rfl
    rw [hfst, zipIdx_map_fst]
  rw [hzip fun t => min t.nextLocal t.chunkCount, hzip StreamState.nAcked,
    hzip fun t => t.retxQueue.length,
    hzip fun t => (t.queueTimedOut nowUs retxTimeoutUs).2.length] at hsum
  have hwire : (s.scan cfg nowUs retxTimeoutUs).1.bytesOnWire cfg.wireSize log =
      cfg.wireSize * (s.streams.zipIdx.map fun p =>
        onWire (p.1.queueTimedOut nowUs retxTimeoutUs).1 (streamLog p.2 log)).sum := by
    simp only [bytesOnWire, scan, map_map, zipIdx_map]
    rfl
  have hlost : ((s.streams.map fun t => t.queueTimedOut nowUs retxTimeoutUs).map fun r =>
      cfg.wireSize * r.2.length).sum =
        cfg.wireSize * (s.streams.map fun t =>
          (t.queueTimedOut nowUs retxTimeoutUs).2.length).sum := by
    rw [map_map, ← sum_map_mul_left]
    rfl
  rw [hwire]
  simp only [scan, totalAcked]
  rw [foldl_sub_eq fun r : StreamState × List ℕ => cfg.wireSize * r.2.length, hlost,
    Nat.mul_comm _ cfg.wireSize, ← Nat.mul_sub]
  congr 1
  omega

/-- In every run, resumed or not: if the cursors have passed what is acked, queued or sent and no
queued chunk is acked, the scan leaves the in-flight count at what is on the wire. -/
theorem in_flight_after_scan {start s s' : Sender} {log log' : WireLog} {events : List SendEvent}
    (hstart : start.Starts cfg)
    (hrun : exec (logStep P cfg) (start, []) events = some (s, log))
    (haligned : ∀ (i : ℕ) (t : StreamState), s.streams[i]? = some t → Aligned t (streamLog i log))
    {nowUs retxTimeoutUs : UInt32}
    (hscan : logStep P cfg (s, log) (.scan nowUs retxTimeoutUs) = some (s', log')) :
    s'.inFlight = s'.bytesOnWire cfg.wireSize log' := by
  have hstreams : ∀ p ∈ s.streams.zipIdx, Aligned p.1 (streamLog p.2 log) ∧ p.1.Booked ∧
      Served (p.1, streamLog p.2 log) := by
    intro p hp
    have ht := mem_zipIdx_iff_getElem?.mp hp
    obtain ⟨t₀, ht₀, hmoves⟩ := moves_of_run hstart hrun ht
    refine ⟨haligned p.2 p.1 ht, (booked_buildStreams ht₀).moves hmoves, ?_⟩
    exact moves_invariant (fun _ _ hc hmove => hc.move hmove) hmoves
      (served_start (new_of_mem_buildStreams ht₀).1 [])
  obtain ⟨⟨t, out⟩, hstep, hpair⟩ := Option.map_eq_some_iff.mp hscan
  obtain ⟨-, ⟨⟩⟩ := guard_eq_some hstep
  cases hpair
  rw [sentBy, append_nil]
  · exact inFlight_scan hstreams nowUs retxTimeoutUs
  · simp

def threeSent : List SendEvent :=
  [.stage 0 0 10, .stage 0 0 20, .stage 0 0 200000,
    .feedback (encodeAckBitmapInto nullPrimitives.crc32c 7 0 0 0 0 0 []) 200010]

theorem in_flight_after_scan_three :
    ∃ s s' log log',
      exec (logStep nullPrimitives fourChunks) (fourChunksStart, []) threeSent = some (s, log) ∧
      logStep nullPrimitives fourChunks (s, log) (.scan 200020 100000) = some (s', log') ∧
      s'.inFlight = 100 ∧ s'.inFlight = s'.bytesOnWire 100 log' := by
  obtain ⟨⟨s, log⟩, hrun, haligned, ⟨s', log'⟩, hscan, hflight⟩ :
      ∃ a, exec (logStep nullPrimitives fourChunks) (fourChunksStart, []) threeSent = some a ∧
        (∀ p ∈ a.1.streams.zipIdx, Aligned p.1 (streamLog p.2 a.2)) ∧
        ∃ b, logStep nullPrimitives fourChunks a (.scan 200020 100000) = some b ∧
          b.1.inFlight = 100 := by
    decide +kernel
  refine ⟨s, s', log, log', hrun, hscan, hflight, ?_⟩
  refine in_flight_after_scan fourChunksStart_starts hrun ?_ hscan
  intro i t ht
  exact haligned (t, i) (mem_zipIdx_iff_getElem?.mpr ht)

/-- The last two of four chunks are resumed and the first two sent: both are on the wire, and the
scan counts none. -/
theorem in_flight_misses_sent_chunks :
    ∃ start s s' log log', start.Starts fourChunks ∧
      exec (logStep nullPrimitives fourChunks) (start, [])
        [.stage 0 0 10, .stage 0 0 20] = some (s, log) ∧
      logStep nullPrimitives fourChunks (s, log) (.scan 30 100000) = some (s', log') ∧
      s'.inFlight = 0 ∧ s'.bytesOnWire 100 log' = 200 := by
  obtain ⟨skips, hskips, ⟨s, log⟩, hrun, ⟨s', log'⟩, hscan, hcounts⟩ : ∃ skips,
      senderSkips fourChunks.totalChunks fourChunks.numStreams (some [0b1100]) [] = some skips ∧
      ∃ a, exec (logStep nullPrimitives fourChunks) (.init skips.1 0 none, [])
        [.stage 0 0 10, .stage 0 0 20] = some a ∧
      ∃ b, logStep nullPrimitives fourChunks a (.scan 30 100000) = some b ∧
        b.1.inFlight = 0 ∧ b.1.bytesOnWire 100 b.2 = 200 := by
    decide +kernel
  exact ⟨_, s, s', log, log', ⟨_, _, skips, 0, none, hskips, rfl⟩, hrun, hscan, hcounts⟩

end Favonius.Client
