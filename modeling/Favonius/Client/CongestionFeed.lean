import Favonius.Client.SendRuns
import Favonius.Congestion.Classic

/-!
# What the sender feeds its congestion controller

The newly acked chunks of one ACK datagram become one RTT update, from the mean and the minimum of
their samples, and one acknowledgement each.  Samples are whole microseconds and at least one.
-/

namespace Favonius.Client

open Execution ByteCodec Congestion Crypto List Option RttEstimator ClassicController

/-- The samples in nanoseconds; a retransmitted chunk has none. -/
def rttsOf (newlyAcked : List (UInt64 × Option ℕ)) : List ℕ :=
  newlyAcked.filterMap fun a => a.2.map (· * 1000)

/-- `rtts.iter().sum::<Duration>() / rtts.len() as u32`. -/
def meanRtt (rtts : List ℕ) : Option ℕ := do
  let sum ← rtts.foldlM Duration.add 0
  if rtts.length % 2 ^ 32 = 0 then none else some (sum / (rtts.length % 2 ^ 32))

/-- What `feed_cc` tells the controller; `none` is a panic. -/
def feedCc (newlyAcked : List (UInt64 × Option ℕ)) (wireSize deliveryRate now : ℕ) :
    Option (List ClassicEvent) :=
  let acks := newlyAcked.map fun a => .ack a.1.toNat wireSize deliveryRate now
  match (rttsOf newlyAcked).min? with
  | none => some acks
  | some least => (meanRtt (rttsOf newlyAcked)).map fun mean => .rtt (.batch mean least) :: acks

def probed (baseRtt : ℕ) : List ClassicEvent :=
  if baseRtt = 0 then [] else [.rtt (.single baseRtt)]

/-- What a controller is told in a transfer: sends and losses of any kind, and the feedback that
datagrams lead to. -/
inductive Fed (P : Primitives) (cfg : SendConfig) (baseRtt : ℕ) : List ClassicEvent → Prop where
  | start : Fed P cfg baseRtt (probed baseRtt)
  | sent (es : List ClassicEvent) (packetNumber now : ℕ) (before : Fed P cfg baseRtt es) :
      Fed P cfg baseRtt (es ++ [.sent packetNumber now])
  | lost (es : List ClassicEvent) (packets : List ℕ) (now : ℕ) (before : Fed P cfg baseRtt es) :
      Fed P cfg baseRtt (es ++ [.lost packets now])
  | feedback (es : List ClassicEvent) (s : Sender) (nowUs : UInt32) (data : Bytes)
      (newlyAcked : List (UInt64 × Option ℕ)) (deliveryRate now : ℕ) (fed : List ClassicEvent)
      (acked : .acked newlyAcked ∈ (s.processFeedback P cfg nowUs data).2)
      (feeds : feedCc newlyAcked cfg.wireSize deliveryRate now = some fed)
      (before : Fed P cfg baseRtt es) : Fed P cfg baseRtt (es ++ fed)

variable {nowUs : UInt32} {P : Primitives} {cfg : SendConfig} {rtts : List ℕ}

lemma rttSample_bounds {t : StreamState} {c rtt : ℕ} (h : t.rttSample c nowUs = some rtt) :
    1 ≤ rtt ∧ rtt < 2 ^ 32 := by
  unfold StreamState.rttSample at h
  split at h
  · cases h
  · cases h
    exact ⟨le_max_right _ _, max_lt (UInt32.toNat_lt _) (by decide)⟩

/-- A sample is a difference of 32-bit clocks, and at least a microsecond. -/
lemma rttsOf_bounds {s : Sender} {data : Bytes} {newlyAcked : List (UInt64 × Option ℕ)}
    (h : .acked newlyAcked ∈ (s.processFeedback P cfg nowUs data).2) :
    ∀ rtt ∈ rttsOf newlyAcked, 1000 ≤ rtt ∧ rtt ≤ 2 ^ 32 * 1000 := by
  intro rtt hrtt
  obtain ⟨a, ha, hsample⟩ := mem_filterMap.mp hrtt
  obtain ⟨us, hus, rfl⟩ := map_eq_some_iff.mp hsample
  suffices 1 ≤ us ∧ us < 2 ^ 32 by omega
  unfold Sender.processFeedback at h
  split at h
  · simp at h
  split at h
  · rw [mem_singleton, CcSignal.acked.injEq] at h
    unfold processAckBitmap at h
    split at h
    · subst h
      simp at ha
    split at h
    · subst h
      simp at ha
    · rename_i ack _ _ t _
      subst h
      have hsampled := (sampled_applyAck ack cfg.wireSize nowUs t s.inFlight).samples a ha
      exact rttSample_bounds (hsampled.symm.trans hus)
  · split at h
    simp at h
  · simp at h
  · split at h <;> simp at h
  · simp at h

lemma sum_of_foldlM_add {start sum : ℕ} (h : rtts.foldlM Duration.add start = some sum) :
    sum = start + rtts.sum := by
  induction rtts generalizing start with
  | nil =>
    cases h
    rfl
  | cons rtt rtts ih =>
    obtain ⟨next, hnext, hrest⟩ := bind_eq_some_iff.mp h
    rw [ih hrest, Duration.add_eq_some hnext, sum_cons, Nat.add_assoc]

/-- The mean is between bounds of the samples, the upper one if 32 bits hold their number. -/
lemma meanRtt_bounds {lo hi mean : ℕ} (hrtts : ∀ rtt ∈ rtts, lo ≤ rtt ∧ rtt ≤ hi)
    (h : meanRtt rtts = some mean) : lo ≤ mean ∧ (rtts.length < 2 ^ 32 → mean ≤ hi) := by
  obtain ⟨sum, hsum, h⟩ := bind_eq_some_iff.mp h
  split at h
  · cases h
  rename_i hne
  cases h
  rw [Nat.le_div_iff_mul_le (Nat.pos_of_ne_zero hne), sum_of_foldlM_add hsum, Nat.zero_add]
  constructor
  · calc lo * (rtts.length % 2 ^ 32) ≤ lo * rtts.length :=
          Nat.mul_le_mul_left lo (Nat.mod_le _ _)
      _ = rtts.length • lo := by rw [smul_eq_mul, Nat.mul_comm]
      _ ≤ rtts.sum := card_nsmul_le_sum rtts lo fun rtt hrtt => (hrtts rtt hrtt).1
  · intro hfew
    rw [Nat.mod_eq_of_lt hfew]
    refine Nat.div_le_of_le_mul ?_
    exact sum_le_card_nsmul rtts hi fun rtt hrtt => (hrtts rtt hrtt).2

lemma Fed.smoothing_bounds {baseRtt : ℕ} {es : List ClassicEvent} (h : Fed P cfg baseRtt es)
    (hbase : baseRtt = 0 ∨ 1000 ≤ baseRtt) :
    ∀ update, .rtt update ∈ es → 1000 ≤ update.smoothing ∧
      (es.length < 2 ^ 32 → update.smoothing ≤ max baseRtt (2 ^ 32 * 1000)) := by
  induction h with
  | start =>
    intro update hmem
    unfold probed at hmem
    split at hmem
    · simp at hmem
    · obtain rfl : update = .single baseRtt := by simpa using hmem
      exact ⟨hbase.resolve_left ‹_›, fun _ => le_max_left _ _⟩
  | sent es packetNumber now before ih | lost es packets now before ih =>
    intro update hmem
    refine (ih update (by simpa using hmem)).imp_right fun hle hfew => hle ?_
    exact (sublist_append_left ..).length_le.trans_lt hfew
  | feedback es s nowUs data newlyAcked deliveryRate now fed acked feeds before ih =>
    intro update hmem
    rcases mem_append.mp hmem with hmem | hmem
    · refine (ih update hmem).imp_right fun hle hfew => hle ?_
      exact (sublist_append_left ..).length_le.trans_lt hfew
    unfold feedCc at feeds
    split at feeds
    · cases feeds
      simp at hmem
    · obtain ⟨mean, hmean, rfl⟩ := map_eq_some_iff.mp feeds
      obtain rfl : update = .batch mean _ := by simpa using hmem
      refine (meanRtt_bounds (rttsOf_bounds acked) hmean).imp_right fun hle hfew => ?_
      -- each sample comes with an acknowledgement
      have hsamples : (rttsOf newlyAcked).length ≤ newlyAcked.length := length_filterMap_le ..
      rw [length_append, length_cons, length_map] at hfew
      exact (hle (by omega)).trans (le_max_right _ _)

/-- The bounds of the estimator for any updates, and of the divisor of the Classic controller in any
transfer whose probed base RTT, if there is one, is at least a microsecond: it is not zero, as long
as the base RTT fits into 64 bits of microseconds and the number of events into 32. -/
theorem rtt_estimator_bounds :
    (∀ us e, exec apply .new us = some e →
      e.minRtt = (us.flatMap RttUpdate.given).min? ∧ (e.smoothedRtt.isSome = true ↔ us ≠ []) ∧
      (∀ srtt, e.smoothedRtt = some srtt →
        (∃ u ∈ us, u.smoothing ≤ srtt) ∧ ∃ u ∈ us, srtt ≤ u.smoothing) ∧
      ∀ floor timeout, e.rtoWithMin floor = some timeout →
        floor ≤ timeout ∧ ∀ srtt, e.smoothedRtt = some srtt → srtt + Duration.millis 4 ≤ timeout) ∧
    (∀ us : List RttUpdate, (∀ u ∈ us, 8 * u.smoothing < Duration.limit) →
      ∃ e, exec apply .new us = some e) ∧
    ∀ (P : Primitives) (cfg : SendConfig) (baseRtt : ℕ) (ps : List ClassicStep)
      (c : ClassicController), (baseRtt = 0 ∨ 1000 ≤ baseRtt) →
      Fed P cfg baseRtt (ps.map Prod.snd) →
      exec step .new ps = some c →
      ∀ srtt, c.rtt.smoothedRtt = some srtt → 0 < srtt / 1000 ∧
        (srtt / 1000 < 2 ^ 64 → rateDivisor srtt ≠ 0) ∧
        (baseRtt / 1000 < 2 ^ 64 → ps.length < 2 ^ 32 → srtt / 1000 < 2 ^ 64) := by
  refine ⟨fun us e hrun => ⟨minRtt_exec hrun, smoothedRtt_isSome hrun,
    fun srtt hsrtt => exists_le_smoothedRtt hrun hsrtt,
    fun floor timeout => le_rtoWithMin⟩, fun us hus => ?_, ?_⟩
  · obtain ⟨e, hrun, -⟩ := exists_exec hus
    exact ⟨e, hrun⟩
  intro P cfg baseRtt ps c hbase hfed hrun srtt hsrtt
  obtain ⟨⟨u, hu, hle⟩, u', hu', hge⟩ := exists_le_smoothedRtt (exec_rtt hrun) hsrtt
  have hrtt {u : RttUpdate} (hu : u ∈ rttUpdates (ps.map Prod.snd)) : .rtt u ∈ ps.map Prod.snd := by
    obtain ⟨e, he, hsome⟩ := mem_filterMap.mp hu
    cases e with
    | rtt update =>
      cases hsome
      exact he
    | _ => cases hsome
  have hmicro := (hfed.smoothing_bounds hbase u (hrtt hu)).1.trans hle
  refine ⟨Nat.div_pos hmicro (by decide), fun hfits => ?_, fun hprobe hfew => ?_⟩
  · rw [rateDivisor, Nat.mod_eq_of_lt hfits]
    exact (Nat.div_pos hmicro (by decide)).ne'
  · have hmost := (hfed.smoothing_bounds hbase u' (hrtt hu')).2 (by rwa [length_map])
    omega

def oneSent : Sender :=
  ((exec (Sender.logStep nullPrimitives fourChunks) (fourChunksStart, []) [.stage 0 0 10]).map
    Prod.fst).getD fourChunksStart

def oneSample : List ClassicEvent := [.rtt (.batch 40000 40000), .ack 0 100 0 0]

/-- The ACK of a chunk comes in 40 microseconds after it was sent. -/
theorem rtt_estimator_bounds_one_sample :
    Fed nullPrimitives fourChunks 0 oneSample ∧
      ∃ c, exec step .new (oneSample.map (roundedProducts, ·)) = some c ∧
        c.rtt.smoothedRtt = some 40000 ∧ rateDivisor 40000 ≠ 0 := by
  have hacked : .acked [(0, some 40)] ∈ (oneSent.processFeedback nullPrimitives fourChunks 50
      (Proto.encodeAckBitmapInto nullPrimitives.crc32c 7 0 0 0 0 0 [])).2 := by
    decide +kernel
  have hfed : Fed nullPrimitives fourChunks 0 oneSample :=
    .feedback [] oneSent 50 _ _ 0 0 _ hacked (by decide +kernel) .start
  obtain ⟨c, hrun, hsrtt⟩ : ∃ c, exec step .new (oneSample.map (roundedProducts, ·)) = some c ∧
      c.rtt.smoothedRtt = some 40000 := ⟨_, rfl, rfl⟩
  have hdivisor := (rtt_estimator_bounds.2.2 _ _ 0 _ c (.inl rfl) hfed hrun 40000 hsrtt).2
  exact ⟨hfed, c, hrun, hsrtt, hdivisor.1 (hdivisor.2 (by decide) (by decide))⟩

end Favonius.Client
