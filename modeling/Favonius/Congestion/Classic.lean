import Favonius.Congestion.RttEstimator
import Favonius.Lib.Machine

/-!
# The Classic controller

The window grows with every acknowledgement and shrinks on losses that look like congestion and
where slow start ends at a delivery plateau.  The floating-point products come from outside and may
be any natural numbers; only the loss factor is known not to increase a window.  Integer arithmetic
panics on overflow and on a division by zero.
-/

namespace Favonius.Congestion

open Execution List Machine
open Option (bind_eq_some_iff map_eq_some_iff some)

def mtu : ℕ := 1200

def initialCwnd : ℕ := 128 * mtu

def minCwnd : ℕ := 4 * mtu

def startupPlateauRounds : ℕ := 3

def startupMinRounds : ℕ := 4

def ackBatchGapFloor : ℕ := Duration.millis 2

def queueEmptyGrowthDivisor : ℕ := 16

def epochMaxRtts : ℕ := 16

inductive ClassicState where
  | slowStart
  | congestionAvoidance
  deriving DecidableEq

inductive ExitReason where
  | loss
  | delay
  | plateau
  | ssthresh
  deriving DecidableEq

inductive Evidence where
  | plateau
  | overBdp
  | queueing
  deriving DecidableEq

structure FloatProducts where
  /-- `cwnd * LOSS_DECREASE_FACTOR`. -/
  lossDecrease : ℕ → ℕ
  /-- The bandwidth-delay product before it is truncated, and the bytes of it. -/
  bdp : ℕ → ℕ → ℕ
  bdpBytes : ℕ → ℕ → ℕ
  /-- `OVERSHOOT_BDP_FACTOR * bdp`. -/
  overshoot : ℕ → ℕ → ℕ
  /-- `STARTUP_BDP_GAIN * bw_estimate * srtt`. -/
  startupCap : ℕ → ℕ → ℕ
  /-- `(bw_estimate - current_rate) * srtt`. -/
  headroom : ℕ → ℕ → ℕ
  /-- The delay budgets over a baseline. -/
  lossQueueing : ℕ → ℕ
  queueEmpty : ℕ → ℕ
  /-- `baseline * DELAY_THRESHOLD_FACTOR`. -/
  delayThreshold : ℕ → ℕ
  /-- `STARTUP_FULL_GAIN * round_full_bytes`. -/
  fullGain : ℕ → ℕ
  lossDecrease_le : ∀ w, lossDecrease w ≤ w

structure ClassicController where
  state : ClassicState
  cwnd : ℕ
  ssthresh : ℕ
  rtt : RttEstimator
  lossFlag : Bool
  /-- The highest index sent at the last decrease, and its time. -/
  lastDecSeq : Option ℕ
  lastDecTime : Option ℕ
  sndCurrSeq : ℕ
  deliveredSinceIncrease : ℕ
  externalMinCwnd : ℕ
  bwEstimate : ℕ
  ackGapEwma : ℕ
  lastAckBatchAt : Option ℕ
  ackBatchCount : ℕ
  delayInflatedBatch : Option ℕ
  roundEndPn : Option ℕ
  roundStartCwnd : ℕ
  roundDelivered : ℕ
  roundLastBytes : ℕ
  roundFullBytes : ℕ
  roundCount : ℕ
  plateauRounds : ℕ
  exitReason : Option ExitReason
  gateReason : Option Evidence
  decreases : ℕ
  deriving DecidableEq

namespace ClassicController

def new : ClassicController where
  state := .slowStart
  cwnd := initialCwnd
  ssthresh := 2 ^ 64 - 1
  rtt := .new
  lossFlag := false
  lastDecSeq := none
  lastDecTime := none
  sndCurrSeq := 0
  deliveredSinceIncrease := 0
  externalMinCwnd := minCwnd
  bwEstimate := 0
  ackGapEwma := 0
  lastAckBatchAt := none
  ackBatchCount := 0
  delayInflatedBatch := none
  roundEndPn := none
  roundStartCwnd := initialCwnd
  roundDelivered := 0
  roundLastBytes := 0
  roundFullBytes := 0
  roundCount := 0
  plateauRounds := 0
  exitReason := none
  gateReason := none
  decreases := 0

/-! ## The signals -/

/-- `smoothed_rtt().filter(|r| !r.is_zero())`. -/
def knownRtt (c : ClassicController) : Option ℕ := c.rtt.smoothedRtt.filter (· ≠ 0)

/-- The unloaded delay is at least the feedback cadence. -/
def baseline (c : ClassicController) (minRtt : ℕ) : ℕ := max minRtt c.ackGapEwma

def windowExceedsBdp (f : FloatProducts) (c : ClassicController) : Bool :=
  match c.rtt.minRtt with
  | none => false
  | some minRtt =>
    if c.bwEstimate = 0 ∨ minRtt = 0 then false
    else
      0 < f.bdp c.bwEstimate (c.baseline minRtt) ∧
        f.overshoot c.bwEstimate (c.baseline minRtt) < c.cwnd

def congestionEvidence (f : FloatProducts) (c : ClassicController) : Option Evidence :=
  if startupPlateauRounds ≤ c.plateauRounds then some .plateau
  else if c.windowExceedsBdp f then some .overBdp
  else
    match c.rtt.minRtt, c.rtt.smoothedRtt with
    | some minRtt, some srtt =>
      if c.baseline minRtt + f.lossQueueing (c.baseline minRtt) < srtt then some .queueing
      else none
    | _, _ => none

def queueIsEmpty (f : FloatProducts) (c : ClassicController) : Bool :=
  match c.rtt.minRtt, c.rtt.smoothedRtt with
  | some minRtt, some srtt =>
    if c.baseline minRtt = 0 then false
    else srtt < c.baseline minRtt + f.queueEmpty (c.baseline minRtt)
  | _, _ => false

/-- The delay must stay inflated into a later batch before it ends slow start. -/
def checkDelaySignal (f : FloatProducts) (c : ClassicController) : ClassicController :=
  if c.state ≠ .slowStart then c
  else
    match c.rtt.minRtt, c.rtt.smoothedRtt with
    | some minRtt, some srtt =>
      if srtt ≤ f.delayThreshold (c.baseline minRtt) then { c with delayInflatedBatch := none }
      else
        match c.delayInflatedBatch with
        | some armed =>
          if armed < c.ackBatchCount then
            { c with
              ssthresh := c.cwnd
              state := .congestionAvoidance
              exitReason := some .delay
              delayInflatedBatch := none }
          else c
        | none => { c with delayInflatedBatch := some c.ackBatchCount }
    | _, _ => c

/-! ## Rounds -/

def resetStartupEvidence (c : ClassicController) : ClassicController :=
  { c with
    plateauRounds := 0
    roundFullBytes := 0
    roundDelivered := 0
    roundEndPn := some c.sndCurrSeq
    roundStartCwnd := c.cwnd }

/-- A round in which the window asked for more and delivery did not grow is a strike. -/
def countPlateau (f : FloatProducts) (c : ClassicController) (startCwnd roundBytes : ℕ) :
    ClassicController :=
  let plateauRounds :=
    if c.state = .slowStart ∧ startCwnd < c.cwnd then
      if roundBytes < f.fullGain c.roundFullBytes then saturatingAdd 8 c.plateauRounds 1
      else 0
    else c.plateauRounds
  { c with plateauRounds, roundFullBytes := max c.roundFullBytes roundBytes }

def plateauExit (c : ClassicController) : ClassicController :=
  let target := max (min c.roundFullBytes c.cwnd) c.externalMinCwnd
  resetStartupEvidence
    { c with
      ssthresh := target
      cwnd := target
      state := .congestionAvoidance
      exitReason := some .plateau }

def closeRound (f : FloatProducts) (c : ClassicController) (roundBytes roundCount : ℕ) :
    ClassicController :=
  let startCwnd := c.roundStartCwnd
  let c :=
    { c with
      roundDelivered := 0
      roundEndPn := some c.sndCurrSeq
      roundStartCwnd := c.cwnd
      roundLastBytes := roundBytes
      roundCount }
  let c := if 0 < roundBytes then c.countPlateau f startCwnd roundBytes else c
  if c.state = .slowStart ∧ startupMinRounds ≤ c.roundCount ∧
      startupPlateauRounds ≤ c.plateauRounds then
    c.plateauExit
  else c

/-- A round closes when the index that was the highest at its start is acknowledged. -/
def trackRound (f : FloatProducts) (c : ClassicController) (delivered ackedPn : ℕ) :
    Option ClassicController := do
  let roundDelivered ← add 64 c.roundDelivered delivered
  match c.roundEndPn with
  | none => return { c with roundDelivered }
  | some endPn =>
    if ackedPn < endPn then return { c with roundDelivered }
    else do
      let roundCount ← add 64 c.roundCount 1
      return c.closeRound f roundDelivered roundCount

/-! ## Acknowledgements -/

def smoothGap (ewma gap : ℕ) : Option ℕ :=
  if ewma = 0 then some gap else ((Duration.mul ewma 7).bind (Duration.add · gap)).map (· / 8)

/-- Only gaps above the floor start a new batch of feedback. -/
def trackCadence (c : ClassicController) (now : ℕ) : Option ClassicController :=
  match c.lastAckBatchAt with
  | some prev =>
    if ackBatchGapFloor ≤ now - prev then do
      let ackGapEwma ← smoothGap c.ackGapEwma (now - prev)
      let ackBatchCount ← add 64 c.ackBatchCount 1
      return { c with ackGapEwma, lastAckBatchAt := some now, ackBatchCount }
    else some c
  | none => some { c with lastAckBatchAt := some now, ackBatchCount := 1 }

def smoothBandwidth (c : ClassicController) (deliveryRate : ℕ) : Option ClassicController :=
  if deliveryRate = 0 then some c
  else if c.bwEstimate = 0 then some { c with bwEstimate := deliveryRate }
  else do
    let weighted ← mul 64 c.bwEstimate 7
    let sum ← add 64 weighted deliveryRate
    return { c with bwEstimate := sum / 8 }

/-- The cap bounds the growth and never shrinks the window. -/
def cappedGrowth (f : FloatProducts) (c : ClassicController) (grown : ℕ) : ℕ :=
  match c.knownRtt with
  | some srtt =>
    if 0 < c.bwEstimate then
      min grown (max (max (f.startupCap c.bwEstimate srtt) c.externalMinCwnd) c.cwnd)
    else grown
  | none => grown

def growSlowStart (f : FloatProducts) (c : ClassicController) (delivered : ℕ) :
    Option ClassicController := do
  let grown ← add 64 c.cwnd delivered
  let c := checkDelaySignal f { c with cwnd := c.cappedGrowth f grown }
  if c.ssthresh ≤ c.cwnd then
    return { c with
      state := .congestionAvoidance
      exitReason := c.exitReason.or (some .ssthresh) }
  else return c

/-- The smoothed RTT in whole microseconds, cast to 64 bits, that the rate is divided by. -/
def rateDivisor (srtt : ℕ) : ℕ := srtt / 1000 % 2 ^ 64

def currentRate (c : ClassicController) : Option ℕ :=
  match c.knownRtt with
  | some srtt => do
      let scaled ← mul 64 c.cwnd 1000000
      if rateDivisor srtt = 0 then none else some (scaled / rateDivisor srtt)
  | none => some 0

def increase (f : FloatProducts) (c : ClassicController) (rate : ℕ) : ℕ :=
  let overBdp := c.windowExceedsBdp f
  if !overBdp ∧ 0 < c.bwEstimate ∧ 0 < rate ∧ rate < c.bwEstimate then
    max (f.headroom (c.bwEstimate - rate) (c.rtt.smoothedRtt.getD (Duration.millis 10)) / 4) mtu
  else if !overBdp ∧ c.queueIsEmpty f then max (c.cwnd / queueEmptyGrowthDivisor) mtu
  else mtu

def growAvoidance (f : FloatProducts) (c : ClassicController) (delivered : ℕ) :
    Option ClassicController := do
  let rate ← c.currentRate
  let deliveredSinceIncrease ← add 64 c.deliveredSinceIncrease delivered
  if c.cwnd ≤ deliveredSinceIncrease then do
    let cwnd ← add 64 c.cwnd (c.increase f rate)
    return checkDelaySignal f
      { c with deliveredSinceIncrease := deliveredSinceIncrease - c.cwnd, cwnd }
  else return checkDelaySignal f { c with deliveredSinceIncrease }

/-- What follows the round: one acknowledgement after a loss is skipped. -/
def growWindow (f : FloatProducts) (c : ClassicController) (delivered : ℕ) :
    Option ClassicController :=
  if c.lossFlag then some { c with lossFlag := false }
  else
    match c.state with
    | .slowStart => c.growSlowStart f delivered
    | .congestionAvoidance => c.growAvoidance f delivered

def closeAck (f : FloatProducts) (c : ClassicController) (packetNumber delivered now : ℕ) :
    Option ClassicController := do
  let c ← c.trackCadence now
  c.trackRound f delivered packetNumber

def onAckReceived (f : FloatProducts) (c : ClassicController)
    (packetNumber delivered deliveryRate now : ℕ) : Option ClassicController := do
  let c ← c.closeAck f packetNumber delivered now
  let c ← c.smoothBandwidth deliveryRate
  c.growWindow f delivered

/-! ## Sends and losses -/

def onPacketSent (c : ClassicController) (packetNumber : ℕ) : ClassicController :=
  let c := { c with sndCurrSeq := max c.sndCurrSeq packetNumber }
  if c.roundEndPn.isNone then
    { c with roundEndPn := some packetNumber, roundStartCwnd := c.cwnd }
  else c

def epochRtt (c : ClassicController) : ℕ := c.knownRtt.getD (Duration.millis 50)

def epochExpired (c : ClassicController) (now : ℕ) : Option Bool :=
  match c.lastDecTime with
  | some t => (Duration.mul c.epochRtt epochMaxRtts).map fun limit => decide (limit ≤ now - t)
  | none => some false

def sameEpoch (c : ClassicController) (firstLossSeq : ℕ) : Bool :=
  match c.lastDecSeq with
  | some last => firstLossSeq ≤ last
  | none => false

/-- Slow start is left with a window past the bandwidth-delay product. -/
def overshotRamp (f : FloatProducts) (c : ClassicController) : Bool :=
  c.state = .slowStart ∧ c.windowExceedsBdp f

/-- A stalled or overshot window settles at what a round has delivered, -/
def settleAtRound (f : FloatProducts) (c : ClassicController) (target : ℕ) : ℕ :=
  if 0 < c.roundFullBytes ∧ (0 < c.plateauRounds ∨ c.overshotRamp f) then
    min target c.roundFullBytes
  else target

/-- and an overshot one at the bandwidth-delay product, once the estimate has had rounds to
converge. -/
def settleAtBdp (f : FloatProducts) (c : ClassicController) (target : ℕ) : ℕ :=
  if c.overshotRamp f ∧ startupMinRounds ≤ c.roundCount then
    match c.rtt.minRtt with
    | some minRtt =>
      if 0 < f.bdpBytes c.bwEstimate (c.baseline minRtt) then
        min target (f.bdpBytes c.bwEstimate (c.baseline minRtt))
      else target
    | none => target
  else target

def lossTarget (f : FloatProducts) (c : ClassicController) : ℕ :=
  max (c.settleAtBdp f (c.settleAtRound f (f.lossDecrease c.cwnd))) c.externalMinCwnd

def applyLoss (f : FloatProducts) (c : ClassicController) (firstLossSeq now : ℕ) :
    Option ClassicController := do
  let expired ← c.epochExpired now
  if c.sameEpoch firstLossSeq ∧ ¬ expired then return c
  else do
    let decreases ← add 64 c.decreases 1
    return resetStartupEvidence
      { c with
        state := .congestionAvoidance
        exitReason := if c.state = .slowStart then some .loss else c.exitReason
        decreases
        ssthresh := c.lossTarget f
        cwnd := c.lossTarget f
        lossFlag := true
        lastDecSeq := some c.sndCurrSeq
        lastDecTime := some now }

def onPacketLost (f : FloatProducts) (c : ClassicController) (lost : List ℕ) (now : ℕ) :
    Option ClassicController :=
  if lost.length < 3 then some c
  else
    match c.congestionEvidence f with
    | none => some c
    | some evidence => do
        let first ← index lost 0
        applyLoss f { c with gateReason := c.gateReason.or (some evidence) } first now

end ClassicController

inductive ClassicEvent where
  | sent (packetNumber now : ℕ)
  | ack (packetNumber delivered deliveryRate now : ℕ)
  | lost (packets : List ℕ) (now : ℕ)
  | rtt (update : RttUpdate)
  deriving DecidableEq

abbrev ClassicStep := FloatProducts × ClassicEvent

namespace ClassicController

def step (c : ClassicController) : ClassicStep → Option ClassicController
  | (_, .sent packetNumber _) => some (c.onPacketSent packetNumber)
  | (f, .ack packetNumber delivered deliveryRate now) =>
    c.onAckReceived f packetNumber delivered deliveryRate now
  | (f, .lost packets now) => c.onPacketLost f packets now
  | (_, .rtt update) => (c.rtt.apply update).map fun rtt => { c with rtt }

/-! ## What the parts of a handler leave alone -/

structure Kept (c d : ClassicController) : Prop where
  decreases : d.decreases = c.decreases
  lastDecSeq : d.lastDecSeq = c.lastDecSeq
  lastDecTime : d.lastDecTime = c.lastDecTime
  externalMinCwnd : d.externalMinCwnd = c.externalMinCwnd
  rtt : d.rtt = c.rtt
  sndCurrSeq : c.sndCurrSeq ≤ d.sndCurrSeq
  avoidance : c.state = .congestionAvoidance → d.state = .congestionAvoidance

variable {f : FloatProducts} {c d : ClassicController}

lemma Kept.refl (c : ClassicController) : Kept c c := ⟨rfl, rfl, rfl, rfl, rfl, le_rfl, id⟩

lemma Kept.trans {e : ClassicController} (h : Kept c d) (h' : Kept d e) : Kept c e where
  decreases := h'.decreases.trans h.decreases
  lastDecSeq := h'.lastDecSeq.trans h.lastDecSeq
  lastDecTime := h'.lastDecTime.trans h.lastDecTime
  externalMinCwnd := h'.externalMinCwnd.trans h.externalMinCwnd
  rtt := h'.rtt.trans h.rtt
  sndCurrSeq := h.sndCurrSeq.trans h'.sndCurrSeq
  avoidance := h'.avoidance ∘ h.avoidance

lemma checkDelaySignal_kept (f : FloatProducts) (c : ClassicController) :
    Kept c (c.checkDelaySignal f) := by
  unfold checkDelaySignal
  split
  · exact .refl c
  split
  · split
    · exact ⟨rfl, rfl, rfl, rfl, rfl, le_rfl, id⟩
    · split
      · split
        · exact ⟨rfl, rfl, rfl, rfl, rfl, le_rfl, fun _ => rfl⟩
        · exact .refl c
      · exact ⟨rfl, rfl, rfl, rfl, rfl, le_rfl, id⟩
  · exact .refl c

@[simp] lemma cwnd_checkDelaySignal (f : FloatProducts) (c : ClassicController) :
    (c.checkDelaySignal f).cwnd = c.cwnd := by
  unfold checkDelaySignal
  repeat' split
  all_goals rfl

/-- A round leaves the window alone or ends slow start without growing it. -/
inductive Rounded (c d : ClassicController) : Prop where
  | same (cwnd : d.cwnd = c.cwnd) (state : d.state = c.state)
  | plateau (slowStart : c.state = .slowStart) (avoidance : d.state = .congestionAvoidance)
      (minimum : c.externalMinCwnd ≤ d.cwnd) (shrinks : d.cwnd ≤ max c.cwnd c.externalMinCwnd)

lemma closeRound_spec (f : FloatProducts) (c : ClassicController) (roundBytes roundCount : ℕ) :
    Kept c (c.closeRound f roundBytes roundCount) ∧
      Rounded c (c.closeRound f roundBytes roundCount) := by
  unfold closeRound
  dsimp only
  split
  all_goals
    split
    · rename_i hexit
      exact ⟨⟨rfl, rfl, rfl, rfl, rfl, le_rfl, fun _ => rfl⟩,
        .plateau hexit.1 rfl (le_max_right _ _) (max_le_max_right _ (min_le_right _ _))⟩
    · exact ⟨⟨rfl, rfl, rfl, rfl, rfl, le_rfl, id⟩, .same rfl rfl⟩

variable {delivered : ℕ}

lemma trackRound_spec {ackedPn : ℕ} (h : c.trackRound f delivered ackedPn = some d) :
    Kept c d ∧ Rounded c d := by
  obtain ⟨roundDelivered, -, h⟩ := bind_eq_some_iff.mp h
  split at h
  · cases h
    exact ⟨⟨rfl, rfl, rfl, rfl, rfl, le_rfl, id⟩, .same rfl rfl⟩
  split at h
  · cases h
    exact ⟨⟨rfl, rfl, rfl, rfl, rfl, le_rfl, id⟩, .same rfl rfl⟩
  · obtain ⟨roundCount, -, h⟩ := bind_eq_some_iff.mp h
    cases h
    exact closeRound_spec f c _ _

variable {now : ℕ}

lemma trackCadence_spec (h : c.trackCadence now = some d) :
    Kept c d ∧ d.cwnd = c.cwnd ∧ d.state = c.state := by
  unfold trackCadence at h
  split at h
  · split at h
    · obtain ⟨ewma, -, h⟩ := bind_eq_some_iff.mp h
      obtain ⟨count, -, h⟩ := bind_eq_some_iff.mp h
      cases h
      exact ⟨⟨rfl, rfl, rfl, rfl, rfl, le_rfl, id⟩, rfl, rfl⟩
    · cases h
      exact ⟨.refl c, rfl, rfl⟩
  · cases h
    exact ⟨⟨rfl, rfl, rfl, rfl, rfl, le_rfl, id⟩, rfl, rfl⟩

lemma closeAck_spec {packetNumber : ℕ} (h : c.closeAck f packetNumber delivered now = some d) :
    Kept c d ∧ Rounded c d := by
  obtain ⟨m, hcadence, hround⟩ := bind_eq_some_iff.mp h
  obtain ⟨hkept, hcwnd, hstate⟩ := trackCadence_spec hcadence
  obtain ⟨hkept', hround⟩ := trackRound_spec hround
  refine ⟨hkept.trans hkept', ?_⟩
  cases hround with
  | same cwnd state => exact .same (cwnd.trans hcwnd) (state.trans hstate)
  | plateau slowStart avoidance minimum shrinks =>
    rw [hkept.externalMinCwnd] at minimum shrinks
    rw [hcwnd] at shrinks
    exact .plateau (hstate ▸ slowStart) avoidance minimum shrinks

lemma smoothBandwidth_spec {deliveryRate : ℕ} (h : c.smoothBandwidth deliveryRate = some d) :
    Kept c d ∧ d.cwnd = c.cwnd := by
  unfold smoothBandwidth at h
  split at h
  · cases h
    exact ⟨.refl c, rfl⟩
  split at h
  · cases h
    exact ⟨⟨rfl, rfl, rfl, rfl, rfl, le_rfl, id⟩, rfl⟩
  · obtain ⟨weighted, -, h⟩ := bind_eq_some_iff.mp h
    obtain ⟨sum, -, h⟩ := bind_eq_some_iff.mp h
    cases h
    exact ⟨⟨rfl, rfl, rfl, rfl, rfl, le_rfl, id⟩, rfl⟩

lemma machineAdd_eq_some {a b r : ℕ} (h : add 64 a b = some r) : r = a + b := by
  rw [add, Option.ite_none_right_eq_some] at h
  exact (some.inj h.2).symm

lemma le_cappedGrowth {grown : ℕ} (h : c.cwnd ≤ grown) : c.cwnd ≤ c.cappedGrowth f grown := by
  unfold cappedGrowth
  split
  · split
    · exact le_min h (le_max_right _ _)
    · exact h
  · exact h

lemma checkDelaySignal_spec (f : FloatProducts) (c : ClassicController)
    (cwnd deliveredSinceIncrease : ℕ) :
    Kept c (checkDelaySignal f { c with cwnd, deliveredSinceIncrease }) ∧
      (checkDelaySignal f { c with cwnd, deliveredSinceIncrease }).cwnd = cwnd := by
  have hkept := checkDelaySignal_kept f { c with cwnd, deliveredSinceIncrease }
  exact ⟨⟨hkept.1, hkept.2, hkept.3, hkept.4, hkept.5, hkept.6, hkept.7⟩, cwnd_checkDelaySignal _ _⟩

lemma growSlowStart_spec (h : c.growSlowStart f delivered = some d) :
    Kept c d ∧ c.cwnd ≤ d.cwnd := by
  obtain ⟨grown, hgrown, h⟩ := bind_eq_some_iff.mp h
  have hle : c.cwnd ≤ grown := by
    rw [machineAdd_eq_some hgrown]
    exact Nat.le_add_right _ _
  obtain ⟨hkept, hcwnd⟩ :=
    checkDelaySignal_spec f c (c.cappedGrowth f grown) c.deliveredSinceIncrease
  have hgrew := le_cappedGrowth hle |>.trans_eq hcwnd.symm
  dsimp only at h
  split at h
  · cases h
    exact ⟨⟨hkept.1, hkept.2, hkept.3, hkept.4, hkept.5, hkept.6, fun _ => rfl⟩, hgrew⟩
  · cases h
    exact ⟨hkept, hgrew⟩

lemma growAvoidance_spec (h : c.growAvoidance f delivered = some d) :
    Kept c d ∧ c.cwnd ≤ d.cwnd := by
  obtain ⟨rate, -, h⟩ := bind_eq_some_iff.mp h
  obtain ⟨deliveredSinceIncrease, -, h⟩ := bind_eq_some_iff.mp h
  split at h
  · obtain ⟨cwnd, hcwnd, h⟩ := bind_eq_some_iff.mp h
    cases h
    obtain ⟨hkept, hcwnd'⟩ :=
      checkDelaySignal_spec f c cwnd (deliveredSinceIncrease - c.cwnd)
    refine ⟨hkept, ?_⟩
    rw [hcwnd', machineAdd_eq_some hcwnd]
    exact Nat.le_add_right _ _
  · cases h
    obtain ⟨hkept, hcwnd⟩ := checkDelaySignal_spec f c c.cwnd deliveredSinceIncrease
    exact ⟨hkept, hcwnd.ge⟩

lemma growWindow_spec (h : c.growWindow f delivered = some d) : Kept c d ∧ c.cwnd ≤ d.cwnd := by
  unfold growWindow at h
  split at h
  · cases h
    exact ⟨⟨rfl, rfl, rfl, rfl, rfl, le_rfl, id⟩, le_rfl⟩
  · split at h
    · exact growSlowStart_spec h
    · exact growAvoidance_spec h

lemma onAckReceived_spec {packetNumber deliveryRate : ℕ}
    (h : c.onAckReceived f packetNumber delivered deliveryRate now = some d) :
    ∃ m, c.closeAck f packetNumber delivered now = some m ∧ Kept m d ∧ m.cwnd ≤ d.cwnd := by
  obtain ⟨m, hclose, h⟩ := bind_eq_some_iff.mp h
  obtain ⟨m', hsmooth, hgrow⟩ := bind_eq_some_iff.mp h
  obtain ⟨hkept, hcwnd⟩ := smoothBandwidth_spec hsmooth
  obtain ⟨hkept', hgrew⟩ := growWindow_spec hgrow
  exact ⟨m, hclose, hkept.trans hkept', hcwnd ▸ hgrew⟩

/-! ## Losses -/

/-- A loss reduction marks the highest index sent and the time. -/
structure Reduced (c : ClassicController) (first now : ℕ) (d : ClassicController) : Prop where
  decreases : d.decreases = c.decreases + 1
  lastDecSeq : d.lastDecSeq = some c.sndCurrSeq
  lastDecTime : d.lastDecTime = some now
  externalMinCwnd : d.externalMinCwnd = c.externalMinCwnd
  rtt : d.rtt = c.rtt
  sndCurrSeq : d.sndCurrSeq = c.sndCurrSeq
  avoidance : d.state = .congestionAvoidance
  minimum : c.externalMinCwnd ≤ d.cwnd
  shrinks : d.cwnd ≤ max c.cwnd c.externalMinCwnd
  epoch : ∀ seq t, c.lastDecSeq = some seq → c.lastDecTime = some t →
    seq < first ∨ c.epochRtt * epochMaxRtts ≤ now - t

lemma settleAtRound_le (f : FloatProducts) (c : ClassicController) (target : ℕ) :
    c.settleAtRound f target ≤ target := by
  unfold settleAtRound
  split
  · exact min_le_left _ _
  · exact le_rfl

lemma settleAtBdp_le (f : FloatProducts) (c : ClassicController) (target : ℕ) :
    c.settleAtBdp f target ≤ target := by
  unfold settleAtBdp
  repeat' split
  · exact min_le_left _ _
  all_goals exact le_rfl

lemma lossTarget_le (f : FloatProducts) (c : ClassicController) :
    c.lossTarget f ≤ max c.cwnd c.externalMinCwnd := by
  refine max_le_max_right _ ?_
  exact (settleAtBdp_le f c _).trans ((settleAtRound_le f c _).trans (f.lossDecrease_le c.cwnd))

lemma applyLoss_spec {first : ℕ} (h : c.applyLoss f first now = some d) :
    d = c ∨ Reduced c first now d := by
  obtain ⟨expired, hexpired, h⟩ := bind_eq_some_iff.mp h
  split at h
  · cases h
    exact .inl rfl
  rename_i hepoch
  obtain ⟨decreases, hdecreases, h⟩ := bind_eq_some_iff.mp h
  cases h
  refine .inr ⟨machineAdd_eq_some hdecreases, rfl, rfl, rfl, rfl, rfl, rfl, le_max_right _ _,
    lossTarget_le f c, ?_⟩
  intro seq t hseq ht
  rw [epochExpired, ht] at hexpired
  obtain ⟨limit, hlimit, rfl⟩ := map_eq_some_iff.mp hexpired
  rw [sameEpoch, hseq, Duration.mul_eq_some hlimit] at hepoch
  by_contra hnew
  obtain ⟨hle, hlt⟩ := not_or.mp hnew
  exact hepoch ⟨decide_eq_true (not_lt.mp hle), by simpa using hlt⟩

lemma onPacketLost_spec {packets : List ℕ} (h : c.onPacketLost f packets now = some d) :
    Kept c d ∧ d.cwnd = c.cwnd ∨
      ∃ first rest, packets = first :: rest ∧ Reduced c first now d := by
  unfold onPacketLost at h
  split at h
  · cases h
    exact .inl ⟨.refl c, rfl⟩
  split at h
  · cases h
    exact .inl ⟨.refl c, rfl⟩
  · obtain ⟨first, hfirst, h⟩ := bind_eq_some_iff.mp h
    rcases applyLoss_spec h with rfl | hreduced
    · exact .inl ⟨⟨rfl, rfl, rfl, rfl, rfl, le_rfl, id⟩, rfl⟩
    obtain ⟨rest, rfl⟩ : ∃ rest, packets = first :: rest := by
      cases packets with
      | nil => cases hfirst
      | cons x xs => exact ⟨xs, by rw [some.inj hfirst]⟩
    refine .inr ⟨first, rest, rfl, ?_⟩
    exact ⟨hreduced.1, hreduced.2, hreduced.3, hreduced.4, hreduced.5, hreduced.6, hreduced.7,
      hreduced.8, hreduced.9, hreduced.10⟩

/-! ## Steps -/

/-- The state when an acknowledgement has closed its round and not yet grown the window. -/
def closing (c : ClassicController) : ClassicStep → Option ClassicController
  | (f, .ack packetNumber delivered _ now) => c.closeAck f packetNumber delivered now
  | _ => none

inductive Moves (c : ClassicController) (p : ClassicStep) (d : ClassicController) : Prop where
  | kept (kept : Kept c d) (cwnd : d.cwnd = c.cwnd) (closing : c.closing p = none)
  | acked (m : ClassicController) (closing : c.closing p = some m) (kept : Kept c m)
      (rounded : Rounded c m) (kept' : Kept m d) (grows : m.cwnd ≤ d.cwnd)
  | reduced (first : ℕ) (rest : List ℕ) (now : ℕ) (lost : p.2 = .lost (first :: rest) now)
      (reduced : Reduced c first now d)
  | measured (update : RttUpdate) (rtt : RttEstimator) (event : p.2 = .rtt update)
      (applied : c.rtt.apply update = some rtt) (eq : d = { c with rtt })

lemma onPacketSent_spec (c : ClassicController) (packetNumber : ℕ) :
    let d := c.onPacketSent packetNumber
    Kept c d ∧ d.cwnd = c.cwnd ∧ packetNumber ≤ d.sndCurrSeq := by
  unfold onPacketSent
  dsimp only
  split
  all_goals exact ⟨⟨rfl, rfl, rfl, rfl, rfl, le_max_left _ _, id⟩, rfl, le_max_right _ _⟩

variable {p : ClassicStep}

lemma step_moves (h : c.step p = some d) : Moves c p d := by
  obtain ⟨f, e⟩ := p
  cases e with
  | sent packetNumber now =>
    cases h
    obtain ⟨hkept, hcwnd, -⟩ := onPacketSent_spec c packetNumber
    exact .kept hkept hcwnd rfl
  | ack packetNumber delivered deliveryRate now =>
    obtain ⟨m, hclose, hkept, hgrows⟩ := onAckReceived_spec h
    obtain ⟨hkept', hrounded⟩ := closeAck_spec hclose
    exact .acked m hclose hkept' hrounded hkept hgrows
  | lost packets now =>
    rcases onPacketLost_spec h with ⟨hkept, hcwnd⟩ | ⟨first, rest, rfl, hreduced⟩
    · exact .kept hkept hcwnd rfl
    · exact .reduced first rest now rfl hreduced
  | rtt update =>
    obtain ⟨rtt, happly, rfl⟩ := map_eq_some_iff.mp h
    exact .measured update rtt rfl happly rfl

namespace Moves

variable {p : ClassicStep}

lemma frame (h : Moves c p d) :
    (c.state = .congestionAvoidance → d.state = .congestionAvoidance) ∧
      c.sndCurrSeq ≤ d.sndCurrSeq ∧ c.decreases ≤ d.decreases ∧ (d.decreases = c.decreases →
        d.lastDecSeq = c.lastDecSeq ∧ d.lastDecTime = c.lastDecTime) := by
  have hframe (k : Kept c d) : _ ∧ _ ∧ _ ∧ (d.decreases = c.decreases → _ ∧ _) :=
    ⟨k.avoidance, k.sndCurrSeq, k.decreases.ge, fun _ => ⟨k.lastDecSeq, k.lastDecTime⟩⟩
  cases h with
  | kept kept => exact hframe kept
  | acked m _ kept _ kept' => exact hframe (kept.trans kept')
  | reduced _ _ _ _ reduced =>
    have := reduced.decreases
    exact ⟨fun _ => reduced.avoidance, reduced.sndCurrSeq.ge, by omega,
      fun h => absurd h (by omega)⟩
  | measured _ _ _ _ eq => exact eq ▸ ⟨id, le_rfl, le_rfl, fun _ => ⟨rfl, rfl⟩⟩

lemma minimum (h : Moves c p d) (hc : c.externalMinCwnd = minCwnd ∧ minCwnd ≤ c.cwnd) :
    d.externalMinCwnd = minCwnd ∧ minCwnd ≤ d.cwnd := by
  obtain ⟨hext, hmin⟩ := hc
  cases h with
  | kept kept cwnd => exact ⟨kept.externalMinCwnd.trans hext, cwnd ▸ hmin⟩
  | acked m _ kept rounded kept' grows =>
    refine ⟨(kept.trans kept').externalMinCwnd.trans hext, le_trans ?_ grows⟩
    cases rounded with
    | same cwnd => exact cwnd ▸ hmin
    | plateau _ _ minimum => exact hext ▸ minimum
  | reduced _ _ _ _ reduced =>
    exact ⟨reduced.externalMinCwnd.trans hext, hext ▸ reduced.minimum⟩
  | measured _ _ _ _ eq => exact eq ▸ ⟨hext, hmin⟩

end Moves

/-! ## Runs -/

variable {es : List ClassicStep}

lemma exec_minimum (hrun : exec step new es = some c) :
    c.externalMinCwnd = minCwnd ∧ minCwnd ≤ c.cwnd := by
  have hstart : new.externalMinCwnd = minCwnd ∧ minCwnd ≤ new.cwnd := by decide
  exact exec_invariant (fun _ _ _ hs hstep => (step_moves hstep).minimum hs) hstart hrun

lemma exec_avoidance (hc : c.state = .congestionAvoidance) (hrun : exec step c es = some d) :
    d.state = .congestionAvoidance :=
  exec_invariant (fun _ _ _ hs hstep => (step_moves hstep).frame.1 hs) hc hrun

lemma exec_decreases (hrun : exec step c es = some d) :
    c.decreases ≤ d.decreases ∧ (d.decreases = c.decreases →
      d.lastDecSeq = c.lastDecSeq ∧ d.lastDecTime = c.lastDecTime) := by
  induction es generalizing c with
  | nil =>
    cases hrun
    exact ⟨le_rfl, fun _ => ⟨rfl, rfl⟩⟩
  | cons p es ih =>
    obtain ⟨m, hm, hrest⟩ := exec_cons_eq_some.mp hrun
    obtain ⟨hle, hmarks⟩ := (step_moves hm).frame.2.2
    obtain ⟨hle', hmarks'⟩ := ih hrest
    refine ⟨hle.trans hle', fun heq => ?_⟩
    obtain ⟨hseq, htime⟩ := hmarks (by omega)
    obtain ⟨hseq', htime'⟩ := hmarks' (by omega)
    exact ⟨hseq'.trans hseq, htime'.trans htime⟩

def sentIndices (es : List ClassicStep) : List ℕ :=
  es.filterMap fun p =>
    match p.2 with
    | .sent packetNumber _ => some packetNumber
    | _ => none

lemma le_sndCurrSeq (hrun : exec step new es = some c) :
    ∀ n ∈ sentIndices es, n ≤ c.sndCurrSeq := by
  induction es using reverseRecOn generalizing c with
  | nil => simp [sentIndices]
  | append_singleton es p ih =>
    obtain ⟨m, hm, hstep⟩ := exec_concat_eq_some.mp hrun
    intro n hn
    rw [sentIndices, filterMap_append, mem_append] at hn
    rcases hn with hn | hn
    · exact (ih hm n hn).trans (step_moves hstep).frame.2.1
    obtain ⟨f, e⟩ := p
    cases e with
    | sent packetNumber now =>
      cases hstep
      obtain rfl : n = packetNumber := by simpa using hn
      exact (onPacketSent_spec m n).2.2
    | ack | lost | rtt => simp at hn

def rttUpdates (es : List ClassicEvent) : List RttUpdate :=
  es.filterMap fun e =>
    match e with
    | .rtt update => some update
    | _ => none

lemma exec_rtt {ps : List ClassicStep} (hrun : exec step new ps = some c) :
    exec RttEstimator.apply .new (rttUpdates (ps.map Prod.snd)) = some c.rtt := by
  induction ps using reverseRecOn generalizing c with
  | nil =>
    cases hrun
    rfl
  | append_singleton ps p ih =>
    obtain ⟨m, hm, hstep⟩ := exec_concat_eq_some.mp hrun
    have hmoves := step_moves hstep
    obtain ⟨f, e⟩ := p
    rw [map_append, rttUpdates, filterMap_append, exec_append]
    have hbefore := ih hm
    rw [rttUpdates] at hbefore
    rw [hbefore]
    cases e with
    | rtt update =>
      obtain ⟨rtt, happly, rfl⟩ := map_eq_some_iff.mp hstep
      simp [exec, happly]
    | _ =>
      cases hmoves with
      | kept kept => exact congrArg some kept.rtt.symm
      | acked m' _ kept _ kept' => exact congrArg some (kept.trans kept').rtt.symm
      | reduced _ _ _ _ reduced => exact congrArg some reduced.rtt.symm
      | measured _ _ event => cases event

/-! ## The window discipline -/

structure Takes (es before : List ClassicStep) (p : ClassicStep) (c d : ClassicController) :
    Prop where
  taken : before ++ [p] <+: es
  start : exec step new before = some c
  done : c.step p = some d

def LossReduction (p : ClassicStep) (c d : ClassicController) : Prop :=
  (∃ packets now, p.2 = .lost packets now) ∧ d.decreases = c.decreases + 1

def PlateauExit (p : ClassicStep) (c : ClassicController) : Prop :=
  ∃ m, c.closing p = some m ∧ c.state = .slowStart ∧ m.state = .congestionAvoidance

/-- The smoothed RTT, 50 ms while it is unknown. -/
def roundTrip (c : ClassicController) : ℕ := c.rtt.smoothedRtt.getD (Duration.millis 50)

structure WindowDiscipline (es : List ClassicStep) : Prop where
  minimum : ∀ before c, before <+: es → exec step new before = some c → minCwnd ≤ c.cwnd
  slowStart : ∀ before after c d, before ++ after <+: es → exec step new before = some c →
    exec step c after = some d → c.state = .congestionAvoidance → d.state = .congestionAvoidance
  shrinks : ∀ before p c d, Takes es before p c d → d.cwnd < c.cwnd →
    LossReduction p c d ∨ PlateauExit p c
  /-- Neither reaction grows the window. -/
  reduction : ∀ before p c d, Takes es before p c d → LossReduction p c d → d.cwnd ≤ c.cwnd
  settling : ∀ before p c d m, Takes es before p c d → PlateauExit p c → c.closing p = some m →
    m.cwnd ≤ c.cwnd
  once : ∀ before p c d before' p' c' d', Takes es before p c d → Takes es before' p' c' d' →
    PlateauExit p c → PlateauExit p' c' → before.length = before'.length
  epochs : ∀ before p c d between q c' d', Takes es before p c d →
    Takes es (before ++ p :: between) q c' d' → LossReduction p c d → LossReduction q c' d' →
    c'.decreases = d.decreases → ∀ packets t first rest now, p.2 = .lost packets t →
      q.2 = .lost (first :: rest) now →
        (∀ n ∈ sentIndices before, n < first) ∨ t + 16 * c'.roundTrip ≤ now

lemma LossReduction.reduced (h : LossReduction p c d) (hstep : c.step p = some d) :
    ∃ first rest now, p.2 = .lost (first :: rest) now ∧ Reduced c first now d := by
  cases step_moves hstep with
  | kept kept => exact absurd h.2 (by have := kept.decreases; omega)
  | acked m _ kept _ kept' => exact absurd h.2 (by have := (kept.trans kept').decreases; omega)
  | reduced first rest now lost reduced => exact ⟨first, rest, now, lost, reduced⟩
  | measured _ _ _ _ eq => exact absurd h.2 (by rw [eq]; exact (Nat.succ_ne_self _).symm)

lemma shrinks_of_step (hstep : c.step p = some d) (h : d.cwnd < c.cwnd) :
    LossReduction p c d ∨ PlateauExit p c := by
  cases step_moves hstep with
  | kept _ cwnd => omega
  | acked m closing _ rounded _ grows =>
    cases rounded with
    | same cwnd => omega
    | plateau slowStart avoidance => exact .inr ⟨m, closing, slowStart, avoidance⟩
  | reduced first rest now lost reduced => exact .inl ⟨⟨_, _, lost⟩, reduced.decreases⟩
  | measured _ _ _ _ eq => exact absurd h (eq ▸ lt_irrefl _)

lemma rounded_of_closing {m : ClassicController} (hstep : c.step p = some d)
    (h : c.closing p = some m) : Kept m d ∧ Rounded c m := by
  cases step_moves hstep with
  | kept _ _ closing => rw [closing] at h; cases h
  | acked m' closing _ rounded kept' =>
    obtain rfl := some.inj (closing.symm.trans h)
    exact ⟨kept', rounded⟩
  | reduced first rest now lost =>
    obtain ⟨f, e⟩ := p
    obtain rfl : e = _ := lost
    cases h
  | measured update _ event =>
    obtain ⟨f, e⟩ := p
    obtain rfl : e = _ := event
    cases h

lemma PlateauExit.avoidance (h : PlateauExit p c) (hstep : c.step p = some d) :
    d.state = .congestionAvoidance := by
  obtain ⟨m, hclosing, -, hm⟩ := h
  exact (rounded_of_closing hstep hclosing).1.avoidance hm

variable {before : List ClassicStep} {c' : ClassicController}

lemma avoidance_of_plateauExit {later : List ClassicStep} (hstart : exec step new before = some c)
    (hstep : c.step p = some d) (hexit : PlateauExit p c) (hlater : before ++ [p] <+: later)
    (hrun : exec step new later = some c') : c'.state = .congestionAvoidance := by
  obtain ⟨between, rfl⟩ := hlater
  rw [exec_append, exec_concat_eq_some.mpr ⟨c, hstart, hstep⟩] at hrun
  exact exec_avoidance (hexit.avoidance hstep) hrun

lemma length_le_of_plateauExit {before' : List ClassicStep} {p' : ClassicStep}
    {d' : ClassicController} (h : Takes es before p c d) (h' : Takes es before' p' c' d')
    (hexit : PlateauExit p c) (hexit' : PlateauExit p' c') : before'.length ≤ before.length := by
  by_contra hlt
  have hlater : before ++ [p] <+: before' := by
    refine prefix_of_prefix_length_le h.taken
      ((prefix_append before' [p']).trans h'.taken) ?_
    rw [length_append, length_singleton]
    omega
  have hstate := avoidance_of_plateauExit h.start h.done hexit hlater h'.start
  obtain ⟨-, -, hslow, -⟩ := hexit'
  rw [hslow] at hstate
  cases hstate

lemma roundTrip_le_epochRtt (c : ClassicController) : c.roundTrip ≤ c.epochRtt := by
  unfold roundTrip epochRtt knownRtt
  cases c.rtt.smoothedRtt with
  | none => exact le_rfl
  | some srtt =>
    by_cases hzero : srtt = 0
    · simp [hzero]
    · simp [Option.filter, hzero]

lemma epochRtt_pos (c : ClassicController) : 0 < c.epochRtt := by
  unfold epochRtt
  cases hknown : c.knownRtt with
  | none => decide
  | some srtt =>
    have hne : srtt ≠ 0 := by simpa using (Option.filter_eq_some_iff.mp hknown).2
    simpa using Nat.pos_of_ne_zero hne

/-- A reduction after another one is for a later index or comes sixteen round trips later. -/
theorem epoch_of_reductions {between : List ClassicStep} {q : ClassicStep} {d' : ClassicController}
    (hstart : exec step new before = some c) (hp : c.step p = some d)
    (hbetween : exec step d between = some c') (hq : c'.step q = some d')
    (hred : LossReduction p c d) (hred' : LossReduction q c' d')
    (hquiet : c'.decreases = d.decreases) {packets : List ℕ} {t first : ℕ} {rest : List ℕ}
    (hpackets : p.2 = .lost packets t) (hfirst : q.2 = .lost (first :: rest) now) :
    (∀ n ∈ sentIndices before, n < first) ∨ t + 16 * c'.roundTrip ≤ now := by
  obtain ⟨_, _, _, hlost, hreduced⟩ := hred.reduced hp
  obtain ⟨_, _, _, hlost', hreduced'⟩ := hred'.reduced hq
  cases hpackets.symm.trans hlost
  cases hfirst.symm.trans hlost'
  obtain ⟨hseq, htime⟩ := (exec_decreases hbetween).2 hquiet
  rw [hreduced.lastDecSeq] at hseq
  rw [hreduced.lastDecTime] at htime
  rcases hreduced'.epoch _ _ hseq htime with habove | hexpired
  · exact .inl fun n hn => (le_sndCurrSeq hstart n hn).trans_lt habove
  · have hpos := epochRtt_pos c'
    have hle := roundTrip_le_epochRtt c'
    rw [epochMaxRtts] at hexpired
    exact .inr (by omega)

/-- Every history keeps the window discipline, whatever the floating-point products are. -/
theorem classic_window_discipline (es : List ClassicStep) : WindowDiscipline es where
  minimum _ _ _ hrun := (exec_minimum hrun).2
  slowStart _ _ _ _ _ _ hafter hc := exec_avoidance hc hafter
  shrinks _ _ _ _ h := shrinks_of_step h.done
  reduction before p c d h hred := by
    obtain ⟨first, rest, now, -, hreduced⟩ := hred.reduced h.done
    obtain ⟨hext, hmin⟩ := exec_minimum h.start
    have hshrinks := hreduced.shrinks
    rwa [hext, max_eq_left hmin] at hshrinks
  settling before p c d m h _ hclosing := by
    obtain ⟨hext, hmin⟩ := exec_minimum h.start
    cases (rounded_of_closing h.done hclosing).2 with
    | same cwnd => exact cwnd.le
    | plateau _ _ _ shrinks => rwa [hext, max_eq_left hmin] at shrinks
  once before p c d before' p' c' d' h h' hexit hexit' :=
    le_antisymm (length_le_of_plateauExit h' h hexit' hexit)
      (length_le_of_plateauExit h h' hexit hexit')
  epochs before p c d between q c' d' h h' hred hred' hquiet packets t first rest now hpackets
      hfirst := by
    have hrun := h'.start
    rw [← singleton_append, ← append_assoc, exec_append,
      exec_concat_eq_some.mpr ⟨c, h.start, h.done⟩] at hrun
    exact epoch_of_reductions h.start h.done hrun h'.done hred hred' hquiet hpackets hfirst

lemma seven_eighths_le (w : ℕ) : w * 7 / 8 ≤ w := by omega

def roundedProducts : FloatProducts where
  lossDecrease w := w * 7 / 8
  bdp bw rtt := bw * rtt
  bdpBytes bw rtt := bw * rtt / 10 ^ 9
  overshoot bw rtt := 2 * (bw * rtt) / 10 ^ 9
  startupCap bw rtt := 3 * (bw * rtt) / 10 ^ 9
  headroom bw rtt := bw * rtt / 10 ^ 9
  lossQueueing baseline := Duration.millis 8 + baseline / 4
  queueEmpty baseline := Duration.millis 10 + baseline / 10
  delayThreshold baseline := baseline * 5
  fullGain bytes := bytes * 5 / 4
  lossDecrease_le := seven_eighths_le

end ClassicController

end Favonius.Congestion
