import Favonius.Congestion.RttEstimator
import Favonius.Lib.MonotoneWindow

/-!
# The loss tracker

Losses are reported by packet index and counted once until the packet is sent again or the window
has passed.  Which indices were counted is remembered in a map; a queue of the first reports says
when to forget them.  A repeated report renews the time in the map but not in the queue.
-/

namespace Favonius.Congestion

open Function MonotoneWindow List Option

structure LossTracker where
  totalSent : ℕ
  totalLost : ℕ
  /-- One entry for each packet sent: when, and whether it was lost. -/
  window : List (ℕ × Bool)
  lostPrefix : ℕ
  /-- When the remembered indices were last reported. -/
  lostIds : ℕ → Option ℕ
  lostFifo : List (ℕ × ℕ)
  windowDuration : ℕ

namespace LossTracker

def new (windowDuration : ℕ) : LossTracker := ⟨0, 0, [], 0, fun _ => none, [], windowDuration⟩

/-- The packets sent before the cutoff are dropped, and with them their losses. -/
def expireWindow (cutoff : ℕ) : List (ℕ × Bool) → ℕ → List (ℕ × Bool) × ℕ
  | [], lostPrefix => ([], lostPrefix)
  | (ts, lost) :: rest, lostPrefix =>
    if ts < cutoff then expireWindow cutoff rest (lostPrefix - 1)
    else ((ts, lost) :: rest, lostPrefix)

/-- An index is forgotten with the entry of the report that is still the last one. -/
def expireFifo (cutoff : ℕ) : List (ℕ × ℕ) → (ℕ → Option ℕ) → List (ℕ × ℕ) × (ℕ → Option ℕ)
  | [], lostIds => ([], lostIds)
  | (ts, pkt) :: rest, lostIds =>
    if ts < cutoff then
      expireFifo cutoff rest
        (if lostIds pkt = some ts then update lostIds pkt none else lostIds)
    else ((ts, pkt) :: rest, lostIds)

def expireOld (t : LossTracker) (now : ℕ) : LossTracker :=
  match Duration.checkedSub now t.windowDuration with
  | none => t
  | some cutoff =>
    let (window, lostPrefix) := expireWindow cutoff t.window t.lostPrefix
    let (lostFifo, lostIds) := expireFifo cutoff t.lostFifo t.lostIds
    { t with window, lostPrefix, lostFifo, lostIds }

def onPacketSent (t : LossTracker) (packetNumber now : ℕ) : LossTracker :=
  let t := t.expireOld now
  { t with
    totalSent := t.totalSent + 1
    window := t.window ++ [(now, false)]
    lostIds := update t.lostIds packetNumber none }

/-- One index of a report.  The oldest packet not yet lost is marked. -/
def onPacketLost (now : ℕ) (t : LossTracker) (pkt : ℕ) : LossTracker :=
  let lostIds := update t.lostIds pkt (some now)
  if (t.lostIds pkt).isSome then { t with lostIds }
  else
    let marks := t.lostPrefix < t.window.length
    { t with
      lostIds
      lostFifo := t.lostFifo ++ [(now, pkt)]
      totalLost := t.totalLost + 1
      window :=
        if marks then t.window.modify t.lostPrefix fun entry => (entry.1, true) else t.window
      lostPrefix := if marks then t.lostPrefix + 1 else t.lostPrefix }

def onPacketsLost (t : LossTracker) (lost : List ℕ) (now : ℕ) : LossTracker :=
  lost.foldl (onPacketLost now) (t.expireOld now)

end LossTracker

inductive LossEvent where
  | sent (packetNumber now : ℕ)
  | lost (packets : List ℕ) (now : ℕ)
  deriving DecidableEq

namespace LossEvent

def time : LossEvent → ℕ
  | sent _ now => now
  | lost _ now => now

def indices : LossEvent → List ℕ
  | sent packetNumber _ => [packetNumber]
  | lost packets _ => packets

end LossEvent

def LossTracker.step (t : LossTracker) : LossEvent → LossTracker
  | .sent packetNumber now => t.onPacketSent packetNumber now
  | .lost packets now => t.onPacketsLost packets now

/-! ## Histories -/

section Histories

/-- The time of the last report of an index that was not sent again since. -/
def openReport (i : ℕ) (es : List LossEvent) : Option ℕ :=
  es.foldl (fun last e =>
    match e with
    | .sent packetNumber _ => if packetNumber = i then none else last
    | .lost packets now => if i ∈ packets then some now else last) none

def lastReport (i : ℕ) (es : List LossEvent) : Option ℕ :=
  es.foldl (fun last e =>
    match e with
    | .sent _ _ => last
    | .lost packets now => if i ∈ packets then some now else last) none

def lastTime (es : List LossEvent) : ℕ := (es.getLast?.map LossEvent.time).getD 0

structure DedupExpires (w : ℕ) (es : List LossEvent) (t : LossTracker) : Prop where
  matching : ∀ i ts, t.lostIds i = some ts → (ts, i) ∈ t.lostFifo
  /-- After more than a window without activity a report is counted: the same report without the
  index counts one loss less. -/
  counted : ∀ i now packets, lastTime es ≤ now → i ∈ packets →
    (∀ e ∈ es, i ∈ e.indices → e.time + w < now) →
      (t.onPacketsLost packets now).totalLost =
        (t.onPacketsLost (packets.filter (· ≠ i)) now).totalLost + 1
  recent : ∀ i, (t.lostIds i).isSome = true →
    ∃ ts, lastReport i es = some ts ∧ lastTime es ≤ ts + w

/-- No index is reported again later within the window unless it was sent in between. -/
def NoLateRepeat (w : ℕ) (es : List LossEvent) : Prop :=
  ∀ before packets now, before ++ [.lost packets now] <+: es → ∀ i ∈ packets, ∀ ts,
    openReport i before = some ts → ts = now ∨ ts + w < now

end Histories

/-! ## Expiry -/

namespace LossTracker

lemma expireFifo_fst (cutoff : ℕ) (fifo : List (ℕ × ℕ)) (ids : ℕ → Option ℕ) :
    (expireFifo cutoff fifo ids).1 = fifo.dropWhile fun x => decide (x.1 < cutoff) := by
  induction fifo generalizing ids with
  | nil => rfl
  | cons x fifo ih =>
    rw [expireFifo]
    split
    · rename_i hold
      rw [ih, dropWhile_cons_of_pos (by simpa using hold)]
    · rename_i hold
      rw [dropWhile_cons_of_neg (by simpa using hold)]

lemma expireFifo_snd {cutoff : ℕ} {fifo : List (ℕ × ℕ)} (hfifo : InOrder fifo)
    (ids : ℕ → Option ℕ) (i ts : ℕ) :
    (expireFifo cutoff fifo ids).2 i = some ts ↔
      ids i = some ts ∧ ¬(ts < cutoff ∧ (ts, i) ∈ fifo) := by
  induction fifo generalizing ids with
  | nil => simp [expireFifo]
  | cons x fifo ih =>
    obtain ⟨ts', pkt⟩ := x
    obtain ⟨hx, hfifo'⟩ := pairwise_cons.mp hfifo
    rw [expireFifo]
    split
    · rename_i hold
      rw [ih hfifo']
      by_cases hlive : ids pkt = some ts'
      · rw [if_pos hlive]
        by_cases hi : i = pkt
        · subst hi
          rw [update_self, hlive]
          constructor
          · rintro ⟨⟨⟩, -⟩
          · rintro ⟨heq, hnot⟩
            cases heq
            exact absurd ⟨hold, mem_cons_self⟩ hnot
        · rw [update_of_ne hi]
          have hne : (ts, i) ≠ (ts', pkt) := fun h => hi (congrArg Prod.snd h)
          simp [hne]
      · rw [if_neg hlive]
        refine and_congr_right fun hids => ?_
        have hne : (ts, i) ≠ (ts', pkt) := by
          rintro ⟨⟩
          exact hlive hids
        simp [hne]
    · rename_i hold
      -- the queue is in order, so nothing behind the first entry is older
      have hnot : ¬(ts < cutoff ∧ (ts, i) ∈ (ts', pkt) :: fifo) := by
        rintro ⟨hts, hmem⟩
        rcases mem_cons.mp hmem with heq | hmem
        · cases heq
          exact hold hts
        · have := hx _ hmem
          omega
      exact (and_iff_left hnot).symm

variable {t : LossTracker}

lemma windowDuration_expireOld (t : LossTracker) (now : ℕ) :
    (t.expireOld now).windowDuration = t.windowDuration := by
  unfold expireOld
  split <;> rfl

/-- A window longer than the time so far is a cutoff of zero, before which there is nothing. -/
theorem lost_expireOld (t : LossTracker) (now : ℕ) :
    ((t.expireOld now).lostFifo, (t.expireOld now).lostIds) =
      expireFifo (now - t.windowDuration) t.lostFifo t.lostIds := by
  unfold expireOld Duration.checkedSub
  by_cases hle : t.windowDuration ≤ now
  · rw [if_pos hle]
  · rw [if_neg hle, Nat.sub_eq_zero_of_le (Nat.le_of_not_le hle)]
    cases t.lostFifo with
    | nil => rfl
    | cons x fifo => exact (if_neg (Nat.not_lt_zero _)).symm

lemma lostFifo_expireOld (hfifo : InOrder t.lostFifo) (now : ℕ) :
    (t.expireOld now).lostFifo =
      t.lostFifo.filter fun x => decide (now ≤ x.1 + t.windowDuration) := by
  have hlost := congrArg Prod.fst (t.lost_expireOld now)
  dsimp only at hlost
  rw [hlost, expireFifo_fst, dropWhile_of_inOrder hfifo]
  apply filter_congr
  intro x _
  rw [decide_eq_decide]
  omega

lemma lostIds_expireOld (hfifo : InOrder t.lostFifo) (now i ts : ℕ) :
    (t.expireOld now).lostIds i = some ts ↔
      t.lostIds i = some ts ∧ ¬(ts + t.windowDuration < now ∧ (ts, i) ∈ t.lostFifo) := by
  have hlost := congrArg Prod.snd (t.lost_expireOld now)
  dsimp only at hlost
  have hiff : ts < now - t.windowDuration ↔ ts + t.windowDuration < now := by omega
  rw [hlost, expireFifo_snd hfifo, hiff]

/-! ## Reports -/

lemma lostIds_onPacketLost (now : ℕ) (t : LossTracker) (pkt : ℕ) :
    (onPacketLost now t pkt).lostIds = update t.lostIds pkt (some now) := by
  unfold onPacketLost
  split <;> rfl

lemma lostIds_foldl (now : ℕ) (packets : List ℕ) (t : LossTracker) (i : ℕ) :
    (packets.foldl (onPacketLost now) t).lostIds i =
      if i ∈ packets then some now else t.lostIds i := by
  induction packets generalizing t with
  | nil => simp
  | cons pkt packets ih =>
    rw [foldl_cons, ih, lostIds_onPacketLost]
    by_cases hi : i = pkt
    · subst hi
      simp
    · simp [hi]

lemma lostFifo_foldl (now : ℕ) (packets : List ℕ) (t : LossTracker) :
    ∃ added, (packets.foldl (onPacketLost now) t).lostFifo = t.lostFifo ++ added ∧
      ∀ x, x ∈ added ↔ x.1 = now ∧ x.2 ∈ packets ∧ t.lostIds x.2 = none := by
  induction packets generalizing t with
  | nil => exact ⟨[], by simp, by simp⟩
  | cons pkt packets ih =>
    obtain ⟨added, hfifo, hadded⟩ := ih (onPacketLost now t pkt)
    rw [lostIds_onPacketLost] at hadded
    rw [foldl_cons, hfifo]
    cases hpkt : t.lostIds pkt with
    | some ts =>
      refine ⟨added, ?_, ?_⟩
      · unfold onPacketLost
        rw [hpkt]
        rfl
      · rintro ⟨ts', j⟩
        rw [hadded]
        by_cases hj : j = pkt
        · subst hj
          simp [hpkt]
        · simp [hj]
    | none =>
      refine ⟨(now, pkt) :: added, ?_, ?_⟩
      · unfold onPacketLost
        rw [hpkt]
        simp
      · rintro ⟨ts', j⟩
        rw [mem_cons, hadded]
        by_cases hj : j = pkt
        · subst hj
          simp [hpkt]
        · simp [hj]

lemma totalLost_foldl (now : ℕ) (packets : List ℕ) (t : LossTracker) :
    (packets.foldl (onPacketLost now) t).totalLost =
      t.totalLost + (packets.toFinset.filter fun j => t.lostIds j = none).card := by
  induction packets generalizing t with
  | nil => simp
  | cons pkt packets ih =>
    rw [foldl_cons, ih, lostIds_onPacketLost, toFinset_cons]
    cases hpkt : t.lostIds pkt with
    | some ts =>
      have htotal : (onPacketLost now t pkt).totalLost = t.totalLost := by
        unfold onPacketLost
        rw [hpkt]
        rfl
      congr 2
      ext j
      by_cases hj : j = pkt
      · subst hj
        simp [hpkt]
      · simp [hj]
    | none =>
      have htotal : (onPacketLost now t pkt).totalLost = t.totalLost + 1 := by
        unfold onPacketLost
        rw [hpkt]
        rfl
      have hinsert : (insert pkt packets.toFinset).filter (fun j => t.lostIds j = none) =
          insert pkt (packets.toFinset.filter
            fun j => update t.lostIds pkt (some now) j = none) := by
        ext j
        by_cases hj : j = pkt
        · subst hj
          simp [hpkt]
        · simp [hj]
      rw [htotal, hinsert, Finset.card_insert_of_notMem (by simp)]
      omega

lemma windowDuration_foldl (now : ℕ) (packets : List ℕ) (t : LossTracker) :
    (packets.foldl (onPacketLost now) t).windowDuration = t.windowDuration := by
  refine Execution.foldl_frame windowDuration ?_ packets t
  intro t pkt
  unfold onPacketLost
  split <;> rfl

lemma totalLost_onPacketsLost {packets : List ℕ} {now i : ℕ} (hi : i ∈ packets)
    (hforgotten : (t.expireOld now).lostIds i = none) :
    (t.onPacketsLost packets now).totalLost =
      (t.onPacketsLost (packets.filter (· ≠ i)) now).totalLost + 1 := by
  rw [onPacketsLost, onPacketsLost, totalLost_foldl, totalLost_foldl, Nat.add_assoc,
    Nat.add_left_cancel_iff]
  have herase : ((packets.filter (· ≠ i)).toFinset.filter
      fun j => (t.expireOld now).lostIds j = none) =
      (packets.toFinset.filter fun j => (t.expireOld now).lostIds j = none).erase i := by
    ext j
    simp [and_assoc, and_comm]
  rw [herase, Finset.card_erase_add_one]
  simp [hi, hforgotten]

end LossTracker

/-! ## Runs -/

open LossTracker

lemma openReport_sent (i packetNumber now : ℕ) (es : List LossEvent) :
    openReport i (es ++ [.sent packetNumber now]) =
      if packetNumber = i then none else openReport i es := by
  simp only [openReport, foldl_append, foldl_cons, foldl_nil]

lemma openReport_lost (i : ℕ) (packets : List ℕ) (now : ℕ) (es : List LossEvent) :
    openReport i (es ++ [.lost packets now]) =
      if i ∈ packets then some now else openReport i es := by
  simp only [openReport, foldl_append, foldl_cons, foldl_nil]

lemma lastTime_concat (es : List LossEvent) (e : LossEvent) : lastTime (es ++ [e]) = e.time := by
  simp [lastTime]

variable {es : List LossEvent} {i ts : ℕ}

lemma lastReport_of_openReport (h : openReport i es = some ts) : lastReport i es = some ts := by
  induction es using reverseRecOn with
  | nil => cases h
  | append_singleton es e ih =>
    cases e with
    | sent packetNumber now =>
      rw [openReport_sent] at h
      split at h
      · cases h
      · simpa only [lastReport, foldl_append, foldl_cons, foldl_nil] using ih h
    | lost packets now =>
      rw [openReport_lost] at h
      simp only [lastReport, foldl_append, foldl_cons, foldl_nil] at ih ⊢
      split at h
      · rename_i hi
        rw [if_pos hi, h]
      · rename_i hi
        rw [if_neg hi, ih h]

lemma exists_of_openReport (h : openReport i es = some ts) :
    ∃ e ∈ es, i ∈ e.indices ∧ e.time = ts := by
  induction es using reverseRecOn with
  | nil => cases h
  | append_singleton es e ih =>
    have hbefore : openReport i es = some ts → ∃ e' ∈ es ++ [e], i ∈ e'.indices ∧ e'.time = ts := by
      intro hes
      obtain ⟨e', he', hind⟩ := ih hes
      exact ⟨e', mem_append_left _ he', hind⟩
    cases e with
    | sent packetNumber now =>
      rw [openReport_sent] at h
      split at h
      · cases h
      · exact hbefore h
    | lost packets now =>
      rw [openReport_lost] at h
      split at h
      · rename_i hi
        exact ⟨_, mem_append_right _ mem_cons_self, hi, some.inj h⟩
      · exact hbefore h

lemma lastTime_le {e : LossEvent} (htimes : ((es ++ [e]).map LossEvent.time).Pairwise (· ≤ ·)) :
    lastTime es ≤ e.time := by
  rcases eq_nil_or_concat es with rfl | ⟨es, e', rfl⟩
  · exact Nat.zero_le _
  · rw [concat_eq_append, lastTime_concat]
    rw [map_append] at htimes
    exact (pairwise_append.mp htimes).2.2 _ (by simp) _ (by simp)

/-- What holds at a time after every history, repeated reports included. -/
structure Tracks (w : ℕ) (es : List LossEvent) (now : ℕ) (t : LossTracker) : Prop where
  windowDuration : t.windowDuration = w
  ordered : InOrder t.lostFifo
  queued : ∀ x ∈ t.lostFifo, x.1 ≤ now ∧ now ≤ x.1 + w
  reported : ∀ i ts, t.lostIds i = some ts → openReport i es = some ts
  remembered : ∀ i ts, openReport i es = some ts → now ≤ ts + w → t.lostIds i = some ts
  renewed : ∀ i ts u, t.lostIds i = some ts → (u, i) ∈ t.lostFifo → u ≤ ts
  opened : ∀ i ts, openReport i es = some ts → ts ≤ now

lemma tracks_new (w : ℕ) : Tracks w [] 0 (new w) where
  windowDuration := rfl
  ordered := List.Pairwise.nil
  queued _ h := nomatch h
  reported _ _ h := nomatch h
  remembered _ _ h := nomatch h
  renewed _ _ _ h := nomatch h
  opened _ _ h := nomatch h

namespace Tracks

variable {w before now : ℕ} {es : List LossEvent} {t : LossTracker}

lemma mem_lostFifo_expireOld (ht : Tracks w es before t) (x : ℕ × ℕ) :
    x ∈ (t.expireOld now).lostFifo ↔ x ∈ t.lostFifo ∧ now ≤ x.1 + w := by
  rw [LossTracker.lostFifo_expireOld ht.ordered, ht.windowDuration]
  simp

lemma lostIds_expireOld (ht : Tracks w es before t) (i ts : ℕ) :
    (t.expireOld now).lostIds i = some ts ↔
      t.lostIds i = some ts ∧ ¬(ts + w < now ∧ (ts, i) ∈ t.lostFifo) := by
  rw [LossTracker.lostIds_expireOld ht.ordered, ht.windowDuration]

lemma expireOld (ht : Tracks w es before t) (hnow : before ≤ now) :
    Tracks w es now (t.expireOld now) where
  windowDuration := (windowDuration_expireOld t now).trans ht.windowDuration
  ordered := by
    rw [LossTracker.lostFifo_expireOld ht.ordered]
    exact ht.ordered.sublist filter_sublist
  queued x hx := by
    obtain ⟨hmem, hrecent⟩ := (ht.mem_lostFifo_expireOld x).mp hx
    exact ⟨(ht.queued x hmem).1.trans hnow, hrecent⟩
  reported i ts h := ht.reported i ts ((ht.lostIds_expireOld i ts).mp h).1
  remembered i ts hopen hrecent := by
    refine (ht.lostIds_expireOld i ts).mpr ⟨ht.remembered i ts hopen (by omega), ?_⟩
    rintro ⟨hold, -⟩
    omega
  renewed i ts u h hmem := ht.renewed i ts u ((ht.lostIds_expireOld i ts).mp h).1
    ((ht.mem_lostFifo_expireOld _).mp hmem).1
  opened i ts hopen := (ht.opened i ts hopen).trans hnow

lemma sent (ht : Tracks w es now t) (packetNumber : ℕ) {t' : LossTracker}
    (hw : t'.windowDuration = t.windowDuration) (hfifo : t'.lostFifo = t.lostFifo)
    (hids : t'.lostIds = update t.lostIds packetNumber none) :
    Tracks w (es ++ [.sent packetNumber now]) now t' := by
  have hsome : ∀ i ts, t'.lostIds i = some ts ↔ i ≠ packetNumber ∧ t.lostIds i = some ts := by
    intro i ts
    rw [hids]
    by_cases hi : i = packetNumber
    · simp [hi]
    · simp [hi]
  have hopen : ∀ i ts, openReport i (es ++ [.sent packetNumber now]) = some ts ↔
      i ≠ packetNumber ∧ openReport i es = some ts := by
    intro i ts
    rw [openReport_sent]
    split_ifs with hi
    · simp [hi]
    · simp [Ne.symm hi]
  refine ⟨hw.trans ht.windowDuration, hfifo ▸ ht.ordered, hfifo ▸ ht.queued, ?_, ?_, ?_, ?_⟩
  · intro i ts h
    exact (hopen i ts).mpr (((hsome i ts).mp h).imp_right (ht.reported i ts))
  · intro i ts h hrecent
    exact (hsome i ts).mpr (((hopen i ts).mp h).imp_right fun h => ht.remembered i ts h hrecent)
  · intro i ts u h hmem
    exact ht.renewed i ts u ((hsome i ts).mp h).2 (hfifo ▸ hmem)
  · exact fun i ts h => ht.opened i ts ((hopen i ts).mp h).2

lemma lost (ht : Tracks w es now t) (packets : List ℕ) :
    Tracks w (es ++ [.lost packets now]) now (packets.foldl (onPacketLost now) t) := by
  obtain ⟨added, hfifo, hadded⟩ := lostFifo_foldl now packets t
  have hids := lostIds_foldl now packets t
  have hqueued : ∀ x ∈ t.lostFifo ++ added, x.1 ≤ now ∧ now ≤ x.1 + w := by
    intro x hx
    rcases mem_append.mp hx with hmem | hmem
    · exact ht.queued x hmem
    · have htime := ((hadded x).mp hmem).1
      omega
  refine ⟨?_, ?_, hfifo ▸ hqueued, ?_, ?_, ?_, ?_⟩
  · rw [windowDuration_foldl, ht.windowDuration]
  · rw [hfifo]
    refine pairwise_append.mpr ⟨ht.ordered, ?_, fun x hx y hy => ?_⟩
    · refine pairwise_of_forall_mem_list fun x hx y hy => ?_
      exact (((hadded x).mp hx).1.trans ((hadded y).mp hy).1.symm).le
    · exact (ht.queued x hx).1.trans_eq ((hadded y).mp hy).1.symm
  · intro i ts h
    rw [hids] at h
    rw [openReport_lost]
    split_ifs at h ⊢
    · exact h
    · exact ht.reported i ts h
  · intro i ts hopen hrecent
    rw [openReport_lost] at hopen
    rw [hids]
    split_ifs at hopen ⊢
    · exact hopen
    · exact ht.remembered i ts hopen hrecent
  · intro i ts u h hmem
    rw [hfifo] at hmem
    rw [hids] at h
    split_ifs at h with hi
    · exact (hqueued _ hmem).1.trans_eq (some.inj h)
    · rcases mem_append.mp hmem with hmem | hmem
      · exact ht.renewed i ts u h hmem
      · exact absurd ((hadded _).mp hmem).2.1 hi
  · intro i ts hopen
    rw [openReport_lost] at hopen
    split_ifs at hopen
    · exact (some.inj hopen).ge
    · exact ht.opened i ts hopen

lemma step (ht : Tracks w es before t) {e : LossEvent} (hnow : before ≤ e.time) :
    Tracks w (es ++ [e]) e.time (t.step e) := by
  cases e with
  | sent packetNumber now => exact (ht.expireOld hnow).sent packetNumber rfl rfl rfl
  | lost packets now => exact (ht.expireOld hnow).lost packets

end Tracks

lemma tracks_foldl (w : ℕ) (htimes : (es.map LossEvent.time).Pairwise (· ≤ ·)) :
    Tracks w es (lastTime es) (es.foldl step (.new w)) := by
  induction es using reverseRecOn with
  | nil => exact tracks_new w
  | append_singleton es e ih =>
    rw [foldl_append, lastTime_concat]
    refine (ih ?_).step (lastTime_le htimes)
    exact htimes.sublist (sublist_append_left es [e] |>.map _)

/-! ## Matching entries -/

def Matching (t : LossTracker) : Prop := ∀ i ts, t.lostIds i = some ts → (ts, i) ∈ t.lostFifo

namespace Tracks

variable {w before now : ℕ} {es : List LossEvent} {t : LossTracker}

lemma lostIds_expireOld_of_matching (ht : Tracks w es before t) (hmatch : Matching t) (i ts : ℕ) :
    (t.expireOld now).lostIds i = some ts ↔ t.lostIds i = some ts ∧ now ≤ ts + w := by
  rw [ht.lostIds_expireOld]
  refine and_congr_right fun hids => ?_
  have := hmatch i ts hids
  simp [this]

lemma matching_expireOld (ht : Tracks w es before t) (hmatch : Matching t) :
    Matching (t.expireOld now) := by
  intro i ts h
  rw [ht.lostIds_expireOld_of_matching hmatch] at h
  exact (ht.mem_lostFifo_expireOld _).mpr ⟨hmatch i ts h.1, h.2⟩

variable {packets : List ℕ}

/-- A report keeps the entries in step if it repeats none of an earlier time. -/
theorem matching_lost (ht : Tracks w es now t) (hmatch : Matching t)
    (hrepeat : ∀ i ∈ packets, ∀ ts, openReport i es = some ts → ts = now ∨ ts + w < now) :
    Matching (packets.foldl (onPacketLost now) t) := by
  intro i ts h
  obtain ⟨added, hfifo, hadded⟩ := lostFifo_foldl now packets t
  rw [hfifo, mem_append, hadded]
  rw [lostIds_foldl] at h
  split_ifs at h with hi
  · obtain rfl := some.inj h
    cases hbefore : t.lostIds i with
    | none => exact .inr ⟨rfl, hi, rfl⟩
    | some ts =>
      have hmem := hmatch i ts hbefore
      rcases hrepeat i hi ts (ht.reported i ts hbefore) with rfl | hold
      · exact .inl hmem
      · exact absurd (ht.queued _ hmem).2 (Nat.not_le.mpr hold)
  · exact .inl (hmatch i ts h)

lemma not_matching_lost (ht : Tracks w es now t) (hi : i ∈ packets)
    (hopen : openReport i es = some ts) (hlater : ts ≠ now) (hrecent : now ≤ ts + w) :
    ¬ Matching (packets.foldl (onPacketLost now) t) := by
  intro hmatch
  have hkept := ht.remembered i ts hopen hrecent
  obtain ⟨added, hfifo, hadded⟩ := lostFifo_foldl now packets t
  have hmem := hmatch i now (by rw [lostIds_foldl, if_pos hi])
  rw [hfifo, mem_append, hadded] at hmem
  rcases hmem with hmem | ⟨-, -, hnone⟩
  · have hle := ht.renewed i ts now hkept hmem
    have := ht.opened i ts hopen
    omega
  · rw [hkept] at hnone
    cases hnone

lemma dedupExpires (ht : Tracks w es (lastTime es) t) (hmatch : Matching t) :
    DedupExpires w es t where
  matching := hmatch
  counted i now packets hnow hi hquiet := by
    apply LossTracker.totalLost_onPacketsLost hi
    by_contra hkept
    obtain ⟨ts, hkept⟩ := ne_none_iff_exists'.mp hkept
    obtain ⟨hids, hrecent⟩ := (ht.lostIds_expireOld_of_matching hmatch i ts).mp hkept
    obtain ⟨e, he, hind, rfl⟩ := exists_of_openReport (ht.reported i ts hids)
    have := hquiet e he hind
    omega
  recent i hi := by
    obtain ⟨ts, hids⟩ := isSome_iff_exists.mp hi
    exact ⟨ts, lastReport_of_openReport (ht.reported i ts hids), (ht.queued _ (hmatch i ts hids)).2⟩

end Tracks

lemma NoLateRepeat.of_append {w : ℕ} {e : LossEvent} (h : NoLateRepeat w (es ++ [e])) :
    NoLateRepeat w es := by
  intro before packets now hbefore
  exact h before packets now (hbefore.trans (prefix_append es [e]))

lemma matching_foldl {w : ℕ} (htimes : (es.map LossEvent.time).Pairwise (· ≤ ·))
    (hrepeat : NoLateRepeat w es) : Matching (es.foldl step (.new w)) := by
  induction es using reverseRecOn with
  | nil => exact fun _ _ h => nomatch h
  | append_singleton es e ih =>
    have htimes' := htimes.sublist ((sublist_append_left es [e]).map _)
    have ht := tracks_foldl w htimes'
    rw [foldl_append]
    have hmatch := @Tracks.matching_expireOld w _ e.time es _ ht (ih htimes' hrepeat.of_append)
    cases e with
    | sent packetNumber now =>
      intro i ts h
      by_cases hi : i = packetNumber
      · simp [step, onPacketSent, hi] at h
      · exact hmatch i ts ((update_of_ne hi _ _).symm.trans h)
    | lost packets now =>
      exact (ht.expireOld (lastTime_le htimes)).matching_lost hmatch
        (hrepeat es packets now (prefix_refl _))

/-- The remembered losses expire with the window in every state of a history exactly when no index
is reported a second time, later and within the window, without being sent in between. -/
theorem loss_dedup_expires_iff (w : ℕ) (es : List LossEvent)
    (htimes : (es.map LossEvent.time).Pairwise (· ≤ ·)) :
    (∀ es₁, es₁ <+: es → DedupExpires w es₁ (es₁.foldl step (.new w))) ↔
      NoLateRepeat w es := by
  have hstart : ∀ {es₁}, es₁ <+: es → (es₁.map LossEvent.time).Pairwise (· ≤ ·) :=
    fun h => htimes.sublist (h.sublist.map _)
  constructor
  · intro h before packets now hbefore i hi ts hopen
    by_contra hrepeat
    obtain ⟨hlater, hrecent⟩ := not_or.mp hrepeat
    have ht := tracks_foldl w (hstart ((prefix_append before _).trans hbefore))
    refine (ht.expireOld (lastTime_le (hstart hbefore))).not_matching_lost hi hopen hlater
      (Nat.not_lt.mp hrecent) ?_
    have hstate := (h _ hbefore).matching
    rwa [foldl_append] at hstate
  · intro h es₁ hes₁
    refine (tracks_foldl w (hstart hes₁)).dedupExpires (matching_foldl (hstart hes₁) ?_)
    intro before packets now hbefore
    exact h before packets now (hbefore.trans hes₁)

theorem loss_dedup_expires_resent :
    DedupExpires 10 [.lost [5] 0, .sent 5 1, .lost [5] 2]
      ([LossEvent.lost [5] 0, .sent 5 1, .lost [5] 2].foldl step (.new 10)) := by
  refine (loss_dedup_expires_iff 10 [.lost [5] 0, .sent 5 1, .lost [5] 2] (by decide)).mpr ?_ _
    (prefix_refl _)
  intro before packets now hbefore i hi ts hopen
  obtain ⟨after, hafter⟩ := hbefore
  match before, hafter with
  | [], _ => cases hopen
  | [e], hafter => simp at hafter
  | [e, e'], hafter =>
    simp only [cons_append, nil_append, cons.injEq] at hafter
    obtain ⟨rfl, rfl, heq, -⟩ := hafter
    cases heq
    obtain rfl := mem_singleton.mp hi
    cases hopen
  | e :: e' :: e'' :: rest, hafter => simp at hafter

/-- A packet reported at 0 and again at 1 is still remembered a thousand windows later, and its new
loss is not counted. -/
theorem loss_dedup_repeated :
    (([LossEvent.lost [5] 0, .lost [5] 1].foldl step (.new 10)).onPacketsLost
        [5] 10000).totalLost = 1 ∧
      ((([LossEvent.lost [5] 0, .lost [5] 1].foldl step (.new 10)).onPacketsLost
        [] 10000).lostIds 5 = some 1 ∧
      ¬ DedupExpires 10 [.lost [5] 0, .lost [5] 1]
        ([LossEvent.lost [5] 0, .lost [5] 1].foldl step (.new 10))) := by
  refine ⟨by decide, by decide, fun h => ?_⟩
  have hcounted := h.counted 5 10000 [5] (by decide) (by decide) (by decide)
  revert hcounted
  decide

end Favonius.Congestion
