import Favonius.Client.SendRuns

/-!
# A staging pass

The inner loop of the send loop stages packets until the window, a batch buffer or the burst is
full or no stream has work.  Whether a buffer is full is asked anew in every turn and answered from
outside, so that every backend and capacity is covered.
-/

namespace Favonius.Client

open Execution Crypto List Sender StreamState

structure PassLimits where
  effectiveCwnd : ℕ
  burstQuantum : ℕ

structure TurnInput where
  /-- Some sender's buffer is full. -/
  full : Bool
  keyUpdateTs : UInt64
  nowUs : UInt32

/-- Why the loop is left; `ended` stands for a pass that is not made, as every chunk is acked. -/
inductive Leave where
  | window
  | batch
  | burst
  | noWork
  | failed
  | ended
  | panicked
  deriving DecidableEq

section Pass

variable (P : Primitives) (cfg : SendConfig) (lim : PassLimits) (batchTs : UInt64)

/-- One turn, with the log of transmissions and the number of packets staged in this pass. -/
def stagingTurn (i : TurnInput) (a : Sender × WireLog) (stagedThisPass : ℕ) :
    Leave ⊕ (Sender × WireLog) × ℕ :=
  if lim.effectiveCwnd ≤ a.1.inFlight then .inl .window else
  if i.full then .inl .batch else
  if lim.burstQuantum ≤ stagedThisPass then .inl .burst else
  match findWork a.1.streams a.1.streams.length a.1.currentStream with
  | none =>
    .inl (if 0 < a.1.streams.length ∧ a.1.streams.length ≤ a.1.currentStream then .panicked
      else .noWork)
  | some _ =>
    match logStep P cfg a (.stage batchTs i.keyUpdateTs i.nowUs) with
    | none => .inl .ended
    | some b =>
      if b.1.phase = .failed then .inl .failed
      else .inr (b, stagedThisPass + (b.2.length - a.2.length))

def stagingPass : List TurnInput → Sender × WireLog → ℕ → Option (Leave × (Sender × WireLog) × ℕ)
  | [], _, _ => none
  | i :: is, a, n =>
    match stagingTurn P cfg lim batchTs i a n with
    | .inl why => some (why, a, n)
    | .inr (b, m) => stagingPass is b m

end Pass

/-- Queued entries and chunks not yet reached. -/
def StreamState.pending (t : StreamState) : ℕ :=
  t.retxQueue.length + (t.chunkCount - t.nextLocal)

def Sender.pendingWork (s : Sender) : ℕ := (s.streams.map StreamState.pending).sum

variable {t : StreamState} {streams : List StreamState} {fuel cur k : ℕ}

lemma nextChunk_pending (hwork : t.hasWork = true) : t.nextChunk.2.pending < t.pending := by
  obtain ⟨hstate, -, hless⟩ := t.nextChunk_spec
  have hcount : t.nextChunk.2.chunkCount = t.chunkCount := congrArg AckState.chunkCount hstate
  rw [pending, hcount]
  exact hless hwork

lemma sum_map_set_lt {α : Type*} {f : α → ℕ} {xs : List α} {i : ℕ} {x y : α}
    (hx : xs[i]? = some x) (hlt : f y < f x) : ((xs.set i y).map f).sum < (xs.map f).sum := by
  induction xs generalizing i with
  | nil => cases hx
  | cons z xs ih =>
    cases i with
    | zero =>
      cases hx
      simpa using hlt
    | succ i => simpa using ih hx

lemma hasWork_of_findWork (h : findWork streams fuel cur = some k) (ht : streams[k]? = some t) :
    t.hasWork = true := by
  induction fuel generalizing cur with
  | zero => cases h
  | succ fuel ih =>
    unfold findWork at h
    split at h
    · cases h
    · rename_i u hu
      split_ifs at h with hwork
      · cases h
        cases hu.symm.trans ht
        exact hwork
      · exact ih h

lemma idle_of_findWork (h : findWork streams fuel cur = none) (hcur : cur < streams.length)
    (hk : k < fuel) (ht : streams[(cur + k) % streams.length]? = some t) : t.hasWork = false := by
  induction fuel generalizing cur k with
  | zero => exact absurd hk (Nat.not_lt_zero k)
  | succ fuel ih =>
    rw [findWork, getElem?_eq_getElem hcur] at h
    dsimp only at h
    split_ifs at h with hwork
    cases k with
    | zero =>
      rw [Nat.add_zero, Nat.mod_eq_of_lt hcur, getElem?_eq_getElem hcur] at ht
      cases ht
      exact Bool.eq_false_iff.mpr hwork
    | succ k =>
      apply ih h (Nat.mod_lt _ (by omega)) (Nat.lt_of_succ_lt_succ hk)
      rw [Nat.mod_add_mod, Nat.add_assoc, Nat.add_comm 1 k]
      exact ht

/-- The search goes round all streams. -/
theorem forall_idle (h : findWork streams streams.length cur = none) (hcur : cur < streams.length) :
    ∀ t ∈ streams, t.hasWork = false := by
  intro t ht
  obtain ⟨j, hj, rfl⟩ := getElem_of_mem ht
  have hround : ∃ k < streams.length, (cur + k) % streams.length = j := by
    by_cases hle : cur ≤ j
    · refine ⟨j - cur, by omega, ?_⟩
      rw [Nat.add_sub_cancel' hle, Nat.mod_eq_of_lt hj]
    · refine ⟨j + streams.length - cur, by omega, ?_⟩
      rw [Nat.add_sub_cancel' (by omega), Nat.add_mod_right, Nat.mod_eq_of_lt hj]
  obtain ⟨k, hk, rfl⟩ := hround
  exact idle_of_findWork h hcur hk (getElem?_eq_getElem hj)

section Runs

variable {P : Primitives} {cfg : SendConfig} {lim : PassLimits} {batchTs : UInt64}
  {a b : Sender × WireLog} {n m : ℕ}

lemma length_sentBy_le (s s' : Sender) (ev : SendEvent) : (s.sentBy s' ev).length ≤ 1 := by
  unfold sentBy
  split
  · split
    · rw [length_map]
      exact Option.length_toList_le
    · exact Nat.zero_le 1
  · exact Nat.zero_le 1

variable {i : TurnInput}

/-- A turn that does not leave the loop takes a queued entry or reaches a chunk, and stages one
packet at most. -/
theorem stagingTurn_inr (h : stagingTurn P cfg lim batchTs i a n = .inr (b, m)) :
    logStep P cfg a (.stage batchTs i.keyUpdateTs i.nowUs) = some b ∧
      b.1.pendingWork < a.1.pendingWork ∧ (m = n ∨ m = n + 1) ∧ n < lim.burstQuantum := by
  unfold stagingTurn at h
  iterate 2
    split at h
    · cases h
  split at h
  · cases h
  rename_i hburst
  split at h
  · cases h
  split at h
  · cases h
  rename_i c hstep
  split_ifs at h with hfailed
  cases h
  obtain ⟨⟨s', out⟩, hstage, rfl⟩ := Option.map_eq_some_iff.mp hstep
  have hsent := length_sentBy_le a.1 s' (.stage batchTs i.keyUpdateTs i.nowUs)
  refine ⟨hstep, ?_, ?_, not_le.mp hburst⟩
  · rcases stage_streams hstage with ⟨hphase, -⟩ | ⟨cur, t, hwork, hcur, -, hstreams⟩
    · exact absurd hphase hfailed
    · rw [pendingWork, hstreams]
      apply sum_map_set_lt hcur
      have hless := nextChunk_pending (hasWork_of_findWork hwork hcur)
      generalize t.nextChunk = r at hless
      obtain ⟨_ | c, u⟩ := r <;> exact hless
  · rw [length_append, Nat.add_sub_cancel_left]
    dsimp only
    omega

lemma exists_stagingPass (is : List TurnInput) (a : Sender × WireLog) (n : ℕ)
    (hinputs : a.1.pendingWork < is.length) (hn : n ≤ lim.burstQuantum) :
    ∃ why b m, stagingPass P cfg lim batchTs is a n = some (why, b, m) ∧ m ≤ lim.burstQuantum := by
  induction is generalizing a n with
  | nil => cases hinputs
  | cons i is ih =>
    unfold stagingPass
    cases hturn : stagingTurn P cfg lim batchTs i a n with
    | inl why => exact ⟨why, a, n, rfl, hn⟩
    | inr r =>
      obtain ⟨-, hless, hstaged, hlt⟩ := stagingTurn_inr hturn
      rw [length_cons] at hinputs
      exact ih r.1 r.2 (by omega) (by omega)

lemma exec_of_stagingPass {is : List TurnInput} {why : Leave}
    (h : stagingPass P cfg lim batchTs is a n = some (why, b, m)) :
    ∃ events i, exec (logStep P cfg) a events = some b ∧
      stagingTurn P cfg lim batchTs i b m = .inl why := by
  induction is generalizing a n with
  | nil => cases h
  | cons i is ih =>
    unfold stagingPass at h
    split at h
    · rename_i hturn
      cases h
      exact ⟨[], i, rfl, hturn⟩
    · rename_i c k hturn
      obtain ⟨events, j, hrun, hleave⟩ := ih h
      exact ⟨_ :: events, j, exec_cons_eq_some.mpr ⟨c, (stagingTurn_inr hturn).1, hrun⟩, hleave⟩

lemma idle_of_noWork (h : stagingTurn P cfg lim batchTs i b m = .inl .noWork) :
    ∀ t ∈ b.1.streams, t.retxQueue = [] ∧ t.chunkCount ≤ t.nextLocal := by
  unfold stagingTurn at h
  iterate 3
    split at h
    · cases h
  split at h
  · rename_i hnone
    split_ifs at h with hpanic
    · cases h
    intro t ht
    have hpos : 0 < b.1.streams.length := length_pos_of_mem ht
    have hidle := forall_idle hnone (by omega) t ht
    simpa [hasWork] using hidle
  · split at h
    · cases h
    · split_ifs at h
      cases h

end Runs

/-- Every turn of a pass but the last takes a queued entry or reaches a chunk, and stages at most
one packet while the burst has room; so a pass ends, whatever the window and the buffers do.  If no
stream has work, then every chunk that is not acked was reached and is not queued; and in a run of
the send loop it was sent. -/
theorem staging_pass_ends (P : Primitives) (cfg : SendConfig) (lim : PassLimits)
    (batchTs : UInt64) :
    (∀ i a n b m, stagingTurn P cfg lim batchTs i a n = .inr (b, m) →
      b.1.pendingWork < a.1.pendingWork ∧ (m = n ∨ m = n + 1) ∧ n < lim.burstQuantum) ∧
    (∀ is a, a.1.pendingWork < is.length → ∃ why b m,
      stagingPass P cfg lim batchTs is a 0 = some (why, b, m) ∧ m ≤ lim.burstQuantum) ∧
    ∀ is a b m, stagingPass P cfg lim batchTs is a 0 = some (.noWork, b, m) →
      (∀ t ∈ b.1.streams, ∀ c < t.chunkCount, c < t.nextLocal ∧ c ∉ t.retxQueue) ∧
      ∀ start events, start.Starts cfg → exec (logStep P cfg) (start, []) events = some a →
        ∀ i t, b.1.streams[i]? = some t → ∀ c < t.chunkCount, t.acked.getD c false = false →
          ∃ time, (c, time) ∈ streamLog i b.2 := by
  refine ⟨fun i a n b m h => (stagingTurn_inr h).2,
    fun is a h => exists_stagingPass is a 0 h (Nat.zero_le _), ?_⟩
  intro is a b m hpass
  obtain ⟨later, i, hlater, hleave⟩ := exec_of_stagingPass hpass
  have hidle := idle_of_noWork hleave
  have hreached : ∀ t ∈ b.1.streams, ∀ c < t.chunkCount, c < t.nextLocal :=
    fun t ht c hc => hc.trans_le (hidle t ht).2
  refine ⟨fun t ht c hc => ⟨hreached t ht c hc, by simp [(hidle t ht).1]⟩, ?_⟩
  intro start events hstart hrun i t ht c hc hopen
  obtain ⟨t₀, ht₀, hmoves⟩ := moves_of_run hstart (exec_append_of hrun hlater) ht
  have hserved : Served (t, streamLog i b.2) :=
    moves_invariant (fun _ _ ha => ha.move) hmoves (served_start (new_of_mem_buildStreams ht₀).1 [])
  exact (hserved c (hreached t (mem_of_getElem? ht) c hc)).resolve_left
    fun hacked => Bool.noConfusion (hopen.symm.trans hacked)

end Favonius.Client
