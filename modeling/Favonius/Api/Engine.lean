import Favonius.Lib.Execution

/-!
# The transfer engine of the API

`create_transfer` submits a transfer and spawns a task for it; the task writes the states
`Active`, then `Complete` or `Failed`; `resume_transfer` writes `Resuming`.  Every one of these
holds the engine's lock for one write only.  The limit is checked by `submit` alone.
-/

namespace Favonius.Api

open Function Execution List

inductive TransferState where
  | new
  | manifested
  | queued
  | active
  | partly
  | paused
  | resuming
  | complete
  | verified
  | failed
  | aborted
  deriving DecidableEq

/-- The transfer has not finished, successfully or not. -/
def TransferState.holdsCapacity : TransferState → Bool
  | complete | verified | failed | aborted => false
  | _ => true

structure Transfer (ι : Type*) where
  id : ι
  source : String
  destination : String
  state : TransferState
  bytesTotal : ℕ
  error : Option String

def Transfer.new {ι : Type*} (id : ι) (source destination : String) : Transfer ι :=
  ⟨id, source, destination, .new, 0, none⟩

structure TransferEngine (ι : Type*) where
  transfers : List (Transfer ι)
  maxConcurrent : ℕ

inductive TransferError where
  | capacityExceeded (active max : ℕ)
  deriving DecidableEq

variable {ι : Type*} [DecidableEq ι]

namespace TransferEngine

def occupied (e : TransferEngine ι) : ℕ := e.transfers.countP (·.state.holdsCapacity)

def submit (e : TransferEngine ι) (t : Transfer ι) : Except TransferError (TransferEngine ι) :=
  if e.maxConcurrent ≤ e.occupied then .error (.capacityExceeded e.occupied e.maxConcurrent)
  else .ok { e with transfers := e.transfers ++ [t] }

def updateFirst (id : ι) (f : Transfer ι → Transfer ι) : List (Transfer ι) → List (Transfer ι)
  | [] => []
  | t :: ts => if t.id = id then f t :: ts else t :: updateFirst id f ts

def getMut (e : TransferEngine ι) (id : ι) (f : Transfer ι → Transfer ι) : TransferEngine ι :=
  { e with transfers := updateFirst id f e.transfers }

end TransferEngine

open TransferEngine

inductive TaskPhase where
  | pending
  | copying
  | ended
  | finished
  deriving DecidableEq

structure ApiState (ι : Type*) where
  engine : TransferEngine ι
  task : ι → Option TaskPhase

inductive ApiEvent (ι : Type*) where
  /-- `rejection` is the message of `check_paths_disjoint`, if any. -/
  | create (id : ι) (source destination : String) (rejection : Option String)
  | activate (id : ι) (fileSize : ℕ)
  | complete (id : ι)
  | fail (id : ι) (error : String)
  | finish (id : ι)
  | resume (id : ι)

namespace ApiState

variable (s : ApiState ι)

def advance (id : ι) (phase : TaskPhase) (f : Transfer ι → Transfer ι) : ApiState ι :=
  ⟨s.engine.getMut id f, update s.task id (some phase)⟩

/-- An id is new when it was never given out; a task takes a step only in its phase. -/
def step : ApiEvent ι → Option (ApiState ι)
  | .create id source destination rejection =>
    if s.task id ≠ none then none
    else if rejection.isSome then some s
    else
      match s.engine.submit (.new id source destination) with
      | .ok engine => some ⟨engine, update s.task id (some .pending)⟩
      | .error _ => some s
  | .activate id fileSize =>
    if s.task id = some .pending then
      some (s.advance id .copying fun t => { t with bytesTotal := fileSize, state := .active })
    else none
  | .complete id =>
    if s.task id = some .copying then
      some (s.advance id .ended fun t => { t with state := .complete })
    else none
  | .fail id error =>
    if s.task id = some .pending ∨ s.task id = some .copying then
      some (s.advance id .ended fun t => { t with state := .failed, error := some error })
    else none
  | .finish id =>
    if s.task id = some .ended then
      some { s with task := update s.task id (some .finished) }
    else none
  | .resume id =>
    some { s with engine := s.engine.getMut id fun t => { t with state := .resuming } }

end ApiState

/-! ## Writes to one transfer -/

namespace TransferEngine

variable {id : ι} {f : Transfer ι → Transfer ι} {ts : List (Transfer ι)}

lemma map_id_updateFirst (hid : ∀ t, (f t).id = t.id) :
    (updateFirst id f ts).map (·.id) = ts.map (·.id) := by
  induction ts with
  | nil => rfl
  | cons t ts ih =>
    unfold updateFirst
    split
    · rw [map_cons, map_cons, hid]
    · rw [map_cons, map_cons, ih]

variable {t : Transfer ι}

lemma mem_updateFirst (hnodup : (ts.map (·.id)).Nodup) (h : t ∈ updateFirst id f ts) :
    (t ∈ ts ∧ t.id ≠ id) ∨ ∃ u ∈ ts, u.id = id ∧ t = f u := by
  induction ts with
  | nil => cases h
  | cons u ts ih =>
    rw [map_cons, nodup_cons] at hnodup
    unfold updateFirst at h
    split at h
    · rename_i hu
      rcases mem_cons.mp h with rfl | hmem
      · exact .inr ⟨u, mem_cons_self, hu, rfl⟩
      · refine .inl ⟨mem_cons_of_mem u hmem, ?_⟩
        rintro rfl
        exact hnodup.1 (hu ▸ mem_map_of_mem hmem)
    · rename_i hu
      rcases mem_cons.mp h with rfl | hmem
      · exact .inl ⟨mem_cons_self, hu⟩
      · rcases ih hnodup.2 hmem with ⟨hold, hne⟩ | ⟨v, hv, hwritten⟩
        · exact .inl ⟨mem_cons_of_mem u hold, hne⟩
        · exact .inr ⟨v, mem_cons_of_mem u hv, hwritten⟩

lemma countP_updateFirst (hnodup : (ts.map (·.id)).Nodup) (p : Transfer ι → Bool) (hmem : t ∈ ts)
    (ht : t.id = id) :
    (updateFirst id f ts).countP p + (if p t then 1 else 0) =
      ts.countP p + if p (f t) then 1 else 0 := by
  induction ts with
  | nil => cases hmem
  | cons u ts ih =>
    rw [map_cons, nodup_cons] at hnodup
    unfold updateFirst
    rcases mem_cons.mp hmem with rfl | hmem
    · rw [if_pos ht, countP_cons, countP_cons]
      omega
    have hu : u.id ≠ id := by
      rintro hu
      exact hnodup.1 (hu.trans ht.symm ▸ mem_map_of_mem hmem)
    rw [if_neg hu, countP_cons, countP_cons]
    have := ih hnodup.2 hmem
    omega

lemma mem_updateFirst_of_ne (hmem : t ∈ ts) (hne : t.id ≠ id) : t ∈ updateFirst id f ts := by
  induction ts with
  | nil => cases hmem
  | cons u ts ih =>
    unfold updateFirst
    rcases mem_cons.mp hmem with rfl | hmem
    · rw [if_neg hne]
      exact mem_cons_self
    · split
      · exact mem_cons_of_mem _ hmem
      · exact mem_cons_of_mem _ (ih hmem)

lemma exists_mem_updateFirst (hmem : t ∈ ts) (ht : t.id = id) :
    ∃ u ∈ ts, u.id = id ∧ f u ∈ updateFirst id f ts := by
  induction ts with
  | nil => cases hmem
  | cons v ts ih =>
    unfold updateFirst
    by_cases hv : v.id = id
    · rw [if_pos hv]
      exact ⟨v, mem_cons_self, hv, mem_cons_self⟩
    rw [if_neg hv]
    rcases mem_cons.mp hmem with rfl | hmem
    · exact absurd ht hv
    · obtain ⟨u, hu, hid, hwritten⟩ := ih hmem
      exact ⟨u, mem_cons_of_mem v hu, hid, mem_cons_of_mem v hwritten⟩

lemma updateFirst_of_notMem (h : id ∉ ts.map (·.id)) : updateFirst id f ts = ts := by
  induction ts with
  | nil => rfl
  | cons t ts ih =>
    simp only [map_cons, mem_cons, not_or] at h
    rw [updateFirst, if_neg (Ne.symm h.1), ih h.2]

end TransferEngine

/-! ## The capacity invariant -/

def TaskPhase.Working (phase : Option TaskPhase) : Prop :=
  phase = some .pending ∨ phase = some .copying

open TaskPhase

/-- The transfers that hold capacity are those with a working task, within the limit. -/
structure Sound (s : ApiState ι) : Prop where
  nodup : (s.engine.transfers.map (·.id)).Nodup
  known : ∀ t ∈ s.engine.transfers, s.task t.id ≠ none
  working : ∀ t ∈ s.engine.transfers, t.state.holdsCapacity = true ↔ Working (s.task t.id)
  bounded : s.engine.occupied ≤ s.engine.maxConcurrent

namespace Sound

variable {s t : ApiState ι}

omit [DecidableEq ι] in
lemma init (max : ℕ) : Sound (⟨⟨[], max⟩, fun _ => none⟩ : ApiState ι) where
  nodup := nodup_nil
  known _ h := absurd h not_mem_nil
  working _ h := absurd h not_mem_nil
  bounded := Nat.zero_le max

variable {id : ι} {f : Transfer ι → Transfer ι}

lemma occupied_getMut_le (hs : Sound s)
    (hshrink : ∀ t ∈ s.engine.transfers, t.id = id → (f t).state.holdsCapacity = true →
      t.state.holdsCapacity = true) : (s.engine.getMut id f).occupied ≤ s.engine.occupied := by
  by_cases hid : id ∈ s.engine.transfers.map (·.id)
  · obtain ⟨t, hmem, ht⟩ := List.mem_map.mp hid
    have hcount := countP_updateFirst (f := f) hs.nodup (·.state.holdsCapacity) hmem ht
    have hle : (if (f t).state.holdsCapacity = true then 1 else 0) ≤
        if t.state.holdsCapacity = true then 1 else 0 := by
      split
      · rename_i hholds
        rw [if_pos (hshrink t hmem ht hholds)]
      · exact Nat.zero_le _
    simp only [occupied, getMut]
    omega
  · rw [getMut, updateFirst_of_notMem hid]

lemma write (hs : Sound s) {task : ι → Option TaskPhase} (hid : ∀ t, (f t).id = t.id)
    (hother : ∀ j, j ≠ id → task j = s.task j) (hknown : s.task id ≠ none → task id ≠ none)
    (hworking : ∀ t ∈ s.engine.transfers, t.id = id →
      ((f t).state.holdsCapacity = true ↔ Working (task id)))
    (hshrink : ∀ t ∈ s.engine.transfers, t.id = id → (f t).state.holdsCapacity = true →
      t.state.holdsCapacity = true) :
    Sound ⟨s.engine.getMut id f, task⟩ where
  nodup := by
    rw [getMut, map_id_updateFirst hid]
    exact hs.nodup
  known t hmem := by
    dsimp only
    rcases mem_updateFirst hs.nodup hmem with ⟨hold, hne⟩ | ⟨u, hu, hid', rfl⟩
    · rw [hother t.id hne]
      exact hs.known t hold
    · rw [hid, hid']
      exact hknown (hid' ▸ hs.known u hu)
  working t hmem := by
    dsimp only
    rcases mem_updateFirst hs.nodup hmem with ⟨hold, hne⟩ | ⟨u, hu, hid', rfl⟩
    · rw [hother t.id hne]
      exact hs.working t hold
    · rw [hid, hid']
      exact hworking u hu hid'
  bounded := (hs.occupied_getMut_le hshrink).trans hs.bounded

lemma submit (hs : Sound s) {source destination : String} (hnew : s.task id = none)
    (hfree : s.engine.occupied < s.engine.maxConcurrent) :
    Sound ⟨{ s.engine with transfers := s.engine.transfers ++ [.new id source destination] },
      update s.task id (some .pending)⟩ := by
  have hother : ∀ t ∈ s.engine.transfers, t.id ≠ id := by
    rintro t hmem rfl
    exact hs.known t hmem hnew
  refine ⟨?_, ?_, ?_, ?_⟩
  · rw [map_append]
    refine Nodup.append hs.nodup (nodup_singleton _) ?_
    rintro j hj hid
    obtain ⟨t, hmem, rfl⟩ := List.mem_map.mp hj
    exact hother t hmem (mem_singleton.mp hid)
  · intro t hmem
    dsimp only at hmem ⊢
    rcases mem_append.mp hmem with hold | hnew
    · rw [update_of_ne (hother t hold)]
      exact hs.known t hold
    · rw [mem_singleton.mp hnew, Transfer.new, update_self]
      exact nofun
  · intro t hmem
    dsimp only at hmem ⊢
    rcases mem_append.mp hmem with hold | hnew
    · rw [update_of_ne (hother t hold)]
      exact hs.working t hold
    · rw [mem_singleton.mp hnew, Transfer.new, update_self]
      simp [TransferState.holdsCapacity, Working]
  · simp only [occupied, countP_append, countP_singleton] at hfree ⊢
    split <;> omega

lemma advance (hs : Sound s) {phase : TaskPhase} (hworking : Working (s.task id))
    (hid : ∀ t, (f t).id = t.id)
    (hstate : ∀ t, (f t).state.holdsCapacity = true ↔ Working (some phase)) :
    Sound (s.advance id phase f) := by
  apply hs.write hid
  · intro j hj
    exact update_of_ne hj _ _
  · intro
    rw [update_self]
    exact nofun
  · intro t hmem ht
    rw [update_self]
    exact hstate t
  · rintro t hmem rfl hholds
    exact (hs.working t hmem).mpr hworking

lemma finish (hs : Sound s) (htask : s.task id = some .ended) :
    Sound { s with task := update s.task id (some .finished) } where
  nodup := hs.nodup
  known t hmem := by
    dsimp only
    by_cases ht : t.id = id
    · rw [ht, update_self]
      exact nofun
    · rw [update_of_ne ht]
      exact hs.known t hmem
  working t hmem := by
    rw [hs.working t hmem]
    dsimp only
    by_cases ht : t.id = id
    · rw [ht, update_self, htask]
      simp [Working]
    · rw [update_of_ne ht]
  bounded := hs.bounded

end Sound

inductive StepsTo (s : ApiState ι) : ApiEvent ι → ApiState ι → Prop
  | refused {id : ι} {source destination : String} {rejection : Option String} :
      StepsTo s (.create id source destination rejection) s
  | submitted {id : ι} {source destination : String} {rejection : Option String}
      (hnew : s.task id = none) (hfree : s.engine.occupied < s.engine.maxConcurrent) :
      StepsTo s (.create id source destination rejection)
        ⟨{ s.engine with transfers := s.engine.transfers ++ [.new id source destination] },
          update s.task id (some .pending)⟩
  | activated {id : ι} {fileSize : ℕ} (htask : s.task id = some .pending) :
      StepsTo s (.activate id fileSize)
        (s.advance id .copying fun t => { t with bytesTotal := fileSize, state := .active })
  | completed {id : ι} (htask : s.task id = some .copying) :
      StepsTo s (.complete id) (s.advance id .ended fun t => { t with state := .complete })
  | failed {id : ι} {error : String} (htask : Working (s.task id)) :
      StepsTo s (.fail id error)
        (s.advance id .ended fun t => { t with state := .failed, error := some error })
  | finished {id : ι} (htask : s.task id = some .ended) :
      StepsTo s (.finish id) { s with task := update s.task id (some .finished) }
  | resumed {id : ι} : StepsTo s (.resume id)
      { s with engine := s.engine.getMut id fun t => { t with state := .resuming } }

variable {s : ApiState ι}

lemma stepsTo_of_step {t : ApiState ι} {e : ApiEvent ι} (h : s.step e = some t) :
    StepsTo s e t := by
  cases e with
  | create id source destination rejection =>
    simp only [ApiState.step, TransferEngine.submit] at h
    split at h
    · cases h
    rename_i hnew
    split at h
    · cases h
      exact .refused
    split at h
    · rename_i engine hsubmit
      cases h
      split at hsubmit
      · cases hsubmit
      · rename_i hfree
        cases hsubmit
        exact .submitted (not_not.mp hnew) (not_le.mp hfree)
    · cases h
      exact .refused
  | activate | complete | fail | finish =>
    simp only [ApiState.step] at h
    split at h <;> cases h
    rename_i htask
    constructor
    exact htask
  | resume id =>
    cases h
    exact .resumed

lemma maxConcurrent_step {max : ℕ} (s : ApiState ι) (e : ApiEvent ι) (t : ApiState ι)
    (hs : s.engine.maxConcurrent = max) (hstep : s.step e = some t) :
    t.engine.maxConcurrent = max := by
  cases stepsTo_of_step hstep <;> exact hs

/-- The one thing a run must not do: resume a transfer that has given its capacity back. -/
def ResumesHolder (s : ApiState ι) : ApiEvent ι → Prop
  | .resume id => ∀ t ∈ s.engine.transfers, t.id = id → t.state.holdsCapacity = true
  | _ => True

instance (s : ApiState ι) (e : ApiEvent ι) : Decidable (ResumesHolder s e) :=
  match e with
  | .resume id => inferInstanceAs (Decidable (∀ t ∈ s.engine.transfers, t.id = id → _))
  | .create .. | .activate .. | .complete .. | .fail .. | .finish .. => .isTrue trivial

lemma sound_step (s : ApiState ι) (e : ApiEvent ι) (t : ApiState ι) (hs : Sound s)
    (hok : ResumesHolder s e) (hstep : s.step e = some t) : Sound t := by
  cases stepsTo_of_step hstep with
  | refused => exact hs
  | submitted hnew hfree => exact hs.submit hnew hfree
  | activated htask =>
    refine hs.advance (.inl htask) (fun _ => rfl) ?_
    simp [TransferState.holdsCapacity, Working]
  | completed htask =>
    refine hs.advance (.inr htask) (fun _ => rfl) ?_
    simp [TransferState.holdsCapacity, Working]
  | failed htask =>
    refine hs.advance htask (fun _ => rfl) ?_
    simp [TransferState.holdsCapacity, Working]
  | finished htask => exact hs.finish htask
  | resumed =>
    refine hs.write (fun _ => rfl) (fun _ _ => rfl) (fun h => h) ?_ ?_
    · intro t hmem ht
      have := hs.working t hmem
      rw [ht] at this
      rw [← this, hok t hmem ht]
      simp [TransferState.holdsCapacity]
    · intro t hmem ht _
      exact hok t hmem ht

lemma Sound.exists_drained (hs : Sound s) :
    ∃ es t, (∀ e ∈ es, ∃ id error, e = .fail id error) ∧ exec ApiState.step s es = some t ∧
      t.engine.occupied = 0 := by
  induction hn : s.engine.occupied generalizing s with
  | zero => exact ⟨[], s, by simp, rfl, hn⟩
  | succ n ih =>
    have hpos : 0 < s.engine.transfers.countP (·.state.holdsCapacity) := by
      rw [← occupied, hn]
      exact Nat.succ_pos n
    obtain ⟨t, hmem, hholds⟩ := countP_pos_iff.mp hpos
    set f : Transfer ι → Transfer ι := fun t => { t with state := .failed, error := some "" }
      with hf
    have hstep : s.step (.fail t.id "") = some (s.advance t.id .ended f) :=
      if_pos ((hs.working t hmem).mp hholds)
    have hcount : (s.advance t.id .ended f).engine.occupied = n := by
      have hmoved := countP_updateFirst (f := f) hs.nodup (·.state.holdsCapacity) hmem rfl
      have hfreed : (f t).state.holdsCapacity ≠ true := nofun
      rw [if_pos hholds, if_neg hfreed, ← occupied, hn] at hmoved
      exact Nat.succ.inj hmoved
    have hsound : Sound (s.advance t.id .ended f) := sound_step s (.fail t.id "") _ hs trivial hstep
    obtain ⟨es, u, hes, hrun, hempty⟩ := ih hsound hcount
    refine ⟨.fail t.id "" :: es, u, ?_, exec_cons_eq_some.mpr ⟨_, hstep, hrun⟩, hempty⟩
    rintro e (_ | ⟨_, he⟩)
    · exact ⟨t.id, "", rfl⟩
    · exact hes e he

def ApiState.init (max : ℕ) : ApiState ι := ⟨⟨[], max⟩, fun _ => none⟩

/-- As long as no finished transfer is resumed, the limit holds, every transfer that holds
capacity has a task at work, and the tasks alone can free the whole engine. -/
theorem capacity_holds_without_resuming_finished (max : ℕ) (es : List (ApiEvent ι))
    (s : ApiState ι) (halong : Along ApiState.step ResumesHolder (.init max) es)
    (hrun : exec ApiState.step (.init max) es = some s) :
    s.engine.occupied ≤ max ∧
      (∀ t ∈ s.engine.transfers, t.state.holdsCapacity = true → Working (s.task t.id)) ∧
      ∃ fs t, (∀ e ∈ fs, ∃ id error, e = .fail id error) ∧ exec ApiState.step s fs = some t ∧
        t.engine.occupied = 0 := by
  have hs : Sound s := halong.invariant sound_step (Sound.init max) hrun
  have hmax : s.engine.maxConcurrent = max :=
    exec_invariant (P := fun s => s.engine.maxConcurrent = max) maxConcurrent_step rfl hrun
  refine ⟨hmax ▸ hs.bounded, ?_, hs.exists_drained⟩
  intro t hmem hholds
  exact (hs.working t hmem).mp hholds

theorem capacity_of_an_active_transfer_resumed :
    ∃ s, exec ApiState.step (.init 1) [.create 0 "a" "b" none, .activate 0 5, .resume 0] =
        some s ∧ s.engine.occupied ≤ 1 ∧
      (∀ t ∈ s.engine.transfers, t.state.holdsCapacity = true → Working (s.task t.id)) := by
  refine ⟨_, rfl, ?_⟩
  have h := capacity_holds_without_resuming_finished 1
    [.create 0 "a" "b" none, .activate 0 5, .resume (0 : ℕ)] _
    (by decide) rfl
  exact ⟨h.1, h.2.1⟩

/-! ## A finished transfer that is resumed -/

/-- The transfer holds capacity and nothing will ever take it back. -/
def Stuck (id : ι) (s : ApiState ι) : Prop :=
  s.task id = some .finished ∧
    ∃ t ∈ s.engine.transfers, t.id = id ∧ t.state.holdsCapacity = true

variable {id : ι}

lemma Stuck.advance {j : ι} (hs : Stuck id s) (hj : s.task j ≠ some .finished) (phase : TaskPhase)
    (f : Transfer ι → Transfer ι) : Stuck id (s.advance j phase f) := by
  obtain ⟨htask, t, hmem, rfl, hholds⟩ := hs
  have hne : t.id ≠ j := by
    rintro rfl
    exact hj htask
  exact ⟨(update_of_ne hne _ _).trans htask, t, mem_updateFirst_of_ne hmem hne, rfl, hholds⟩

lemma stuck_step (s : ApiState ι) (e : ApiEvent ι) (t : ApiState ι) (hs : Stuck id s)
    (hstep : s.step e = some t) : Stuck id t := by
  cases stepsTo_of_step hstep with
  | refused => exact hs
  | submitted hnew hfree =>
    obtain ⟨htask, u, hmem, rfl, hholds⟩ := hs
    refine ⟨(update_of_ne ?_ _ _).trans htask, u, mem_append_left _ hmem, rfl, hholds⟩
    rintro rfl
    rw [htask] at hnew
    cases hnew
  | activated htask | completed htask =>
    apply hs.advance
    rw [htask]
    exact nofun
  | failed htask =>
    apply hs.advance
    rcases htask with htask | htask <;> rw [htask] <;> exact nofun
  | finished htask =>
    obtain ⟨hfinished, u, hmem, rfl, hholds⟩ := hs
    refine ⟨(update_of_ne ?_ _ _).trans hfinished, u, hmem, rfl, hholds⟩
    rintro rfl
    rw [hfinished] at htask
    cases htask
  | @resumed j =>
    obtain ⟨htask, u, hmem, rfl, hholds⟩ := hs
    refine ⟨htask, ?_⟩
    by_cases hj : u.id = j
    · obtain ⟨v, -, hv, hwritten⟩ := exists_mem_updateFirst
        (f := fun t => { t with state := .resuming }) hmem hj
      exact ⟨_, hwritten, hv.trans hj.symm, rfl⟩
    · exact ⟨u, mem_updateFirst_of_ne hmem hj, rfl, hholds⟩

omit [DecidableEq ι] in
lemma Stuck.occupied_pos (hs : Stuck id s) : 0 < s.engine.occupied := by
  obtain ⟨-, t, hmem, -, hholds⟩ := hs
  exact countP_pos_iff.mpr ⟨t, hmem, hholds⟩

/-- With room for one transfer: resuming the finished transfer 0 fills the engine for ever, and
resuming it while transfer 1 runs exceeds the limit. -/
theorem resuming_finished_transfer_exhausts_engine :
    (∃ s, exec ApiState.step (.init 1) [.create 0 "a" "b" none, .activate 0 5, .complete 0,
        .finish 0, .resume 0] = some s ∧
      (∃ t ∈ s.engine.transfers, t.state.holdsCapacity = true ∧ ¬ Working (s.task t.id)) ∧
      ∀ es u, exec ApiState.step s es = some u → ∀ t, ∃ active,
        u.engine.submit t = .error (.capacityExceeded active 1)) ∧
    ∃ s : ApiState ℕ, exec ApiState.step (.init 1) [.create 0 "a" "b" none, .activate 0 5,
        .complete 0, .finish 0, .create 1 "c" "d" none, .resume 0] = some s ∧
      1 < s.engine.occupied := by
  refine ⟨⟨_, rfl, ⟨_, mem_cons_self, rfl, nofun⟩, ?_⟩, _, rfl, by decide⟩
  intro es u hrun t
  have hmax : u.engine.maxConcurrent = 1 :=
    exec_invariant (P := fun s => s.engine.maxConcurrent = 1) maxConcurrent_step rfl hrun
  have hstuck : Stuck 0 u := exec_invariant (P := Stuck 0) stuck_step
    ⟨rfl, _, mem_cons_self, rfl, rfl⟩ hrun
  refine ⟨u.engine.occupied, ?_⟩
  rw [submit, hmax, if_pos (Nat.succ_le_of_lt hstuck.occupied_pos)]

end Favonius.Api
