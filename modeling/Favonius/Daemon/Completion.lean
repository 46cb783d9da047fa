import Favonius.Daemon.HostileDatagrams

/-!
# Completion and silence of the peer

The receive loop looks for completion only where a DATA packet came in, and gives up on a silent
peer only as long as it has not seen completion.  A loop that starts with a missing chunk therefore
never gives up once every chunk is in; one that starts with none does.
-/

namespace Favonius.Daemon

open Execution ByteCodec Crypto Transfer List StreamRecvState
open Checked (StreamSound)

def Receiver.Complete (r : Receiver) : Prop :=
  ∀ s ∈ r.streams, ∀ l < s.chunkCount, s.received.getD l false = true

instance (r : Receiver) : Decidable r.Complete :=
  inferInstanceAs (Decidable (∀ s ∈ r.streams, ∀ l < s.chunkCount, s.received.getD l false = true))

variable {P : Primitives} {openFn : OpenFn} {cfg : RecvConfig} {r r' : Receiver} {ev : RecvEvent}
  {out : List Bytes}

lemma StreamRecvState.count_received_eq_iff (s : StreamRecvState) :
    s.received.count true = s.chunkCount ↔ ∀ l < s.chunkCount, s.received.getD l false = true := by
  rw [← s.received_length, count_eq_length, forall_mem_iff_forall_getElem]
  refine forall₂_congr fun l hl => ?_
  rw [getD_eq_getElem _ _ hl, eq_comm]

lemma complete_iff_totalReceived (hcounted : ∀ s ∈ r.streams, s.nReceived = s.received.count true)
    {total : ℕ} (htotal : (r.streams.map chunkCount).sum = total) :
    r.Complete ↔ total ≤ r.totalReceived := by
  have hle : ∀ s ∈ r.streams, s.nReceived ≤ s.chunkCount := by
    intro s hs
    rw [hcounted s hs, ← s.received_length]
    exact count_le_length
  rw [← htotal, Receiver.totalReceived]
  constructor
  · intro hcomplete
    refine sum_le_sum fun s hs => ?_
    rw [hcounted s hs, (s.count_received_eq_iff).mpr (hcomplete s hs)]
  · intro hsum s hs
    by_contra hmissing
    have hlt : s.nReceived < s.chunkCount := by
      refine lt_of_le_of_ne (hle s hs) ?_
      rw [hcounted s hs]
      exact fun h => hmissing ((s.count_received_eq_iff).mp h)
    exact absurd hsum (Nat.not_le.mpr (sum_lt_sum _ _ hle ⟨s, hs, hlt⟩))

lemma totalReceived_of_progress
    (h : r'.streams.map progress = r.streams.map progress) :
    r'.totalReceived = r.totalReceived := by
  have hmap := congrArg (fun ps => (ps.map Progress.nReceived).sum) h
  rw [map_map, map_map] at hmap
  exact hmap

def Receiver.Unseen (cfg : RecvConfig) (r : Receiver) : Prop :=
  r.tailArmed = false → r.totalReceived < cfg.totalChunks

lemma Receiver.Unseen.of_frame (h : r.Unseen cfg) (harmed : r'.tailArmed = r.tailArmed)
    (hprogress : r'.streams.map progress = r.streams.map progress) :
    r'.Unseen cfg := by
  intro hunarmed
  rw [totalReceived_of_progress hprogress]
  exact h (harmed.symm.trans hunarmed)

lemma tailArmed_ackTimer (clock : Clock) (r : Receiver) :
    (ackTimer P cfg clock r).1.tailArmed = r.tailArmed := by
  exact ackTimer_induction P cfg clock r (fun a => a.1.tailArmed = r.tailArmed) rfl
    fun _ _ _ ha => ha

lemma unseen_completionCheck (clock : Clock) (a : Receiver × List Bytes) :
    (completionCheck P cfg clock a).1.Unseen cfg := by
  obtain ⟨seq, out, h, -⟩ := completionCheck_spec P cfg clock a
  intro hunarmed
  rw [h] at hunarmed ⊢
  simp only [Bool.or_eq_false_iff, decide_eq_false_iff_not, not_le] at hunarmed
  exact hunarmed.2

lemma Receiver.Unseen.step (h : r.Unseen cfg) (hstep : r.step P openFn cfg ev = some (r', out)) :
    r'.Unseen cfg := by
  cases Receiver.turn_of_step hstep with
  | data pkt clock nowMs _ =>
    rcases recvData_cases P openFn cfg clock nowMs pkt r with
      hdrop | hnone | ⟨dp, stream, localCi, mmap, next, -, -, -, -, hfed, -⟩
    · rwa [hdrop]
    · rw [hnone]
      exact unseen_completionCheck clock _
    · rw [hfed]
      exact unseen_completionCheck clock _
  | control pkt clock _ _ =>
    have hturn := controlTurn P openFn cfg clock pkt r
    exact h.of_frame hturn.tailArmed (by rw [hturn.streams])
  | empty | tailGrace | peerInactive => exact h
  | ackTimer clock =>
    exact h.of_frame (tailArmed_ackTimer clock r) (progress_ackTimer P cfg clock r).2.2.1

lemma map_chunkCount (r : Receiver) : r.streams.map chunkCount =
    ((r.streams.map progress).map Progress.range).map Prod.snd := by
  rw [map_map, map_map]
  rfl

/-- The streams cover the file and count their chunks. -/
structure Tracked (cfg : RecvConfig) (r : Receiver) : Prop where
  streams : ∀ s ∈ r.streams, StreamSound cfg s
  total : (r.streams.map chunkCount).sum = cfg.totalChunks

lemma Tracked.complete_iff (h : Tracked cfg r) : r.Complete ↔ cfg.totalChunks ≤ r.totalReceived :=
  complete_iff_totalReceived (fun s hs => (h.streams s hs).counted) h.total

lemma Tracked.step (hack : 0 < cfg.ackEvery) (h : Tracked cfg r)
    (hstep : r.step P openFn cfg ev = some (r', out)) : Tracked cfg r' := by
  refine ⟨(streamSound_step hack h.streams hstep).1, ?_⟩
  rw [map_chunkCount, ranges_step hstep, ← map_chunkCount]
  exact h.total

/-- Completion is not overlooked either. -/
structure Watched (cfg : RecvConfig) (r : Receiver) : Prop extends Tracked cfg r where
  unseen : r.Unseen cfg

variable {m : FileManifest} {o : TransferOptions} {bitmap : Option Bytes} {mmap : Bytes}
  {seq : UInt64} {keys : Option SessionKeys} {start : Receiver}

lemma tracked_receiveStart (hstart : receiveStart m bitmap mmap seq keys = some start) :
    Tracked (recvConfig m o) start := by
  have hack : 0 < (recvConfig m o).ackEvery := (ackEvery_bounds _ _).1
  obtain ⟨hsound, hranges⟩ := receiveStart_streams hack rfl hstart
  refine ⟨hsound, ?_⟩
  rw [map_chunkCount, hranges]
  have hall := sum_counts_streamRanges m.totalChunks (max m.numStreams 1) (max m.numStreams 1) 0 0
  rwa [rangesEnd_all (lt_max_of_lt_right Nat.one_pos), Nat.zero_add] at hall

lemma watched_run (hstart : receiveStart m bitmap mmap seq keys = some start)
    (hmissing : ¬start.Complete) {es : List RecvEvent}
    (hrun : exec (receiveStep P openFn (recvConfig m o)) start es = some r) :
    Watched (recvConfig m o) r := by
  refine exec_invariant (P := Watched (recvConfig m o)) ?_ ?_ hrun
  · intro r ev r' h hnext
    obtain ⟨⟨next, out⟩, hstep, rfl⟩ := Option.map_eq_some_iff.mp hnext
    exact ⟨h.toTracked.step (ackEvery_bounds _ _).1 hstep, h.unseen.step hstep⟩
  · have htracked : Tracked (recvConfig m o) start := tracked_receiveStart hstart
    exact ⟨htracked, fun _ => Nat.not_le.mp fun hall => hmissing (htracked.complete_iff.mpr hall)⟩

/-- The loop gives up on a silent peer only while a chunk is missing, in every run, just if it
starts with a missing chunk: from a complete start it can give up at once. -/
theorem inactivity_exit_incomplete_iff
    (hstart : receiveStart m bitmap mmap seq keys = some start) :
    (∀ es r r' out, exec (receiveStep P openFn (recvConfig m o)) start es = some r →
      r.step P openFn (recvConfig m o) .peerInactive = some (r', out) →
      ¬r.Complete ∧ ¬r'.Complete) ↔ ¬start.Complete := by
  constructor
  · intro h
    have hexit : start.step P openFn (recvConfig m o) .peerInactive =
        some ({ start with phase := .peerSilent }, []) := by
      obtain ⟨skips, -, rfl⟩ := Option.map_eq_some_iff.mp hstart
      rfl
    exact (h [] start _ _ rfl hexit).1
  · intro hmissing es r r' out hrun hexit
    have hwatched := watched_run hstart hmissing hrun
    cases Receiver.turn_of_step hexit with
    | peerInactive hunarmed =>
      have hlt := hwatched.unseen hunarmed
      have hopen : ¬r.Complete := fun hall => absurd (hwatched.complete_iff.mp hall) (by omega)
      exact ⟨hopen, hopen⟩

theorem inactivity_exit_incomplete_sampleData :
    ∃ start r r' out, receiveStart sampleManifest none [0, 0] 0 none = some start ∧
      ¬start.Complete ∧
      exec sampleStep start [sampleData 1 9] = some r ∧
      r.step nullPrimitives dropTag sampleConfig .peerInactive = some (r', out) ∧
      ¬r'.Complete := by
  have hstart : receiveStart sampleManifest none [0, 0] 0 none =
      some (.init 0 [0, 0] (buildRecvStreams 2 1) none) := rfl
  refine ⟨_, _, _, _, hstart, by decide +kernel, rfl, rfl, ?_⟩
  exact ((@inactivity_exit_incomplete_iff nullPrimitives dropTag _ sampleOptions _ _ _ _ _
    hstart).mpr (by decide +kernel) [sampleData 1 9] _ _ _ rfl rfl).2

def emptyManifest : FileManifest := ⟨0, 1, 0, 1, []⟩

def holesManifest : FileManifest := ⟨2, 1, 2, 1, [(0, 2)]⟩

/-- The receive of an accepted manifest starts complete and is given up all the same. -/
def GivenUpComplete (m : FileManifest) (bitmap : Option Bytes) (mmap : Bytes) : Prop :=
  validateManifest m none = .ok () ∧
    ∃ start r out, receiveStart m bitmap mmap 0 none = some start ∧ start.Complete ∧
      start.step nullPrimitives dropTag (recvConfig m sampleOptions) .peerInactive =
        some (r, out) ∧ r.phase = .peerSilent ∧ r.Complete

/-- An empty file, a resume bitmap with every chunk, and zero runs over the whole file. -/
theorem complete_start_given_up :
    GivenUpComplete emptyManifest none [0] ∧ GivenUpComplete sampleManifest (some [3]) [5, 9] ∧
      GivenUpComplete holesManifest none [0, 0] := by
  refine ⟨⟨rfl, _, _, _, rfl, ?_, rfl, rfl, ?_⟩, ⟨rfl, _, _, _, rfl, ?_, rfl, rfl, ?_⟩,
    ⟨rfl, _, _, _, rfl, ?_, rfl, rfl, ?_⟩⟩
  all_goals decide +kernel

end Favonius.Daemon
