import Favonius.Lib.Execution
import Favonius.Lib.Holdings

/-!
# Data sockets of a transfer

With a port range the daemon owns a pool of data sockets.  A transfer takes some of them at
admission; its releaser returns them in two steps, out of its own list and then into the pool.
The receive thread reads them until it ends, whatever has become of the handler that started it.
The handler may be dropped at every await point when the slot's time is over.
-/

namespace Favonius.Daemon.DataSockets

open Execution Holdings List Option

inductive Phase where
  | setup
  /-- The sockets beyond the number of streams are taken off the releaser's list. -/
  | trimmed
  | receiving
  /-- The thread is joined and the sockets are taken off the list. -/
  | released
  | over
  deriving DecidableEq

structure Slot where
  socks : List ℕ
  held : Option (List ℕ)
  /-- Sockets off that list and not yet in the pool, in the handler and in the slot after it. -/
  inHandler : List ℕ
  inSlot : List ℕ
  used : ℕ
  phase : Phase
  thread : Bool
  deriving DecidableEq

structure Sockets where
  pool : List ℕ
  slots : List Slot
  deriving DecidableEq

def start (pool : List ℕ) : Sockets := ⟨pool, []⟩

inductive Action where
  /-- `release_tail`, before and after the pool is locked. -/
  | splitTail (numStreams : ℕ)
  | returnTail
  | spawn
  | threadEnds
  | takeBack
  | giveBack
  | returns
  | expire
  | takeRest
  | giveRest

inductive Event where
  | accept (run : List ℕ)
  | act (k : ℕ) (action : Action)

def act (c : Slot) : Action → Option (Slot × List ℕ)
  | .splitTail numStreams =>
    let keep := min (max numStreams 1) c.socks.length
    if c.phase = .setup then
      some ({ c with
        phase := .trimmed, used := keep
        held := c.held.map (List.take keep)
        inHandler := (c.held.getD []).drop keep }, [])
    else none
  | .returnTail =>
    if c.phase = .trimmed then some ({ c with inHandler := [] }, c.inHandler) else none
  | .spawn =>
    if c.phase = .trimmed ∧ c.inHandler = [] then
      some ({ c with phase := .receiving, thread := true }, [])
    else none
  | .threadEnds => if c.thread then some ({ c with thread := false }, []) else none
  | .takeBack =>
    if c.phase = .receiving ∧ c.thread = false then
      some ({ c with phase := .released, held := none, inHandler := c.held.getD [] }, [])
    else none
  | .giveBack =>
    if c.phase = .released then some ({ c with inHandler := [] }, c.inHandler) else none
  | .returns =>
    if c.phase ≠ .over ∧ c.inHandler = [] ∧ c.thread = false then
      some ({ c with phase := .over }, [])
    else none
  | .expire =>
    -- what the dropped handler had in hand is gone
    if c.phase ≠ .over then some ({ c with phase := .over, inHandler := [] }, []) else none
  | .takeRest =>
    if c.phase = .over then
      some ({ c with held := none, inSlot := c.inSlot ++ c.held.getD [] }, [])
    else none
  | .giveRest =>
    if c.phase = .over then some ({ c with inSlot := [] }, c.inSlot) else none

def step (d : Sockets) : Event → Option Sockets
  | .accept run =>
    if run ≠ [] ∧ ∀ x ∈ run, run.count x ≤ d.pool.count x then
      some ⟨d.pool.diff run, d.slots ++ [⟨run, some run, [], [], run.length, .setup, false⟩]⟩
    else none
  | .act k action =>
    d.slots[k]?.bind fun c => (act c action).map fun p => ⟨d.pool ++ p.2, d.slots.set k p.1⟩

def Slot.holds (c : Slot) : List ℕ := c.held.getD [] ++ c.inHandler ++ c.inSlot

def Slot.reads (c : Slot) : List ℕ := c.socks.take c.used

structure Exclusive (sockets : List ℕ) (d : Sockets) : Prop where
  conserved : (d.pool ++ d.slots.flatMap Slot.holds).Perm sockets
  once : (d.pool ++ d.slots.flatMap Slot.holds).Nodup
  own : ∀ c ∈ d.slots, c.thread = true → c.reads ⊆ c.holds

/-- The time of a slot is not over while its receive thread runs, nor while its handler has
sockets in hand. -/
def Timely (d : Sockets) : Event → Prop
  | .act k .expire => ∀ c ∈ d.slots[k]?, c.thread = false ∧ c.inHandler = []
  | _ => True

instance (d : Sockets) : ∀ e, Decidable (Timely d e)
  | .act k .expire => inferInstanceAs
      (Decidable (∀ c ∈ d.slots[k]?, c.thread = false ∧ c.inHandler = []))
  | .accept _ | .act _ (.splitTail _) | .act _ .returnTail | .act _ .spawn | .act _ .threadEnds
  | .act _ .takeBack | .act _ .giveBack | .act _ .returns | .act _ .takeRest
  | .act _ .giveRest => .isTrue trivial

structure SlotInv (c : Slot) : Prop where
  setup : c.phase = .setup → c.held = some c.socks ∧ c.inHandler = []
  kept : c.phase = .trimmed ∨ c.phase = .receiving → c.held = some c.reads
  receiving : c.phase = .receiving → c.inHandler = []
  thread : c.thread = true → c.phase = .receiving

variable {c : Slot}

lemma SlotInv.own (hc : SlotInv c) (hthread : c.thread = true) : c.reads ⊆ c.holds := by
  have hheld := hc.kept (.inr (hc.thread hthread))
  intro x hx
  rw [Slot.holds, hheld]
  exact mem_append_left _ (mem_append_left _ hx)

lemma SlotInv.of_stopped (hphase : c.phase = .released ∨ c.phase = .over)
    (hthread : c.thread = false) : SlotInv c := by
  refine ⟨?_, ?_, ?_, ?_⟩
  · intro h
    simp [h] at hphase
  · rintro (h | h)
    · simp [h] at hphase
    · simp [h] at hphase
  · intro h
    simp [h] at hphase
  · intro h
    simp [h] at hthread

variable {c' : Slot} {a : Action} {back : List ℕ}

lemma slotInv_act (hc : SlotInv c) (htimely : a = .expire → c.thread = false ∧ c.inHandler = [])
    (h : act c a = some (c', back)) : SlotInv c' := by
  have hstopped : c.phase ≠ .receiving → c.thread = false := by
    intro hphase
    cases hthread : c.thread with
    | false => rfl
    | true => exact absurd (hc.thread hthread) hphase
  cases a with
  | splitTail numStreams =>
    obtain ⟨hphase, ⟨⟩⟩ := guard_eq_some h
    have hthread := hstopped (by simp [hphase])
    refine ⟨nofun, fun _ => ?_, nofun, fun hrunning => ?_⟩
    · rw [(hc.setup hphase).1]
      rfl
    · rw [hthread] at hrunning
      cases hrunning
  | returnTail =>
    obtain ⟨-, ⟨⟩⟩ := guard_eq_some h
    exact ⟨fun hsetup => ⟨(hc.setup hsetup).1, rfl⟩, hc.kept, fun _ => rfl, hc.thread⟩
  | spawn =>
    obtain ⟨⟨hphase, hnone⟩, ⟨⟩⟩ := guard_eq_some h
    exact ⟨nofun, fun _ => hc.kept (.inl hphase), fun _ => hnone, fun _ => rfl⟩
  | threadEnds =>
    obtain ⟨-, ⟨⟩⟩ := guard_eq_some h
    exact ⟨hc.setup, hc.kept, hc.receiving, nofun⟩
  | takeBack =>
    obtain ⟨⟨-, hthread⟩, ⟨⟩⟩ := guard_eq_some h
    exact .of_stopped (.inl rfl) hthread
  | giveBack =>
    obtain ⟨hphase, ⟨⟩⟩ := guard_eq_some h
    exact .of_stopped (.inl hphase) (hstopped (by simp [hphase]))
  | returns =>
    obtain ⟨⟨-, -, hthread⟩, ⟨⟩⟩ := guard_eq_some h
    exact .of_stopped (.inr rfl) hthread
  | expire =>
    obtain ⟨-, ⟨⟩⟩ := guard_eq_some h
    exact .of_stopped (.inr rfl) (htimely rfl).1
  | takeRest | giveRest =>
    obtain ⟨hphase, ⟨⟩⟩ := guard_eq_some h
    exact .of_stopped (.inr hphase) (hstopped (by simp [hphase]))

lemma count_act (hc : SlotInv c) (htimely : a = .expire → c.thread = false ∧ c.inHandler = [])
    (h : act c a = some (c', back)) (x : ℕ) :
    c'.holds.count x + back.count x = c.holds.count x := by
  cases a with
  | splitTail numStreams =>
    obtain ⟨hphase, ⟨⟩⟩ := guard_eq_some h
    obtain ⟨hheld, hnone⟩ := hc.setup hphase
    simp only [Slot.holds, hheld, hnone, map_some, getD_some,
      take_append_drop, append_nil, count_nil, Nat.add_zero]
  | returnTail | giveBack | giveRest =>
    obtain ⟨-, ⟨⟩⟩ := guard_eq_some h
    simp only [Slot.holds, count_append, count_nil]
    omega
  | spawn | threadEnds | returns =>
    obtain ⟨-, ⟨⟩⟩ := guard_eq_some h
    rfl
  | takeBack =>
    obtain ⟨⟨hphase, -⟩, ⟨⟩⟩ := guard_eq_some h
    simp only [Slot.holds, hc.receiving hphase, getD_none, nil_append,
      append_nil, count_nil, Nat.add_zero]
  | expire =>
    obtain ⟨-, ⟨⟩⟩ := guard_eq_some h
    simp only [Slot.holds, (htimely rfl).2, count_nil, Nat.add_zero]
  | takeRest =>
    obtain ⟨-, ⟨⟩⟩ := guard_eq_some h
    simp only [Slot.holds, getD_none, count_append, count_nil]
    omega

structure Inv (sockets : List ℕ) (d : Sockets) : Prop where
  conserved : (d.pool ++ d.slots.flatMap Slot.holds).Perm sockets
  slots : ∀ c ∈ d.slots, SlotInv c

variable {sockets : List ℕ} {d d' : Sockets}

lemma inv_start (pool : List ℕ) : Inv pool (start pool) :=
  ⟨by rw [start, flatMap_nil, append_nil], nofun⟩

lemma inv_step {e : Event} (hd : Inv sockets d) (hok : Timely d e) (h : step d e = some d') :
    Inv sockets d' := by
  have hcount : ∀ x, d.pool.count x + (d.slots.flatMap Slot.holds).count x = sockets.count x := by
    intro x
    rw [← count_append]
    exact hd.conserved.count_eq x
  cases e with
  | accept run =>
    obtain ⟨⟨-, hrun⟩, rfl⟩ := guard_eq_some h
    refine ⟨perm_iff_count.mpr fun x => ?_, ?_⟩
    · have hx := hcount x
      have hle : run.count x ≤ d.pool.count x := by
        by_cases hmem : x ∈ run
        · exact hrun x hmem
        · rw [count_eq_zero.mpr hmem]
          exact Nat.zero_le _
      rw [flatMap_append, count_append, count_append, count_diff, flatMap_singleton]
      simp only [Slot.holds, getD_some, append_nil]
      omega
    · intro c hc
      rcases mem_append.mp hc with hc | hc
      · exact hd.slots c hc
      · obtain rfl := mem_singleton.mp hc
        exact ⟨fun _ => ⟨rfl, rfl⟩, by simp, nofun, nofun⟩
  | act k a =>
    obtain ⟨c, hc, hacted⟩ := bind_eq_some_iff.mp h
    obtain ⟨⟨c', back⟩, hact, rfl⟩ := map_eq_some_iff.mp hacted
    have hslot := hd.slots c (mem_of_getElem? hc)
    have htimely : a = .expire → c.thread = false ∧ c.inHandler = [] := by
      rintro rfl
      exact hok c hc
    refine ⟨perm_iff_count.mpr fun x => ?_, ?_⟩
    · have hx := hcount x
      have hback := count_act hslot htimely hact x
      have hset := (flatMap_set_perm Slot.holds hc c').count_eq x
      rw [count_append, count_append] at hset
      dsimp only
      rw [count_append, count_append]
      omega
    · intro b hb
      rcases mem_or_eq_of_mem_set hb with hb | rfl
      · exact hd.slots b hb
      · exact slotInv_act hslot htimely hact

/-- In every run in which no slot's time is over while its receive thread runs or its handler
has sockets in hand, each socket is in the pool or with one slot, once, and a receive thread
reads sockets of its own slot only. -/
theorem data_sockets_exclusive (pool : List ℕ) (hpool : pool.Nodup) (es : List Event) (d : Sockets)
    (htimely : Along step Timely (start pool) es) (hrun : exec step (start pool) es = some d) :
    Exclusive pool d := by
  have hinv : Inv pool d :=
    htimely.invariant (fun _ _ _ hd hok hstep => inv_step hd hok hstep) (inv_start pool) hrun
  exact ⟨hinv.conserved, hinv.conserved.nodup_iff.mpr hpool,
    fun c hc hthread => (hinv.slots c hc).own hthread⟩

def twoTransfers : List Event :=
  [.accept [1, 2], .act 0 (.splitTail 1), .act 0 .returnTail, .act 0 .spawn, .accept [2],
    .act 0 .threadEnds, .act 0 .takeBack, .act 0 .giveBack, .act 1 .expire, .act 1 .takeRest,
    .act 1 .giveRest]

theorem data_sockets_exclusive_two :
    ∃ d, exec step (start [1, 2, 3]) twoTransfers = some d ∧ Exclusive [1, 2, 3] d :=
  ⟨_, rfl, data_sockets_exclusive [1, 2, 3] (by decide) twoTransfers _ (by decide) rfl⟩

/-- The first transfer's time is over while its thread receives, and the second one is given
its socket. -/
def expiredTransfer : List Event :=
  [.accept [1], .act 0 (.splitTail 1), .act 0 .spawn, .act 0 .expire, .act 0 .takeRest,
    .act 0 .giveRest, .accept [1], .act 1 (.splitTail 1), .act 1 .spawn]

/-- The other way: the time is over between the two steps of a release. -/
def expiredRelease : List Event :=
  [.accept [1], .act 0 (.splitTail 1), .act 0 .spawn, .act 0 .threadEnds, .act 0 .takeBack,
    .act 0 .expire, .act 0 .takeRest, .act 0 .giveRest]

/-- Two threads read one socket, and a socket is in nobody's hands. -/
theorem expired_transfer_shares_socket :
    (∃ d, exec step (start [1]) expiredTransfer = some d ∧ ¬Exclusive [1] d ∧
      ∃ a b, d.slots = [a, b] ∧ a.thread = true ∧ b.thread = true ∧ a.reads = b.reads) ∧
    ∃ d, exec step (start [1]) expiredRelease = some d ∧ ¬Exclusive [1] d ∧
      d.pool ++ d.slots.flatMap Slot.holds = [] := by
  refine ⟨⟨_, rfl, ?_, _, _, rfl, rfl, rfl, rfl⟩, _, rfl, ?_, rfl⟩
  · intro h
    exact absurd (h.own _ mem_cons_self rfl) (by decide)
  · intro h
    exact absurd h.conserved (by decide)

end Favonius.Daemon.DataSockets
