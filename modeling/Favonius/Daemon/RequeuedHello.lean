import Favonius.Daemon.Admission

/-!
# HELLOs queued during a transfer

The router hands a running transfer the control datagrams of its own connection and no others.  A
HELLO that `join_recv_thread` finds among them is a late copy of the one that opened the transfer;
it is answered and queued as if it came from a new connection.
-/

namespace Favonius.Daemon.Admission

open Execution Holdings List Option

variable {parallel : Bool} {s t : Listener} {e : Event}

variable {k j : ℕ} {c c' : Slot}

inductive ChannelMove (s : Listener) (k : ℕ) (c : Slot) : Event → Slot → Prop where
  | keep (e : Event) (c' : Slot) (hcid : c'.cid = c.cid) (hreceiving : c'.receiving = c.receiving)
      (hctrl : c'.ctrl = c.ctrl) (hwatch : ∀ cid ∈ c'.watchHello, cid ∈ c.watchHello) :
      ChannelMove s k c e c'
  | deliver (hello : Bool) (cid : ℕ) (hroute : s.routes cid = some k) :
      ChannelMove s k c (.datagram hello cid) (c.deliver hello cid)
  | startReceive : ChannelMove s k c (.startReceive k) { c with receiving := true }
  | watch : ChannelMove s k c (.watch k) c.read

lemma ChannelMove.refl (s : Listener) (k : ℕ) (c : Slot) (e : Event) : ChannelMove s k c e c :=
  .keep e c rfl rfl rfl fun _ => id

/-- The slot was there before, or it was registered just now. -/
def SlotStep (s : Listener) (e : Event) (k : ℕ) (c' : Slot) : Prop :=
  (∃ c, s.slots[k]? = some c ∧ ChannelMove s k c e c') ∨
    ∃ cid, c' = ⟨cid, .running, false, [], none, none⟩

lemma slotStep_set {new : Slot} (hc : s.slots[j]? = some c)
    (h : (s.slots.set j new)[k]? = some c') (hmove : ChannelMove s j c e new) :
    SlotStep s e k c' := by
  rcases getElem?_set_cases h with ⟨rfl, rfl⟩ | ⟨-, hold⟩
  · exact .inl ⟨c, hc, hmove⟩
  · exact .inl ⟨c', hold, .refl s k c' e⟩

lemma slotStep_onSlot {f : Slot → Option Slot}
    (hf : ∀ c new, f c = some new → ChannelMove s j c e new) (ht : s.onSlot j f = some t)
    (h : t.slots[k]? = some c') : SlotStep s e k c' := by
  obtain ⟨c, hc, hstep⟩ := bind_eq_some_iff.mp ht
  obtain ⟨new, hnew, rfl⟩ := map_eq_some_iff.mp hstep
  exact slotStep_set hc h (hf c new hnew)

lemma slotStep_guarded {p : Slot → Prop} [DecidablePred p] {f : Slot → Slot}
    (hf : ∀ c, ChannelMove s j c e (f c))
    (ht : s.onSlot j (fun c => if p c then some (f c) else none) = some t)
    (h : t.slots[k]? = some c') : SlotStep s e k c' := by
  refine slotStep_onSlot (fun c new hnew => ?_) ht h
  obtain ⟨-, rfl⟩ := guard_eq_some hnew
  exact hf c

lemma slots_of_handover (he : e = .mark ∨ e = .enqueue ∨ e = .take ∨ e = .unmark ∨ e = .decline)
    (h : step parallel s e = some t) : t.slots = s.slots := by
  rcases he with rfl | rfl | rfl | rfl | rfl
  all_goals
    simp only [step] at h
    split at h
  · split at h <;> cases h <;> rfl
  · cases h
  · obtain ⟨-, rfl⟩ := guard_eq_some h
    rfl
  · cases h
  all_goals
    cases h
    try rfl

lemma slotStep_of_step (h : step parallel s e = some t) (hc' : t.slots[k]? = some c') :
    SlotStep s e k c' := by
  have hsame : t.slots = s.slots → SlotStep s e k c' := fun hslots =>
    .inl ⟨c', by rw [← hslots]; exact hc', .refl s k c' e⟩
  cases e with
  | datagram hello cid =>
    obtain ⟨-, hstep⟩ := ite_none_right_eq_some.mp h
    split at hstep
    · rename_i j hroute
      refine slotStep_onSlot (fun c new hnew => ?_) hstep hc'
      cases hnew
      exact .deliver hello cid hroute
    · cases hstep
      refine hsame ?_
      split <;> rfl
  | mark | enqueue | take | unmark | decline => exact hsame (slots_of_handover (by simp) h)
  | register =>
    simp only [step] at h
    split at h
    · rename_i cid _
      cases h
      rcases getElem?_concat_cases hc' with hold | ⟨-, rfl⟩
      · exact .inl ⟨c', hold, .refl s k c' _⟩
      · exact .inr ⟨cid, rfl⟩
    · cases h
  | startReceive j => exact slotStep_guarded (fun _ => .startReceive) h hc'
  | watch j => exact slotStep_guarded (fun _ => .watch) h hc'
  | dataHello j cid =>
    refine slotStep_guarded (fun c => ?_) h hc'
    exact .keep _ _ rfl rfl rfl fun _ => id
  | finish j ok =>
    refine slotStep_guarded (fun c => ?_) h hc'
    cases ok with
    | true => exact .keep _ _ rfl rfl rfl fun _ => id
    | false => exact .keep _ _ rfl rfl rfl (by simp)
  | unregister j =>
    obtain ⟨c, hc, hstep⟩ := bind_eq_some_iff.mp h
    obtain ⟨-, rfl⟩ := guard_eq_some hstep
    exact slotStep_set hc hc' (.keep _ _ rfl rfl rfl fun _ => id)
  | requeue j =>
    obtain ⟨c, hc, hstep⟩ := bind_eq_some_iff.mp h
    obtain ⟨-, heq⟩ := ite_none_right_eq_some.mp hstep
    have hslots : t.slots = s.slots.set j { c with phase := .ended } := by
      dsimp only at heq
      split at heq
      · cases heq
        rfl
      · obtain ⟨-, rfl⟩ := guard_eq_some heq
        rfl
    rw [hslots] at hc'
    exact slotStep_set hc hc' (.keep _ _ rfl rfl rfl fun _ => id)

lemma Slot.mem_ctrl_deliver {hello : Bool} {cid : ℕ} {d : Bool × ℕ}
    (h : d ∈ (c.deliver hello cid).ctrl) : d ∈ c.ctrl ∨ d = (hello, cid) := by
  unfold deliver at h
  split at h
  · rcases mem_append.mp h with hold | hnew
    · exact .inl hold
    · exact .inr (mem_singleton.mp hnew)
  · exact .inl h

lemma Slot.deliver_keeps (c : Slot) (hello : Bool) (cid : ℕ) :
    (c.deliver hello cid).cid = c.cid ∧ (c.deliver hello cid).receiving = c.receiving ∧
      (c.deliver hello cid).watchHello = c.watchHello := by
  unfold deliver
  split <;> exact ⟨rfl, rfl, rfl⟩

lemma Slot.read_spec (c : Slot) : c.read.cid = c.cid ∧ c.read.receiving = c.receiving ∧
    (∀ d ∈ c.read.ctrl, d ∈ c.ctrl) ∧
    ∀ cid ∈ c.read.watchHello, cid ∈ c.watchHello ∨ c.receiving = true ∧ (true, cid) ∈ c.ctrl := by
  unfold read
  split
  · exact ⟨rfl, rfl, fun _ => id, fun _ => .inl⟩
  rename_i hello first rest hctrl
  rw [hctrl]
  split
  · rename_i hwatch
    refine ⟨rfl, rfl, fun d hd => mem_cons_of_mem _ hd, fun cid hcid => .inr ?_⟩
    obtain rfl : first = cid := some.inj hcid
    rw [hwatch.2.1]
    exact ⟨hwatch.1, mem_cons_self⟩
  · exact ⟨rfl, rfl, fun d hd => mem_cons_of_mem _ hd, fun _ => .inl⟩

/-- No HELLO is handed to a slot that receives, and none waits in its channel when it starts to. -/
def NoLateHello (s : Listener) : Event → Prop
  | .datagram hello cid =>
    hello = true → ∀ k ∈ s.routes cid, ∀ c ∈ s.slots[k]?, c.receiving = false
  | .startReceive k => ∀ c ∈ s.slots[k]?, ∀ d ∈ c.ctrl, d.1 = false
  | _ => True

instance (s : Listener) : ∀ e, Decidable (NoLateHello s e)
  | .datagram hello cid => inferInstanceAs (Decidable
      (hello = true → ∀ k ∈ s.routes cid, ∀ c ∈ s.slots[k]?, c.receiving = false))
  | .startReceive k => inferInstanceAs (Decidable (∀ c ∈ s.slots[k]?, ∀ d ∈ c.ctrl, d.1 = false))
  | .mark | .enqueue | .take | .unmark | .decline | .register | .watch _ | .dataHello _ _
  | .finish _ _ | .unregister _ | .requeue _ => .isTrue trivial

structure Slot.Quiet (c : Slot) : Prop where
  watchHello : c.watchHello = none
  ctrl : c.receiving = true → ∀ d ∈ c.ctrl, d.1 = false

lemma Slot.Quiet.move (hc : c.Quiet) (hok : NoLateHello s e) (hk : s.slots[k]? = some c)
    (h : ChannelMove s k c e c') : c'.Quiet := by
  cases h with
  | keep e c' _ hreceiving hctrl hwatch =>
    refine ⟨?_, by rw [hreceiving, hctrl]; exact hc.ctrl⟩
    rw [hc.watchHello] at hwatch
    exact eq_none_iff_forall_not_mem.mpr fun cid hmem => nomatch hwatch cid hmem
  | deliver hello cid hroute =>
    obtain ⟨-, hreceiving, hwatch⟩ := c.deliver_keeps hello cid
    refine ⟨hwatch.trans hc.watchHello, fun hon d hd => ?_⟩
    rw [hreceiving] at hon
    rcases Slot.mem_ctrl_deliver hd with hold | rfl
    · exact hc.ctrl hon d hold
    · refine Bool.eq_false_iff.mpr fun hhello => ?_
      rw [hok hhello k hroute c hk] at hon
      cases hon
  | startReceive => exact ⟨hc.watchHello, fun _ => hok c hk⟩
  | watch =>
    obtain ⟨-, hreceiving, hctrl, hwatch⟩ := c.read_spec
    refine ⟨eq_none_iff_forall_not_mem.mpr fun cid hmem => ?_, fun hon d hd => ?_⟩
    · rcases hwatch cid hmem with hold | ⟨hon, hread⟩
      · rw [hc.watchHello] at hold
        cases hold
      · exact nomatch hc.ctrl hon _ hread
    · rw [hreceiving] at hon
      exact hc.ctrl hon d (hctrl d hd)

/-- Without late HELLOs the watch queues none of its own connection, and what a slot sends back to
the accept loop of that connection came in on the data port. -/
theorem requeued_hello_not_own (parallel : Bool) (es : List Event) (s : Listener)
    (hlate : Along (step parallel) NoLateHello start es)
    (hrun : exec (step parallel) start es = some s) (k : ℕ) (c : Slot)
    (hc : s.slots[k]? = some c) :
    c.watchHello ≠ some c.cid ∧ (c.nextHello = some c.cid → c.threadHello = some c.cid) := by
  have hquiet : ∀ (k : ℕ) (c : Slot), s.slots[k]? = some c → c.Quiet := by
    refine hlate.invariant
      (P := fun s => ∀ (k : ℕ) (c : Slot), s.slots[k]? = some c → c.Quiet) ?_ nofun hrun
    intro s e t hslots hok hstep k c' hc'
    rcases slotStep_of_step hstep hc' with ⟨c, hc, hmove⟩ | ⟨cid, rfl⟩
    · exact (hslots k c hc).move hok hc hmove
    · exact ⟨rfl, fun _ => forall_mem_nil _⟩
  have hnone := (hquiet k c hc).watchHello
  constructor
  · rw [hnone]
    nofun
  · intro hnext
    rwa [Slot.nextHello, hnone, or_none] at hnext

def quietTransfer : List Event :=
  [.datagram true 7, .mark, .enqueue, .take, .unmark, .register, .startReceive 0,
    .datagram false 7, .watch 0, .dataHello 0 8, .finish 0 true]

theorem requeued_hello_not_own_quiet :
    ∃ s c, exec (step true) start quietTransfer = some s ∧ s.slots[0]? = some c ∧ c.cid = 7 ∧
      c.nextHello = some 8 ∧ c.watchHello ≠ some c.cid :=
  ⟨_, _, rfl, rfl, rfl, rfl,
    (requeued_hello_not_own true quietTransfer _ (by decide) rfl 0 _ rfl).1⟩

def lateHello : List Event :=
  [.datagram true 7, .mark, .enqueue, .take, .unmark, .register, .startReceive 0,
    .datagram true 7, .watch 0]

/-- The transfer queues its own connection and is admitted once more when it is over. -/
theorem late_hello_admitted_again :
    ∃ s c t d, exec (step true) start lateHello = some s ∧ s.slots = [c] ∧
      c.watchHello = some c.cid ∧
      exec (step true) s [.finish 0 true, .unregister 0, .requeue 0, .take, .unmark, .register] =
        some t ∧
      t.slots[1]? = some d ∧ d.cid = c.cid ∧ d.Live :=
  ⟨_, _, _, _, rfl, rfl, rfl, rfl, rfl, rfl, by decide⟩

end Favonius.Daemon.Admission
