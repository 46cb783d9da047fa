import Favonius.Lib.Execution
import Favonius.Lib.Holdings

/-!
# Admission of transfers

The control-packet router, the accept loop and the transfer slots of the daemon.  They share a
routing table, a set of connections that wait for admission and the channel between router and
accept loop, and each of their steps holds one lock only.  Connection ids are numbers; a channel
is named by the slot that reads it, and slots are numbered in the order of their start.
-/

namespace Favonius.Daemon.Admission

open Function Execution Holdings List Option

def newCapacity : ℕ := 64

def ctrlCapacity : ℕ := 256

inductive Router where
  | idle
  /-- A HELLO for which no route was found. -/
  | unrouted (cid : ℕ)
  /-- It is in the pending set and goes to the accept loop. -/
  | marked (cid : ℕ)
  deriving DecidableEq

inductive Acceptor where
  | idle
  | taken (cid : ℕ)
  /-- No longer in the pending set; permit and sockets come next. -/
  | admitting (cid : ℕ)
  /-- Without a pool of data sockets the loop waits for the slot it started. -/
  | serving (k : ℕ)
  deriving DecidableEq

inductive Phase where
  | running
  | returned
  | closing
  | ended
  deriving DecidableEq

structure Slot where
  cid : ℕ
  phase : Phase
  /-- The receive thread runs and `join_recv_thread` watches the control channel. -/
  receiving : Bool
  /-- Control datagrams not read yet: whether each is a HELLO, and its connection id. -/
  ctrl : List (Bool × ℕ)
  /-- The HELLOs that the watch and the receive thread have queued. -/
  watchHello : Option ℕ
  threadHello : Option ℕ
  deriving DecidableEq

def Slot.Live (c : Slot) : Prop := c.phase = .running ∨ c.phase = .returned

instance (c : Slot) : Decidable c.Live := inferInstanceAs (Decidable (_ ∨ _))

structure Listener where
  routes : ℕ → Option ℕ
  pending : List ℕ
  queue : List ℕ
  router : Router
  acceptor : Acceptor
  slots : List Slot

def start : Listener := ⟨fun _ => none, [], [], .idle, .idle, []⟩

inductive Event where
  | datagram (hello : Bool) (cid : ℕ)
  | mark
  | enqueue
  | take
  | unmark
  | decline
  | register
  | startReceive (k : ℕ)
  | watch (k : ℕ)
  | dataHello (k cid : ℕ)
  | finish (k : ℕ) (ok : Bool)
  | unregister (k : ℕ)
  | requeue (k : ℕ)

/-- A full control channel drops the datagram. -/
def Slot.deliver (c : Slot) (hello : Bool) (cid : ℕ) : Slot :=
  if c.ctrl.length < ctrlCapacity then { c with ctrl := c.ctrl ++ [(hello, cid)] } else c

/-- Before the data phase a HELLO is only answered again. -/
def Slot.read (c : Slot) : Slot :=
  match c.ctrl with
  | [] => c
  | (hello, cid) :: rest =>
    if c.receiving = true ∧ hello = true ∧ c.watchHello = none then
      { c with ctrl := rest, watchHello := some cid }
    else { c with ctrl := rest }

def Slot.nextHello (c : Slot) : Option ℕ := c.threadHello.or c.watchHello

def Listener.onSlot (s : Listener) (k : ℕ) (f : Slot → Option Slot) : Option Listener :=
  s.slots[k]?.bind fun c => (f c).map fun c' => { s with slots := s.slots.set k c' }

def step (parallel : Bool) (s : Listener) : Event → Option Listener
  | .datagram hello cid =>
    if s.router = .idle then
      match s.routes cid with
      | some k => s.onSlot k fun c => some (c.deliver hello cid)
      | none => some (if hello then { s with router := .unrouted cid } else s)
    else none
  | .mark =>
    match s.router with
    | .unrouted cid =>
      if cid ∈ s.pending then some { s with router := .idle }
      else some { s with pending := cid :: s.pending, router := .marked cid }
    | _ => none
  | .enqueue =>
    match s.router with
    | .marked cid =>
      if s.queue.length < newCapacity then
        some { s with queue := s.queue ++ [cid], router := .idle }
      else none
    | _ => none
  | .take =>
    match s.acceptor, s.queue with
    | .idle, cid :: rest => some { s with queue := rest, acceptor := .taken cid }
    | _, _ => none
  | .unmark =>
    match s.acceptor with
    | .taken cid =>
      some { s with pending := s.pending.filter (· ≠ cid), acceptor := .admitting cid }
    | _ => none
  | .decline =>
    match s.acceptor with
    | .admitting _ => some { s with acceptor := .idle }
    | _ => none
  | .register =>
    match s.acceptor with
    | .admitting cid =>
      let k := s.slots.length
      some { s with
        routes := update s.routes cid (some k)
        acceptor := if parallel then .idle else .serving k
        slots := s.slots ++ [⟨cid, .running, false, [], none, none⟩] }
    | _ => none
  | .startReceive k => s.onSlot k fun c =>
      if c.phase = .running then some { c with receiving := true } else none
  | .watch k => s.onSlot k fun c => if c.phase = .running then some c.read else none
  | .dataHello k cid => s.onSlot k fun c =>
      if c.phase = .running ∧ c.receiving = true then some { c with threadHello := some cid }
      else none
  | .finish k ok => s.onSlot k fun c =>
      if c.phase = .running then
        some (if ok then { c with phase := .returned }
          else { c with phase := .returned, watchHello := none, threadHello := none })
      else none
  | .unregister k =>
    s.slots[k]?.bind fun c =>
      if c.phase = .returned then
        some { s with
          routes := update s.routes c.cid none
          slots := s.slots.set k { c with phase := .closing } }
      else none
  | .requeue k =>
    s.slots[k]?.bind fun c =>
      if c.phase = .closing then
        let s' := { s with
          acceptor := if s.acceptor = .serving k then .idle else s.acceptor
          slots := s.slots.set k { c with phase := .ended } }
        match c.nextHello with
        | none => some s'
        | some cid =>
          if s.queue.length < newCapacity then some { s' with queue := s.queue ++ [cid] }
          else none
      else none

/-! ## The property -/

/-- One live slot for each connection, and the table leads to it; what a slot removes when its
transfer is over is its own entry. -/
structure OneSlotPerConnection (s : Listener) : Prop where
  unique : ∀ (j k : ℕ) (c d : Slot), s.slots[j]? = some c → s.slots[k]? = some d → c.Live →
    d.Live → c.cid = d.cid → j = k
  routed : ∀ (k : ℕ) (c : Slot), s.slots[k]? = some c → c.Live → s.routes c.cid = some k
  own : ∀ (k : ℕ) (c : Slot), s.slots[k]? = some c → c.phase = .returned →
    ∀ j, s.routes c.cid = some j → j = k

/-! ## Connections on their way to a slot -/

def Router.claim : Router → List ℕ
  | .marked cid => [cid]
  | _ => []

def Router.waiting : Router → Option ℕ
  | .unrouted cid => some cid
  | _ => none

def Acceptor.claim : Acceptor → List ℕ
  | .taken cid | .admitting cid => [cid]
  | _ => []

def Slot.claim (c : Slot) : List ℕ := if c.Live then [c.cid] else []

def claims (s : Listener) : List ℕ :=
  s.router.claim ++ s.queue ++ s.acceptor.claim ++ s.slots.flatMap Slot.claim

/-- A HELLO sets out for the accept loop only if no other of its connection has done so and
no slot serves it. -/
def Unclaimed (s : Listener) : Event → Prop
  | .mark => ∀ cid ∈ s.router.waiting, cid ∉ s.pending → cid ∉ claims s
  | .requeue k => ∀ c ∈ s.slots[k]?, ∀ cid ∈ c.nextHello, cid ∉ claims s
  | _ => True

instance (s : Listener) : ∀ e, Decidable (Unclaimed s e)
  | .mark => inferInstanceAs
      (Decidable (∀ cid ∈ s.router.waiting, cid ∉ s.pending → cid ∉ claims s))
  | .requeue k => inferInstanceAs
      (Decidable (∀ c ∈ s.slots[k]?, ∀ cid ∈ c.nextHello, cid ∉ claims s))
  | .datagram _ _ | .enqueue | .take | .unmark | .decline | .register | .startReceive _
  | .watch _ | .dataHello _ _ | .finish _ _ | .unregister _ => .isTrue trivial

lemma count_claims (s : Listener) (cid : ℕ) :
    (claims s).count cid = s.router.claim.count cid + s.queue.count cid +
      s.acceptor.claim.count cid + (s.slots.flatMap Slot.claim).count cid := by
  simp only [claims, count_append]

variable {k : ℕ} {c : Slot} {slots : List Slot} {c' : Slot} {acceptor : Acceptor}

lemma count_slots_set (hc : slots[k]? = some c) (c' : Slot) (cid : ℕ) :
    ((slots.set k c').flatMap Slot.claim).count cid + c.claim.count cid =
      (slots.flatMap Slot.claim).count cid + c'.claim.count cid := by
  rw [← count_append, ← count_append]
  exact (flatMap_set_perm Slot.claim hc c').count_eq cid

lemma count_claim_of_not_live (h : ¬c.Live) (cid : ℕ) : c.claim.count cid = 0 := by
  rw [Slot.claim, if_neg h, count_nil]

lemma Slot.claim_congr (hcid : c'.cid = c.cid) (hlive : c'.Live ↔ c.Live) :
    c'.claim = c.claim := by
  unfold Slot.claim
  rw [hcid]
  exact if_congr hlive rfl rfl

structure Inv (s : Listener) : Prop where
  once : ∀ cid, (claims s).count cid ≤ 1
  routed : ∀ (k : ℕ) (c : Slot), s.slots[k]? = some c → c.Live → s.routes c.cid = some k

variable {s t : Listener}

lemma Inv.unique (hs : Inv s) {j : ℕ} {d : Slot} (hc : s.slots[j]? = some c)
    (hd : s.slots[k]? = some d) (hclive : c.Live) (hdlive : d.Live) (hcid : c.cid = d.cid) :
    j = k := by
  have hnodup : (s.slots.flatMap Slot.claim).Nodup := by
    apply nodup_iff_count_le_one.mpr
    intro cid
    have honce := hs.once cid
    rw [count_claims] at honce
    omega
  refine index_unique Slot.claim hnodup hc hd (x := c.cid) ?_ ?_
  · rw [Slot.claim, if_pos hclive]
    exact mem_singleton_self _
  · rw [Slot.claim, if_pos hdlive, hcid]
    exact mem_singleton_self _

lemma Inv.oneSlotPerConnection (hs : Inv s) : OneSlotPerConnection s where
  unique _ _ _ _ hc hd hclive hdlive hcid := hs.unique hc hd hclive hdlive hcid
  routed := hs.routed
  own k c hc hphase j hj := by
    rw [hs.routed k c hc (.inr hphase)] at hj
    exact (some.inj hj).symm

lemma Inv.of_claims (hs : Inv s) (hslots : t.slots = s.slots) (hroutes : t.routes = s.routes)
    (hcount : ∀ cid, (claims t).count cid ≤ (claims s).count cid) : Inv t where
  once cid := (hcount cid).trans (hs.once cid)
  routed k c hc hlive := by
    rw [hslots] at hc
    rw [hroutes]
    exact hs.routed k c hc hlive

lemma routed_set {routes : ℕ → Option ℕ} (hc : slots[k]? = some c) (hcid : c'.cid = c.cid)
    (hlive : c'.Live → c.Live)
    (hrouted : ∀ (j : ℕ) (d : Slot), slots[j]? = some d → d.Live → routes d.cid = some j) (j : ℕ)
    (d : Slot) (hd : (slots.set k c')[j]? = some d) (hdlive : d.Live) : routes d.cid = some j := by
  rcases getElem?_set_cases hd with ⟨rfl, rfl⟩ | ⟨-, hold⟩
  · rw [hcid]
    exact hrouted j c hc (hlive hdlive)
  · exact hrouted j d hold hdlive

lemma Inv.onSlot (hs : Inv s) {f : Slot → Option Slot}
    (hf : ∀ c c', f c = some c' → c'.cid = c.cid ∧ (c'.Live ↔ c.Live)) (h : s.onSlot k f = some t) :
    Inv t := by
  obtain ⟨c, hc, hstep⟩ := bind_eq_some_iff.mp h
  obtain ⟨c', hc', rfl⟩ := map_eq_some_iff.mp hstep
  obtain ⟨hcid, hlive⟩ := hf c c' hc'
  refine ⟨?_, routed_set hc hcid hlive.mp hs.routed⟩
  · intro cid
    have hcount := count_slots_set hc c' cid
    rw [Slot.claim_congr hcid hlive] at hcount
    have honce := hs.once cid
    rw [count_claims] at honce ⊢
    dsimp only
    omega

/-! ## What a step can do -/

def Slot.Keeps (f : Slot → Option Slot) : Prop :=
  ∀ c c', f c = some c' →
    c'.cid = c.cid ∧ (c'.Live ↔ c.Live) ∧ (c.phase = .ended → c'.phase = .ended)

inductive Move (parallel : Bool) (s : Listener) : Event → Listener → Prop where
  /-- The router and the accept loop hand a HELLO on. -/
  | pass (e : Event) (t : Listener) (hslots : t.slots = s.slots) (hroutes : t.routes = s.routes)
      (hserving : ∀ k, s.acceptor = .serving k → t.acceptor = .serving k)
      (hcount : ∀ x, (claims t).count x ≤ (claims s).count x) : Move parallel s e t
  | mark (cid : ℕ) (hrouter : s.router = .unrouted cid) (hpending : cid ∉ s.pending) :
      Move parallel s .mark { s with pending := cid :: s.pending, router := .marked cid }
  | slot (e : Event) (k : ℕ) (f : Slot → Option Slot) (t : Listener) (hf : Slot.Keeps f)
      (ht : s.onSlot k f = some t) : Move parallel s e t
  | register (cid : ℕ) (hacceptor : s.acceptor = .admitting cid) :
      Move parallel s .register { s with
        routes := update s.routes cid (some s.slots.length)
        acceptor := if parallel then .idle else .serving s.slots.length
        slots := s.slots ++ [⟨cid, .running, false, [], none, none⟩] }
  | unregister (k : ℕ) (c : Slot) (hc : s.slots[k]? = some c) (hphase : c.phase = .returned) :
      Move parallel s (.unregister k) { s with
        routes := update s.routes c.cid none
        slots := s.slots.set k { c with phase := .closing } }
  | requeue (k : ℕ) (c : Slot) (hc : s.slots[k]? = some c) (hphase : c.phase = .closing) :
      Move parallel s (.requeue k) { s with
        queue := s.queue ++ c.nextHello.toList
        acceptor := if s.acceptor = .serving k then .idle else s.acceptor
        slots := s.slots.set k { c with phase := .ended } }

lemma Slot.keeps_of_running {f : Slot → Slot}
    (hf : ∀ c, c.phase = .running → (f c).cid = c.cid ∧ (f c).Live) {p : Slot → Prop}
    [DecidablePred p] (hp : ∀ c, p c → c.phase = .running) :
    Slot.Keeps fun c => if p c then some (f c) else none := by
  intro c c' h
  obtain ⟨hpc, rfl⟩ := guard_eq_some h
  have hrunning := hp c hpc
  obtain ⟨hcid, hlive⟩ := hf c hrunning
  exact ⟨hcid, ⟨fun _ => .inl hrunning, fun _ => hlive⟩, by simp [hrunning]⟩

lemma Slot.keeps_deliver (hello : Bool) (cid : ℕ) :
    Slot.Keeps fun c => some (c.deliver hello cid) := by
  intro c c' h
  cases h
  unfold Slot.deliver
  split
  · exact ⟨rfl, Iff.rfl, id⟩
  · exact ⟨rfl, Iff.rfl, id⟩

lemma Slot.read_live (c : Slot) (hphase : c.phase = .running) :
    c.read.cid = c.cid ∧ c.read.Live := by
  unfold Slot.read
  split
  · exact ⟨rfl, .inl hphase⟩
  · split
    · exact ⟨rfl, .inl hphase⟩
    · exact ⟨rfl, .inl hphase⟩

variable {parallel : Bool} {e : Event}

/-- A step of the router or the accept loop that adds no claim to those on their way. -/
theorem Move.handover (hslots : t.slots = s.slots) (hroutes : t.routes = s.routes)
    (hserving : ∀ k, s.acceptor = .serving k → t.acceptor = .serving k)
    (hcount : ∀ x, t.router.claim.count x + t.queue.count x + t.acceptor.claim.count x ≤
      s.router.claim.count x + s.queue.count x + s.acceptor.claim.count x) :
    Move parallel s e t := by
  apply Move.pass e t hslots hroutes hserving
  intro x
  rw [count_claims, count_claims, hslots]
  exact Nat.add_le_add_right (hcount x) _

lemma move_mark (h : step parallel s .mark = some t) : Move parallel s .mark t := by
  simp only [step] at h
  split at h
  · rename_i cid hrouter
    split at h
    · cases h
      refine .handover rfl rfl (fun _ => id) fun x => ?_
      simp only [Router.claim, count_nil]
      omega
    · rename_i hpending
      cases h
      exact .mark cid hrouter hpending
  · cases h

lemma move_enqueue (h : step parallel s .enqueue = some t) : Move parallel s .enqueue t := by
  simp only [step] at h
  split at h
  · rename_i cid hrouter
    obtain ⟨-, rfl⟩ := guard_eq_some h
    refine .handover rfl rfl (fun _ => id) fun x => ?_
    rw [hrouter]
    simp only [Router.claim, count_append, count_nil]
    omega
  · cases h

lemma move_take (h : step parallel s .take = some t) : Move parallel s .take t := by
  simp only [step] at h
  split at h
  · rename_i cid rest hacceptor hqueue
    cases h
    refine .handover rfl rfl (fun k hk => ?_) fun x => ?_
    · rw [hacceptor] at hk
      cases hk
    have hsplit : (cid :: rest).count x = [cid].count x + rest.count x := by
      rw [← count_append, singleton_append]
    rw [hacceptor, hqueue, hsplit]
    simp only [Acceptor.claim, count_nil]
    omega
  · cases h

lemma move_unmark (h : step parallel s .unmark = some t) : Move parallel s .unmark t := by
  simp only [step] at h
  split at h
  · rename_i cid hacceptor
    cases h
    refine .handover rfl rfl (fun k hk => ?_) fun x => ?_
    · rw [hacceptor] at hk
      cases hk
    · rw [hacceptor]
      exact le_rfl
  · cases h

lemma move_decline (h : step parallel s .decline = some t) : Move parallel s .decline t := by
  simp only [step] at h
  split at h
  · rename_i cid hacceptor
    cases h
    refine .handover rfl rfl (fun k hk => ?_) fun x => ?_
    · rw [hacceptor] at hk
      cases hk
    · simp only [Acceptor.claim, count_nil]
      omega
  · cases h

lemma move_requeue (h : step parallel s (.requeue k) = some t) :
    Move parallel s (.requeue k) t := by
  obtain ⟨c, hc, hstep⟩ := bind_eq_some_iff.mp h
  obtain ⟨hphase, heq⟩ := ite_none_right_eq_some.mp hstep
  have hmove : Move parallel s (.requeue k) _ := .requeue k c hc hphase
  dsimp only at heq
  split at heq
  · rename_i hnone
    cases heq
    rw [hnone] at hmove
    simpa using hmove
  · rename_i cid hsome
    obtain ⟨-, rfl⟩ := guard_eq_some heq
    rwa [hsome] at hmove

lemma move_of_step (h : step parallel s e = some t) : Move parallel s e t := by
  cases e with
  | datagram hello cid =>
    obtain ⟨-, hstep⟩ := ite_none_right_eq_some.mp h
    split at hstep
    · rename_i k _
      exact .slot _ k _ t (Slot.keeps_deliver hello cid) hstep
    cases hstep
    split
    · refine .handover rfl rfl (fun _ => id) fun x => ?_
      simp only [Router.claim, count_nil]
      omega
    · exact .handover rfl rfl (fun _ => id) fun _ => le_rfl
  | mark => exact move_mark h
  | enqueue => exact move_enqueue h
  | take => exact move_take h
  | unmark => exact move_unmark h
  | decline => exact move_decline h
  | register =>
    simp only [step] at h
    split at h
    · rename_i cid hacceptor
      cases h
      exact .register cid hacceptor
    · cases h
  | startReceive k =>
    refine .slot _ k _ t ?_ h
    exact Slot.keeps_of_running (f := fun c => { c with receiving := true })
      (fun c hphase => ⟨rfl, .inl hphase⟩) (fun _ => id)
  | watch k =>
    refine .slot _ k _ t ?_ h
    exact Slot.keeps_of_running Slot.read_live (fun _ => id)
  | dataHello k cid =>
    refine .slot _ k _ t ?_ h
    exact Slot.keeps_of_running (f := fun c => { c with threadHello := some cid })
      (fun c hphase => ⟨rfl, .inl hphase⟩) (fun _ => And.left)
  | finish k ok =>
    refine .slot _ k _ t ?_ h
    refine Slot.keeps_of_running (fun c _ => ?_) (fun _ => id)
    split
    · exact ⟨rfl, .inr rfl⟩
    · exact ⟨rfl, .inr rfl⟩
  | unregister k =>
    obtain ⟨c, hc, hstep⟩ := bind_eq_some_iff.mp h
    obtain ⟨hphase, rfl⟩ := guard_eq_some hstep
    exact .unregister k c hc hphase
  | requeue k => exact move_requeue h

/-! ## Admissions side by side -/

lemma count_slots_pos (hc : s.slots[k]? = some c) (hlive : c.Live) :
    0 < (s.slots.flatMap Slot.claim).count c.cid := by
  apply count_pos_iff.mpr
  apply mem_flatMap_of_getElem? Slot.claim hc
  rw [Slot.claim, if_pos hlive]
  exact mem_singleton_self _

lemma inv_register {cid : ℕ} (hs : Inv s) (hacceptor : s.acceptor = .admitting cid)
    (hidle : acceptor.claim = []) :
    Inv { s with
      routes := update s.routes cid (some s.slots.length)
      acceptor
      slots := s.slots ++ [⟨cid, .running, false, [], none, none⟩] } := by
  have hclaim : s.acceptor.claim = [cid] := by rw [hacceptor]; rfl
  refine ⟨?_, ?_⟩
  · intro x
    have honce := hs.once x
    rw [count_claims, hclaim] at honce
    rw [count_claims]
    dsimp only
    rw [hidle, flatMap_append, count_append, flatMap_singleton]
    have hnew : Slot.claim ⟨cid, .running, false, [], none, none⟩ = [cid] := rfl
    rw [hnew, count_nil]
    omega
  · intro k c hc hlive
    dsimp only at hc ⊢
    rcases getElem?_concat_cases hc with hold | ⟨rfl, rfl⟩
    · -- the claim of the accept loop is the only one for its connection
      have hne : c.cid ≠ cid := by
        rintro rfl
        have hpos := count_slots_pos hold hlive
        have honce := hs.once c.cid
        rw [count_claims, hclaim, count_singleton_self] at honce
        omega
      rw [update_of_ne hne]
      exact hs.routed k c hold hlive
    · exact update_self _ _ _

lemma inv_unregister (hs : Inv s) (hc : s.slots[k]? = some c) (hphase : c.phase = .returned) :
    Inv { s with
      routes := update s.routes c.cid none
      slots := s.slots.set k { c with phase := .closing } } := by
  have hlive : c.Live := .inr hphase
  have hdead : ¬Slot.Live { c with phase := .closing } := by simp [Slot.Live]
  refine ⟨?_, ?_⟩
  · intro x
    have honce := hs.once x
    have hcount := count_slots_set hc { c with phase := .closing } x
    rw [count_claim_of_not_live hdead] at hcount
    rw [count_claims] at honce ⊢
    dsimp only
    omega
  · intro j d hd hdlive
    dsimp only at hd ⊢
    rcases getElem?_set_cases hd with ⟨-, rfl⟩ | ⟨hj, hold⟩
    · exact absurd hdlive hdead
    · have hne : d.cid ≠ c.cid := fun hcid => hj (hs.unique hold hc hdlive hlive hcid)
      rw [update_of_ne hne]
      exact hs.routed j d hold hdlive

lemma inv_end (hs : Inv s) (hc : s.slots[k]? = some c) (hphase : c.phase = .closing)
    {queue : List ℕ} (hacceptor : acceptor.claim = s.acceptor.claim)
    (hqueue : ∀ cid, queue.count cid ≤ s.queue.count cid ∨
      cid ∉ claims s ∧ queue.count cid ≤ s.queue.count cid + 1) :
    Inv { s with queue, acceptor, slots := s.slots.set k { c with phase := .ended } } := by
  have hcid : Slot.cid { c with phase := .ended } = c.cid := rfl
  have hlive : Slot.Live { c with phase := .ended } ↔ c.Live := by simp [Slot.Live, hphase]
  have hclaims : (s.slots.set k { c with phase := .ended }).flatMap Slot.claim =
      s.slots.flatMap Slot.claim :=
    flatMap_set_of_eq Slot.claim hc (Slot.claim_congr hcid hlive)
  refine ⟨?_, routed_set hc hcid hlive.mp hs.routed⟩
  · intro cid
    have honce := hs.once cid
    have hzero : cid ∉ claims s → (claims s).count cid = 0 := count_eq_zero.mpr
    rw [count_claims] at honce hzero ⊢
    dsimp only
    rw [hclaims, hacceptor]
    rcases hqueue cid with hle | ⟨hnew, hle⟩
    · omega
    · have := hzero hnew
      omega

lemma inv_step (hs : Inv s) (hok : Unclaimed s e) (h : step parallel s e = some t) : Inv t := by
  cases move_of_step h with
  | pass e t hslots hroutes _ hcount => exact hs.of_claims hslots hroutes hcount
  | mark cid hrouter hpending =>
    have hwaiting : cid ∈ s.router.waiting := by rw [hrouter]; rfl
    have hzero := count_eq_zero.mpr (hok cid hwaiting hpending)
    refine ⟨?_, hs.routed⟩
    intro x
    have honce := hs.once x
    rw [count_claims] at honce hzero ⊢
    dsimp only [Router.claim]
    by_cases hx : x = cid
    · subst hx
      rw [count_singleton_self]
      omega
    · rw [count_singleton, if_neg (by simpa using Ne.symm hx)]
      omega
  | slot e k f t hf ht =>
    exact hs.onSlot (fun c c' hc => ⟨(hf c c' hc).1, (hf c c' hc).2.1⟩) ht
  | register cid hacceptor =>
    apply inv_register hs hacceptor
    split <;> rfl
  | unregister k c hc hphase => exact inv_unregister hs hc hphase
  | requeue k c hc hphase =>
    apply inv_end hs hc hphase
    · split
      · rename_i hserving
        rw [hserving]
        rfl
      · rfl
    · intro x
      cases hnext : c.nextHello with
      | none => exact .inl (by simp)
      | some cid =>
        by_cases hx : x = cid
        · subst hx
          refine .inr ⟨hok c hc x hnext, ?_⟩
          rw [count_append, toList_some, count_singleton_self]
        · refine .inl ?_
          rw [count_append, toList_some, count_singleton,
            if_neg (by simpa using Ne.symm hx), Nat.add_zero]

lemma inv_start : Inv start := ⟨fun _ => Nat.zero_le _, by simp [start]⟩

/-! ## One transfer at a time -/

/-- Only the slot that the accept loop waits for has not ended. -/
structure SerialInv (s : Listener) : Prop where
  others : ∀ (k : ℕ) (c : Slot), s.slots[k]? = some c → s.acceptor ≠ .serving k → c.phase = .ended
  routed : ∀ (k : ℕ) (c : Slot), s.slots[k]? = some c → c.Live → s.routes c.cid = some k

lemma SerialInv.serving (hs : SerialInv s) (hc : s.slots[k]? = some c)
    (hphase : c.phase ≠ .ended) : s.acceptor = .serving k := by
  by_contra hne
  exact hphase (hs.others k c hc hne)

lemma Slot.Live.not_ended (h : c.Live) : c.phase ≠ .ended := by
  rcases h with h | h
  · simp [h]
  · simp [h]

section

variable (hs : SerialInv s)
include hs

lemma SerialInv.oneSlotPerConnection : OneSlotPerConnection s where
  unique j k c d hc hd hclive hdlive _ := by
    have hj := hs.serving hc hclive.not_ended
    rw [hs.serving hd hdlive.not_ended] at hj
    cases hj
    rfl
  routed := hs.routed
  own k c hc hphase j hj := by
    rw [hs.routed k c hc (.inr hphase)] at hj
    exact (some.inj hj).symm

lemma SerialInv.onSlot {f : Slot → Option Slot} (hf : Slot.Keeps f)
    (h : s.onSlot k f = some t) : SerialInv t := by
  obtain ⟨c, hc, hstep⟩ := bind_eq_some_iff.mp h
  obtain ⟨c', hc', rfl⟩ := map_eq_some_iff.mp hstep
  obtain ⟨hcid, hlive, hended⟩ := hf c c' hc'
  refine ⟨?_, routed_set hc hcid hlive.mp hs.routed⟩
  intro j d hd hne
  rcases getElem?_set_cases hd with ⟨rfl, rfl⟩ | ⟨-, hold⟩
  · exact hended (hs.others j c hc hne)
  · exact hs.others j d hold hne

lemma SerialInv.register {cid : ℕ} (hacceptor : s.acceptor = .admitting cid) :
    SerialInv { s with
      routes := update s.routes cid (some s.slots.length)
      acceptor := .serving s.slots.length
      slots := s.slots ++ [⟨cid, .running, false, [], none, none⟩] } := by
  have hended : ∀ (k : ℕ) (c : Slot), s.slots[k]? = some c → c.phase = .ended := by
    intro k c hc
    apply hs.others k c hc
    rw [hacceptor]
    nofun
  refine ⟨?_, ?_⟩
  · intro k c hc hne
    rcases getElem?_concat_cases hc with hold | ⟨rfl, -⟩
    · exact hended k c hold
    · exact absurd rfl hne
  · intro k c hc hlive
    rcases getElem?_concat_cases hc with hold | ⟨rfl, rfl⟩
    · exact absurd (hended k c hold) hlive.not_ended
    · exact update_self _ _ _

lemma SerialInv.ended_of_ne {j : ℕ} {d : Slot} (hc : s.slots[k]? = some c)
    (hphase : c.phase ≠ .ended) (hd : s.slots[j]? = some d) (hj : j ≠ k) : d.phase = .ended := by
  apply hs.others j d hd
  rw [hs.serving hc hphase]
  rintro ⟨⟩
  exact hj rfl

lemma SerialInv.unregister (hc : s.slots[k]? = some c) (hphase : c.phase = .returned) :
    SerialInv { s with
      routes := update s.routes c.cid none
      slots := s.slots.set k { c with phase := .closing } } := by
  have hrunning : c.phase ≠ .ended := by simp [hphase]
  refine ⟨?_, ?_⟩
  · intro j d hd hne
    rcases getElem?_set_cases hd with ⟨rfl, -⟩ | ⟨hj, hold⟩
    · exact absurd (hs.serving hc hrunning) hne
    · exact hs.ended_of_ne hc hrunning hold hj
  · intro j d hd hdlive
    rcases getElem?_set_cases hd with ⟨-, rfl⟩ | ⟨hj, hold⟩
    · simp [Slot.Live] at hdlive
    · exact absurd (hs.ended_of_ne hc hrunning hold hj) hdlive.not_ended

lemma SerialInv.requeue (hc : s.slots[k]? = some c)
    (hphase : c.phase = .closing) (queue : List ℕ) (acceptor : Acceptor) :
    SerialInv { s with queue, acceptor, slots := s.slots.set k { c with phase := .ended } } := by
  have hrunning : c.phase ≠ .ended := by simp [hphase]
  have hended : ∀ (j : ℕ) (d : Slot), (s.slots.set k { c with phase := .ended })[j]? = some d →
      d.phase = .ended := by
    intro j d hd
    rcases getElem?_set_cases hd with ⟨-, rfl⟩ | ⟨hj, hold⟩
    · rfl
    · exact hs.ended_of_ne hc hrunning hold hj
  refine ⟨fun j d hd _ => hended j d hd, ?_⟩
  intro j d hd hdlive
  exact absurd (hended j d hd) hdlive.not_ended

lemma serialInv_step (h : step false s e = some t) : SerialInv t := by
  cases move_of_step h with
  | pass e t hslots hroutes hserving _ =>
    refine ⟨?_, ?_⟩
    · intro k c hc hne
      rw [hslots] at hc
      exact hs.others k c hc fun hk => hne (hserving k hk)
    · intro k c hc hlive
      rw [hslots] at hc
      rw [hroutes]
      exact hs.routed k c hc hlive
  | mark cid _ _ => exact ⟨hs.others, hs.routed⟩
  | slot e k f t hf ht => exact hs.onSlot hf ht
  | register cid hacceptor => exact hs.register hacceptor
  | unregister k c hc hphase => exact hs.unregister hc hphase
  | requeue k c hc hphase => exact hs.requeue hc hphase _ _

end

/-- Without a socket pool, or if every HELLO on its way to the accept loop is the only one of
its connection: at each moment one slot serves a connection, and the routing table leads to it. -/
theorem one_slot_per_connection (parallel : Bool) (es : List Event) (s : Listener)
    (hunclaimed : parallel = true → Along (step parallel) Unclaimed start es)
    (hrun : exec (step parallel) start es = some s) : OneSlotPerConnection s := by
  cases parallel with
  | false =>
    have hinv : SerialInv s :=
      exec_invariant (fun _ _ _ hs hstep => serialInv_step hs hstep)
        ⟨by simp [start], by simp [start]⟩ hrun
    exact hinv.oneSlotPerConnection
  | true =>
    have hinv : Inv s :=
      (hunclaimed rfl).invariant (fun _ _ _ hs hok hstep => inv_step hs hok hstep) inv_start hrun
    exact hinv.oneSlotPerConnection

def twoConnections : List Event :=
  [.datagram true 7, .mark, .enqueue, .datagram true 8, .mark, .enqueue, .take, .unmark, .register,
    .take, .unmark, .register, .datagram true 7, .startReceive 0, .watch 0]

theorem one_slot_per_connection_two :
    ∃ s, exec (step true) start twoConnections = some s ∧ s.slots.length = 2 ∧
      OneSlotPerConnection s :=
  ⟨_, rfl, rfl, one_slot_per_connection true twoConnections _ (fun _ => by decide) rfl⟩

/-- The HELLO comes again after the accept loop took the first one off the pending set and
before it registered the route. -/
def repeatedHello : List Event :=
  [.datagram true 7, .mark, .enqueue, .take, .unmark, .datagram true 7, .mark, .register,
    .enqueue, .take, .unmark, .register]

/-- The HELLO comes again after it is taken and before it has a route. -/
theorem repeated_hello_two_slots :
    ∃ s t, exec (step true) start repeatedHello = some s ∧ ¬OneSlotPerConnection s ∧
      exec (step true) s [.finish 0 true, .unregister 0] = some t ∧
      (∃ c, t.slots[1]? = some c ∧ c.Live ∧ c.cid = 7) ∧ t.routes 7 = none := by
  refine ⟨_, _, rfl, ?_, rfl, ⟨_, rfl, by decide, rfl⟩, rfl⟩
  intro h
  exact absurd (h.unique 0 1 _ _ rfl rfl (by decide) (by decide) rfl) (by decide)

end Favonius.Daemon.Admission
