import Favonius.Daemon.Handshake

/-!
# Resume tickets and their single use

A daemon process answers resume HELLOs one after the other.  Tickets are told
apart by their sealed data; everything else in a HELLO is up to who sends it.
-/

namespace Favonius.Daemon.Server

open ByteCodec ReplayCache Proto Crypto List Option

variable (d : Server)

def openedTicket (p : HelloInputs × Bytes) : Option SessionTicket :=
  (parseResume p.2).bind fun r =>
    match d.ticketKey.decrypt d.openFn p.1.decryptNow r.1 with
    | .ok _ => some r.1
    | .error _ => none

def resumedData (payload : Bytes) : HelloAckMode → Option Bytes
  | .resumed => (parseResume payload).map fun r => r.1.encryptedData
  | _ => none

/-- Present the HELLOs in order to a new process: the sealed data accepted, and the tickets
remembered as used. -/
def resumeAll (ps : List (HelloInputs × Bytes)) : List Bytes × UsedTicketCache :=
  ps.foldl (fun acc p =>
    let (outcome, used) := d.resumeFromTicket p.1 acc.2 p.2
    (acc.1 ++ (resumedData p.2 outcome.1).toList, used)) ([], [])

def presentedUse (p : HelloInputs × Bytes) : Option (Use Bytes ℕ) :=
  (d.openedTicket p).map fun ticket =>
    ⟨ticket.encryptedData, p.1.recordNow.toNat, rememberUntil p.1.recordNow ticket⟩

lemma resumeAll_concat (ps : List (HelloInputs × Bytes)) (p : HelloInputs × Bytes) :
    d.resumeAll (ps ++ [p]) =
      ((d.resumeAll ps).1 ++ (resumedData p.2
        (d.resumeFromTicket p.1 (d.resumeAll ps).2 p.2).1.1).toList,
          (d.resumeFromTicket p.1 (d.resumeAll ps).2 p.2).2) := by
  rw [resumeAll, foldl_append]
  rfl

variable {d} {p : HelloInputs × Bytes}

lemma resumeFromTicket_of_not_opened (h : d.openedTicket p = none) (used : UsedTicketCache) :
    d.resumeFromTicket p.1 used p.2 = ((.plaintext, none, none), used) := by
  unfold openedTicket at h
  unfold resumeFromTicket
  cases hparse : parseResume p.2 with
  | none => rfl
  | some r =>
    rw [hparse, bind_some] at h
    dsimp only
    cases hdecrypt : d.ticketKey.decrypt d.openFn p.1.decryptNow r.1 with
    | error e => rfl
    | ok secret =>
      rw [hdecrypt] at h
      cases h

lemma resumeFromTicket_of_opened {ticket : SessionTicket} (h : d.openedTicket p = some ticket)
    (used : UsedTicketCache) :
    resumedData p.2 (d.resumeFromTicket p.1 used p.2).1.1 =
        (if (checkAndRecord d.sha256 p.1.recordNow ticket used).1 then some ticket.encryptedData
          else none) ∧
      (d.resumeFromTicket p.1 used p.2).2 =
        (checkAndRecord d.sha256 p.1.recordNow ticket used).2 := by
  unfold openedTicket at h
  unfold resumeFromTicket
  obtain ⟨⟨ticket', nonce⟩, hparse, h⟩ := bind_eq_some_iff.mp h
  dsimp only at h
  rcases hdecrypt : d.ticketKey.decrypt d.openFn p.1.decryptNow ticket' with _ | secret
  · rw [hdecrypt] at h
    cases h
  rw [hdecrypt] at h
  cases h
  rw [hparse]
  dsimp only
  rw [hdecrypt]
  dsimp only
  obtain ⟨keys, hkeys⟩ : ∃ keys, deriveResumedKeys d.prims.hkdf secret nonce
      p.1.serverNonce.1 = .ok keys := ⟨_, expandKeys_eq _ _ _ _⟩
  cases hfresh : (checkAndRecord d.sha256 p.1.recordNow ticket used).1 with
  | true => simp [hkeys, resumedData, hparse]
  | false => simp [resumedData]

variable {ps : List (HelloInputs × Bytes)}

/-- The daemon's cache, keyed by identifiers, does what a cache of sealed data does. -/
theorem resumeAll_eq
    (hid : ∀ u ∈ ps.filterMap d.presentedUse, ∀ v ∈ ps.filterMap d.presentedUse,
      ticketId d.sha256 u.key = ticketId d.sha256 v.key → u.key = v.key) :
    d.resumeAll ps = (accepted (ps.filterMap d.presentedUse),
      (checkAll [] (ps.filterMap d.presentedUse)).2.map (Prod.map (ticketId d.sha256) id)) := by
  induction ps using reverseRecOn with
  | nil => rfl
  | append_singleton ps p ih =>
    rw [filterMap_append] at hid ⊢
    have hps := ih fun u hu v hv => hid u (mem_append_left _ hu) v (mem_append_left _ hv)
    rw [resumeAll_concat, hps]
    cases hopen : d.openedTicket p with
    | none =>
      have huse : d.presentedUse p = none := by rw [presentedUse, hopen]; rfl
      rw [resumeFromTicket_of_not_opened hopen]
      simp [huse, resumedData]
    | some ticket =>
      obtain ⟨u, hu⟩ : ∃ u, d.presentedUse p = some u := ⟨_, by rw [presentedUse, hopen]; rfl⟩
      have hkey : u.key = ticket.encryptedData ∧
          u.mapKey (ticketId d.sha256) = ticketUse d.sha256 p.1.recordNow ticket := by
        rw [presentedUse, hopen] at hu
        cases hu
        exact ⟨rfl, rfl⟩
      have huses : filterMap d.presentedUse [p] = [u] := by simp [hu]
      rw [huses] at hid ⊢
      have hcheck := check_mapKey (ticketId d.sha256) (u := u) (T := ℕ)
        fun q (hq : q ∈ (checkAll [] (ps.filterMap d.presentedUse)).2) hf => by
          obtain ⟨v, hv, hvkey⟩ := mem_keys_of_checkAll hq
          rw [← hvkey] at hf ⊢
          exact hid v (mem_append_left _ hv) u (by simp) hf
      obtain ⟨hdata, hused⟩ := resumeFromTicket_of_opened hopen
        ((checkAll [] (ps.filterMap d.presentedUse)).2.map (Prod.map (ticketId d.sha256) id))
      rw [checkAndRecord, ← hkey.2, hcheck] at hdata hused
      rw [hdata, hused, accepted_concat, checkAll_concat, hkey.1]
      split <;> simp

lemma mem_presentedUse {u : Use Bytes ℕ} :
    u ∈ ps.filterMap d.presentedUse ↔ ∃ p ∈ ps, ∃ ticket ∈ d.openedTicket p,
      u = ⟨ticket.encryptedData, p.1.recordNow.toNat, rememberUntil p.1.recordNow ticket⟩ := by
  simp only [mem_filterMap, presentedUse, map_eq_some_iff, mem_def, @eq_comm _ u]

/-- In every history of resume HELLOs, with any bytes and with clock readings that do not go
back, no sealed data is accepted twice exactly if each ticket that still decrypts comes back
before the entry of its first presentation has run out.  That entry lasts for the outer
lifetime of the HELLO, which is not sealed. -/
theorem tickets_single_use_iff (d : Server) (ps : List (HelloInputs × Bytes))
    (hclock : ps.Pairwise fun p q => p.1.recordNow ≤ q.1.recordNow)
    (hsha : ∀ p ∈ ps, ∀ q ∈ ps, ∀ t ∈ d.openedTicket p, ∀ t' ∈ d.openedTicket q,
      ticketId d.sha256 t.encryptedData = ticketId d.sha256 t'.encryptedData →
        t.encryptedData = t'.encryptedData) :
    (d.resumeAll ps).1.Nodup ↔ Covered (ps.filterMap d.presentedUse) := by
  have hid : ∀ u ∈ ps.filterMap d.presentedUse, ∀ v ∈ ps.filterMap d.presentedUse,
      ticketId d.sha256 u.key = ticketId d.sha256 v.key → u.key = v.key := by
    intro u hu v hv
    obtain ⟨p, hp, t, ht, rfl⟩ := mem_presentedUse.mp hu
    obtain ⟨q, hq, t', ht', rfl⟩ := mem_presentedUse.mp hv
    exact hsha p hp q hq t ht t' ht'
  have hmono : (ps.filterMap d.presentedUse).Pairwise fun u v => u.now ≤ v.now := by
    rw [pairwise_filterMap]
    refine hclock.imp ?_
    intro p q hle u hu v hv
    obtain ⟨t, -, rfl⟩ := map_eq_some_iff.mp hu
    obtain ⟨t', -, rfl⟩ := map_eq_some_iff.mp hv
    exact UInt64.le_iff_toNat_le.mp hle
  rw [resumeAll_eq hid]
  exact accepted_nodup_iff hmono

def sampleTicket : SessionTicket :=
  (TicketKey.issue nullPrimitives (sample (.new [] false)).ticketKey (.fill 32 11)
    defaultTicketTtl 1000).1

def presentSample (lifetime : UInt32) (now : UInt64) : HelloInputs × Bytes :=
  ({ sampleInputs with decryptNow := now, recordNow := now },
    encodeHelloResume (encodeTicket { sampleTicket with lifetime }) (.fill 16 12))

theorem tickets_single_use_sampleTicket :
    ((sample (.new [] false)).resumeAll
      [presentSample 3600 1000, presentSample 3600 1001]).1.Nodup := by
  have huses : [presentSample 3600 1000, presentSample 3600 1001].filterMap
      (sample (.new [] false)).presentedUse =
        [] ++ [⟨sampleTicket.encryptedData, 1000, 4600⟩] ++
          [⟨sampleTicket.encryptedData, 1001, 4601⟩] := by
    decide +kernel
  refine (tickets_single_use_iff (sample (.new [] false)) _ (by decide) ?_).mpr ?_
  · decide +kernel
  · rw [huses, covered_concat, covered_concat]
    exact ⟨⟨covered_nil, by simp [first]⟩, by simp [first]⟩

/-- With an outer lifetime of zero the entry is gone within the same second. -/
theorem sampleTicket_resumed_twice :
    ((sample (.new [] false)).resumeAll [presentSample 0 1000, presentSample 0 1000]).1 =
      [sampleTicket.encryptedData, sampleTicket.encryptedData] := by
  decide +kernel

end Favonius.Daemon.Server
