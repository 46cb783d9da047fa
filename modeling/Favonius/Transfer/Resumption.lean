import Favonius.Client.Handshake
import Favonius.Daemon.Handshake
import Favonius.Transfer.Nonces
import Favonius.Transfer.SingleStream

/-!
# Tickets for a later resume

After its receive loop the daemon seals a resume secret into a ticket and sends it
in a CHECKPOINT; the client caches the ticket together with a secret of its own.
The daemon takes the secret from the keys of the handshake, the client from its
current key epoch.
-/

namespace Favonius.Transfer

open Execution ByteCodec IdealAead Proto Crypto Client Daemon List Option TicketPayload DataStart

/-! ## The daemon's ticket key -/

/-- The ticket key of the daemon process and what it has sealed. -/
structure TicketIssuer (P : Primitives) where
  key : TicketKey
  sealed : List SealedRecord
  genuine : ∀ r ∈ sealed, r.Genuine P.aes256Gcm

namespace TicketIssuer

variable {P : Primitives} (d : TicketIssuer P)

def issue (resumeSecret : FixedBytes 32) (ttl : UInt32) (now : UInt64) :
    SessionTicket × TicketIssuer P :=
  let r := d.key.issue P resumeSecret ttl now
  (r.1, ⟨r.2.2, d.sealed ++ [r.2.1], by
    intro s hs
    rcases mem_append.mp hs with hs | hs
    · exact d.genuine s hs
    · rw [mem_singleton.mp hs]
      rfl⟩)

def secretOf (entry : Bytes) : Option (FixedBytes 32) :=
  (decodeTicket entry).bind fun ticket =>
    (d.key.openTicket (openIn d.sealed) ticket.encryptedData).map resumeSecret

lemma openTicket_append (openFn : OpenFn) (tk : TicketKey) (nonce : FixedBytes 12) {ct : Bytes}
    (hct : 16 ≤ ct.length) :
    tk.openTicket openFn (nonce.1 ++ ct) =
      (openFn tk.encryptionKey nonce ticketAad ct).bind decode := by
  have hlen : ¬ (nonce.1 ++ ct).length < 12 + 16 := by
    rw [length_append, nonce.2]
    omega
  have hnonce : ∀ h, (⟨(nonce.1 ++ ct).take 12, h⟩ : FixedBytes 12) = nonce := by
    intro h
    exact Subtype.ext (take_left' nonce.2)
  rw [TicketKey.openTicket, dif_neg hlen, openPacket, hnonce, drop_left' nonce.2, if_neg (by omega)]

section Issue

variable (resumeSecret : FixedBytes 32) (ttl : UInt32) (now : UInt64)

lemma length_ciphertext :
    (P.aes256Gcm d.key.encryptionKey (nonceFor d.key.iv d.key.counter) ticketAad
      (encode ⟨resumeSecret, now, ttl⟩)).length = 60 := by
  rw [P.length_aes256Gcm]
  simp [encode, resumeSecret.2]

lemma encryptedData_issue : (d.issue resumeSecret ttl now).1.encryptedData =
    (nonceFor d.key.iv d.key.counter).1 ++ P.aes256Gcm d.key.encryptionKey
      (nonceFor d.key.iv d.key.counter) ticketAad (encode ⟨resumeSecret, now, ttl⟩) :=
  rfl

lemma length_issue : (d.issue resumeSecret ttl now).1.encryptedData.length = 72 := by
  rw [encryptedData_issue, length_append, length_ciphertext, (nonceFor d.key.iv d.key.counter).2]

lemma openTicket_issue :
    (d.issue resumeSecret ttl now).2.key.openTicket (openIn (d.issue resumeSecret ttl now).2.sealed)
      (d.issue resumeSecret ttl now).1.encryptedData = some ⟨resumeSecret, now, ttl⟩ := by
  have hct := d.length_ciphertext resumeSecret ttl now
  have hmem :
      (d.key.issue P resumeSecret ttl now).2.1 ∈ (d.issue resumeSecret ttl now).2.sealed := by
    simp [issue]
  have hopen := openIn_of_mem P.aes256Gcm_injective (d.issue resumeSecret ttl now).2.genuine hmem
  rw [encryptedData_issue, openTicket_append _ _ _ (hct.symm ▸ by norm_num)]
  exact (congrArg (Option.bind · decode) hopen).trans (decode_encode _)

lemma secretOf_issue (rest : Bytes) :
    (d.issue resumeSecret ttl now).2.secretOf
      (encodeTicket (d.issue resumeSecret ttl now).1 ++ rest) = some resumeSecret := by
  have hlen : (d.issue resumeSecret ttl now).1.encryptedData.length < 2 ^ 32 := by
    rw [length_issue]
    norm_num
  rw [secretOf, decodeTicket_encode hlen, bind_some, openTicket_issue]
  rfl

end Issue

end TicketIssuer

/-! ## After the receive loop -/

structure TicketSys (sess : Session) where
  sys : Sys
  issuer : TicketIssuer sess.prims
  issued : Option SessionTicket
  /-- The daemon's code after the loop has run. -/
  posted : Bool

inductive TicketEvent where
  | transfer (ev : SysEvent)
  /-- With the clock for the ticket, in seconds, and those of the packets sent. -/
  | postTransfer (now : UInt64) (clock : Clock)

def sendCtrlWithPayload (sess : Session) (ptype : PacketType) (seq timestamp : UInt64)
    (payload : Bytes) : Bytes :=
  encodePacketAuto sess.prims.crc32c
    ⟨ctrlHeader ptype sess.send.connId seq timestamp payload.length, [], payload⟩

def threeCopies (sess : Session) (ptype : PacketType) (seq : UInt64) (clock : Clock)
    (payload : Bytes) : List Bytes :=
  (List.range 3).map fun copy => sendCtrlWithPayload sess ptype seq (clock copy) payload

variable (sess : Session) (enforcing : Bool)

/-- A FINISH that the loop did not answer is answered, and a complete encrypted transfer gets a
ticket with the secret of the handshake's keys, unless the daemon has a peer policy. -/
def postTransfer (now : UInt64) (clock : Clock) (s : TicketSys sess) : TicketSys sess :=
  let r := s.sys.receiver
  let finish := if r.finishReplied then [] else threeCopies sess .finish r.seq clock []
  let seq := if r.finishReplied then r.seq else r.seq + 1
  let s := { s with sys := { s.sys with toSender := s.sys.toSender ++ finish }, posted := true }
  match sess.keys with
  | some keys =>
    if sess.send.totalChunks ≤ r.totalReceived ∧ enforcing = false then
      let (ticket, issuer) := s.issuer.issue keys.resumeSecret defaultTicketTtl now
      let checkpoint := threeCopies sess .checkpoint seq (fun i => clock (i + 3))
        (encodeTicket ticket)
      { s with
        sys := { s.sys with toSender := s.sys.toSender ++ checkpoint }
        issuer := issuer
        issued := some ticket }
    else s
  | none => s

def ticketStep (s : TicketSys sess) : TicketEvent → Option (TicketSys sess)
  | .transfer ev => (step sess s.sys ev).map fun sys => { s with sys }
  | .postTransfer now clock =>
    if s.sys.receiver.phase = .finished ∧ s.posted = false then
      some (postTransfer sess enforcing now clock s)
    else none

lemma sys_postTransfer (now : UInt64) (clock : Clock) (s : TicketSys sess) :
    (postTransfer sess enforcing now clock s).sys.sender = s.sys.sender ∧
      (postTransfer sess enforcing now clock s).sys.log = s.sys.log := by
  unfold postTransfer
  dsimp only
  split
  · split <;> exact ⟨rfl, rfl⟩
  · exact ⟨rfl, rfl⟩

/-- The ticket of the transfer carries the secret of the keys it started with. -/
def TicketSealed (keys : SessionKeys) (s : TicketSys sess) : Prop :=
  ∀ ticket, s.issued = some ticket → ticket.encryptedData.length = 72 ∧
    ∀ rest, s.issuer.secretOf (encodeTicket ticket ++ rest) = some keys.resumeSecret

lemma sealed_postTransfer {keys : SessionKeys} (hkeys : sess.keys = some keys) (now : UInt64)
    (clock : Clock) {s : TicketSys sess} (h : TicketSealed sess keys s) :
    TicketSealed sess keys (postTransfer sess enforcing now clock s) := by
  unfold postTransfer
  simp only [hkeys]
  split
  · intro ticket hticket
    cases hticket
    exact ⟨s.issuer.length_issue keys.resumeSecret defaultTicketTtl now,
      s.issuer.secretOf_issue keys.resumeSecret defaultTicketTtl now⟩
  · exact h

/-! ## The client's cache entry -/

/-- A cache entry ends in the resume secret of the current key epoch. -/
def EntryOf (sender : Sender) : Prop :=
  ∀ entry, sender.cachedTicket = some entry → sender.phase = .done ∧
    ∃ payload ke, sender.keyEpoch = some ke ∧ entry = payload ++ ke.keys.resumeSecret.1

variable {P : Primitives} {cfg : SendConfig} {s s' : Sender} {out : Output}

lemma stage_cachedTicket {batchTs keyUpdateTs : UInt64} {nowUs : UInt32}
    (h : s.stage P cfg batchTs keyUpdateTs nowUs = some (s', out)) :
    s'.cachedTicket = s.cachedTicket := by
  obtain ⟨-, hturn | ⟨_, _, -, -, ⟨_, -, hturn⟩ | ⟨_, _, _, _, _, -, -, -, hturn⟩⟩⟩ :=
    Sender.stage_cases P cfg h
  all_goals
    cases hturn
    rfl

lemma entryOf_of_none (hnone : s.cachedTicket = none) : EntryOf s := by
  intro entry hentry
  rw [hnone] at hentry
  cases hentry

variable {ev : SendEvent} {entry : Bytes}

lemma EntryOf.cachedTicket_eq_none (h : EntryOf s) (hstep : s.step P cfg ev = some (s', out)) :
    s.cachedTicket = none := by
  cases hcached : s.cachedTicket with
  | none => rfl
  | some entry =>
    have hdone := (h entry hcached).1
    cases Sender.turn_of_step P cfg hstep <;> simp_all

lemma entryOf_step (h : EntryOf s) (hstep : s.step P cfg ev = some (s', out)) : EntryOf s' := by
  have hnone := h.cachedTicket_eq_none hstep
  cases Sender.turn_of_step P cfg hstep with
  | stage _ _ _ _ _ _ hstage =>
    apply entryOf_of_none
    rw [stage_cachedTicket hstage, hnone]
  | feedback data nowUs _ =>
    obtain ⟨-, -, -, hcached⟩ := s.processFeedback_keys P cfg nowUs data
    apply entryOf_of_none
    rw [hcached, hnone]
  | ticket payload cachedTicket _ hcached =>
    intro entry hentry
    obtain rfl : cachedTicket = some entry := hentry
    rw [hnone, or_none] at hcached
    obtain ⟨ke, hke, rfl⟩ := map_eq_some_iff.mp hcached.symm
    exact ⟨rfl, payload, ke, hke, rfl⟩
  | finishFeedback | scan | pass | resend | finish | leave => exact entryOf_of_none hnone

/-! ## Whole runs -/

def TicketSys.init {sess : Session} (st : DataStart sess) (issuer : TicketIssuer sess.prims) :
    TicketSys sess :=
  ⟨st.sys, issuer, none, false⟩

structure ResumeInv (L : Ledger) (s : TicketSys L.sess) : Prop where
  ledger : ∃ n, L.Inv n s.sys
  ticket : TicketSealed L.sess L.initial s
  entry : EntryOf s.sys.sender

variable {sess enforcing}

lemma ResumeInv.step {L : Ledger} (hkeys : L.sess.keys = some L.initial) {s s' : TicketSys L.sess}
    (h : ResumeInv L s) {ev : TicketEvent} (hstep : ticketStep L.sess enforcing s ev = some s') :
    ResumeInv L s' := by
  cases ev with
  | transfer ev =>
    obtain ⟨sys, hsys, rfl⟩ := map_eq_some_iff.mp hstep
    obtain ⟨n, hinv⟩ := h.ledger
    refine ⟨hinv.step hsys, h.ticket, ?_⟩
    cases ev with
    | send ev =>
      simp only [Transfer.step] at hsys
      split at hsys
      · cases hsys
      · rename_i sender out hsender
        cases hsys
        exact entryOf_step h.entry hsender
    | recv ev =>
      simp only [Transfer.step] at hsys
      split at hsys <;> cases hsys
      exact h.entry
    | manifestReply seq timestamp =>
      cases hsys
      exact h.entry
  | postTransfer now clock =>
    simp only [ticketStep] at hstep
    split at hstep <;> cases hstep
    obtain ⟨hsender, hlog⟩ := sys_postTransfer L.sess enforcing now clock s
    refine ⟨?_, sealed_postTransfer L.sess enforcing hkeys now clock h.ticket, ?_⟩
    · obtain ⟨n, hinv⟩ := h.ledger
      exact ⟨n, hinv.of_same hsender hlog⟩
    · rw [hsender]
      exact h.entry

lemma resumeInv_init {keys : SessionKeys} (hkeys : sess.keys = some keys) (st : DataStart sess)
    (issuer : TicketIssuer sess.prims) : ResumeInv ⟨sess, keys, st.seq⟩ (.init st issuer) where
  ledger := ⟨0, Ledger.inv_start hkeys st⟩
  ticket := by
    intro ticket hticket
    cases hticket
  entry := by
    intro entry hentry
    cases hentry

/-! ## The resume -/

lemma extractResumeSecret_encode {ticket : SessionTicket}
    (hlen : ticket.encryptedData.length < 2 ^ 32) (secret : FixedBytes 32) :
    extractResumeSecret (encodeTicket ticket ++ secret.1) = some secret := by
  have hfits : (encodeTicket ticket).length + 32 ≤ (encodeTicket ticket ++ secret.1).length := by
    rw [length_append, secret.2]
  have hslice :
      slice (encodeTicket ticket ++ secret.1) (encodeTicket ticket).length 32 = secret.1 :=
    slice_eq_of_append (show _ = encodeTicket ticket ++ (secret.1 ++ []) by simp) rfl secret.2
  simp only [extractResumeSecret, decodeTicket_encode hlen, dif_pos hfits]
  rw [some.injEq]
  exact Subtype.ext hslice

lemma parseResume_encode (hlen : entry.length < 2 ^ 32) (nonce : FixedBytes 16) :
    Server.parseResume (encodeHelloResume entry nonce) =
      (decodeTicket entry).map fun ticket => (ticket, nonce.1) := by
  have hwidth : (UInt32.ofNat entry.length).toNat = entry.length := by
    rw [UInt32.toNat_ofNat', Nat.mod_eq_of_lt hlen]
  have hfield : slice (encodeHelloResume entry nonce) 1 4 = beBytes 4 entry.length := by
    refine slice_eq_of_append (show _ = [0x02] ++ (beBytes 4 entry.length ++ (entry ++ nonce.1)) by
      simp [encodeHelloResume, putU32, hwidth]) rfl (by simp)
  have hentry : slice (encodeHelloResume entry nonce) 5 entry.length = entry :=
    slice_eq_of_append
      (show _ = ([0x02] ++ putU32 (UInt32.ofNat entry.length)) ++ (entry ++ nonce.1)
        by simp [encodeHelloResume]) (by simp) rfl
  have hnonce : slice (encodeHelloResume entry nonce) (5 + entry.length) 16 = nonce.1 :=
    slice_eq_of_append (show _ = ([0x02] ++ putU32 (UInt32.ofNat entry.length) ++ entry) ++
      (nonce.1 ++ []) by simp [encodeHelloResume]) (by simp; omega) nonce.2
  have htotal : (encodeHelloResume entry nonce).length = 21 + entry.length := by
    simp [encodeHelloResume, nonce.2]
    omega
  have hbe : beNat (slice (encodeHelloResume entry nonce) 1 4) = entry.length := by
    rw [hfield, beNat_beBytes_of_lt (by simpa using hlen)]
  simp only [Server.parseResume, hbe, htotal]
  rw [if_neg (by omega), if_neg (by omega), Nat.add_sub_cancel_left, hentry, hnonce]

/-- When the daemon resumes from the entry, the client derives the keys the daemon derived,
whatever the two nonces. -/
def ResumesAlike {P : Primitives} (issuer : TicketIssuer P) (entry : Bytes) : Prop :=
  ∀ (c : Handshaker) (d : Server) (i : HelloInputs) (used : UsedTicketCache) (keys : SessionKeys)
    (serverNonce : FixedBytes 16) (ack : HelloAckPayload),
    d.ticketKey = issuer.key → d.openFn = openIn issuer.sealed → d.prims.hkdf = c.prims.hkdf →
    (d.resumeFromTicket i used (c.helloPayload (some entry))).1 =
      (.resumed, some keys, some serverNonce) →
    ack.resumeServerNonce = some serverNonce →
    c.resumedKeys (extractResumeSecret entry) ack = .ok keys

lemma resumesAlike_of_eq {issuer : TicketIssuer P} (hlen : entry.length < 2 ^ 32)
    (h : issuer.secretOf entry = extractResumeSecret entry) : ResumesAlike issuer entry := by
  intro c d i used keys serverNonce ack hkey hopen hhkdf hresumed hack
  simp only [Server.resumeFromTicket, Handshaker.helloPayload, parseResume_encode hlen] at hresumed
  rcases hticket : decodeTicket entry with _ | ticket
  · rw [hticket] at hresumed
    cases hresumed
  simp only [hticket, map_some, TicketKey.decrypt, hkey, hopen] at hresumed
  rcases hpayload : issuer.key.openTicket (openIn issuer.sealed) ticket.encryptedData with _ | p
  · rw [hpayload] at hresumed
    cases hresumed
  have hsecret : extractResumeSecret entry = some p.resumeSecret := by
    rw [← h, TicketIssuer.secretOf, hticket, bind_some, hpayload]
    rfl
  simp only [hpayload] at hresumed
  split at hresumed
  · cases hresumed
  rename_i secret hvalid
  split at hvalid
  · cases hvalid
  cases hvalid
  split at hresumed
  · split at hresumed
    · rename_i derived hderived
      cases hresumed
      rw [hhkdf] at hderived
      simp only [Handshaker.resumedKeys, hsecret, hack, hderived]
      rfl
    · cases hresumed
  · cases hresumed

/-- A ticket and the secret the client stored next to it: the daemon sealed that secret into the
ticket exactly if the client never rotated its keys, and then both ends resume with the same
keys. -/
theorem resume_secrets_agree_iff (sess : Session) (o : KeyOrigin)
    (hkeys : sess.keys = some (o.keys sess.prims.hkdf)) (enforcing : Bool) (st : DataStart sess)
    (issuer : TicketIssuer sess.prims) (es : List TicketEvent) (s : TicketSys sess)
    (hrun : exec (ticketStep sess enforcing) (.init st issuer) es = some s)
    (hcf : ∀ ke, s.sys.sender.keyEpoch = some ke → o.CollisionFree sess.prims.hkdf ke.epoch)
    (ticket : SessionTicket) (hissued : s.issued = some ticket) (secret : FixedBytes 32)
    (hcached : s.sys.sender.cachedTicket = some (encodeTicket ticket ++ secret.1)) :
    (s.issuer.secretOf (encodeTicket ticket ++ secret.1) =
        extractResumeSecret (encodeTicket ticket ++ secret.1) ↔
      (recordsOf [.data] s.sys.log).length < maxPacketsPerKey) ∧
    ((recordsOf [.data] s.sys.log).length < maxPacketsPerKey →
      ResumesAlike s.issuer (encodeTicket ticket ++ secret.1)) := by
  let L : Ledger := ⟨sess, o.keys sess.prims.hkdf, st.seq⟩
  have hinv := exec_invariant (P := ResumeInv L) (fun _ _ _ ht hstep => ht.step hkeys hstep)
    (resumeInv_init hkeys st issuer) hrun
  obtain ⟨n, hledger⟩ := hinv.ledger
  obtain ⟨previous, hke⟩ := hledger.sender.keyEpoch
  obtain ⟨hlen, hsealed⟩ := hinv.ticket ticket hissued
  have hcount : (recordsOf [.data] s.sys.log).length = n := by
    have hslots := congrArg List.length hledger.slots
    rwa [length_map, length_map, length_range] at hslots
  -- the entry ends in the secret of the epoch the client is in
  have hsecret : secret = (L.keys (Ledger.epochAt n)).resumeSecret := by
    obtain ⟨-, payload, ke, hke', hentry⟩ := hinv.entry _ hcached
    rw [hke] at hke'
    cases hke'
    have hwidth := (L.keys (Ledger.epochAt n)).resumeSecret.2
    exact Subtype.ext (append_inj_right' hentry (by rw [secret.2, hwidth]))
  have hagree : s.issuer.secretOf (encodeTicket ticket ++ secret.1) =
      extractResumeSecret (encodeTicket ticket ++ secret.1) ↔ n < maxPacketsPerKey := by
    rw [hsealed, extractResumeSecret_encode (by omega), hsecret, some.injEq]
    have hdiv : n < maxPacketsPerKey ↔ 0 = Ledger.epochAt n := by
      simp only [Ledger.epochAt, maxPacketsPerKey]
      omega
    rw [hdiv]
    constructor
    · exact Ledger.epoch_eq_of_get_eq rfl (hcf _ hke) (Nat.zero_le _) le_rfl .resume
    · intro hzero
      rw [← hzero]
      rfl
  rw [hcount]
  refine ⟨hagree, ?_⟩
  intro hlt
  refine resumesAlike_of_eq ?_ (hagree.mpr hlt)
  rw [length_append, length_encodeTicket, hlen, secret.2]
  norm_num

/-! ## Runs to the cached ticket -/

/-- The network loses, repeats and delays, but does not forge. -/
def TicketLossy (s : TicketSys sess) : TicketEvent → Prop
  | .transfer ev => Lossy s.sys ev
  | .postTransfer _ _ => True

variable (sess) in
lemma decodePacket_sendCtrlWithPayload (ptype : PacketType) (seq timestamp : UInt64)
    {payload : Bytes} (hlen : payload.length < 2 ^ 32) :
    ∃ pkt, decodePacket sess.prims.crc32c (sendCtrlWithPayload sess ptype seq timestamp payload) =
      .ok pkt ∧ pkt.header.packetType = ptype ∧ pkt.payload = payload := by
  let header := ctrlHeader ptype sess.send.connId seq timestamp payload.length
  have hdatagram : sendCtrlWithPayload sess ptype seq timestamp payload =
      header.encode sess.prims.crc32c ++ payload := by
    simp [sendCtrlWithPayload, encodePacketAuto, encodePacket, ctrlHeader, header]
  refine ⟨⟨header.received sess.prims.crc32c, [], payload⟩, ?_, rfl, rfl⟩
  rw [hdatagram]
  exact decodePacket_ctrl rfl hlen

section Cached

variable {keys : SessionKeys} {s : Sys} {ke : KeyEpoch} {t : TicketSys sess}

lemma ticketStep_transfer {ev : SysEvent} {sys : Sys} (h : step sess t.sys ev = some sys) :
    ticketStep sess enforcing t (.transfer ev) = some { t with sys } := by
  rw [ticketStep, h, map_some]

lemma Serves.exists_finished
    (h : Serves sess keys sess.send.totalChunks sess.send.totalChunks s) :
    ∃ t, Reaches (step sess) Lossy (start sess) t ∧ t.sender.phase = .finishing ∧
      t.sender.keyEpoch = s.sender.keyEpoch ∧ t.receiver.phase = .finished ∧
      t.receiver.totalReceived = sess.send.totalChunks := by
  obtain ⟨u, hstreams, hu⟩ := h.receiver.stream
  have htail : s.receiver.step sess.prims (openIn s.log) sess.recv .tailGrace =
      some ({ s.receiver with phase := .finished }, []) := by
    simp [Receiver.step, h.receiver.receiving, h.armed le_rfl]
  have hreached := h.lossy.concat (.recv .tailGrace) trivial (step_recv htail)
  refine ⟨_, hreached.concat (.send (.finish 0)) trivial (step_send (h.sender.finish 0)), rfl, rfl,
    rfl, ?_⟩
  simp [Receiver.totalReceived, hstreams, hu.nReceived]

lemma postTransfer_issues (hkeys : sess.keys = some keys) (now : UInt64) (clock : Clock)
    (hall : sess.send.totalChunks ≤ t.sys.receiver.totalReceived) :
    ∃ ticket seq timestamp, (postTransfer sess false now clock t).issued = some ticket ∧
      ticket.encryptedData.length = 72 ∧
      sendCtrlWithPayload sess .checkpoint seq timestamp (encodeTicket ticket) ∈
        (postTransfer sess false now clock t).sys.toSender := by
  refine ⟨(t.issuer.issue keys.resumeSecret defaultTicketTtl now).1,
    if t.sys.receiver.finishReplied then t.sys.receiver.seq else t.sys.receiver.seq + 1,
    clock 3, ?_, t.issuer.length_issue _ _ _, ?_⟩
  · simp only [postTransfer, hkeys, hall, and_self, if_true]
  · simp only [postTransfer, hkeys, hall, and_self, if_true]
    refine mem_append_right _ (List.mem_map.mpr ⟨0, by simp, rfl⟩)

/-- A client that waits takes the ticket out of a CHECKPOINT and caches it. -/
theorem exists_cachedTicket {sender : Sender} (hphase : sender.phase = .finishing)
    (hke : sender.keyEpoch = some ke) {data : Bytes} {pkt : Packet}
    (hpkt : decodePacket sess.prims.crc32c data = .ok pkt)
    (htype : pkt.header.packetType = .checkpoint) (hpayload : pkt.payload ≠ []) :
    ∃ waiting cached, sender.step sess.prims sess.send (.feedback data 0) =
        some (waiting, ⟨[], []⟩) ∧
      waiting.step sess.prims sess.send .awaitTicket = some (cached, ⟨[], []⟩) ∧
      cached.keyEpoch = some ke ∧
      cached.cachedTicket = some (pkt.payload ++ ke.keys.resumeSecret.1) := by
  have hempty : pkt.payload.isEmpty = false := isEmpty_eq_false_iff.mpr hpayload
  refine ⟨{ sender with checkpointPayload := some pkt.payload }, { sender with
    checkpointPayload := none
    cachedTicket := some (pkt.payload ++ ke.keys.resumeSecret.1)
    phase := .done }, ?_, ?_, hke, rfl⟩
  · simp [Sender.step, hphase, Sender.finishFeedback, hpkt, htype, hempty]
  · simp [Sender.step, Sender.awaitTicket, hphase, hke]

lemma Serves.exists_cached
    (h : Serves sess keys sess.send.totalChunks sess.send.totalChunks s)
    (hkeys : sess.keys = some keys) (hke : s.sender.keyEpoch = some ke)
    (issuer : TicketIssuer sess.prims) :
    ∃ t ticket, Reaches (ticketStep sess false) TicketLossy
        (.init (fresh sess) issuer) t ∧
      t.issued = some ticket ∧ t.sys.sender.keyEpoch = some ke ∧
      t.sys.sender.cachedTicket = some (encodeTicket ticket ++ ke.keys.resumeSecret.1) := by
  obtain ⟨f, hreached, hfinishing, hepoch, hfinished, htotal⟩ := h.exists_finished
  let embed (sys : Sys) : TicketSys sess := ⟨sys, issuer, none, false⟩
  have hlifted : Reaches (ticketStep sess false) TicketLossy
      (.init (fresh sess) issuer) (embed f) := by
    refine hreached.lift embed TicketEvent.transfer ?_ fun _ _ hok => hok
    intro a e b hstep
    exact ticketStep_transfer hstep
  have hpost : ticketStep sess false (embed f) (.postTransfer 0 fun _ => 0) =
      some (postTransfer sess false 0 (fun _ => 0) (embed f)) := by
    simp [ticketStep, embed, hfinished]
  obtain ⟨ticket, seq, timestamp, hissued, hlen, hmem⟩ :=
    postTransfer_issues hkeys 0 (fun _ => 0) (t := embed f) htotal.ge
  have hsender := (sys_postTransfer sess false 0 (fun _ => 0) (embed f)).1
  have hwidth : (encodeTicket ticket).length = 88 := by rw [length_encodeTicket, hlen]
  obtain ⟨pkt, hpkt, htype, hpayload⟩ :=
    decodePacket_sendCtrlWithPayload sess .checkpoint seq timestamp (hwidth.trans_lt (by norm_num))
  obtain ⟨waiting, cached, hfeedback, hawait, hepoch', hcached⟩ :=
    exists_cachedTicket hfinishing (hepoch.trans hke) hpkt htype (by
      rw [hpayload]
      exact ne_nil_of_length_pos (by omega))
  rw [hpayload] at hcached
  have hposted := hlifted.concat (.postTransfer 0 fun _ => 0) trivial hpost
  have hfed := hposted.concat (.transfer (.send (.feedback _ 0))) hmem
    (ticketStep_transfer (step_send (hsender ▸ hfeedback)))
  have hend := hfed.concat (.transfer (.send .awaitTicket)) trivial
    (ticketStep_transfer (step_send hawait))
  exact ⟨_, ticket, hend, hissued, hepoch', hcached⟩

end Cached

/-! ## One transfer with and one without a rotation -/

def sampleIssuer : TicketIssuer nullPrimitives :=
  ⟨⟨.fill 32 5, .fill 12 6, 0⟩, [], by simp⟩

def sampleResumeTicket : SessionTicket :=
  (sampleIssuer.issue sampleKeys.resumeSecret defaultTicketTtl 1000).1

def sampleTicketRun : List TicketEvent :=
  sampleRun.map .transfer ++ [.transfer (.recv .tailGrace), .transfer (.send (.finish 9)),
    .postTransfer 1000 fun _ => 10,
    .transfer (.send (.feedback (sendCtrlWithPayload sampleSession .checkpoint 6 10
      (encodeTicket sampleResumeTicket)) 0)),
    .transfer (.send .awaitTicket)]

theorem resume_secrets_agree_sampleTicketRun :
    ∃ s, exec (ticketStep sampleSession false)
        (.init (fresh sampleSession) sampleIssuer) sampleTicketRun = some s ∧
      ResumesAlike s.issuer (encodeTicket sampleResumeTicket ++ sampleKeys.resumeSecret.1) := by
  obtain ⟨s, hs, hissued, hcached, hcount, hepoch⟩ : ∃ s, exec (ticketStep sampleSession false)
      (.init (fresh sampleSession) sampleIssuer) sampleTicketRun = some s ∧
      s.issued = some sampleResumeTicket ∧ s.sys.sender.cachedTicket =
        some (encodeTicket sampleResumeTicket ++ sampleKeys.resumeSecret.1) ∧
      (recordsOf [.data] s.sys.log).length = 2 ∧
      s.sys.sender.keyEpoch.map KeyEpoch.epoch = some 0 := by
    decide +kernel
  refine ⟨s, hs, (resume_secrets_agree_iff sampleSession sampleOrigin rfl false
    (fresh sampleSession) sampleIssuer sampleTicketRun s hs ?_ sampleResumeTicket hissued
    sampleKeys.resumeSecret hcached).2 ?_⟩
  · intro ke hke
    rw [hke] at hepoch
    rw [show ke.epoch = 0 from some.inj hepoch]
    exact sampleOrigin_collisionFree.mono (Nat.zero_le 1)
  · rw [hcount]
    decide

/-- After the largest file with every chunk sent sixteen times, the secret in the ticket is not the
one next to it. -/
theorem long_transfer_secrets_differ :
    ∃ (es : List TicketEvent) (s : TicketSys longSession) (ticket : SessionTicket)
      (secret : FixedBytes 32),
      exec (ticketStep longSession false)
        (.init (fresh longSession) sampleIssuer) es = some s ∧
      Along (ticketStep longSession false) TicketLossy
        (.init (fresh longSession) sampleIssuer) es ∧
      s.issued = some ticket ∧
      s.sys.sender.cachedTicket = some (encodeTicket ticket ++ secret.1) ∧
      s.issuer.secretOf (encodeTicket ticket ++ secret.1) ≠
        extractResumeSecret (encodeTicket ticket ++ secret.1) := by
  obtain ⟨c, s, htotal, hs, hepoch, -⟩ := exists_longSession_rotation
  obtain ⟨t, ht, htEpoch, -⟩ := hs.ack (by omega)
  rw [← htotal] at ht
  obtain ⟨u, ticket, ⟨es, hes, halong⟩, hissued, hke, hcached⟩ :=
    ht.exists_cached rfl (htEpoch.trans hepoch) sampleIssuer
  have hinv := exec_invariant (P := ResumeInv ⟨longSession, sampleKeys, _⟩)
    (fun _ _ _ ht hstep => ht.step rfl hstep)
    (resumeInv_init rfl (fresh longSession) sampleIssuer) hes
  obtain ⟨hlen, hsealed⟩ := hinv.ticket ticket hissued
  refine ⟨es, u, ticket, _, hes, halong, hissued, hcached, ?_⟩
  rw [hsealed, extractResumeSecret_encode (by omega)]
  intro hsame
  have hget : (epochKeys nullPrimitives.hkdf sampleKeys 0).get .resume =
      (epochKeys nullPrimitives.hkdf sampleKeys 1).get .resume := some.inj hsame
  have hepochs := sampleOrigin_collisionFree.epoch_eq (Nat.zero_le 1) le_rfl hget
  omega

end Favonius.Transfer
