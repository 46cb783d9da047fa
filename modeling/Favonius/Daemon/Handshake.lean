import Favonius.Crypto.SessionTicket
import Favonius.Daemon.Manifest
import Favonius.Daemon.PeerAuth
import Favonius.Proto.Hello

/-!
# The daemon's side of the handshake

What `handle_transfer` does with a HELLO before it reads the MANIFEST: full
handshake, resume from a ticket, or plaintext for everything else.
-/

namespace Favonius.Daemon

open ByteCodec Proto Crypto Option

def daemonCapabilities : UInt32 := capZeroRuns

structure Server where
  prims : Primitives
  ed25519 : Ed25519
  x25519 : FixedBytes 32 → FixedBytes 32 → FixedBytes 32
  sha256 : Bytes → FixedBytes 32
  openFn : OpenFn
  policy : PeerPolicy
  identity : Option (FixedBytes 32 × (Bytes → FixedBytes 64))
  ticketKey : TicketKey
  dataPort : UInt16
  dataSocks : ℕ

structure HelloInputs where
  grantNow : UInt64
  localKp : KeyPair
  localNonce : FixedBytes 16
  decryptNow : UInt64
  recordNow : UInt64
  serverNonce : FixedBytes 16

namespace Server

variable (d : Server) (i : HelloInputs)

def capabilities : UInt32 :=
  let offered := daemonCapabilities ||| perStreamPorts d.dataSocks
  if d.policy.isEnforcing then offered ||| capPeerAuth else offered

def parseResume (payload : Bytes) : Option (SessionTicket × Bytes) :=
  if payload.length < 5 then none else
  let ticketEnd := 5 + beNat (slice payload 1 4)
  if payload.length < ticketEnd + 16 then none else
  (decodeTicket (slice payload 5 (ticketEnd - 5))).map fun ticket =>
    (ticket, slice payload ticketEnd 16)

/-- Any failure falls back to plaintext. -/
def resumeFromTicket (used : UsedTicketCache) (payload : Bytes) :
    (HelloAckMode × Option SessionKeys × Option (FixedBytes 16)) × UsedTicketCache :=
  match parseResume payload with
  | none => ((.plaintext, none, none), used)
  | some (ticket, clientNonce) =>
    match d.ticketKey.decrypt d.openFn i.decryptNow ticket with
    | .error _ => ((.plaintext, none, none), used)
    | .ok resumeSecret =>
      let (fresh, used) := checkAndRecord d.sha256 i.recordNow ticket used
      if fresh then
        match deriveResumedKeys d.prims.hkdf resumeSecret clientNonce i.serverNonce.1 with
        | .ok keys => ((.resumed, some keys, some i.serverNonce), used)
        | .error _ => ((.plaintext, none, none), used)
      else ((.plaintext, none, none), used)

inductive Handshake where
  /-- An ERROR without a reason goes back and the transfer ends. -/
  | refused
  | failed (message : String)
  /-- The daemon acknowledges and reads the MANIFEST; a grant is kept for the
  destination check. -/
  | established (keys : Option SessionKeys) (ack : Bytes)
      (permittedPaths : Option (VerifiedGrant d.ed25519 d.policy.anchors))

def fullHandshake (hello : HelloFull)
    (permittedPaths : Option (VerifiedGrant d.ed25519 d.policy.anchors)) : d.Handshake :=
  match diffieHellman d.x25519 i.localKp.privateKey hello.ephemeralPub with
  | .error e =>
    let reason := e.toString
    .failed s!"key exchange failed: {reason}"
  | .ok sharedSecret =>
    match deriveSessionKeys d.prims.hkdf sharedSecret hello.nonce.1 i.localNonce.1 with
    | .error e =>
      let reason := e.toString
      .failed s!"key derivation failed: {reason}"
    | .ok keys =>
      let auth := d.identity.map fun id => (id.1, id.2 (buildHandshakeTranscript
        i.localKp.publicKey hello.ephemeralPub i.localNonce.1 hello.nonce.1))
      .established (some keys) (encodeHelloAckPayload .fullHandshake (some d.dataPort)
        (some (i.localKp.publicKey, i.localNonce)) auth d.capabilities) permittedPaths

def decideHello (hello : HelloFull) : Decision d.ed25519 d.policy.anchors :=
  d.policy.decide d.ed25519 hello.peerAuth hello.grant hello.ephemeralPub hello.nonce.1 i.grantNow

def handshake (used : UsedTicketCache) (payload : Bytes) : d.Handshake × UsedTicketCache :=
  match decodeHelloFull payload with
  | some hello =>
    match d.decideHello i hello with
    | .authenticated _ grant => (d.fullHandshake i hello grant, used)
    | .anonymous => (d.fullHandshake i hello none, used)
    | .refused _ => (.refused, used)
  | none =>
    if payload.headD 0x00 = 0x02 then
      if d.policy.isEnforcing then (.refused, used)
      else
        let ((mode, keys, serverNonce), used) := d.resumeFromTicket i used payload
        let ack := match serverNonce with
          | some nonce => encodeHelloAckResumed (some d.dataPort) nonce d.capabilities
          | none => encodeHelloAckPayload mode (some d.dataPort) none none d.capabilities
        (.established keys ack none, used)
    else (.established none (encodeHelloAckPayload .plaintext (some d.dataPort) none none
      d.capabilities) none, used)

/-- From the HELLO to the MANIFEST: the session keys and the path that is written.  `confine`
stands for the check against the destination roots. -/
def handleTransfer (used : UsedTicketCache) (payload : Bytes) (maxFileSize : Option ℕ)
    (confine : String → Except String String) (manifest : FileManifest) (destPath : String) :
    Except String (Option (Option SessionKeys × String)) :=
  match (d.handshake i used payload).1 with
  | .refused => .ok none
  | .failed message => .error message
  | .established keys _ permittedPaths => do
      validateManifest manifest maxFileSize
      let confined ← confine destPath
      -- the grant narrows what the roots allow, on the rewritten path
      if permittedPaths.any fun grant => !grant.permitsPath confined then
        .error "destination is outside the permitted path prefix"
      else .ok (some (keys, confined))

/-- The HELLO was a full one, the policy authenticated its sender, and the grant kept for
the destination check is the verified one, present if one is required. -/
def Authenticated (payload : Bytes)
    (permittedPaths : Option (VerifiedGrant d.ed25519 d.policy.anchors)) : Prop :=
  ∃ hello identity, decodeHelloFull payload = some hello ∧
    d.decideHello i hello = .authenticated identity permittedPaths ∧
    (d.policy.requireGrant = true → permittedPaths.isSome = true)

lemma isEnforcing_of_require (hrequire : d.policy.require = true) :
    d.policy.isEnforcing = true := by
  simp [PeerPolicy.isEnforcing, hrequire]

variable {d i} {used : UsedTicketCache} {payload : Bytes}

variable {keys : Option SessionKeys} {hello : HelloFull} {ack : Bytes}

lemma permittedPaths_of_fullHandshake
    {grant permittedPaths : Option (VerifiedGrant d.ed25519 d.policy.anchors)}
    (h : d.fullHandshake i hello grant = .established keys ack permittedPaths) :
    permittedPaths = grant := by
  unfold fullHandshake at h
  split at h
  · cases h
  · split at h
    · cases h
    · cases h
      rfl

lemma authenticated_of_established (hrequire : d.policy.require = true)
    (hhello : decodeHelloFull payload = some hello)
    {permittedPaths : Option (VerifiedGrant d.ed25519 d.policy.anchors)}
    (h : (d.handshake i used payload).1 = .established keys ack permittedPaths) :
    d.Authenticated i payload permittedPaths := by
  unfold handshake at h
  rw [hhello] at h
  dsimp only at h
  cases hdecide : d.decideHello i hello with
  | authenticated identity grant =>
    rw [hdecide] at h
    obtain rfl := permittedPaths_of_fullHandshake h
    exact ⟨hello, identity, hhello, hdecide,
      (d.policy.decideGrant_of_authenticated d.ed25519 hdecide).2⟩
  | anonymous => exact absurd hdecide (d.policy.decide_ne_anonymous d.ed25519 hrequire _ _ _ _ _)
  | refused why =>
    rw [hdecide] at h
    cases h

lemma handshake_resume_refused (hrequire : d.policy.require = true)
    (hflag : payload.head? = some 0x02) : (d.handshake i used payload).1 = .refused := by
  have hnone : decodeHelloFull payload = none := by
    by_contra hne
    have hfull := (decodeHelloFull_isSome.mp (isSome_iff_ne_none.mpr hne)).1
    rw [hflag] at hfull
    cases hfull
  have hhead : payload.headD 0x00 = 0x02 := by
    rw [List.headD_eq_head?_getD, hflag]
    rfl
  rw [handshake, hnone]
  rw [if_pos hhead, if_pos (d.isEnforcing_of_require hrequire)]

lemma handshake_plaintext (d : Server) (i : HelloInputs) (used : UsedTicketCache)
    (hfull : ¬(payload.head? = some 0x01 ∧ 49 ≤ payload.length))
    (hresume : payload.head? ≠ some 0x02) :
    d.handshake i used payload = (.established none (encodeHelloAckPayload .plaintext
      (some d.dataPort) none none d.capabilities) none, used) := by
  have hnone : decodeHelloFull payload = none := by
    by_contra hne
    exact hfull (decodeHelloFull_isSome.mp (isSome_iff_ne_none.mpr hne))
  have hhead : payload.headD 0x00 ≠ 0x02 := by
    cases payload with
    | nil => decide
    | cons b bs => simpa using hresume
  rw [handshake, hnone]
  rw [if_neg hhead]

/-- A daemon that requires authentication accepts a HELLO only from an authenticated sender
exactly if the HELLO is a resume or a full handshake of at least its fixed length: all
other payloads, the empty one among them, go the plaintext way without a decision. -/
theorem peer_auth_enforced_iff (d : Server) (hrequire : d.policy.require = true)
    (i : HelloInputs) (used : UsedTicketCache) (payload : Bytes) :
    (∀ keys ack permittedPaths,
      (d.handshake i used payload).1 = .established keys ack permittedPaths →
        d.Authenticated i payload permittedPaths) ↔
      payload.head? = some 0x02 ∨ (payload.head? = some 0x01 ∧ 49 ≤ payload.length) := by
  constructor
  · intro hsound
    by_contra hcond
    rw [not_or] at hcond
    obtain ⟨hresume, hfull⟩ := hcond
    have haccepted := handshake_plaintext d i used hfull hresume
    obtain ⟨hello, -, hhello, -⟩ := hsound _ _ _ (congrArg Prod.fst haccepted)
    exact hfull (decodeHelloFull_isSome.mp (isSome_of_eq_some hhello))
  · rintro (hresume | hfull) keys ack permittedPaths haccepted
    · rw [handshake_resume_refused hrequire hresume] at haccepted
      cases haccepted
    · obtain ⟨hello, hhello⟩ := isSome_iff_exists.mp (decodeHelloFull_isSome.mpr hfull)
      exact authenticated_of_established hrequire hhello haccepted

def sample (policy : PeerPolicy) : Server where
  prims := nullPrimitives
  ed25519 := ⟨fun _ => true, fun _ _ _ => true⟩
  x25519 _ theirPublic := theirPublic
  sha256 data := ⟨(data ++ List.replicate 32 0).take 32, by simp⟩
  openFn _ _ _ ciphertext := some (ciphertext.take (ciphertext.length - 16))
  policy := policy
  identity := none
  ticketKey := ⟨.fill 32 5, .fill 12 6, 0⟩
  dataPort := 9000
  dataSocks := 1

def sampleInputs : HelloInputs where
  grantNow := 1000
  localKp := ⟨.fill 32 1, .fill 32 2⟩
  localNonce := .fill 16 3
  decryptNow := 1000
  recordNow := 1000
  serverNonce := .fill 16 4

def sampleHello : Bytes :=
  encodeHelloFull (.fill 32 7) (.fill 16 8) (some (.fill 32 9, .fill 64 10)) none

set_option maxRecDepth 4000 in
theorem peer_auth_enforced_sampleHello :
    ∃ keys ack, ((sample (.new [] true)).handshake sampleInputs [] sampleHello).1 =
        .established keys ack none ∧
      (sample (.new [] true)).Authenticated sampleInputs sampleHello none := by
  have haccepted : ((sample (.new [] true)).handshake sampleInputs [] sampleHello).1 =
      .established _ _ none := rfl
  exact ⟨_, _, haccepted, (peer_auth_enforced_iff (sample (.new [] true)) rfl sampleInputs []
    sampleHello).mpr (by decide) _ _ _ haccepted⟩

/-- A daemon that requires a grant accepts the empty HELLO, without keys or grant. -/
theorem empty_hello_established :
    let d := sample ((PeerPolicy.new [] false).withTrustAnchors [.fill 32 9] true
      (some (.fill 32 2)))
    d.policy.require = true ∧ d.policy.requireGrant = true ∧
      (d.handshake sampleInputs [] []).1 =
        .established none [0x00, 0x23, 0x28, 0xCA, 0xB1, 0, 0, 0, 0b110] none ∧
      ¬d.Authenticated sampleInputs [] none := by
  refine ⟨rfl, rfl, rfl, ?_⟩
  rintro ⟨hello, -, hhello, -⟩
  cases hhello

variable (d i payload) in
/-- The grant of the HELLO, which the policy verified for its sender, for this daemon and for the
time of the HELLO. -/
def Granted (grant : VerifiedGrant d.ed25519 d.policy.anchors) : Prop :=
  ∃ hello bytes identity destination, decodeHelloFull payload = some hello ∧
    d.decideHello i hello = .authenticated identity (some grant) ∧ hello.grant = some bytes ∧
    d.policy.ownIdentity = some destination ∧
    Grant.verify d.ed25519 bytes d.policy.anchors destination identity i.grantNow = .ok grant

/-- Whatever path is written was permitted by the grant of the HELLO, wherever a grant is required
and the HELLO is one of those the policy is applied to. -/
theorem permitsPath_of_handleTransfer (hgrant : d.policy.requireGrant = true)
    (hfull : payload.head? = some 0x01 ∧ 49 ≤ payload.length) {maxFileSize : Option ℕ}
    {confine : String → Except String String} {manifest : FileManifest} {destPath path : String}
    (h : d.handleTransfer i used payload maxFileSize confine manifest destPath =
      .ok (some (keys, path))) :
    ∃ grant, d.Granted i payload grant ∧ grant.permitsPath path = true := by
  obtain ⟨hello, hhello⟩ := isSome_iff_exists.mp (decodeHelloFull_isSome.mpr hfull)
  unfold handleTransfer at h
  cases haccepted : (d.handshake i used payload).1 with
  | refused | failed =>
    rw [haccepted] at h
    cases h
  | established keys ack permittedPaths =>
    obtain ⟨hello, identity, hhello, hdecide, hsome⟩ := authenticated_of_established
      (d.policy.require_of_requireGrant hgrant) hhello haccepted
    obtain ⟨grant, rfl⟩ := isSome_iff_exists.mp (hsome hgrant)
    obtain ⟨bytes, destination, hbytes, hown, hverify⟩ := d.policy.verify_of_decideGrant d.ed25519
      (d.policy.decideGrant_of_authenticated d.ed25519 hdecide).1
    rw [haccepted] at h
    simp only [bind, Except.bind] at h
    split at h
    · cases h
    split at h
    · cases h
    split at h
    · cases h
    · rename_i hpermitted
      cases h
      refine ⟨grant, ?_, by simpa using hpermitted⟩
      exact ⟨hello, bytes, identity, destination, hhello, hdecide, hbytes, hown, hverify⟩

def grantDaemon : Server :=
  sample ((PeerPolicy.new [] false).withTrustAnchors [.fill 32 9] true (some (.fill 32 2)))

def grantHello : Bytes :=
  encodeHelloFull (.fill 32 7) (.fill 16 8) (some (.fill 32 9, .fill 64 10)) (some (1 ::
    List.replicate 32 9 ++ List.replicate 32 2 ++ List.replicate 8 255 ++ [0, 0, 0, 1, 97] ++
      List.replicate 64 0))

theorem permitsPath_of_handleTransfer_granted :
    let i := { sampleInputs with grantNow := 2000000000 }
    ∃ keys path, grantDaemon.handleTransfer i [] grantHello none .ok ⟨0, 1, 0, 1, []⟩ "a" =
        .ok (some (keys, path)) ∧
      ∃ grant, grantDaemon.Granted i grantHello grant ∧ grant.permitsPath path = true := by
  intro i
  have hcheck : (grantDaemon.handleTransfer i [] grantHello none .ok ⟨0, 1, 0, 1, []⟩
      "a").toOption.any (·.isSome) = true := by
    decide +kernel
  cases hrun : grantDaemon.handleTransfer i [] grantHello none .ok ⟨0, 1, 0, 1, []⟩ "a" with
  | error e => simp [hrun, Except.toOption] at hcheck
  | ok r =>
    obtain ⟨⟨keys, path⟩, rfl⟩ :=
      isSome_iff_exists.mp (by simpa [hrun, Except.toOption] using hcheck)
    exact ⟨keys, path, rfl, permitsPath_of_handleTransfer rfl (by decide +kernel) hrun⟩

end Server

end Favonius.Daemon
