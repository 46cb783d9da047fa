import Favonius.Crypto.Grant
import Favonius.Crypto.SessionTicket
import Favonius.Proto.Hello

/-!
# The client's side of the handshake

What `send_file` does from the HELLO to the session keys.  The crypto mode is
planned from the cached ticket for the daemon; a reply in another mode ends the
transfer.
-/

namespace Favonius.Client

open ByteCodec Proto Crypto Option

def extractResumeSecret (ticketData : Bytes) : Option (FixedBytes 32) :=
  match decodeTicket ticketData with
  | none => none
  | some ticket =>
    let secretOffset := (encodeTicket ticket).length
    if h : secretOffset + 32 ≤ ticketData.length then
      some (fixedSlice ticketData secretOffset 32 h)
    else none

def checkNegotiatedMode (planned replied : HelloAckMode) : Except String Unit :=
  if planned = replied then .ok ()
  else
    let plan := planned.debug
    let reply := replied.debug
    .error s!"crypto mode mismatch: client planned {plan}, daemon selected {reply}"

structure Handshaker where
  prims : Primitives
  ed25519 : Ed25519
  x25519 : FixedBytes 32 → FixedBytes 32 → FixedBytes 32
  encrypt : Bool
  requirePeerAuth : Bool
  pinnedServerKey : Option (FixedBytes 32)
  clientIdentity : Option (FixedBytes 32 × (Bytes → FixedBytes 64))
  grant : Option Bytes
  localKp : KeyPair
  localNonce : FixedBytes 16

namespace Handshaker

variable (c : Handshaker)

def cachedTicket (cache : Option Bytes) : Option Bytes := if c.encrypt then cache else none

def plannedMode (cachedTicket : Option Bytes) : HelloAckMode :=
  if cachedTicket.isSome && (cachedTicket.bind extractResumeSecret).isSome then .resumed
  else if cachedTicket.isSome then .plaintext
  else if c.encrypt then .fullHandshake
  else .plaintext

/-- A resume HELLO carries the whole cache entry. -/
def helloPayload (cachedTicket : Option Bytes) : Bytes :=
  match cachedTicket with
  | some ticketData => encodeHelloResume ticketData c.localNonce
  | none =>
    if c.encrypt then
      let offer := c.clientIdentity.map fun id =>
        (id.1, id.2 (buildClientOfferTranscript c.localKp.publicKey c.localNonce.1))
      encodeHelloFull c.localKp.publicKey c.localNonce offer c.grant
    else [0x00]

/-- Without a pin the handshake stays anonymous. -/
def verifyServerIdentity (ack : HelloAckPayload) : Except String Unit :=
  match c.pinnedServerKey with
  | none => .ok ()
  | some pinned =>
    match ack.authMaterial with
    | none => .error ("daemon presented no identity but --server-key was given — " ++
        "start the daemon with --identity or drop the pin")
    | some (identityPub, signature) =>
      if identityPub ≠ pinned then
        let presented := hexEncode (identityPub.1.take 4)
        let expected := hexEncode (pinned.1.take 4)
        .error (s!"daemon identity mismatch: presented {presented}…, pinned {expected}… — " ++
          "aborting (possible MitM)")
      else
        match ack.dhMaterial with
        | none => .error "HELLO_ACK missing key material"
        | some (serverPublic, serverNonce) =>
          let invalid := CryptoError.signatureInvalid.toString
          if !c.ed25519.validKey identityPub then
            .error s!"invalid daemon identity key: {invalid}"
          else if c.ed25519.verifyHandshake identityPub serverPublic c.localKp.publicKey
              serverNonce.1 c.localNonce.1 signature then .ok ()
          else .error (s!"daemon handshake signature invalid ({invalid}) — " ++
            "aborting (possible MitM)")

def resumedKeys (resumeSecret : Option (FixedBytes 32)) (ack : HelloAckPayload) :
    Except String SessionKeys :=
  match resumeSecret, ack.resumeServerNonce with
  | none, _ => .error "daemon resumed the session but the client has no resume_secret"
  | some _, none => .error "HELLO_ACK missing resume server nonce"
  | some secret, some serverNonce =>
    (deriveResumedKeys c.prims.hkdf secret c.localNonce.1 serverNonce.1).mapError fun e =>
      let reason := e.toString
      s!"resume key derivation failed: {reason}"

/-- The daemon is authenticated before any key is derived. -/
def fullHandshakeKeys (ack : HelloAckPayload) : Except String SessionKeys :=
  if !c.encrypt then .error "daemon requested full handshake but the client has no keypair" else
  match c.verifyServerIdentity ack with
  | .error e => .error e
  | .ok () =>
    match ack.dhMaterial with
    | none => .error "HELLO_ACK missing key material"
    | some (peerPublic, peerNonce) =>
      match diffieHellman c.x25519 c.localKp.privateKey peerPublic with
      | .error e =>
        let reason := e.toString
        .error s!"key exchange failed: {reason}"
      | .ok sharedSecret =>
        (deriveSessionKeys c.prims.hkdf sharedSecret c.localNonce.1 peerNonce.1).mapError
          fun e =>
            let reason := e.toString
            s!"key derivation failed: {reason}"

def deriveKeys (cachedTicket : Option Bytes) (ack : HelloAckPayload) :
    Except String (Option SessionKeys) :=
  match ack.mode with
  | .resumed => (c.resumedKeys (cachedTicket.bind extractResumeSecret) ack).map some
  | .fullHandshake => (c.fullHandshakeKeys ack).map some
  | .plaintext => .ok none

def onHelloAck (cachedTicket cache : Option Bytes) (ackPayload : Bytes) :
    Except String (HelloAckPayload × Option SessionKeys) × Option Bytes :=
  match decodeHelloAckPayload ackPayload with
  | none => (.error "HELLO_ACK missing or invalid mode byte", cache)
  | some ack =>
    if c.requirePeerAuth && ack.capabilities &&& capPeerAuth == 0 then
      (.error ("--require-peer-auth was given but the daemon did not confirm it checked this " ++
        "client: it is either older than peer authentication or has no peer policy " ++
        "configured (--allow-peer / --require-peer-auth). Aborting rather than " ++
        "transferring unauthenticated."), cache)
    else
      match checkNegotiatedMode (c.plannedMode cachedTicket) ack.mode with
      | .error e => (.error e, if cachedTicket.isSome then none else cache)
      | .ok () => ((c.deriveKeys cachedTicket ack).map fun keys => (ack, keys), cache)

end Handshaker

def helloAttempts : ℕ := 15

def busyWaitMaxSecs : ℕ := 300

def peerRefused : String :=
  "the daemon refused this transfer before it began: it did not " ++
    "accept this sender. If it runs --require-peer-auth or --allow-peer, send with --identity " ++
    "using a key it permits; its log says which check failed."

inductive HelloReply where
  /-- With whether the wait for a busy daemon is over by then. -/
  | ack (payload : Bytes) (busyDeadlinePassed : Bool)
  | refusal
  | silence

/-- An ACK without a data port says that the daemon is busy. -/
def busyAck (payload : Bytes) : Bool :=
  ((decodeHelloAckPayload payload).map fun ack => ack.dataPort.isNone).getD false

/-- The HELLO loop; `none` while it waits for more replies. -/
def helloLoop : ℕ → List HelloReply → Option (Except String Bytes)
  | _, [] => none
  | attempt, .ack payload busyDeadlinePassed :: replies =>
    if busyAck payload then
      if busyDeadlinePassed then
        some (.error (s!"daemon busy with another transfer for {busyWaitMaxSecs}s — it serves " ++
          "one at a time; retry when it is free"))
      else helloLoop attempt replies
    else some (.ok payload)
  | _, .refusal :: _ => some (.error peerRefused)
  | attempt, .silence :: replies =>
    if attempt + 1 < helloAttempts then helloLoop (attempt + 1) replies
    else some (.error s!"handshake failed after {helloAttempts} attempts")

namespace Handshaker

variable (c : Handshaker)

/-- The whole handshake: the HELLO_ACK and the session keys, and the cache afterwards.  An
entry without a secret is evicted at once. -/
def handshake (cache : Option Bytes) (replies : List HelloReply) :
    Option (Except String (HelloAckPayload × Option SessionKeys) × Option Bytes) :=
  let cachedTicket := c.cachedTicket cache
  let cache := if cachedTicket.isSome && (cachedTicket.bind extractResumeSecret).isNone then none
    else cache
  (helloLoop 0 replies).map fun
    | .error e => (.error e, cache)
    | .ok ackPayload => c.onHelloAck cachedTicket cache ackPayload

def Verified (identity : FixedBytes 32) (ack : HelloAckPayload) : Prop :=
  ∃ signature serverPublic serverNonce, ack.authMaterial = some (identity, signature) ∧
    ack.dhMaterial = some (serverPublic, serverNonce) ∧ c.ed25519.validKey identity = true ∧
    c.ed25519.verifyHandshake identity serverPublic c.localKp.publicKey serverNonce.1
      c.localNonce.1 signature = true

/-- There are session keys, from a resume or from a daemon that proved the pinned identity. -/
def Protected (ack : HelloAckPayload) (keys : Option SessionKeys) : Prop :=
  keys.isSome = true ∧ ∀ pinned ∈ c.pinnedServerKey, ack.mode = .resumed ∨ c.Verified pinned ack

variable {c}

variable {ack : HelloAckPayload}

lemma verified_of_verifyServerIdentity {pinned : FixedBytes 32}
    (hpin : c.pinnedServerKey = some pinned) (h : c.verifyServerIdentity ack = .ok ()) :
    c.Verified pinned ack := by
  unfold verifyServerIdentity at h
  rw [hpin] at h
  rcases hauth : ack.authMaterial with _ | auth
  · rw [hauth] at h
    cases h
  obtain ⟨identity, signature⟩ := auth
  rw [hauth] at h
  dsimp only at h
  split at h
  · cases h
  rename_i hidentity
  rw [ne_eq, not_not] at hidentity
  subst hidentity
  rcases hdh : ack.dhMaterial with _ | dh
  · rw [hdh] at h
    cases h
  rw [hdh] at h
  dsimp only at h
  split_ifs at h with hvalid hverify
  exact ⟨signature, dh.1, dh.2, hauth, hdh, by simpa using hvalid, hverify⟩

lemma verifyServerIdentity_of_fullHandshakeKeys {keys : SessionKeys}
    (h : c.fullHandshakeKeys ack = .ok keys) : c.verifyServerIdentity ack = .ok () := by
  unfold fullHandshakeKeys at h
  split at h
  · cases h
  · split at h
    · cases h
    · assumption

variable {keys : Option SessionKeys} {entry : Bytes}

lemma protected_of_deriveKeys {cachedTicket : Option Bytes} (hmode : ack.mode ≠ .plaintext)
    (h : c.deriveKeys cachedTicket ack = .ok keys) : c.Protected ack keys := by
  unfold deriveKeys at h
  split at h
  · rename_i hresumed
    rcases hkeys : c.resumedKeys (cachedTicket.bind extractResumeSecret) ack with _ | k
    · rw [hkeys] at h
      cases h
    rw [hkeys] at h
    cases h
    exact ⟨rfl, fun _ _ => .inl hresumed⟩
  · rcases hkeys : c.fullHandshakeKeys ack with _ | k
    · rw [hkeys] at h
      cases h
    rw [hkeys] at h
    cases h
    refine ⟨rfl, fun pinned hpin => .inr ?_⟩
    exact verified_of_verifyServerIdentity hpin (verifyServerIdentity_of_fullHandshakeKeys hkeys)
  · rename_i hplain
    exact absurd hplain hmode

lemma exists_deriveKeys_of_handshake {cache cache' : Option Bytes} {replies : List HelloReply}
    (h : c.handshake cache replies = some (.ok (ack, keys), cache')) :
    ack.mode = c.plannedMode (c.cachedTicket cache) ∧
      c.deriveKeys (c.cachedTicket cache) ack = .ok keys := by
  obtain ⟨reply, -, h⟩ := map_eq_some_iff.mp h
  rcases reply with _ | ackPayload
  · cases h
  simp only [onHelloAck] at h
  split at h
  · cases h
  rename_i ack' _
  split at h
  · cases h
  split at h
  · cases h
  rename_i hmode
  have hplanned : c.plannedMode (c.cachedTicket cache) = ack'.mode := by
    by_contra hne
    rw [checkNegotiatedMode, if_neg hne] at hmode
    cases hmode
  rcases hkeys : c.deriveKeys (c.cachedTicket cache) ack' with _ | k
  · rw [hkeys] at h
    cases h
  rw [hkeys] at h
  cases h
  exact ⟨hplanned.symm, hkeys⟩

lemma extractResumeSecret_isSome :
    (extractResumeSecret entry).isSome = true ↔ 48 + leNat (entry.take 4) ≤ entry.length := by
  unfold extractResumeSecret
  cases hdecode : decodeTicket entry with
  | none =>
    have hshort : entry.length < 16 + leNat (entry.take 4) := by
      unfold decodeTicket at hdecode
      dsimp only at hdecode
      split_ifs at hdecode <;> omega
    simp only [isSome_none, Bool.false_eq_true, false_iff]
    omega
  | some ticket =>
    have hdata : ticket.encryptedData.length = leNat (entry.take 4) := by
      unfold decodeTicket at hdecode
      dsimp only at hdecode
      split_ifs at hdecode with hshort hlong
      cases hdecode
      simp only [length_slice]
      omega
    have hlen : (encodeTicket ticket).length + 32 = 48 + leNat (entry.take 4) := by
      rw [length_encodeTicket, hdata]
      omega
    simp only [hlen]
    split <;> simp [*]

lemma plannedMode_ne_plaintext (hencrypt : c.encrypt = true) {cache : Option Bytes}
    (h : ∀ entry ∈ cache, 48 + leNat (entry.take 4) ≤ entry.length) :
    c.plannedMode (c.cachedTicket cache) ≠ .plaintext := by
  cases cache with
  | none => simp [plannedMode, cachedTicket, hencrypt]
  | some entry =>
    have hsecret := extractResumeSecret_isSome.mpr (h entry rfl)
    simp [plannedMode, cachedTicket, hencrypt, hsecret]

def plaintextAck : Bytes := encodeHelloAckPayload .plaintext (some 9000) none none capPeerAuth

lemma handshake_plaintextAck (hencrypt : c.encrypt = true)
    (h : ¬48 + leNat (entry.take 4) ≤ entry.length) :
    ∃ ack, c.handshake (some entry) [.ack plaintextAck false] = some (.ok (ack, none), none) := by
  have hsecret : extractResumeSecret entry = none := by
    rwa [← extractResumeSecret_isSome, Bool.not_eq_true, isSome_eq_false_iff,
      isNone_iff_eq_none] at h
  have hdecode : decodeHelloAckPayload plaintextAck =
      some ⟨.plaintext, some 9000, none, none, none, capPeerAuth⟩ := by
    decide
  have hplanned : c.plannedMode (some entry) = .plaintext := by
    simp [plannedMode, hsecret]
  have hbusy : busyAck plaintextAck = false := by
    rfl
  refine ⟨⟨.plaintext, some 9000, none, none, none, capPeerAuth⟩, ?_⟩
  simp only [handshake, cachedTicket, hencrypt, if_true, helloLoop, hbusy, Bool.false_eq_true,
    if_false, map_some, onHelloAck, hdecode, hplanned, checkNegotiatedMode, deriveKeys,
    hsecret, bind_some, isSome_some, isNone_none, Bool.and_self]
  simp [capPeerAuth, Except.map]

/-- An encrypting client never goes on without session keys, nor with an unverified daemon if
one is pinned, whatever the peer sends, exactly if the cache entry for the daemon, when there
is one, is long enough to hold a ticket and a secret. -/
theorem no_downgrade_iff (c : Handshaker) (hencrypt : c.encrypt = true) (cache : Option Bytes) :
    (∀ replies ack keys cache', c.handshake cache replies = some (.ok (ack, keys), cache') →
      c.Protected ack keys) ↔
      ∀ entry ∈ cache, 48 + leNat (entry.take 4) ≤ entry.length := by
  constructor
  · rintro hsound entry rfl
    by_contra hshort
    obtain ⟨ack, hplain⟩ := handshake_plaintextAck (c := c) hencrypt hshort
    have hprotected := hsound _ ack none none hplain
    exact absurd hprotected.1 (by simp)
  · intro hlong replies ack keys cache' h
    obtain ⟨hmode, hkeys⟩ := exists_deriveKeys_of_handshake h
    exact protected_of_deriveKeys (hmode ▸ plannedMode_ne_plaintext hencrypt hlong) hkeys

def sample : Handshaker where
  prims := nullPrimitives
  ed25519 := ⟨fun _ => true, fun _ _ _ => true⟩
  x25519 _ theirPublic := theirPublic
  encrypt := true
  requirePeerAuth := false
  pinnedServerKey := some (.fill 32 9)
  clientIdentity := none
  grant := none
  localKp := ⟨.fill 32 1, .fill 32 2⟩
  localNonce := .fill 16 3

def sampleAck : Bytes :=
  encodeHelloAckPayload .fullHandshake (some 9000)
    (some (.fill 32 7, .fill 16 8)) (some (.fill 32 9, .fill 64 10)) capNone

set_option maxRecDepth 4000 in
theorem no_downgrade_sampleAck :
    ∃ ack keys, sample.handshake none [.silence, .ack sampleAck false] =
      some (.ok (ack, keys), none) ∧ sample.Protected ack keys := by
  have hrun : sample.handshake none [.silence, .ack sampleAck false] =
      some (.ok (_, _), none) := rfl
  exact ⟨_, _, hrun, (no_downgrade_iff sample rfl none).mpr (by simp) _ _ _ _ hrun⟩

/-- The entry that a four-byte Checkpoint payload leaves, with the secret behind it: the
client goes on in plaintext, without keys and with the pin unchecked. -/
theorem malformed_entry_downgrades :
    sample.encrypt = true ∧ sample.pinnedServerKey.isSome = true ∧
      sample.handshake (some (List.replicate 4 0xFF ++ List.replicate 32 11))
        [.ack [0x00, 0x23, 0x28] false] =
          some (.ok (⟨.plaintext, some 9000, none, none, none, capNone⟩, none), none) :=
  ⟨rfl, rfl, rfl⟩

end Handshaker

end Favonius.Client
