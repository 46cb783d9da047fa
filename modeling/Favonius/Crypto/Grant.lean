import Favonius.Crypto.Keys

/-!
# Signatures and grants

Ed25519 is third-party code and enters as its verification functions.  A grant is
a signed permission for one sender to write below one path of one daemon; only
`Grant.verify` makes a `VerifiedGrant`.
-/

namespace Favonius.Crypto

open ByteCodec

structure Ed25519 where
  validKey : FixedBytes 32 → Bool
  verify : FixedBytes 32 → Bytes → FixedBytes 64 → Bool

def hexEncode (bytes : Bytes) : String :=
  String.ofList
    (bytes.flatMap fun b => [Nat.digitChar (b.toNat / 16), Nat.digitChar (b.toNat % 16)])

def buildClientOfferTranscript (ephemeralPub : FixedBytes 32) (nonce : Bytes) : Bytes :=
  ascii "AHP-CLIENT-OFFER-SIG-v1" ++ ephemeralPub.1 ++ leBytes 2 nonce.length ++ nonce

def buildHandshakeTranscript (localEphemeralPub remoteEphemeralPub : FixedBytes 32)
    (localNonce remoteNonce : Bytes) : Bytes :=
  ascii "AHP-HANDSHAKE-SIG-v1" ++ localEphemeralPub.1 ++ remoteEphemeralPub.1 ++
    leBytes 2 localNonce.length ++ localNonce ++ leBytes 2 remoteNonce.length ++ remoteNonce

namespace Ed25519

def verifyClientOffer (E : Ed25519) (key ephemeralPub : FixedBytes 32) (nonce : Bytes)
    (signature : FixedBytes 64) : Bool :=
  E.verify key (buildClientOfferTranscript ephemeralPub nonce) signature

def verifyHandshake (E : Ed25519) (key peerEphemeralPub ourEphemeralPub : FixedBytes 32)
    (peerNonce ourNonce : Bytes) (signature : FixedBytes 64) : Bool :=
  E.verify key (buildHandshakeTranscript peerEphemeralPub ourEphemeralPub peerNonce ourNonce)
    signature

end Ed25519

structure Grant where
  source : FixedBytes 32
  destination : FixedBytes 32
  notAfter : UInt64
  runId : String
  pathPrefix : String
  deriving DecidableEq

inductive GrantError where
  | malformed
  | unsupportedVersion (version : UInt8)
  | notSignedByAnAnchor
  | expired (bySecs : ℕ)
  | wrongDestination
  | wrongSource
  | noUsableClock
  deriving DecidableEq, Repr

def GrantError.toString : GrantError → String
  | malformed => "grant is malformed"
  | unsupportedVersion v => s!"grant version {v} is not supported"
  | notSignedByAnAnchor => "grant is not signed by a configured trust anchor"
  | expired bySecs => s!"grant expired {bySecs}s ago"
  | wrongDestination => "grant was issued for a different daemon"
  | wrongSource => "grant was issued for a different sender"
  | noUsableClock => "this host's clock is before 2020, so a grant's expiry cannot be checked; " ++
      "set the time (NTP, or an RTC) before requiring grants"

def grantVersion : UInt8 := 1

def maxField : ℕ := 4096

/-- 2020-01-01: a host whose clock is earlier has no usable clock. -/
def clockSanityFloor : ℕ := 1577836800

def takeStr (bytes : Bytes) : Except GrantError (String × Bytes) :=
  if bytes.length < 2 then .error .malformed else
  let len := beNat (bytes.take 2)
  let bytes := bytes.drop 2
  if maxField < len ∨ bytes.length < len then .error .malformed else
  match String.fromUTF8? ⟨(bytes.take len).toArray⟩ with
  | none => .error .malformed
  | some s => .ok (s, bytes.drop len)

def pushStr (s : String) : Bytes :=
  let bytes := s.toUTF8.data.toList
  beBytes 2 bytes.length ++ bytes

namespace Grant

def signingBytes (g : Grant) : Bytes :=
  ascii "AHP-GRANT-SIG-v1" ++ [grantVersion] ++ g.source.1 ++ g.destination.1 ++
    putU64 g.notAfter ++ pushStr g.runId ++ pushStr g.pathPrefix

def parse (bytes : Bytes) : Except GrantError (Grant × FixedBytes 64) :=
  if h : bytes.length < 1 + 32 + 32 + 8 + 2 + 2 + 64 then .error .malformed else
  let version := bytes.headD 0
  if version ≠ grantVersion then .error (.unsupportedVersion version) else
  have h : 141 ≤ bytes.length := not_lt.mp h
  let source := fixedSlice bytes 1 32 (by omega)
  let destination := fixedSlice bytes 33 32 (by omega)
  let notAfter := (getU64 (bytes.drop 65)).1
  match takeStr (bytes.drop 73) with
  | .error e => .error e
  | .ok (runId, rest) =>
    match takeStr rest with
    | .error e => .error e
    | .ok (pathPrefix, rest) =>
      if hsig : rest.length = 64 then
        .ok (⟨source, destination, notAfter, runId, pathPrefix⟩, ⟨rest, hsig⟩)
      else .error .malformed

def check (E : Ed25519) (anchors : List (FixedBytes 32)) (destination source : FixedBytes 32)
    (now : UInt64) (g : Grant) (signature : FixedBytes 64) : Except GrantError Unit :=
  if !anchors.any fun a => E.validKey a && E.verify a g.signingBytes signature then
    .error .notSignedByAnAnchor
  else if g.destination ≠ destination then .error .wrongDestination
  else if g.source ≠ source then .error .wrongSource
  else if now.toNat < clockSanityFloor then .error .noUsableClock
  else if g.notAfter < now then .error (.expired (now.toNat - g.notAfter.toNat))
  else .ok ()

end Grant

structure VerifiedGrant (E : Ed25519) (anchors : List (FixedBytes 32)) where
  grant : Grant
  signed : ∃ signature, ∃ a ∈ anchors, E.validKey a = true ∧
    E.verify a grant.signingBytes signature = true

namespace VerifiedGrant

variable {E : Ed25519} {anchors : List (FixedBytes 32)}

/-- The path itself or something below it; an empty prefix permits nothing. -/
def permitsPath (v : VerifiedGrant E anchors) (path : String) : Bool :=
  let pathPrefix := v.grant.pathPrefix
  if pathPrefix.isEmpty then false
  else if path = pathPrefix then true
  else path.startsWith (if pathPrefix.endsWith "/" then pathPrefix else pathPrefix ++ "/")

end VerifiedGrant

lemma Grant.signed_of_check {E : Ed25519} {anchors : List (FixedBytes 32)}
    {destination source : FixedBytes 32} {now : UInt64} {g : Grant} {signature : FixedBytes 64}
    (h : g.check E anchors destination source now signature = .ok ()) :
    ∃ a ∈ anchors, E.validKey a = true ∧ E.verify a g.signingBytes signature = true := by
  unfold Grant.check at h
  split at h
  · cases h
  · rename_i hsigned
    simpa using hsigned

def Grant.verify (E : Ed25519) (bytes : Bytes) (anchors : List (FixedBytes 32))
    (destination source : FixedBytes 32) (now : UInt64) :
    Except GrantError (VerifiedGrant E anchors) :=
  match Grant.parse bytes with
  | .error e => .error e
  | .ok (g, signature) =>
    match h : g.check E anchors destination source now signature with
    | .error e => .error e
    | .ok () => .ok ⟨g, signature, Grant.signed_of_check h⟩

end Favonius.Crypto
