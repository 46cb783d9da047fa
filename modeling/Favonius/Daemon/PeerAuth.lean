import Favonius.Crypto.Grant

/-!
# Who may send to this daemon

The peer policy and its decision about one full-handshake HELLO.
-/

namespace Favonius.Daemon

open ByteCodec Crypto

/-- The allowlist is a set; an empty one does not restrict membership. -/
structure PeerPolicy where
  allowed : List (FixedBytes 32)
  require : Bool
  /-- Keys whose signature makes a grant worth reading. -/
  anchors : List (FixedBytes 32)
  requireGrant : Bool
  ownIdentity : Option (FixedBytes 32)
  require_of_requireGrant : requireGrant = true → require = true

namespace PeerPolicy

def new (allowed : List (FixedBytes 32)) (require : Bool) : PeerPolicy where
  allowed := allowed
  require := require
  anchors := []
  requireGrant := false
  ownIdentity := none
  require_of_requireGrant := by simp

/-- Requiring a grant forces requiring authentication. -/
def withTrustAnchors (p : PeerPolicy) (anchors : List (FixedBytes 32)) (requireGrant : Bool)
    (ownIdentity : Option (FixedBytes 32)) : PeerPolicy where
  allowed := p.allowed
  require := if requireGrant then true else p.require
  anchors := anchors
  requireGrant := requireGrant
  ownIdentity := ownIdentity
  require_of_requireGrant := by
    intro h
    rw [if_pos h]

def isEnforcing (p : PeerPolicy) : Bool :=
  p.require || !p.allowed.isEmpty || !p.anchors.isEmpty

end PeerPolicy

inductive Decision (E : Ed25519) (anchors : List (FixedBytes 32)) where
  /-- The grant travels with the decision: the path it permits is checked later. -/
  | authenticated (identity : FixedBytes 32) (grant : Option (VerifiedGrant E anchors))
  | anonymous
  | refused (why : String)

namespace PeerPolicy

variable (E : Ed25519) (p : PeerPolicy)

def decideGrant (identity : FixedBytes 32) (now : UInt64) :
    Option Bytes → Except String (Option (VerifiedGrant E p.anchors))
  | none => .ok none
  | some bytes =>
    if p.anchors.isEmpty then .ok none else
    match p.ownIdentity with
    | none => .error ("a grant was presented but this daemon has no --identity, so it " ++
        "cannot tell whether the grant was issued for it")
    | some destination =>
      match Grant.verify E bytes p.anchors destination identity now with
      | .ok v => .ok (some v)
      | .error e =>
        let who := hexEncode (identity.1.take 4)
        let reason := e.toString
        .error s!"sender {who} presented a grant that did not check out: {reason}"

def decide (presented : Option (FixedBytes 32 × FixedBytes 64)) (grantBytes : Option Bytes)
    (ephemeralPub : FixedBytes 32) (nonce : Bytes) (now : UInt64) : Decision E p.anchors :=
  match presented with
  | none =>
    if p.require then .refused "sender did not authenticate and --require-peer-auth is set"
    else .anonymous
  | some (identity, signature) =>
    let who := hexEncode (identity.1.take 4)
    if !E.validKey identity then
      .refused s!"sender presented {who} which is not a valid Ed25519 public key"
    else if !E.verifyClientOffer identity ephemeralPub nonce signature then
      .refused s!"sender claiming {who} did not prove it: bad offer signature"
    else if !p.allowed.isEmpty && !p.allowed.contains identity then
      .refused s!"sender {who} proved its identity but is not on the allowlist"
    else
      match p.decideGrant E identity now grantBytes with
      | .error why => .refused why
      | .ok grant =>
        if p.requireGrant && grant.isNone then
          .refused (s!"sender {who} authenticated but presented no valid grant, and this " ++
            "daemon requires one")
        else .authenticated identity grant

lemma decide_ne_anonymous (hrequire : p.require = true)
    (presented : Option (FixedBytes 32 × FixedBytes 64)) (grantBytes : Option Bytes)
    (ephemeralPub : FixedBytes 32) (nonce : Bytes) (now : UInt64) :
    p.decide E presented grantBytes ephemeralPub nonce now ≠ .anonymous := by
  unfold decide
  cases presented with
  | none => simp [hrequire]
  | some auth =>
    dsimp only
    split_ifs
    · simp
    · simp
    · simp
    · split
      · simp
      · split <;> simp

variable {presented : Option (FixedBytes 32 × FixedBytes 64)} {grantBytes : Option Bytes}
  {ephemeralPub : FixedBytes 32} {nonce : Bytes} {now : UInt64} {identity : FixedBytes 32}

lemma decideGrant_of_authenticated {grant : Option (VerifiedGrant E p.anchors)}
    (h : p.decide E presented grantBytes ephemeralPub nonce now = .authenticated identity grant) :
    p.decideGrant E identity now grantBytes = .ok grant ∧
      (p.requireGrant = true → grant.isSome = true) := by
  unfold decide at h
  cases presented with
  | none =>
    dsimp only at h
    split at h <;> cases h
  | some auth =>
    dsimp only at h
    split_ifs at h
    split at h
    · cases h
    rename_i hdecided
    split at h
    · cases h
    · rename_i hsome
      cases h
      refine ⟨hdecided, fun hgrant => ?_⟩
      simpa [hgrant, Option.isSome_iff_ne_none] using hsome

/-- A grant that travels with a decision is the presented one, checked for the sender, for this
daemon and for the time of the decision. -/
theorem verify_of_decideGrant {grant : VerifiedGrant E p.anchors}
    (h : p.decideGrant E identity now grantBytes = .ok (some grant)) :
    ∃ bytes destination, grantBytes = some bytes ∧ p.ownIdentity = some destination ∧
      Grant.verify E bytes p.anchors destination identity now = .ok grant := by
  unfold decideGrant at h
  split at h
  · cases h
  rename_i bytes
  split at h
  · cases h
  split at h
  · cases h
  rename_i destination hown
  split at h
  · rename_i hverify
    cases h
    exact ⟨bytes, destination, rfl, hown, hverify⟩
  · cases h

end PeerPolicy

end Favonius.Daemon
