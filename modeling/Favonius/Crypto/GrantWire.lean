import Favonius.Crypto.SignedMessages

/-!
# The wire form of a grant

A signed grant travels without its tag, the signature at the end.  The reader takes back what was
written whenever both strings fit, and accepts nothing but what the writer writes.
-/

namespace Favonius.Crypto

open ByteCodec List

lemma takeStr_pushStr {s : String} (hs : s.utf8ByteSize ≤ maxField) (rest : Bytes) :
    takeStr (pushStr s ++ rest) = .ok (s, rest) := by
  have hlen : (utf8 s).length < 256 ^ 2 := by
    rw [length_utf8]
    unfold maxField at hs
    omega
  have htake : (pushStr s ++ rest).take 2 = beBytes 2 (utf8 s).length := by
    exact take_left' (length_beBytes _ _)
  have hdrop : (pushStr s ++ rest).drop 2 = utf8 s ++ rest := by
    exact drop_left' (length_beBytes _ _)
  have hvalid : String.fromUTF8? ⟨(utf8 s).toArray⟩ = some s := by
    exact dif_pos s.isValidUTF8
  have hlong : ¬ (pushStr s ++ rest).length < 2 := by
    rw [length_append, length_pushStr]
    omega
  have hfits : ¬ (maxField < (utf8 s).length ∨ (utf8 s ++ rest).length < (utf8 s).length) := by
    rw [length_append, length_utf8]
    omega
  simp only [takeStr, if_neg hlong, htake, hdrop, beNat_beBytes_of_lt hlen, if_neg hfits,
    take_left, drop_left, hvalid]

lemma eq_of_takeStr {bytes rest : Bytes} {s : String} (h : takeStr bytes = .ok (s, rest)) :
    bytes = pushStr s ++ rest ∧ s.utf8ByteSize ≤ maxField := by
  simp only [takeStr] at h
  split at h
  · cases h
  split at h
  · cases h
  rename_i hfits
  split at h
  · cases h
  rename_i s' hvalid
  simp only [Except.ok.injEq, Prod.mk.injEq] at h
  obtain ⟨rfl, rfl⟩ := h
  push Not at hfits
  have hutf8 : utf8 s' = (bytes.drop 2).take (beNat (bytes.take 2)) := by
    simp only [String.fromUTF8?] at hvalid
    split at hvalid
    · simp only [Option.some.injEq] at hvalid
      subst hvalid
      rfl
    · cases hvalid
  have hlen : (utf8 s').length = beNat (bytes.take 2) := by
    rw [hutf8, length_take]
    exact min_eq_left hfits.2
  have hpre : beBytes 2 (utf8 s').length = bytes.take 2 := by
    have htwo : (bytes.take 2).length = 2 := by
      rw [length_take]
      omega
    rw [hlen]
    nth_rewrite 1 [← htwo]
    exact beBytes_beNat _
  refine ⟨?_, ?_⟩
  · rw [pushStr_eq, hpre, hutf8, append_assoc, take_append_drop, take_append_drop]
  · rw [← length_utf8, hlen]
    exact hfits.1

namespace Grant

/-- The tag is not sent: both ends know it. -/
def sign (anchor : Bytes → FixedBytes 64) (g : Grant) : Bytes :=
  g.signingBytes.drop (ascii "AHP-GRANT-SIG-v1").length ++ (anchor g.signingBytes).1

lemma sign_eq (anchor : Bytes → FixedBytes 64) (g : Grant) :
    g.sign anchor = g.fields ++ (anchor g.signingBytes).1 := by
  rw [sign, signingBytes_eq, drop_left]

def parseTail (source destination : FixedBytes 32) (notAfter : UInt64) (tail : Bytes) :
    Except GrantError (Grant × FixedBytes 64) :=
  match takeStr tail with
  | .error e => .error e
  | .ok (runId, rest) =>
    match takeStr rest with
    | .error e => .error e
    | .ok (pathPrefix, rest) =>
      if hsig : rest.length = 64 then
        .ok (⟨source, destination, notAfter, runId, pathPrefix⟩, ⟨rest, hsig⟩)
      else .error .malformed

variable {bytes : Bytes}

lemma parse_eq (h : 141 ≤ bytes.length) :
    parse bytes = if bytes.headD 0 ≠ grantVersion then
        .error (.unsupportedVersion (bytes.headD 0))
      else parseTail (fixedSlice bytes 1 32 (by omega)) (fixedSlice bytes 33 32 (by omega))
        (getU64 (bytes.drop 65)).1 (bytes.drop 73) := by
  rw [parse, dif_neg (not_lt.mpr h)]
  rfl

lemma parse_fixed_append (source destination : FixedBytes 32) (notAfter : UInt64) {tail : Bytes}
    (htail : 68 ≤ tail.length) :
    parse (grantVersion :: (source.1 ++ (destination.1 ++ (putU64 notAfter ++ tail)))) =
      parseTail source destination notAfter tail := by
  set bytes := grantVersion :: (source.1 ++ (destination.1 ++ (putU64 notAfter ++ tail)))
    with hbytes
  have hlen : 141 ≤ bytes.length := by
    simp only [hbytes, length_cons, length_append, source.2, destination.2, length_putU64]
    omega
  have hsource : ∀ h, fixedSlice bytes 1 32 h = source := by
    intro h
    have hcut : bytes =
        [grantVersion] ++ (source.1 ++ (destination.1 ++ (putU64 notAfter ++ tail))) := hbytes
    apply Subtype.ext
    exact slice_eq_of_append hcut rfl source.2
  have hdestination : ∀ h, fixedSlice bytes 33 32 h = destination := by
    intro h
    have hcut : bytes =
        (grantVersion :: source.1) ++ (destination.1 ++ (putU64 notAfter ++ tail)) := hbytes
    apply Subtype.ext
    apply slice_eq_of_append hcut _ destination.2
    rw [length_cons, source.2]
  have hdrop : bytes.drop 65 = putU64 notAfter ++ tail := by
    have : bytes = (grantVersion :: (source.1 ++ destination.1)) ++ (putU64 notAfter ++ tail) := by
      simp [hbytes]
    rw [this]
    exact drop_left' (by simp [source.2, destination.2])
  have htail : bytes.drop 73 = tail := by
    rw [show 73 = 65 + 8 from rfl, ← drop_drop, hdrop]
    exact drop_left' (length_putU64 _)
  have hversion : bytes.headD 0 = grantVersion := rfl
  rw [parse_eq hlen, if_neg (not_not.mpr hversion), hsource, hdestination, hdrop, getU64_put, htail]

lemma eq_fixed_append (h : 141 ≤ bytes.length) :
    bytes = bytes.headD 0 :: ((fixedSlice bytes 1 32 (by omega)).1 ++
      ((fixedSlice bytes 33 32 (by omega)).1 ++
        (putU64 (getU64 (bytes.drop 65)).1 ++ bytes.drop 73))) := by
  have hnotAfter : putU64 (getU64 (bytes.drop 65)).1 = slice bytes 65 8 := by
    apply putU64_getU64
    rw [length_drop]
    omega
  simp only [fixedSlice, hnotAfter]
  rw [← drop_eq_slice_append, ← drop_eq_slice_append, ← drop_eq_slice_append]
  cases bytes with
  | nil => cases h
  | cons version rest => rfl

variable {g : Grant}

lemma parseTail_pushStr (hfits : g.Fits) (signature : FixedBytes 64) :
    parseTail g.source g.destination g.notAfter
      (pushStr g.runId ++ (pushStr g.pathPrefix ++ signature.1)) = .ok (g, signature) := by
  simp only [parseTail, takeStr_pushStr hfits.1, takeStr_pushStr hfits.2]
  exact dif_pos signature.2

lemma parse_fields (hfits : g.Fits) (signature : FixedBytes 64) :
    parse (g.fields ++ signature.1) = .ok (g, signature) := by
  simp only [fields, cons_append, append_assoc]
  rw [parse_fixed_append]
  · exact parseTail_pushStr hfits signature
  · simp only [length_append, length_pushStr, signature.2]
    omega

lemma eq_of_parseTail {source destination : FixedBytes 32} {notAfter : UInt64} {tail : Bytes}
    {signature : FixedBytes 64}
    (h : parseTail source destination notAfter tail = .ok (g, signature)) :
    g.source = source ∧ g.destination = destination ∧ g.notAfter = notAfter ∧
      tail = pushStr g.runId ++ (pushStr g.pathPrefix ++ signature.1) ∧ g.Fits := by
  unfold parseTail at h
  cases hrun : takeStr tail with
  | error e => simp [hrun] at h
  | ok taken =>
    obtain ⟨runId, rest⟩ := taken
    cases hpath : takeStr rest with
    | error e => simp [hrun, hpath] at h
    | ok taken =>
      simp only [hrun, hpath] at h
      split at h
      · obtain ⟨rfl, rfl⟩ := h
        obtain ⟨rfl, hrunFits⟩ := eq_of_takeStr hrun
        obtain ⟨rfl, hpathFits⟩ := eq_of_takeStr hpath
        exact ⟨rfl, rfl, rfl, rfl, hrunFits, hpathFits⟩
      · cases h

lemma eq_of_parse {signature : FixedBytes 64} (h : parse bytes = .ok (g, signature)) :
    bytes = g.fields ++ signature.1 ∧ g.Fits := by
  have hlen : 141 ≤ bytes.length := by
    by_contra hshort
    rw [parse, dif_pos (not_le.mp hshort)] at h
    cases h
  rw [parse_eq hlen] at h
  split at h
  · cases h
  rename_i hversion
  obtain ⟨hsource, hdestination, hnotAfter, htail, hfits⟩ := eq_of_parseTail h
  refine ⟨?_, hfits⟩
  rw [fields, cons_append, append_assoc, append_assoc, append_assoc,
    append_assoc, ← htail, hsource, hdestination, hnotAfter, ← not_not.mp hversion]
  exact eq_fixed_append hlen

lemma parse_sign (hfits : g.Fits) (anchor : Bytes → FixedBytes 64) :
    parse (g.sign anchor) = .ok (g, anchor g.signingBytes) := by
  rw [sign_eq]
  exact parse_fields hfits (anchor g.signingBytes)

lemma parse_sign_or_error (g : Grant) (anchor : Bytes → FixedBytes 64) :
    parse (g.sign anchor) = .ok (g, anchor g.signingBytes) ∨
      ∃ e, parse (g.sign anchor) = .error e := by
  cases hparse : parse (g.sign anchor) with
  | error e => exact .inr ⟨e, rfl⟩
  | ok read =>
    obtain ⟨g', signature⟩ := read
    obtain ⟨hbytes, hfits⟩ := eq_of_parse hparse
    rw [sign_eq] at hbytes
    have hlen : (anchor g.signingBytes).1.length = signature.1.length := by
      rw [(anchor g.signingBytes).2, signature.2]
    obtain ⟨rfl, hsignature⟩ := fields_append_inj hfits hlen hbytes
    rw [Subtype.ext hsignature]
    exact .inl rfl

section Verified

variable {E : Ed25519} {bytes : Bytes} {anchors : List (FixedBytes 32)}
  {destination source : FixedBytes 32} {now : UInt64}

variable {g : Grant}

lemma check_eq_ok {signature : FixedBytes 64}
    (h : g.check E anchors destination source now signature = .ok ()) :
    (∃ a ∈ anchors, E.validKey a = true ∧ E.verify a g.signingBytes signature = true) ∧
      g.destination = destination ∧ g.source = source ∧ clockSanityFloor ≤ now.toNat ∧
      now ≤ g.notAfter := by
  refine ⟨signed_of_check h, ?_⟩
  simp only [check] at h
  split at h
  · cases h
  split at h
  · cases h
  rename_i hdestination
  split at h
  · cases h
  rename_i hsource
  split at h
  · cases h
  rename_i hclock
  split at h
  · cases h
  rename_i hexpired
  exact ⟨not_not.mp hdestination, not_not.mp hsource, not_lt.mp hclock, UInt64.not_lt.mp hexpired⟩

lemma verify_eq_ok {v : VerifiedGrant E anchors}
    (h : verify E bytes anchors destination source now = .ok v) :
    ∃ signature, parse bytes = .ok (v.grant, signature) ∧
      v.grant.check E anchors destination source now signature = .ok () := by
  unfold verify at h
  split at h
  · cases h
  rename_i g signature hparse
  split at h
  · cases h
  rename_i hcheck
  simp only [Except.ok.injEq] at h
  subst h
  exact ⟨signature, hparse, hcheck⟩

lemma verify_of_check {signature : FixedBytes 64} (hparse : parse bytes = .ok (g, signature))
    (hcheck : g.check E anchors destination source now signature = .ok ()) :
    ∃ v, verify E bytes anchors destination source now = .ok v ∧ v.grant = g := by
  refine ⟨⟨g, signature, signed_of_check hcheck⟩, ?_, rfl⟩
  unfold verify
  split
  · rename_i h
    rw [hparse] at h
    cases h
  · rename_i h
    rw [hparse] at h
    cases h
    split
    · rename_i h
      rw [hcheck] at h
      cases h
    · rfl

lemma signed_eq_of_bytes {m : SignedMessage} (hfits : g.Fits) (h : m.bytes = g.signingBytes) :
    m = .grant g := by
  have hpurpose := SignedMessage.purpose_eq_of_bytes (b := .grant g) h
  cases m with
  | handshake | clientOffer => cases hpurpose
  | grant g' => rw [eq_of_signingBytes hfits h]

end Verified

end Grant

/-- The reader gives back what was written or nothing, accepts only what the writer writes, and a
verified grant was signed as it stands; `log` has what the owner of each key ever signed, with any
lengths. -/
theorem grant_wire_is_sound :
    (∀ (anchor : Bytes → FixedBytes 64) (g : Grant),
      (g.Fits → Grant.parse (g.sign anchor) = .ok (g, anchor g.signingBytes)) ∧
      (Grant.parse (g.sign anchor) = .ok (g, anchor g.signingBytes) ∨
        ∃ e, Grant.parse (g.sign anchor) = .error e)) ∧
    (∀ (bytes : Bytes) (g : Grant) (signature : FixedBytes 64),
      Grant.parse bytes = .ok (g, signature) → g.sign (fun _ => signature) = bytes) ∧
    ∀ (E : Ed25519) (log : FixedBytes 32 → Set SignedMessage),
      (∀ key message signature, E.verify key message signature = true →
        ∃ m ∈ log key, m.bytes = message) →
      ∀ (bytes : Bytes) (anchors : List (FixedBytes 32)) (destination source : FixedBytes 32)
        (now : UInt64) (v : VerifiedGrant E anchors),
        Grant.verify E bytes anchors destination source now = .ok v →
        (∃ a ∈ anchors, .grant v.grant ∈ log a) ∧ v.grant.destination = destination ∧
          v.grant.source = source ∧ clockSanityFloor ≤ now.toNat ∧ now ≤ v.grant.notAfter := by
  refine ⟨?_, ?_, ?_⟩
  · intro anchor g
    exact ⟨fun hfits => Grant.parse_sign hfits anchor, Grant.parse_sign_or_error g anchor⟩
  · intro bytes g signature hparse
    rw [Grant.sign_eq]
    exact (Grant.eq_of_parse hparse).1.symm
  · intro E log hunforgeable bytes anchors destination source now v hverify
    obtain ⟨signature, hparse, hcheck⟩ := Grant.verify_eq_ok hverify
    obtain ⟨⟨a, ha, -, hsigned⟩, hchecks⟩ := Grant.check_eq_ok hcheck
    refine ⟨⟨a, ha, ?_⟩, hchecks⟩
    obtain ⟨m, hm, hbytes⟩ := hunforgeable a v.grant.signingBytes signature hsigned
    rw [← Grant.signed_eq_of_bytes (Grant.eq_of_parse hparse).2 hbytes]
    exact hm

theorem verified_grant_was_signed_by_the_anchor :
    let g : Grant := ⟨.fill 32 0, .fill 32 0, 2000000000, "run-7", "incoming"⟩
    let E := signedOnly g.signingBytes
    ∃ v, Grant.verify E (g.sign fun _ => .fill 64 0) [.fill 32 0] (.fill 32 0)
        (.fill 32 0) 1700000000 = .ok v ∧
      ∃ a ∈ [FixedBytes.fill 32 0],
        SignedMessage.grant v.grant ∈ ({.grant g} : Set SignedMessage) := by
  intro g E
  have hfits : g.Fits := by decide
  have hcheck : g.check E [.fill 32 0] (.fill 32 0) (.fill 32 0) 1700000000
      (.fill 64 0) = .ok () := by
    have hsigned : E.verify (.fill 32 0) g.signingBytes (.fill 64 0) = true :=
      verify_signedOnly_iff.mpr rfl
    decide
  obtain ⟨v, hverify, -⟩ := Grant.verify_of_check (Grant.parse_sign hfits _) hcheck
  have hunforgeable : ∀ key message signature, E.verify key message signature = true →
      ∃ m ∈ ({.grant g} : Set SignedMessage), m.bytes = message := by
    intro key message signature hmessage
    exact ⟨.grant g, rfl, (verify_signedOnly_iff.mp hmessage).symm⟩
  have hsound := grant_wire_is_sound.2.2 E (fun _ => {.grant g}) hunforgeable _ _ _ _ _ v hverify
  exact ⟨v, hverify, hsound.1⟩

end Favonius.Crypto
