import Favonius.Crypto.Grant

/-!
# What an identity signs

An Ed25519 identity signs the handshake transcript, the one-sided client offer and grants, and
nothing else.  The three formats were written apart: the transcripts have little-endian lengths
and the grant big-endian ones, and nothing frames them but the tag at the front.  Every length is
cut to 16 bits.
-/

namespace Favonius.Crypto

open ByteCodec List

def utf8 (s : String) : Bytes := s.toUTF8.data.toList

lemma utf8_injective : Function.Injective utf8 := by
  intro s t h
  apply String.toByteArray_inj.mp
  exact ByteArray.ext (Array.toList_inj.mp h)

lemma length_utf8 (s : String) : (utf8 s).length = s.utf8ByteSize := by
  exact String.size_toByteArray

lemma pushStr_eq (s : String) : pushStr s = beBytes 2 (utf8 s).length ++ utf8 s := rfl

@[simp] lemma length_pushStr (s : String) : (pushStr s).length = 2 + s.utf8ByteSize := by
  rw [pushStr_eq, length_append, length_beBytes, length_utf8]

lemma pushStr_append_inj {s t : String} {rest rest' : Bytes} (hs : s.utf8ByteSize < 65536)
    (ht : t.utf8ByteSize < 65536) (h : pushStr s ++ rest = pushStr t ++ rest') :
    s = t ∧ rest = rest' := by
  rw [pushStr_eq, pushStr_eq, append_assoc, append_assoc] at h
  have hinj := prefixed_append_inj (length_beBytes 2) (beBytes_injOn 2)
    (by rwa [length_utf8]) (by rwa [length_utf8]) h
  exact ⟨utf8_injective hinj.1, hinj.2⟩

namespace Grant

def fields (g : Grant) : Bytes :=
  grantVersion :: (g.source.1 ++ (g.destination.1 ++ (putU64 g.notAfter ++
    (pushStr g.runId ++ pushStr g.pathPrefix))))

lemma signingBytes_eq (g : Grant) :
    g.signingBytes = ascii "AHP-GRANT-SIG-v1" ++ g.fields := by
  simp [signingBytes, fields]

def Fits (g : Grant) : Prop :=
  g.runId.utf8ByteSize ≤ maxField ∧ g.pathPrefix.utf8ByteSize ≤ maxField

instance (g : Grant) : Decidable g.Fits := inferInstanceAs (Decidable (_ ∧ _))

/-- A grant that fits is told from every other grant, also from one whose lengths were cut: that
one is too long. -/
theorem fields_append_inj {g g' : Grant} {rest rest' : Bytes} (hfits : g'.Fits)
    (hlen : rest.length = rest'.length) (h : g.fields ++ rest = g'.fields ++ rest') :
    g = g' ∧ rest = rest' := by
  simp only [fields, cons_append, append_assoc, cons.injEq, true_and] at h
  obtain ⟨hsource, h⟩ := append_inj h (by rw [g.source.2, g'.source.2])
  obtain ⟨hdestination, h⟩ := append_inj h (by rw [g.destination.2, g'.destination.2])
  obtain ⟨hnotAfter, h⟩ := append_inj h (by simp)
  have htotal := congrArg List.length h
  simp only [length_append, length_pushStr, hlen] at htotal
  obtain ⟨hrun, hpath⟩ := hfits
  unfold maxField at hrun hpath
  obtain ⟨hrunId, h⟩ := pushStr_append_inj (by omega) (by omega) h
  obtain ⟨hpathPrefix, h⟩ := pushStr_append_inj (by omega) (by omega) h
  refine ⟨?_, h⟩
  cases g
  cases g'
  simp only [Grant.mk.injEq]
  exact ⟨Subtype.ext hsource, Subtype.ext hdestination, putU64_injective hnotAfter, hrunId,
    hpathPrefix⟩

lemma eq_of_signingBytes {g g' : Grant} (hfits : g'.Fits)
    (h : g.signingBytes = g'.signingBytes) : g = g' := by
  rw [signingBytes_eq, signingBytes_eq, append_cancel_left_eq] at h
  rw [← append_nil g.fields, ← append_nil g'.fields] at h
  exact (fields_append_inj hfits rfl h).1

end Grant

inductive SignedMessage where
  | handshake (localEphemeralPub remoteEphemeralPub : FixedBytes 32)
      (localNonce remoteNonce : Bytes)
  | clientOffer (ephemeralPub : FixedBytes 32) (nonce : Bytes)
  | grant (g : Grant)

inductive Purpose where
  | handshake
  | clientOffer
  | grant
  deriving DecidableEq

namespace SignedMessage

def bytes : SignedMessage → Bytes
  | handshake localPub remotePub localNonce remoteNonce =>
    buildHandshakeTranscript localPub remotePub localNonce remoteNonce
  | clientOffer pub nonce => buildClientOfferTranscript pub nonce
  | grant g => g.signingBytes

def purpose : SignedMessage → Purpose
  | handshake .. => .handshake
  | clientOffer .. => .clientOffer
  | grant _ => .grant

def InRange : SignedMessage → Prop
  | handshake _ _ localNonce remoteNonce =>
    localNonce.length ≤ 65535 ∧ remoteNonce.length ≤ 65535
  | clientOffer _ nonce => nonce.length ≤ 65535
  | grant g => g.Fits

/-- What the verifier of that purpose asks of a signature. -/
def verifies (E : Ed25519) (key : FixedBytes 32) (signature : FixedBytes 64) :
    SignedMessage → Bool
  | handshake peerPub ourPub peerNonce ourNonce =>
    E.verifyHandshake key peerPub ourPub peerNonce ourNonce signature
  | clientOffer pub nonce => E.verifyClientOffer key pub nonce signature
  | grant g => E.verify key g.signingBytes signature

lemma verifies_eq (E : Ed25519) (key : FixedBytes 32) (signature : FixedBytes 64)
    (m : SignedMessage) : m.verifies E key signature = E.verify key m.bytes signature := by
  cases m <;> rfl

/-- The first byte in which the three tags differ. -/
def tagByte : Purpose → UInt8
  | .handshake => 72
  | .clientOffer => 67
  | .grant => 71

lemma getElem?_bytes_four (m : SignedMessage) : m.bytes[4]? = some (tagByte m.purpose) := by
  cases m with
  | handshake =>
    simp only [bytes, buildHandshakeTranscript, append_assoc]
    rfl
  | clientOffer =>
    simp only [bytes, buildClientOfferTranscript, append_assoc]
    rfl
  | grant =>
    simp only [bytes, Grant.signingBytes_eq]
    rfl

lemma purpose_eq_of_bytes {a b : SignedMessage} (h : a.bytes = b.bytes) :
    a.purpose = b.purpose := by
  have htag : tagByte a.purpose = tagByte b.purpose := by
    have := getElem?_bytes_four a
    rw [h, getElem?_bytes_four b, Option.some.injEq] at this
    exact this.symm
  revert htag
  cases a.purpose <;> cases b.purpose <;> decide

lemma handshake_inj {pub remotePub pub' remotePub' : FixedBytes 32}
    {nonce remoteNonce nonce' remoteNonce' : Bytes} (hn : nonce.length ≤ 65535)
    (hn' : nonce'.length ≤ 65535)
    (h : buildHandshakeTranscript pub remotePub nonce remoteNonce =
      buildHandshakeTranscript pub' remotePub' nonce' remoteNonce') :
    pub = pub' ∧ remotePub = remotePub' ∧ nonce = nonce' ∧ remoteNonce = remoteNonce' := by
  simp only [buildHandshakeTranscript, append_assoc, append_cancel_left_eq] at h
  obtain ⟨hpub, h⟩ := append_inj h (by rw [pub.2, pub'.2])
  obtain ⟨hremote, h⟩ := append_inj h (by rw [remotePub.2, remotePub'.2])
  obtain ⟨hnonce, h⟩ := prefixed_append_inj (length_leBytes 2) (leBytes_injOn 2)
    (Nat.lt_succ_of_le hn) (Nat.lt_succ_of_le hn') h
  -- the last field is what remains after a length of two bytes
  obtain ⟨-, hremoteNonce⟩ := append_inj h (by simp)
  exact ⟨Subtype.ext hpub, Subtype.ext hremote, hnonce, hremoteNonce⟩

lemma clientOffer_inj {pub pub' : FixedBytes 32} {nonce nonce' : Bytes}
    (h : buildClientOfferTranscript pub nonce = buildClientOfferTranscript pub' nonce') :
    pub = pub' ∧ nonce = nonce' := by
  simp only [buildClientOfferTranscript, append_assoc, append_cancel_left_eq] at h
  obtain ⟨hpub, h⟩ := append_inj h (by rw [pub.2, pub'.2])
  obtain ⟨-, hnonce⟩ := append_inj h (by simp)
  exact ⟨Subtype.ext hpub, hnonce⟩

lemma eq_of_bytes {a b : SignedMessage} (ha : a.InRange) (hb : b.InRange)
    (h : a.bytes = b.bytes) : a = b := by
  have hpurpose := purpose_eq_of_bytes h
  cases a with
  | handshake pub remotePub nonce remoteNonce =>
    cases b with
    | handshake pub' remotePub' nonce' remoteNonce' =>
      obtain ⟨rfl, rfl, rfl, rfl⟩ := handshake_inj ha.1 hb.1 h
      rfl
    | clientOffer | grant => cases hpurpose
  | clientOffer pub nonce =>
    cases b with
    | clientOffer pub' nonce' =>
      obtain ⟨rfl, rfl⟩ := clientOffer_inj h
      rfl
    | handshake | grant => cases hpurpose
  | grant g =>
    cases b with
    | grant g' => rw [Grant.eq_of_signingBytes hb h]
    | handshake | clientOffer => cases hpurpose

end SignedMessage

/-- The messages are injective encodings of their fields, kept apart by their tags; so a
signature that is good for one byte string only is good for one purpose and one set of fields. -/
theorem signed_messages_are_separate :
    (∀ a b : SignedMessage, a.InRange → b.InRange → a.bytes = b.bytes → a = b) ∧
    (∀ a b : SignedMessage, a.purpose ≠ b.purpose → a.bytes ≠ b.bytes) ∧
    ∀ (E : Ed25519) (made : FixedBytes 32 → Bytes → FixedBytes 64 → Prop),
      (∀ key message signature message', made key message signature →
        E.verify key message' signature = true → message' = message) →
      ∀ (key : FixedBytes 32) (signature : FixedBytes 64) (a b : SignedMessage),
        a.InRange → b.InRange → made key a.bytes signature →
        b.verifies E key signature = true → b = a := by
  refine ⟨?_, ?_, ?_⟩
  · intro a b ha hb h
    exact SignedMessage.eq_of_bytes ha hb h
  · intro a b hne h
    exact hne (SignedMessage.purpose_eq_of_bytes h)
  · intro E made hbinding key signature a b ha hb hmade hverifies
    rw [SignedMessage.verifies_eq] at hverifies
    apply SignedMessage.eq_of_bytes hb ha
    exact hbinding key a.bytes signature b.bytes hmade hverifies

def signedOnly (message : Bytes) : Ed25519 where
  validKey _ := true
  verify _ m _ := decide (m = message)

lemma verify_signedOnly_iff {message m : Bytes} {key : FixedBytes 32}
    {signature : FixedBytes 64} :
    (signedOnly message).verify key m signature = true ↔ m = message := decide_eq_true_iff

theorem offer_signature_is_only_for_that_offer :
    let offer := SignedMessage.clientOffer (.fill 32 0) [1, 2, 3]
    let E := signedOnly offer.bytes
    offer.verifies E (.fill 32 0) (.fill 64 0) = true ∧
      ∀ b : SignedMessage, b.InRange → b.verifies E (.fill 32 0) (.fill 64 0) = true →
        b = offer := by
  refine ⟨?_, ?_⟩
  · rw [SignedMessage.verifies_eq]
    simp [signedOnly]
  intro b hb hverifies
  refine signed_messages_are_separate.2.2 (signedOnly _) (fun _ message _ => message = _) ?_
    (.fill 32 0) (.fill 64 0) _ b ?_ hb rfl hverifies
  · intro key message signature message' hmade hmessage
    rw [hmade]
    exact of_decide_eq_true hmessage
  · exact Nat.le_of_ble_eq_true rfl

end Favonius.Crypto
