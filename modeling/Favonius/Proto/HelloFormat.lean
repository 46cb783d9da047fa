import Favonius.Proto.Hello

/-!
# The HELLO and HELLO_ACK formats

Both formats grow by appending.  What was written is read back, what follows a complete message is
ignored, and a message that is cut off lacks fields but never has others.
-/

namespace Favonius.Proto

open ByteCodec List Option
open Subtype (ext)

/-! ## HELLO -/

section HelloFull

variable (ephemeralPub : FixedBytes 32) (nonce : FixedBytes 16)

def helloFullStart : Bytes := [helloFullDh] ++ ephemeralPub.1 ++ nonce.1

lemma length_helloFullStart : (helloFullStart ephemeralPub nonce).length = helloFullDhLen := by
  simp [helloFullStart, ephemeralPub.2, nonce.2, helloFullDhLen]

def grantBytes (grant : Option Bytes) : Bytes :=
  grant.elim [] fun grant => putU16 (UInt16.ofNat grant.length) ++ grant

lemma encodeHelloFull_eq (peerAuth : Option (FixedBytes 32 × FixedBytes 64))
    (grant : Option Bytes) :
    encodeHelloFull ephemeralPub nonce peerAuth grant = helloFullStart ephemeralPub nonce ++
      peerAuth.elim [] fun auth => auth.1.1 ++ (auth.2.1 ++ grantBytes grant) := by
  cases peerAuth with
  | none => rfl
  | some auth =>
    cases grant <;> simp [encodeHelloFull, helloFullStart, grantBytes, append_assoc]

/-- A grant behind its length; one that is cut short reads as absent. -/
def readGrant (rest : Bytes) : Option Bytes :=
  if 2 + beNat (rest.take 2) ≤ rest.length ∧ 0 < beNat (rest.take 2) then
    some ((rest.drop 2).take (beNat (rest.take 2)))
  else none

lemma decodeHelloFull_short {payload : Bytes} (h : payload.length < helloFullDhLen) :
    decodeHelloFull payload = none := by
  rw [decodeHelloFull, dif_neg]
  intro hpayload
  omega

lemma decodeHelloFull_append (rest : Bytes) :
    ∃ hello, decodeHelloFull (helloFullStart ephemeralPub nonce ++ rest) = some hello ∧
      hello.ephemeralPub = ephemeralPub ∧ hello.nonce = nonce := by
  have hlen : helloFullDhLen ≤ (helloFullStart ephemeralPub nonce ++ rest).length := by
    rw [length_append, length_helloFullStart]
    omega
  rw [decodeHelloFull, dif_pos ⟨rfl, hlen⟩]
  have hpub : helloFullStart ephemeralPub nonce ++ rest =
      [helloFullDh] ++ (ephemeralPub.1 ++ (nonce.1 ++ rest)) := by
    simp only [helloFullStart, append_assoc]
  have hnonce : helloFullStart ephemeralPub nonce ++ rest =
      ([helloFullDh] ++ ephemeralPub.1) ++ (nonce.1 ++ rest) := by
    simp only [helloFullStart, append_assoc]
  have hoffset : ([helloFullDh] ++ ephemeralPub.1).length = 33 := by
    rw [length_append, ephemeralPub.2]
    rfl
  exact ⟨_, rfl, ext (slice_eq_of_append hpub rfl ephemeralPub.2),
    ext (slice_eq_of_append hnonce hoffset nonce.2)⟩

lemma decodeHelloFull_start {rest : Bytes} (h : rest.length < peerAuthLen) :
    decodeHelloFull (helloFullStart ephemeralPub nonce ++ rest) =
      some ⟨ephemeralPub, nonce, none, none⟩ := by
  have hshort : ¬ helloFullDhLen + peerAuthLen ≤
      (helloFullStart ephemeralPub nonce ++ rest).length := by
    rw [length_append, length_helloFullStart]
    omega
  obtain ⟨hello, hdecode, hpub, hnonce⟩ := decodeHelloFull_append ephemeralPub nonce rest
  rw [hdecode]
  rw [decodeHelloFull] at hdecode
  split_ifs at hdecode
  cases hdecode
  dsimp only at hpub hnonce
  rw [hpub, hnonce]

omit ephemeralPub nonce in
lemma decodeGrant_append {before : Bytes} (h : before.length = helloFullDhLen + peerAuthLen)
    (rest : Bytes) : decodeGrant (before ++ rest) = readGrant rest := by
  have hlen : slice (before ++ rest) (helloFullDhLen + peerAuthLen) 2 = rest.take 2 := by
    have hslice := slice_append_right before rest 0 2
    rwa [Nat.add_zero, h] at hslice
  have hgrant : ∀ n, slice (before ++ rest) (helloFullDhLen + peerAuthLen + 2) n =
      (rest.drop 2).take n := by
    intro n
    rw [← h]
    exact slice_append_right before rest 2 n
  rw [decodeGrant, readGrant, hlen]
  dsimp only
  rw [hgrant, length_append, h]
  split_ifs with hshort hfits
  · omega
  · rfl
  · rfl
  · omega
  · omega
  · rfl

lemma decodeHelloFull_auth (identityPub : FixedBytes 32) (signature : FixedBytes 64)
    (rest : Bytes) :
    decodeHelloFull
        (helloFullStart ephemeralPub nonce ++ (identityPub.1 ++ (signature.1 ++ rest))) =
      some ⟨ephemeralPub, nonce, some (identityPub, signature), readGrant rest⟩ := by
  have hbefore : (helloFullStart ephemeralPub nonce ++ identityPub.1 ++ signature.1).length =
      helloFullDhLen + peerAuthLen := by
    rw [length_append, length_append, length_helloFullStart, identityPub.2, signature.2]
    rfl
  have hassoc : helloFullStart ephemeralPub nonce ++ (identityPub.1 ++ (signature.1 ++ rest)) =
      helloFullStart ephemeralPub nonce ++ identityPub.1 ++ signature.1 ++ rest := by
    simp only [append_assoc]
  have hlong : helloFullDhLen + peerAuthLen ≤
      (helloFullStart ephemeralPub nonce ++ (identityPub.1 ++ (signature.1 ++ rest))).length := by
    rw [hassoc, length_append, hbefore]
    omega
  have hgrant := decodeGrant_append hbefore rest
  rw [← hassoc] at hgrant
  obtain ⟨hello, hdecode, hpub, hnonce⟩ :=
    decodeHelloFull_append ephemeralPub nonce (identityPub.1 ++ (signature.1 ++ rest))
  rw [hdecode]
  rw [decodeHelloFull] at hdecode
  split_ifs at hdecode
  cases hdecode
  dsimp only at hpub hnonce
  have hidentity : fixedSlice (helloFullStart ephemeralPub nonce ++
      (identityPub.1 ++ (signature.1 ++ rest))) 49 32 (le_trans (by decide) hlong) = identityPub :=
    ext (slice_eq_of_append rfl (length_helloFullStart ephemeralPub nonce) identityPub.2)
  have hsignature : fixedSlice (helloFullStart ephemeralPub nonce ++
      (identityPub.1 ++ (signature.1 ++ rest))) 81 64 (le_trans (by decide) hlong) = signature := by
    have hoffset : (helloFullStart ephemeralPub nonce ++ identityPub.1).length = 81 := by
      rw [length_append, length_helloFullStart, identityPub.2]
      rfl
    exact ext (slice_eq_of_append (append_assoc _ _ _).symm hoffset signature.2)
  rw [hpub, hnonce, hgrant]
  exact congrArg (fun auth => some (⟨ephemeralPub, nonce, some auth, readGrant rest⟩ : HelloFull))
    (Prod.ext hidentity hsignature)

omit ephemeralPub nonce in
lemma readGrant_append {grant : Bytes} (hpos : 0 < grant.length) (hlen : grant.length < 65536)
    (trailing : Bytes) :
    readGrant (putU16 (UInt16.ofNat grant.length) ++ grant ++ trailing) = some grant := by
  have htake : beNat ((putU16 (UInt16.ofNat grant.length) ++ grant ++ trailing).take 2) =
      grant.length := by
    rw [append_assoc, take_left' (length_putU16 _), putU16,
      UInt16.toNat_ofNat_of_lt' hlen, beNat_beBytes_of_lt hlen]
  rw [readGrant, htake, if_pos]
  · rw [append_assoc, drop_left' (length_putU16 _), take_left]
  · refine ⟨?_, hpos⟩
    simp only [length_append, length_putU16]
    omega

omit ephemeralPub nonce in
lemma readGrant_take {grant : Bytes} (hlen : grant.length < 65536) (k : ℕ) :
    readGrant ((putU16 (UInt16.ofNat grant.length) ++ grant).take k) = none ∨
      readGrant ((putU16 (UInt16.ofNat grant.length) ++ grant).take k) = some grant := by
  by_cases hall : 2 + grant.length ≤ k
  · have hlength : (putU16 (UInt16.ofNat grant.length) ++ grant).length ≤ k := by
      rwa [length_append, length_putU16]
    rw [take_of_length_le hlength]
    by_cases hpos : 0 < grant.length
    · right
      have hread := readGrant_append hpos hlen []
      rwa [append_nil] at hread
    · left
      obtain rfl : grant = [] := length_eq_zero_iff.mp (Nat.eq_zero_of_not_pos hpos)
      decide
  · left
    rw [readGrant, if_neg]
    rintro ⟨hfits, -⟩
    have hk : 2 ≤ k := by
      rw [length_take] at hfits
      omega
    rw [take_take, Nat.min_eq_left hk, take_left' (length_putU16 _), putU16,
      UInt16.toNat_ofNat_of_lt' hlen, beNat_beBytes_of_lt hlen, length_take] at hfits
    omega

/-- What a full HELLO says, exactly as it was encoded, without what a later version appends and
with nothing in the place of what is cut off. -/
structure HelloFullFormat (peerAuth : Option (FixedBytes 32 × FixedBytes 64))
    (grant : Option Bytes) : Prop where
  round_trip : decodeHelloFull (encodeHelloFull ephemeralPub nonce peerAuth grant) =
    some ⟨ephemeralPub, nonce, peerAuth, peerAuth.bind fun _ => grant⟩
  start : (encodeHelloFull ephemeralPub nonce peerAuth grant).take 49 =
    (encodeHelloFull ephemeralPub nonce none none)
  trailing : peerAuth.isSome → grant.isSome → ∀ more,
    decodeHelloFull (encodeHelloFull ephemeralPub nonce peerAuth grant ++ more) =
      some ⟨ephemeralPub, nonce, peerAuth, grant⟩
  cut : ∀ k hello, decodeHelloFull
      ((encodeHelloFull ephemeralPub nonce peerAuth grant).take k) = some hello →
    (hello.peerAuth = none ∨ hello.peerAuth = peerAuth) ∧
      (hello.grant = none ∨ hello.grant = peerAuth.bind fun _ => grant)

variable {grant : Option Bytes}
  (hgrant : ∀ g, grant = some g → 1 ≤ g.length ∧ g.length ≤ 65535)

omit ephemeralPub nonce in
include hgrant in
lemma readGrant_grantBytes : readGrant (grantBytes grant) = grant := by
  cases grant with
  | none => rfl
  | some g =>
    obtain ⟨hpos, hlen⟩ := hgrant g rfl
    have hread := readGrant_append hpos (Nat.lt_succ_of_le hlen) []
    rwa [append_nil] at hread

omit ephemeralPub nonce in
include hgrant in
lemma readGrant_take_grantBytes (k : ℕ) :
    readGrant ((grantBytes grant).take k) = none ∨
      readGrant ((grantBytes grant).take k) = grant := by
  cases grant with
  | none =>
    left
    rw [grantBytes, elim_none, take_nil]
    rfl
  | some g => exact readGrant_take (Nat.lt_succ_of_le (hgrant g rfl).2) k

include hgrant in
lemma cut_of_auth (auth : FixedBytes 32 × FixedBytes 64) {k : ℕ} {hello : HelloFull}
    (h : decodeHelloFull (helloFullStart ephemeralPub nonce ++
      (auth.1.1 ++ (auth.2.1 ++ grantBytes grant)).take k) = some hello) :
    (hello.peerAuth = none ∨ hello.peerAuth = some auth) ∧
      (hello.grant = none ∨ hello.grant = grant) := by
  by_cases hlong : peerAuthLen ≤ k
  · have hk : 96 ≤ k := hlong
    have htake : (auth.1.1 ++ (auth.2.1 ++ grantBytes grant)).take k =
        auth.1.1 ++ (auth.2.1 ++ (grantBytes grant).take (k - 32 - 64)) := by
      rw [take_append, take_append, auth.1.2, auth.2.2, take_of_length_le (by rw [auth.1.2]; omega),
        take_of_length_le (by rw [auth.2.2]; omega)]
    have hread := readGrant_take_grantBytes hgrant (k - 32 - 64)
    rw [htake, decodeHelloFull_auth, some.injEq] at h
    rw [← h]
    dsimp only
    exact ⟨.inr rfl, hread⟩
  · have hshort := length_take_le k (auth.1.1 ++ (auth.2.1 ++ grantBytes grant))
    rw [decodeHelloFull_start _ _ (hshort.trans_lt (not_le.mp hlong)), some.injEq] at h
    rw [← h]
    exact ⟨.inl rfl, .inl rfl⟩

include hgrant in
/-- A full HELLO with any grant that its length field can hold is read back, also with bytes after
it; cut short it gives no other identity or grant. -/
theorem hello_full_format (peerAuth : Option (FixedBytes 32 × FixedBytes 64)) :
    HelloFullFormat ephemeralPub nonce peerAuth grant where
  round_trip := by
    rw [encodeHelloFull_eq]
    cases peerAuth with
    | none => exact decodeHelloFull_start ephemeralPub nonce (Nat.succ_pos 95)
    | some auth =>
      have hdecode := decodeHelloFull_auth ephemeralPub nonce auth.1 auth.2 (grantBytes grant)
      rw [readGrant_grantBytes hgrant] at hdecode
      exact hdecode
  start := by
    rw [encodeHelloFull_eq, encodeHelloFull_eq, elim_none, append_nil]
    exact take_left' (length_helloFullStart ephemeralPub nonce)
  trailing hauth hsome more := by
    obtain ⟨auth, rfl⟩ := isSome_iff_exists.mp hauth
    obtain ⟨g, rfl⟩ := isSome_iff_exists.mp hsome
    obtain ⟨hpos, hlen⟩ := hgrant g rfl
    have hdecode := decodeHelloFull_auth ephemeralPub nonce auth.1 auth.2
      (putU16 (UInt16.ofNat g.length) ++ g ++ more)
    rw [readGrant_append hpos (Nat.lt_succ_of_le hlen)] at hdecode
    rw [encodeHelloFull_eq, append_assoc, elim_some, append_assoc, append_assoc]
    exact hdecode
  cut k hello h := by
    rw [encodeHelloFull_eq] at h
    by_cases hlong : helloFullDhLen ≤ k
    · rw [take_append, length_helloFullStart, take_of_length_le
        (by rw [length_helloFullStart]; exact hlong)] at h
      cases peerAuth with
      | none =>
        rw [elim_none, take_nil, decodeHelloFull_start _ _ (by decide)] at h
        cases h
        exact ⟨.inl rfl, .inl rfl⟩
      | some auth => exact cut_of_auth ephemeralPub nonce hgrant auth h
    · rw [decodeHelloFull_short] at h
      · cases h
      · exact (length_take_le _ _).trans_lt (not_le.mp hlong)

end HelloFull

theorem hello_full_format_grant :
    HelloFullFormat (.fill 32 1) (.fill 16 2) (some (.fill 32 3, .fill 64 4))
      (some [5, 6, 7]) := by
  apply hello_full_format
  rintro g hg
  cases hg
  decide

/-! ## HELLO_ACK -/

section HelloAck

lemma decodePortAt_append {before : Bytes} {offset : ℕ} (h : before.length = offset)
    (tail : Bytes) : decodePortAt (before ++ tail) offset = decodePortAt tail 0 := by
  have hslice : ∀ n len, slice (before ++ tail) (offset + n) len = slice tail n len := by
    intro n len
    rw [← h]
    exact slice_append_right before tail n len
  have hlen : ∀ n, offset + n ≤ (before ++ tail).length ↔ 0 + n ≤ tail.length := by
    intro n
    rw [length_append]
    omega
  have hport : slice (before ++ tail) offset 2 = slice tail 0 2 := hslice 0 2
  simp only [decodePortAt, Nat.add_assoc, hslice, hlen, hport, Nat.zero_add]

variable (dataPort : Option UInt16)

lemma decodePortAt_portAndCapabilities (capabilities : UInt32) :
    decodePortAt (portAndCapabilities dataPort capabilities) 0 =
      (dataPort, if dataPort.isSome then capabilities else capNone) := by
  cases dataPort with
  | none => rfl
  | some port =>
    have hport : ∀ rest, UInt16.ofNat (beNat (slice (putU16 port ++ rest) 0 2)) = port :=
      fun rest => congrArg Prod.fst (getU16_put port rest)
    by_cases hnone : capabilities = capNone
    · have hbytes : portAndCapabilities (some port) capabilities = putU16 port ++ [] := by
        rw [portAndCapabilities, if_pos hnone]
      rw [hbytes, decodePortAt, hport, hnone]
      simp [capabilityBlockLen]
    · have hbytes : portAndCapabilities (some port) capabilities =
          putU16 port ++ (capabilityMagic ++ putU32 capabilities) := by
        rw [portAndCapabilities, if_neg hnone]
      have hmagic : slice (putU16 port ++ (capabilityMagic ++ putU32 capabilities)) (0 + 2) 2 =
          capabilityMagic := slice_eq_of_append rfl (length_putU16 port) rfl
      have hbits : slice (putU16 port ++ (capabilityMagic ++ putU32 capabilities)) (0 + 4) 4 =
          putU32 capabilities := by
        have hslice := slice_append_right (putU16 port ++ capabilityMagic)
          (putU32 capabilities) 0 4
        exact hslice.trans (take_of_length_le (length_putU32 capabilities).le)
      have hword : UInt32.ofNat (beNat (putU32 capabilities)) = capabilities := by
        have hget := congrArg Prod.fst (getU32_put capabilities [])
        rwa [append_nil, getU32, take_of_length_le (length_putU32 capabilities).le] at hget
      rw [hbytes, decodePortAt, hport, hmagic, hbits, hword]
      simp [capabilityBlockLen, capabilityMagic]

lemma length_portAndCapabilities_le (capabilities : UInt32) :
    (portAndCapabilities dataPort capabilities).length ≤ 8 := by
  unfold portAndCapabilities
  cases dataPort with
  | none => exact Nat.zero_le _
  | some port =>
    split_ifs
    · simp
    · simp [capabilityMagic]

inductive AckMaterial where
  | plaintext
  | fullHandshake (dh : FixedBytes 32 × FixedBytes 16)
      (auth : Option (FixedBytes 32 × FixedBytes 64))
  | resumed (serverNonce : FixedBytes 16)
  deriving DecidableEq

namespace AckMaterial

def encode (m : AckMaterial) (dataPort : Option UInt16) (capabilities : UInt32) : Bytes :=
  match m with
  | plaintext => encodeHelloAckPayload .plaintext dataPort none none capabilities
  | fullHandshake dh auth =>
    encodeHelloAckPayload .fullHandshake dataPort (some dh) auth capabilities
  | resumed serverNonce => encodeHelloAckResumed dataPort serverNonce capabilities

def read (m : AckMaterial) (dataPort : Option UInt16) (capabilities : UInt32) : HelloAckPayload :=
  match m with
  | plaintext => ⟨.plaintext, dataPort, none, none, none, capabilities⟩
  | fullHandshake dh auth => ⟨.fullHandshake, dataPort, some dh, auth, none, capabilities⟩
  | resumed serverNonce => ⟨.resumed, dataPort, none, none, some serverNonce, capabilities⟩

/-! The decoder by mode, with the bytes behind the mode's material. -/

section Modes

variable {tail : Bytes} {port : Option UInt16} {bits : UInt32}

lemma decode_resumed (serverNonce : FixedBytes 16) (hport : decodePortAt tail 0 = (port, bits)) :
    decodeHelloAckPayload (HelloAckMode.resumed.toByte :: (serverNonce.1 ++ tail)) =
      some ((resumed serverNonce).read port bits) := by
  have hlen : 16 ≤ (serverNonce.1 ++ tail).length := by
    rw [length_append, serverNonce.2]
    omega
  have hnonce : fixedSlice (serverNonce.1 ++ tail) 0 16 (by omega) = serverNonce :=
    ext (slice_eq_of_append (nil_append _).symm rfl serverNonce.2)
  refine (dif_pos hlen).trans ?_
  rw [hnonce, decodePortAt_append serverNonce.2, hport]
  rfl

variable (dh : FixedBytes 32 × FixedBytes 16)

lemma fixedSlice_dh {rest : Bytes} (h : 48 ≤ (dh.1.1 ++ (dh.2.1 ++ rest)).length) :
    (fixedSlice (dh.1.1 ++ (dh.2.1 ++ rest)) 0 32 (by omega),
      fixedSlice (dh.1.1 ++ (dh.2.1 ++ rest)) 32 16 (by omega)) = dh := by
  apply Prod.ext
  · exact ext (slice_eq_of_append (nil_append _).symm rfl dh.1.2)
  · exact ext (slice_eq_of_append rfl dh.1.2 dh.2.2)

lemma length_dh : (dh.1.1 ++ dh.2.1).length = 48 := by
  rw [length_append, dh.1.2, dh.2.2]

lemma decode_dh (htail : tail.length ≤ 8) (hport : decodePortAt tail 0 = (port, bits)) :
    decodeHelloAckPayload (HelloAckMode.fullHandshake.toByte :: (dh.1.1 ++ (dh.2.1 ++ tail))) =
      some ((fullHandshake dh none).read port bits) := by
  have hlen : (dh.1.1 ++ (dh.2.1 ++ tail)).length = 48 + tail.length := by
    rw [← append_assoc, length_append, length_dh]
  have htailPort := decodePortAt_append (length_dh dh) tail
  rw [append_assoc, hport] at htailPort
  refine (dif_pos (show 48 ≤ _ by omega)).trans ((dif_neg (show ¬144 ≤ _ by omega)).trans ?_)
  rw [show decodePortAt _ dhMaterialLen = _ from htailPort, fixedSlice_dh]
  rfl

lemma decode_auth (auth : FixedBytes 32 × FixedBytes 64)
    (hport : decodePortAt tail 0 = (port, bits)) :
    decodeHelloAckPayload (HelloAckMode.fullHandshake.toByte ::
        (dh.1.1 ++ (dh.2.1 ++ (auth.1.1 ++ (auth.2.1 ++ tail))))) =
      some ((fullHandshake dh (some auth)).read port bits) := by
  have hbefore : (dh.1.1 ++ dh.2.1 ++ auth.1.1).length = 80 := by
    rw [length_append, length_dh, auth.1.2]
  have hmaterial : (dh.1.1 ++ dh.2.1 ++ auth.1.1 ++ auth.2.1).length = 144 := by
    rw [length_append, hbefore, auth.2.2]
  have htailPort := decodePortAt_append hmaterial tail
  have hsplit : dh.1.1 ++ (dh.2.1 ++ (auth.1.1 ++ (auth.2.1 ++ tail))) =
      dh.1.1 ++ dh.2.1 ++ auth.1.1 ++ (auth.2.1 ++ tail) := by
    simp only [append_assoc]
  have hlen : 144 ≤ (dh.1.1 ++ (dh.2.1 ++ (auth.1.1 ++ (auth.2.1 ++ tail)))).length := by
    rw [hsplit, ← append_assoc, length_append, hmaterial]
    omega
  rw [append_assoc, ← hsplit, hport] at htailPort
  have hauth :
      (fixedSlice (dh.1.1 ++ (dh.2.1 ++ (auth.1.1 ++ (auth.2.1 ++ tail)))) 48 32 (by omega),
      fixedSlice (dh.1.1 ++ (dh.2.1 ++ (auth.1.1 ++ (auth.2.1 ++ tail)))) 80 64 (by omega)) =
        auth := by
    apply Prod.ext
    · exact ext (slice_eq_of_append (append_assoc _ _ _).symm (length_dh dh) auth.1.2)
    · exact ext (slice_eq_of_append hsplit hbefore auth.2.2)
  have hdh : 48 ≤ (dh.1.1 ++ (dh.2.1 ++ (auth.1.1 ++ (auth.2.1 ++ tail)))).length := by omega
  refine (dif_pos hdh).trans ((dif_pos hlen).trans ?_)
  rw [show decodePortAt _ (dhMaterialLen + authMaterialLen) = _ from htailPort, fixedSlice_dh]
  dsimp only
  rw [hauth]
  rfl

end Modes

lemma decode_encode (m : AckMaterial) (dataPort : Option UInt16) (capabilities : UInt32) :
    decodeHelloAckPayload (m.encode dataPort capabilities) =
      some (m.read dataPort (if dataPort.isSome then capabilities else capNone)) := by
  have hport := decodePortAt_portAndCapabilities dataPort capabilities
  cases m with
  | plaintext =>
    change (if 2 ≤ (portAndCapabilities dataPort capabilities).length then
        some (⟨.plaintext, (decodePortAt (portAndCapabilities dataPort capabilities) 0).1, none,
          none, none, (decodePortAt (portAndCapabilities dataPort capabilities) 0).2⟩ :
            HelloAckPayload)
      else some ⟨.plaintext, none, none, none, none, capNone⟩) = _
    rw [hport]
    by_cases hlen : 2 ≤ (portAndCapabilities dataPort capabilities).length
    · rw [if_pos hlen]
      rfl
    · cases dataPort with
      | none => rfl
      | some port => simp [portAndCapabilities] at hlen
  | fullHandshake dh auth =>
    cases auth with
    | none =>
      simpa [encode, encodeHelloAckPayload] using
        decode_dh dh (length_portAndCapabilities_le dataPort capabilities) hport
    | some auth => simpa [encode, encodeHelloAckPayload] using decode_auth dh auth hport
  | resumed serverNonce => exact decode_resumed serverNonce hport

lemma read_injective {m m' : AckMaterial} {port port' : Option UInt16} {bits bits' : UInt32}
    (h : m.read port bits = m'.read port' bits') : m = m' ∧ port = port' ∧ bits = bits' := by
  cases m <;> cases m' <;> simp_all [read]

end AckMaterial

/-- Every payload that a mode's encoder makes is read as it was meant, no two of them are the same
bytes, and a capability block changes nothing else. -/
theorem hello_ack_format (m : AckMaterial) (dataPort : Option UInt16) (capabilities : UInt32) :
    decodeHelloAckPayload (m.encode dataPort capabilities) =
        some (m.read dataPort (if dataPort.isSome then capabilities else capNone)) ∧
      (∀ m' dataPort' capabilities',
        m.encode dataPort capabilities = m'.encode dataPort' capabilities' →
          m = m' ∧ dataPort = dataPort' ∧ (dataPort.isSome → capabilities = capabilities')) ∧
      (decodeHelloAckPayload (m.encode dataPort capabilities)).map
          (fun ack => { ack with capabilities := capNone }) =
        decodeHelloAckPayload (m.encode dataPort capNone) := by
  refine ⟨m.decode_encode dataPort capabilities, ?_, ?_⟩
  · intro m' dataPort' capabilities' h
    have hread := congrArg decodeHelloAckPayload h
    rw [AckMaterial.decode_encode, AckMaterial.decode_encode, some.injEq] at hread
    obtain ⟨rfl, rfl, hbits⟩ := AckMaterial.read_injective hread
    refine ⟨rfl, rfl, ?_⟩
    intro hport
    rwa [if_pos hport, if_pos hport] at hbits
  · rw [AckMaterial.decode_encode, AckMaterial.decode_encode, ite_self]
    cases m <;> rfl

end HelloAck

end Favonius.Proto
