import Favonius.Lib.ByteCodec

/-!
# HELLO and HELLO_ACK payloads

The first byte of a HELLO is a flag: 0x00 plaintext, 0x01 full handshake, 0x02
resume.  A HELLO_ACK begins with the crypto mode that the daemon chose; what
follows depends on the mode.  Both formats are extended by appending.
-/

namespace Favonius.Proto

open ByteCodec

inductive HelloAckMode where
  | plaintext
  | fullHandshake
  | resumed
  deriving DecidableEq, Repr

namespace HelloAckMode

def toByte : HelloAckMode → UInt8
  | plaintext => 0x00
  | fullHandshake => 0x01
  | resumed => 0x02

def fromByte (b : UInt8) : Option HelloAckMode :=
  if b = 0x00 then some plaintext
  else if b = 0x01 then some fullHandshake
  else if b = 0x02 then some resumed
  else none

def debug : HelloAckMode → String
  | plaintext => "Plaintext"
  | fullHandshake => "FullHandshake"
  | resumed => "Resumed"

@[simp] lemma fromByte_toByte (m : HelloAckMode) : fromByte m.toByte = some m := by
  cases m <;> rfl

end HelloAckMode

def capabilityMagic : Bytes := [0xCA, 0xB1]

def capNone : UInt32 := 0

def capPerStreamPorts : UInt32 := 0b1

def capPeerAuth : UInt32 := 0b10

def capZeroRuns : UInt32 := 0b100

/-- A run of contiguous data ports; a single one is what every peer assumes. -/
def perStreamPorts (n : ℕ) : UInt32 :=
  if n ≤ 1 then capNone else capPerStreamPorts ||| (UInt32.ofNat (min n 255) <<< 8)

def dataPortCountShift : UInt32 := 8

def dataPortCountMask : UInt32 := 0xFF <<< dataPortCountShift

/-- How many contiguous data ports the peer reserved, counting the advertised one. -/
def dataPortCount (capabilities : UInt32) : ℕ :=
  if capabilities &&& capPerStreamPorts = 0 then 1
  else max ((capabilities &&& dataPortCountMask) >>> dataPortCountShift).toNat 1

def capabilityBlockLen : ℕ := 2 + 4

def helloFullDh : UInt8 := 0x01

def helloFullDhLen : ℕ := 1 + 32 + 16

def peerAuthLen : ℕ := 32 + 64

structure HelloFull where
  ephemeralPub : FixedBytes 32
  nonce : FixedBytes 16
  peerAuth : Option (FixedBytes 32 × FixedBytes 64)
  grant : Option Bytes
  deriving DecidableEq

/-- A grant goes only after auth material. -/
def encodeHelloFull (ephemeralPub : FixedBytes 32) (nonce : FixedBytes 16)
    (peerAuth : Option (FixedBytes 32 × FixedBytes 64)) (grant : Option Bytes) : Bytes :=
  [helloFullDh] ++ ephemeralPub.1 ++ nonce.1 ++
    match peerAuth with
    | none => []
    | some (identityPub, signature) => identityPub.1 ++ signature.1 ++
        match grant with
        | none => []
        | some grant => putU16 (UInt16.ofNat grant.length) ++ grant

/-- The grant behind the auth material; one that is cut short reads as absent. -/
def decodeGrant (payload : Bytes) : Option Bytes :=
  let start := helloFullDhLen + peerAuthLen + 2
  if payload.length < start then none else
  let len := beNat (slice payload (helloFullDhLen + peerAuthLen) 2)
  if start + len ≤ payload.length ∧ 0 < len then some (slice payload start len) else none

def decodeHelloFull (payload : Bytes) : Option HelloFull :=
  if h : payload.head? = some helloFullDh ∧ helloFullDhLen ≤ payload.length then
    have hlen : 49 ≤ payload.length := h.2
    some
      { ephemeralPub := fixedSlice payload 1 32 (by omega)
        nonce := fixedSlice payload 33 16 (by omega)
        peerAuth :=
          if hauth : helloFullDhLen + peerAuthLen ≤ payload.length then
            have hauth : 145 ≤ payload.length := hauth
            some (fixedSlice payload 49 32 (by omega), fixedSlice payload 81 64 (by omega))
          else none
        grant :=
          if helloFullDhLen + peerAuthLen ≤ payload.length then decodeGrant payload else none }
  else none

lemma decodeHelloFull_isSome {payload : Bytes} :
    (decodeHelloFull payload).isSome ↔
      payload.head? = some helloFullDh ∧ helloFullDhLen ≤ payload.length := by
  unfold decodeHelloFull
  split <;> simp [*]

def encodeHelloResume (ticketData : Bytes) (nonce : FixedBytes 16) : Bytes :=
  [0x02] ++ putU32 (UInt32.ofNat ticketData.length) ++ ticketData ++ nonce.1

def dhMaterialLen : ℕ := 32 + 16

def authMaterialLen : ℕ := 32 + 64

structure HelloAckPayload where
  mode : HelloAckMode
  dataPort : Option UInt16
  dhMaterial : Option (FixedBytes 32 × FixedBytes 16)
  authMaterial : Option (FixedBytes 32 × FixedBytes 64)
  resumeServerNonce : Option (FixedBytes 16)
  capabilities : UInt32
  deriving DecidableEq

/-- Capabilities are only appended behind a port. -/
def portAndCapabilities (dataPort : Option UInt16) (capabilities : UInt32) : Bytes :=
  match dataPort with
  | none => []
  | some port => putU16 port ++
      if capabilities = capNone then [] else capabilityMagic ++ putU32 capabilities

def encodeHelloAckPayload (mode : HelloAckMode) (dataPort : Option UInt16)
    (dhMaterial : Option (FixedBytes 32 × FixedBytes 16))
    (authMaterial : Option (FixedBytes 32 × FixedBytes 64)) (capabilities : UInt32) : Bytes :=
  [mode.toByte] ++ (dhMaterial.elim [] fun m => m.1.1 ++ m.2.1) ++
    (authMaterial.elim [] fun m => m.1.1 ++ m.2.1) ++ portAndCapabilities dataPort capabilities

def encodeHelloAckResumed (dataPort : Option UInt16) (serverNonce : FixedBytes 16)
    (capabilities : UInt32) : Bytes :=
  [HelloAckMode.resumed.toByte] ++ serverNonce.1 ++ portAndCapabilities dataPort capabilities

def decodePortAt (rest : Bytes) (offset : ℕ) : Option UInt16 × UInt32 :=
  (if offset + 2 ≤ rest.length then some (UInt16.ofNat (beNat (slice rest offset 2))) else none,
    if offset + 2 + capabilityBlockLen ≤ rest.length ∧
        slice rest (offset + 2) 2 = capabilityMagic then
      UInt32.ofNat (beNat (slice rest (offset + 4) 4))
    else capNone)

/-- Truncated material: the port is the tail, and no capabilities can follow. -/
def decodePortTail (rest : Bytes) : Option UInt16 :=
  if 2 ≤ rest.length then some (UInt16.ofNat (beNat (slice rest (rest.length - 2) 2))) else none

def decodeHelloAckPayload : Bytes → Option HelloAckPayload
  | [] => none
  | modeByte :: rest =>
    match HelloAckMode.fromByte modeByte with
    | none => none
    | some .fullHandshake =>
      if h : dhMaterialLen ≤ rest.length then
        have h : 48 ≤ rest.length := h
        let dh := (fixedSlice rest 0 32 (by omega), fixedSlice rest 32 16 (by omega))
        if hauth : dhMaterialLen + authMaterialLen ≤ rest.length then
          have hauth : 144 ≤ rest.length := hauth
          let auth := (fixedSlice rest 48 32 (by omega), fixedSlice rest 80 64 (by omega))
          let (port, capabilities) := decodePortAt rest (dhMaterialLen + authMaterialLen)
          some ⟨.fullHandshake, port, some dh, some auth, none, capabilities⟩
        else
          let (port, capabilities) := decodePortAt rest dhMaterialLen
          some ⟨.fullHandshake, port, some dh, none, none, capabilities⟩
      else some ⟨.fullHandshake, decodePortTail rest, none, none, none, capNone⟩
    | some .resumed =>
      if h : 16 ≤ rest.length then
        let (port, capabilities) := decodePortAt rest 16
        some ⟨.resumed, port, none, none, some (fixedSlice rest 0 16 (by omega)), capabilities⟩
      else some ⟨.resumed, decodePortTail rest, none, none, none, capNone⟩
    | some .plaintext =>
      if 2 ≤ rest.length then
        let (port, capabilities) := decodePortAt rest 0
        some ⟨.plaintext, port, none, none, none, capabilities⟩
      else some ⟨.plaintext, none, none, none, none, capNone⟩

end Favonius.Proto
