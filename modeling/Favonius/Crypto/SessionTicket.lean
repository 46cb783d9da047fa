import Favonius.Crypto.Protection
import Favonius.Lib.ReplayCache

/-!
# Session tickets

Tickets that the daemon seals for a later 0-RTT resume, their wire format and the
cache of tickets already used.  Times are seconds since the epoch; the clock is an
argument, one reading per call of it in the source.
-/

namespace Favonius.Crypto

open ByteCodec List

structure SessionTicket where
  /-- Nonce and ciphertext of the resume secret with its validity. -/
  encryptedData : Bytes
  issuedAt : UInt64
  lifetime : UInt32
  deriving DecidableEq, Repr

def defaultTicketTtl : UInt32 := 3600

structure TicketKey where
  encryptionKey : FixedBytes 32
  iv : FixedBytes 12
  counter : UInt64

structure TicketPayload where
  resumeSecret : FixedBytes 32
  issuedAt : UInt64
  lifetime : UInt32
  deriving DecidableEq

namespace TicketPayload

def encode (p : TicketPayload) : Bytes :=
  p.resumeSecret.1 ++ leBytes 8 p.issuedAt.toNat ++ leBytes 4 p.lifetime.toNat

def decode (plaintext : Bytes) : Option TicketPayload :=
  if h : plaintext.length < 44 then none
  else some ⟨⟨plaintext.take 32, by simp; omega⟩, UInt64.ofNat (leNat (slice plaintext 32 8)),
    UInt32.ofNat (leNat (slice plaintext 40 4))⟩

lemma decode_encode (p : TicketPayload) : decode p.encode = some p := by
  obtain ⟨⟨secret, hsecret⟩, issuedAt, lifetime⟩ := p
  have hissued := slice_eq_of_append (append_assoc secret (leBytes 8 issuedAt.toNat)
    (leBytes 4 lifetime.toNat)) hsecret (length_leBytes _ _)
  have hlifetime := slice_eq_of_append (show secret ++ leBytes 8 issuedAt.toNat ++
    leBytes 4 lifetime.toNat = (secret ++ leBytes 8 issuedAt.toNat) ++
      (leBytes 4 lifetime.toNat ++ []) by simp) (show _ = 40 by simp [hsecret])
    (length_leBytes _ _)
  have htake :
      (secret ++ leBytes 8 issuedAt.toNat ++ leBytes 4 lifetime.toNat).take 32 = secret := by
    rw [append_assoc]
    exact take_left' hsecret
  simp only [decode, encode, hissued, hlifetime, htake, ofNat_leNat_leBytes64,
    ofNat_leNat_leBytes32]
  simp [hsecret]

end TicketPayload

def ticketAad : Bytes := ascii "ahp-session-ticket"

namespace TicketKey

def issue (P : Primitives) (tk : TicketKey) (resumeSecret : FixedBytes 32) (ttl : UInt32)
    (now : UInt64) : SessionTicket × SealedRecord × TicketKey :=
  let nonce := nonceFor tk.iv tk.counter
  let record := sealPacket P tk.encryptionKey nonce ticketAad
    (TicketPayload.encode ⟨resumeSecret, now, ttl⟩)
  (⟨nonce.1 ++ record.ciphertext, now, ttl⟩, record, { tk with counter := tk.counter + 1 })

def openTicket (openFn : OpenFn) (tk : TicketKey) (encryptedData : Bytes) : Option TicketPayload :=
  if h : encryptedData.length < 12 + 16 then none
  else (openPacket openFn tk.encryptionKey ⟨encryptedData.take 12, by simp; omega⟩ ticketAad
    (encryptedData.drop 12)).bind TicketPayload.decode

/-- The sealed validity decides, not the ticket's outer fields. -/
def decrypt (openFn : OpenFn) (tk : TicketKey) (now : UInt64) (ticket : SessionTicket) :
    Except CryptoError (FixedBytes 32) :=
  match tk.openTicket openFn ticket.encryptedData with
  | none => .error .decryptionFailed
  | some p =>
    if p.issuedAt + p.lifetime.toUInt64 < now then .error .decryptionFailed
    else .ok p.resumeSecret

end TicketKey

abbrev UsedTicketCache := List (FixedBytes 16 × ℕ)

variable (sha256 : Bytes → FixedBytes 32)

def ticketId (encryptedData : Bytes) : FixedBytes 16 :=
  ⟨(sha256 encryptedData).1.take 16, by simp [(sha256 encryptedData).2]⟩

/-- How long a used ticket is remembered: its outer lifetime, at most a day. -/
def rememberUntil (now : UInt64) (ticket : SessionTicket) : ℕ :=
  min (now.toNat + min ticket.lifetime.toNat (24 * 3600)) (2 ^ 64 - 1)

def ticketUse (now : UInt64) (ticket : SessionTicket) : ReplayCache.Use (FixedBytes 16) ℕ :=
  ⟨ticketId sha256 ticket.encryptedData, now.toNat, rememberUntil now ticket⟩

/-- Evict what has expired, refuse a ticket that is known, record one that is not. -/
def checkAndRecord (now : UInt64) (ticket : SessionTicket) (used : UsedTicketCache) :
    Bool × UsedTicketCache :=
  ReplayCache.check used (ticketUse sha256 now ticket)

def encodeTicket (ticket : SessionTicket) : Bytes :=
  leBytes 4 ticket.encryptedData.length ++ ticket.encryptedData ++
    leBytes 8 ticket.issuedAt.toNat ++ leBytes 4 ticket.lifetime.toNat

@[simp] lemma length_encodeTicket (ticket : SessionTicket) :
    (encodeTicket ticket).length = 16 + ticket.encryptedData.length := by
  simp [encodeTicket]
  omega

def decodeTicket (data : Bytes) : Option SessionTicket :=
  if data.length < 16 then none else
  let dataLen := leNat (data.take 4)
  if data.length < 4 + dataLen + 12 then none else
  some ⟨slice data 4 dataLen, UInt64.ofNat (leNat (slice data (4 + dataLen) 8)),
    UInt32.ofNat (leNat (slice data (4 + dataLen + 8) 4))⟩

lemma decodeTicket_encode {ticket : SessionTicket} (h : ticket.encryptedData.length < 2 ^ 32)
    (rest : Bytes) : decodeTicket (encodeTicket ticket ++ rest) = some ticket := by
  obtain ⟨data, issuedAt, lifetime⟩ := ticket
  have hlen : leNat ((encodeTicket ⟨data, issuedAt, lifetime⟩ ++ rest).take 4) = data.length := by
    have htake : (encodeTicket ⟨data, issuedAt, lifetime⟩ ++ rest).take 4 =
        leBytes 4 data.length := by
      exact take_left' (length_leBytes _ _)
    rw [htake, leNat_leBytes_of_lt h]
  have hdata := slice_eq_of_append (show encodeTicket ⟨data, issuedAt, lifetime⟩ ++ rest =
    leBytes 4 data.length ++
      (data ++ (leBytes 8 issuedAt.toNat ++ leBytes 4 lifetime.toNat ++ rest))
      by simp [encodeTicket]) (length_leBytes _ _) rfl
  have hissued := slice_eq_of_append (show encodeTicket ⟨data, issuedAt, lifetime⟩ ++ rest =
    (leBytes 4 data.length ++ data) ++ (leBytes 8 issuedAt.toNat ++
      (leBytes 4 lifetime.toNat ++ rest)) by simp [encodeTicket])
    (show _ = 4 + data.length by simp) (length_leBytes _ _)
  have hlifetime := slice_eq_of_append (show encodeTicket ⟨data, issuedAt, lifetime⟩ ++ rest =
    (leBytes 4 data.length ++ data ++ leBytes 8 issuedAt.toNat) ++
      (leBytes 4 lifetime.toNat ++ rest)
      by simp [encodeTicket]) (show _ = 4 + data.length + 8 by simp; omega) (length_leBytes _ _)
  have htotal : (encodeTicket ⟨data, issuedAt, lifetime⟩ ++ rest).length =
      16 + data.length + rest.length := by
    simp
  rw [decodeTicket, if_neg (by omega)]
  simp only [hlen, hdata, hissued, hlifetime]
  rw [if_neg (by omega), ofNat_leNat_leBytes64, ofNat_leNat_leBytes32]

end Favonius.Crypto
