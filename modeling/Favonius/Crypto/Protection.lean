import Favonius.Crypto.Keys
import Favonius.Lib.IdealAead
import Favonius.Proto.Packet

/-!
# Packet protection

AES-256-GCM sealing of data and control packets and AES-128 header protection.
The ciphers, HKDF, CRC32C and zstd are third-party code: `Primitives` has them
as functions, with the facts about them that the transfer relies on.
-/

namespace Favonius.Crypto

open ByteCodec IdealAead Proto List

structure Primitives where
  crc32c : Bytes → UInt32
  hkdf : Hkdf
  aes256Gcm : FixedBytes 32 → FixedBytes 12 → Bytes → Bytes → Bytes
  aes256Gcm_injective : ∀ key nonce aad, Function.Injective (aes256Gcm key nonce aad)
  length_aes256Gcm : ∀ key nonce aad pt, (aes256Gcm key nonce aad pt).length = pt.length + 16
  aes128 : FixedBytes 16 → FixedBytes 16 → FixedBytes 16
  zstdCompress : Bytes → Option Bytes
  zstdDecompress : Bytes → ℕ → Option Bytes
  zstdDecompress_compress : ∀ {data frame : Bytes} {maxSize : ℕ},
    zstdCompress data = some frame → data.length ≤ maxSize →
      zstdDecompress frame maxSize = some data

/-- Primitives that hide nothing: the tag is the nonce, a key is its label, zstd is the
identity. -/
def nullPrimitives : Primitives where
  crc32c _ := 0
  hkdf _ _ info len := ⟨(info ++ List.replicate len 0).take len, by simp⟩
  aes256Gcm _ nonce _ plaintext := plaintext ++ (nonce.1 ++ [0, 0, 0, 0])
  aes256Gcm_injective _ _ _ _ _ h := append_cancel_right h
  length_aes256Gcm _ nonce _ _ := by simp [nonce.2]
  aes128 _ block := block
  zstdCompress data := some data
  zstdDecompress frame maxSize := if frame.length ≤ maxSize then some frame else none
  zstdDecompress_compress h hle := by
    cases h
    exact if_pos hle

abbrev SealedRecord := Sealed (FixedBytes 32) (FixedBytes 12) Bytes Bytes Bytes

/-- How an endpoint opens ciphertexts: key, nonce, associated data, ciphertext. -/
abbrev OpenFn := FixedBytes 32 → FixedBytes 12 → Bytes → Bytes → Option Bytes

def sealPacket (P : Primitives) (key : FixedBytes 32) (nonce : FixedBytes 12)
    (aad plaintext : Bytes) : SealedRecord :=
  ⟨key, nonce, aad, plaintext, P.aes256Gcm key nonce aad plaintext⟩

lemma sealPacket_genuine (P : Primitives) (key : FixedBytes 32) (nonce : FixedBytes 12)
    (aad plaintext : Bytes) : (sealPacket P key nonce aad plaintext).Genuine P.aes256Gcm :=
  rfl

/-- `Aes256GcmProtector` decryption: anything shorter than a tag is refused. -/
def openPacket (openFn : OpenFn) (key : FixedBytes 32) (nonce : FixedBytes 12)
    (aad ciphertext : Bytes) : Option Bytes :=
  if ciphertext.length < 16 then none else openFn key nonce aad ciphertext

variable {openFn : OpenFn} {aad ciphertext pt : Bytes}

lemma openFn_of_openPacket {key : FixedBytes 32} {nonce : FixedBytes 12}
    (h : openPacket openFn key nonce aad ciphertext = some pt) :
    openFn key nonce aad ciphertext = some pt := by
  unfold openPacket at h
  split at h
  · cases h
  · exact h

def controlTagLen : ℕ := 16

def sealControl (P : Primitives) (keys : SessionKeys) (packetNumber : UInt64)
    (aad plaintext : Bytes) : SealedRecord :=
  sealPacket P keys.controlKey (nonceFor keys.controlIv packetNumber) aad plaintext

/-- Try the current epoch's control keys, then the previous epoch's. -/
def unsealControl (openFn : OpenFn) (current : SessionKeys) (previous : Option SessionKeys)
    (packetNumber : UInt64) (aad ciphertext : Bytes) : Option Bytes :=
  ((some current).toList ++ previous.toList).findSome? fun keys =>
    openPacket openFn keys.controlKey (nonceFor keys.controlIv packetNumber) aad ciphertext

lemma unsealControl_eq_some {current : SessionKeys} {previous : Option SessionKeys}
    {packetNumber : UInt64}
    (h : unsealControl openFn current previous packetNumber aad ciphertext = some pt) :
    ∃ keys, (keys = current ∨ previous = some keys) ∧
      openFn keys.controlKey (nonceFor keys.controlIv packetNumber) aad ciphertext = some pt := by
  obtain ⟨keys, hmem, hopen⟩ := exists_of_findSome?_eq_some h
  refine ⟨keys, ?_, openFn_of_openPacket hopen⟩
  rcases mem_append.mp hmem with hcur | hprev
  · left
    simpa using hcur
  · right
    simpa using hprev

/-- The first 16 bytes after the header, padded with zeros. -/
def extractSample (buf : Bytes) (payloadStart : ℕ) : FixedBytes 16 :=
  ⟨((buf.drop payloadStart).take 16 ++ List.replicate 16 0).take 16, by simp⟩

variable (aes128 : FixedBytes 16 → FixedBytes 16 → FixedBytes 16)

/-- XOR the mask over the connection id (bytes 6..14) and the packet number
(bytes 18..26). -/
def protect (key : FixedBytes 16) (buf : Bytes) (payloadStart : ℕ) : Bytes :=
  if buf.length < 42 then buf else
  let mask := aes128 key (extractSample buf payloadStart)
  buf.take 6 ++ xorBytes (slice buf 6 8) (mask.1.take 8) ++ slice buf 14 4 ++
    xorBytes (slice buf 18 8) (mask.1.drop 8) ++ buf.drop 26

def unprotect (key : FixedBytes 16) (buf : Bytes) (payloadStart : ℕ) : Bytes :=
  protect aes128 key buf payloadStart

variable (key : FixedBytes 16) {buf : Bytes}

@[simp] lemma length_xorBytes (xs ys : Bytes) :
    (xorBytes xs ys).length = min xs.length ys.length := by
  simp [xorBytes]

lemma eq_append_masked_fields (buf : Bytes) :
    buf = buf.take 6 ++ (slice buf 6 8 ++ (slice buf 14 4 ++ (slice buf 18 8 ++ buf.drop 26))) := by
  have hcut (start len : ℕ) : slice buf start len ++ buf.drop (start + len) = buf.drop start := by
    rw [slice, ← drop_drop, take_append_drop]
  rw [hcut 18 8, hcut 14 4, hcut 6 8, take_append_drop]

lemma protect_of_length (h : 42 ≤ buf.length) (payloadStart : ℕ) :
    protect aes128 key buf payloadStart =
      buf.take 6 ++
        (xorBytes (slice buf 6 8) ((aes128 key (extractSample buf payloadStart)).1.take 8) ++
        (slice buf 14 4 ++ (xorBytes (slice buf 18 8)
          ((aes128 key (extractSample buf payloadStart)).1.drop 8) ++ buf.drop 26))) := by
  rw [protect, if_neg (by omega)]
  simp only [append_assoc]

section Unmasked

variable (h : 42 ≤ buf.length) (payloadStart : ℕ)
include h

lemma take_protect : (protect aes128 key buf payloadStart).take 6 = buf.take 6 := by
  rw [protect_of_length aes128 key h]
  exact take_left' (by simp; omega)

lemma drop_protect : (protect aes128 key buf payloadStart).drop 26 = buf.drop 26 := by
  have hmask := (aes128 key (extractSample buf payloadStart)).2
  rw [protect_of_length aes128 key h]
  simp only [← append_assoc]
  exact drop_left' (by simp [slice, hmask]; omega)

lemma slice_protect :
    slice (protect aes128 key buf payloadStart) 14 4 = slice buf 14 4 := by
  have hmask := (aes128 key (extractSample buf payloadStart)).2
  rw [protect_of_length aes128 key h, ← append_assoc]
  rw [slice, drop_left' (by simp [slice, hmask]; omega)]
  exact take_left' (by simp [slice]; omega)

lemma length_protect : (protect aes128 key buf payloadStart).length = buf.length := by
  have hmask := (aes128 key (extractSample buf payloadStart)).2
  rw [protect_of_length aes128 key h]
  simp [slice, hmask]
  omega

end Unmasked

lemma extractSample_protect (h : 42 ≤ buf.length) :
    extractSample (protect aes128 key buf headerSize) headerSize =
      extractSample buf headerSize := by
  have hdrop := congrArg (List.drop 16) (drop_protect aes128 key h headerSize)
  simp only [drop_drop] at hdrop
  apply Subtype.ext
  simp only [extractSample, headerSize] at hdrop ⊢
  rw [hdrop]

lemma unprotect_protect (h : 42 ≤ buf.length) :
    unprotect aes128 key (protect aes128 key buf headerSize) headerSize = buf := by
  have hmask := (aes128 key (extractSample buf headerSize)).2
  have hconn : slice (protect aes128 key buf headerSize) 6 8 =
      xorBytes (slice buf 6 8) ((aes128 key (extractSample buf headerSize)).1.take 8) := by
    rw [protect_of_length aes128 key h, slice, drop_left' (by simp; omega)]
    exact take_left' (by simp [slice, hmask]; omega)
  have hnum : slice (protect aes128 key buf headerSize) 18 8 =
      xorBytes (slice buf 18 8) ((aes128 key (extractSample buf headerSize)).1.drop 8) := by
    rw [protect_of_length aes128 key h, ← append_assoc, ← append_assoc, slice,
      drop_left' (by simp [slice, hmask]; omega)]
    exact take_left' (by simp [slice, hmask]; omega)
  have hlen := length_protect aes128 key h headerSize
  rw [unprotect, protect_of_length aes128 key (by omega),
    extractSample_protect aes128 key h, hconn, hnum, take_protect aes128 key h _,
    drop_protect aes128 key h _, slice_protect aes128 key h _,
    xorBytes_xorBytes (by simp [slice, hmask]; omega),
    xorBytes_xorBytes (by simp [slice, hmask]; omega)]
  exact (eq_append_masked_fields buf).symm

lemma decodeDataInline_protect (h : 42 ≤ buf.length) (payloadStart : ℕ) :
    decodeDataInline (protect aes128 key buf payloadStart) = decodeDataInline buf := by
  have hlen := length_protect aes128 key h payloadStart
  have htake := take_protect aes128 key h payloadStart
  have hdrop := drop_protect aes128 key h payloadStart
  have hslice := slice_protect aes128 key h payloadStart
  generalize protect aes128 key buf payloadStart = masked at hlen htake hdrop hslice ⊢
  have htype : masked.getD 1 0 = buf.getD 1 0 := by
    have hget := congrArg (fun l => l.getD 1 0) htake
    simpa [getD_eq_getElem?_getD] using hget
  have hstream : (getU32 (masked.drop 14)).1 = (getU32 (buf.drop 14)).1 :=
    congrArg (fun l => UInt32.ofNat (beNat l)) hslice
  have hafter (n : ℕ) : masked.drop (26 + n) = buf.drop (26 + n) := by
    rw [← drop_drop, hdrop, drop_drop]
  have hpayload : masked.drop headerSize = buf.drop headerSize := hafter 16
  have hdata : masked.drop (headerSize + dataPayloadHeaderSize) =
      buf.drop (headerSize + dataPayloadHeaderSize) := hafter 38
  simp only [decodeDataInline, slice, hlen, htype, hstream, hpayload, hdata]

end Favonius.Crypto
