import Favonius.Lib.ByteCodec

/-!
# The fixed AHP common header

Packet types, flags and the 42-byte header every packet begins with, as
`ahp-proto` encodes and decodes them.  CRC32C comes from a third-party crate
and is a parameter throughout.
-/

namespace Favonius.Proto

open ByteCodec List

def headerSize : ℕ := 42

def protocolVersion : UInt8 := 1

inductive ProtoError where
  | bufferTooShort (need avail : ℕ)
  | invalidPacketType (value : UInt8)
  | crcMismatch (expected computed : UInt32)
  | unsupportedVersion (version : UInt8)
  | invalidHeaderLength (value minimum : UInt16)
  | payloadOverflow (declared : UInt32) (available : ℕ)
  | invalidExtension (message : String)
  | invalidDataPayload (message : String)
  deriving DecidableEq, Repr

inductive PacketType where
  | hello | helloAck | caps | auth | authAck | pathProbe | pathProbeAck | manifest
  | checkpoint | resumeReq | resumeAck | finish | error | keepalive | keyUpdate
  | data | ackBitmap | nackRange | rateHint | windowUpdate | chunkCommit | chunkRepair
  | syncAnnounce | regionMap | deltaMap | conflict | watermark | liveCommit
  | rendezvous | relayAssign | relayForward | relayHeartbeat
  deriving DecidableEq, Repr

namespace PacketType

def toByte : PacketType → UInt8
  | hello => 0x01 | helloAck => 0x02 | caps => 0x03 | auth => 0x04 | authAck => 0x05
  | pathProbe => 0x06 | pathProbeAck => 0x07 | manifest => 0x08 | checkpoint => 0x09
  | resumeReq => 0x0A | resumeAck => 0x0B | finish => 0x0C | error => 0x0D
  | keepalive => 0x0E | keyUpdate => 0x0F
  | data => 0x20 | ackBitmap => 0x21 | nackRange => 0x22 | rateHint => 0x23
  | windowUpdate => 0x24 | chunkCommit => 0x25 | chunkRepair => 0x26
  | syncAnnounce => 0x40 | regionMap => 0x41 | deltaMap => 0x42 | conflict => 0x43
  | watermark => 0x44 | liveCommit => 0x45
  | rendezvous => 0x60 | relayAssign => 0x61 | relayForward => 0x62 | relayHeartbeat => 0x63

def tryFrom (value : UInt8) : Except ProtoError PacketType :=
  match value.toNat with
  | 0x01 => .ok hello | 0x02 => .ok helloAck | 0x03 => .ok caps | 0x04 => .ok auth
  | 0x05 => .ok authAck | 0x06 => .ok pathProbe | 0x07 => .ok pathProbeAck
  | 0x08 => .ok manifest | 0x09 => .ok checkpoint | 0x0A => .ok resumeReq
  | 0x0B => .ok resumeAck | 0x0C => .ok finish | 0x0D => .ok error | 0x0E => .ok keepalive
  | 0x0F => .ok keyUpdate
  | 0x20 => .ok data | 0x21 => .ok ackBitmap | 0x22 => .ok nackRange | 0x23 => .ok rateHint
  | 0x24 => .ok windowUpdate | 0x25 => .ok chunkCommit | 0x26 => .ok chunkRepair
  | 0x40 => .ok syncAnnounce | 0x41 => .ok regionMap | 0x42 => .ok deltaMap
  | 0x43 => .ok conflict | 0x44 => .ok watermark | 0x45 => .ok liveCommit
  | 0x60 => .ok rendezvous | 0x61 => .ok relayAssign | 0x62 => .ok relayForward
  | 0x63 => .ok relayHeartbeat
  | _ => .error (.invalidPacketType value)

@[simp] lemma tryFrom_toByte (t : PacketType) : tryFrom t.toByte = .ok t := by
  cases t <;> rfl

lemma toByte_injective : Function.Injective toByte := by
  intro s t h
  have hs := tryFrom_toByte s
  rw [h, tryFrom_toByte t] at hs
  exact (Except.ok.inj hs).symm

lemma toByte_of_tryFrom {b : UInt8} {t : PacketType} (h : tryFrom b = .ok t) :
    t.toByte = b := by
  have hall : ∀ n : Fin 256, (tryFrom (UInt8.ofNat n.1)).toOption.all
      (·.toByte == UInt8.ofNat n.1) := by decide +kernel
  have hb := hall ⟨b.toNat, b.toNat_lt⟩
  rw [UInt8.ofNat_toNat, h] at hb
  exact eq_of_beq hb

end PacketType

namespace PacketFlags

def ackEliciting : UInt16 := 0x0001

def compressed : UInt16 := 0x0010

def fromBitsTruncate (raw : UInt16) : UInt16 := raw &&& 0x03FF

def reservedMask : UInt16 := 0xFC00

def hasReservedBits (flags : UInt16) : Bool := flags &&& reservedMask != 0

lemma fromBitsTruncate_eq_self {flags : UInt16} (h : hasReservedBits flags = false) :
    fromBitsTruncate flags = flags := by
  have hreserved : flags &&& 0xFC00 = 0 := by simpa [hasReservedBits, reservedMask] using h
  have hbits : flags.toBitVec &&& 0xFC00#16 = 0#16 := congrArg UInt16.toBitVec hreserved
  have hall : 0x03FF#16 ||| 0xFC00#16 = BitVec.allOnes 16 := by decide
  have hsplit := BitVec.and_or_distrib_left (x := flags.toBitVec) (y := 0x03FF#16) (z := 0xFC00#16)
  rw [hall, hbits, BitVec.or_zero, BitVec.and_allOnes] at hsplit
  exact (UInt16.toBitVec_inj.mp hsplit).symm

end PacketFlags

structure PacketHeader where
  version : UInt8
  packetType : PacketType
  flags : UInt16
  headerLength : UInt16
  connectionId : UInt64
  streamId : UInt32
  packetNumber : UInt64
  timestamp : UInt64
  payloadLength : UInt32
  headerCrc : UInt32
  deriving DecidableEq, Repr

variable (crc32c : Bytes → UInt32)

/-- Recompute the CRC of an encoded header in place, leaving what follows the
header as it is. -/
def updateCrc (header : Bytes) : Bytes :=
  if header.length < headerSize then header
  else header.take (headerSize - 4) ++ putU32 (crc32c (header.take (headerSize - 4))) ++
    header.drop headerSize

namespace PacketHeader

def fields (h : PacketHeader) : Bytes :=
  putU8 h.version ++ putU8 h.packetType.toByte ++ putU16 h.flags ++ putU16 h.headerLength ++
    putU64 h.connectionId ++ putU32 h.streamId ++ putU64 h.packetNumber ++
      putU64 h.timestamp ++ putU32 h.payloadLength

def encode (h : PacketHeader) : Bytes := h.fields ++ putU32 (crc32c h.fields)

@[simp] lemma length_fields (h : PacketHeader) : h.fields.length = 38 := by
  simp [fields]

@[simp] lemma length_encode (h : PacketHeader) : (h.encode crc32c).length = headerSize := by
  simp [encode, headerSize]

def decodeUnchecked (src : Bytes) : Except ProtoError (PacketHeader × Bytes) :=
  if src.length < headerSize then .error (.bufferTooShort headerSize src.length) else
  let (version, src) := getU8 src
  let (packetTypeRaw, src) := getU8 src
  let (flagsRaw, src) := getU16 src
  let (headerLength, src) := getU16 src
  let (connectionId, src) := getU64 src
  if version ≠ protocolVersion then .error (.unsupportedVersion version) else
  let (streamId, src) := getU32 src
  let (packetNumber, src) := getU64 src
  let (timestamp, src) := getU64 src
  let (payloadLength, src) := getU32 src
  let (_storedCrc, src) := getU32 src
  match PacketType.tryFrom packetTypeRaw with
  | .error e => .error e
  | .ok packetType =>
    if headerLength < 42 then .error (.invalidHeaderLength headerLength 42) else
    .ok (⟨version, packetType, PacketFlags.fromBitsTruncate flagsRaw, headerLength,
      connectionId, streamId, packetNumber, timestamp, payloadLength, 0⟩, src)

def decode (src : Bytes) : Except ProtoError (PacketHeader × Bytes) :=
  if src.length < headerSize then .error (.bufferTooShort headerSize src.length) else
  let computedCrc := crc32c (src.take (headerSize - 4))
  let (version, src) := getU8 src
  let (packetTypeRaw, src) := getU8 src
  let (flagsRaw, src) := getU16 src
  let (headerLength, src) := getU16 src
  let (connectionId, src) := getU64 src
  let (streamId, src) := getU32 src
  let (packetNumber, src) := getU64 src
  let (timestamp, src) := getU64 src
  let (payloadLength, src) := getU32 src
  let (storedCrc, src) := getU32 src
  if storedCrc ≠ computedCrc then .error (.crcMismatch storedCrc computedCrc) else
  if version ≠ protocolVersion then .error (.unsupportedVersion version) else
  match PacketType.tryFrom packetTypeRaw with
  | .error e => .error e
  | .ok packetType =>
    if headerLength < 42 then .error (.invalidHeaderLength headerLength 42) else
    .ok (⟨version, packetType, PacketFlags.fromBitsTruncate flagsRaw, headerLength,
      connectionId, streamId, packetNumber, timestamp, payloadLength, storedCrc⟩, src)

/-- What a peer reads back from an encoded header: the reserved flag bits are
dropped and the CRC is the one computed on encoding. -/
def received (h : PacketHeader) : PacketHeader :=
  { h with flags := PacketFlags.fromBitsTruncate h.flags, headerCrc := crc32c h.fields }

variable {h : PacketHeader}

lemma decode_encode (hversion : h.version = protocolVersion) (hlength : 42 ≤ h.headerLength)
    (rest : Bytes) : decode crc32c (h.encode crc32c ++ rest) = .ok (h.received crc32c, rest) := by
  have htake : (h.encode crc32c ++ rest).take (headerSize - 4) = h.fields := by
    rw [encode, append_assoc]
    exact take_left' (by simp [headerSize])
  have hlen : ¬ (h.encode crc32c ++ rest).length < headerSize := by simp
  have hhl : ¬ h.headerLength < 42 := UInt16.not_lt.mpr hlength
  rw [decode, if_neg hlen, htake]
  simp [encode, fields, received, hversion, hhl, append_assoc]

def readAt (packetType : PacketType) (src : Bytes) : PacketHeader where
  version := (getU8 src).1
  packetType := packetType
  flags := PacketFlags.fromBitsTruncate (getU16 (src.drop 2)).1
  headerLength := (getU16 (src.drop 4)).1
  connectionId := (getU64 (src.drop 6)).1
  streamId := (getU32 (src.drop 14)).1
  packetNumber := (getU64 (src.drop 18)).1
  timestamp := (getU64 (src.drop 26)).1
  payloadLength := (getU32 (src.drop 34)).1
  headerCrc := 0

structure Readable (packetType : PacketType) (src : Bytes) : Prop where
  length : headerSize ≤ src.length
  version : (getU8 src).1 = protocolVersion
  type_eq : PacketType.tryFrom (getU8 (src.drop 1)).1 = .ok packetType
  headerLength : 42 ≤ (getU16 (src.drop 4)).1

lemma decodeUnchecked_eq (src : Bytes) : decodeUnchecked src =
    if src.length < headerSize then .error (.bufferTooShort headerSize src.length) else
    if (getU8 src).1 ≠ protocolVersion then .error (.unsupportedVersion (getU8 src).1) else
    match PacketType.tryFrom (getU8 (src.drop 1)).1 with
    | .error e => .error e
    | .ok t =>
      if (getU16 (src.drop 4)).1 < 42 then
        .error (.invalidHeaderLength (getU16 (src.drop 4)).1 42)
      else .ok (readAt t src, src.drop headerSize) := by
  simp only [decodeUnchecked, readAt, getU8, getU16, getU32, getU64, drop_drop, headerSize,
    Nat.reduceAdd]

/-- The checked decoder is the unchecked one behind the CRC. -/
theorem decode_eq (src : Bytes) : decode crc32c src =
    if src.length < headerSize then .error (.bufferTooShort headerSize src.length) else
    if (getU32 (src.drop 38)).1 ≠ crc32c (src.take 38) then
      .error (.crcMismatch (getU32 (src.drop 38)).1 (crc32c (src.take 38))) else
    (decodeUnchecked src).map fun r =>
      ({ r.1 with headerCrc := (getU32 (src.drop 38)).1 }, r.2) := by
  by_cases hlen : src.length < headerSize
  · rw [decode, if_pos hlen, if_pos hlen]
  rw [decodeUnchecked_eq, decode, if_neg hlen, if_neg hlen, if_neg hlen]
  simp only [readAt, getU8, getU16, getU32, getU64, drop_drop, headerSize, Nat.reduceAdd,
    Nat.reduceSub]
  cases PacketType.tryFrom ((src.drop 1).headD 0) <;> split_ifs <;> rfl

variable {src rest : Bytes}

lemma decodeUnchecked_eq_ok_iff :
    decodeUnchecked src = .ok (h, rest) ↔
      ∃ t, Readable t src ∧ h = readAt t src ∧ rest = src.drop headerSize := by
  constructor
  · intro hdecode
    rw [decodeUnchecked_eq] at hdecode
    cases htype : PacketType.tryFrom (getU8 (src.drop 1)).1 with
    | error e =>
      rw [htype] at hdecode
      split_ifs at hdecode
    | ok t =>
      rw [htype] at hdecode
      split_ifs at hdecode with hlen hversion hlength
      cases hdecode
      exact ⟨t, ⟨not_lt.mp hlen, not_not.mp hversion, htype, UInt16.not_lt.mp hlength⟩, rfl, rfl⟩
  · rintro ⟨t, hread, rfl, rfl⟩
    rw [decodeUnchecked_eq, if_neg (not_lt.mpr hread.length), if_neg (not_not.mpr hread.version),
      hread.type_eq]
    exact if_neg (UInt16.not_lt.mpr hread.headerLength)

lemma decode_eq_ok_iff :
    decode crc32c src = .ok (h, rest) ↔
      (getU32 (src.drop 38)).1 = crc32c (src.take 38) ∧ ∃ t, Readable t src ∧
        h = { readAt t src with headerCrc := (getU32 (src.drop 38)).1 } ∧
          rest = src.drop headerSize := by
  rw [decode_eq]
  constructor
  · intro hdecode
    split_ifs at hdecode with hlen hcrc
    rcases hok : decodeUnchecked src with _ | r
    · rw [hok] at hdecode
      cases hdecode
    rw [hok] at hdecode
    cases hdecode
    obtain ⟨t, hread, hheader, hrest⟩ := decodeUnchecked_eq_ok_iff.mp hok
    exact ⟨not_not.mp hcrc, t, hread, by rw [hheader], hrest⟩
  · rintro ⟨hcrc, t, hread, rfl, rfl⟩
    rw [if_neg (not_lt.mpr hread.length), if_neg (not_not.mpr hcrc),
      decodeUnchecked_eq_ok_iff.mpr ⟨t, hread, rfl, rfl⟩]
    rfl

def KnownFlags (src : Bytes) : Prop :=
  PacketFlags.hasReservedBits (getU16 (src.drop 2)).1 = false

lemma fields_readAt {t : PacketType} (hread : Readable t src) (hflags : KnownFlags src) :
    (readAt t src).fields = src.take 38 := by
  have hlen : 42 ≤ src.length := hread.length
  have htype : t.toByte = (getU8 (src.drop 1)).1 := PacketType.toByte_of_tryFrom hread.type_eq
  simp only [fields, readAt, htype]
  have hdrop : ∀ off w, off + w ≤ 42 → w ≤ (src.drop off).length := by
    intro off w h
    rw [length_drop]
    omega
  rw [PacketFlags.fromBitsTruncate_eq_self hflags, putU8_getU8 (by omega),
    putU8_getU8 (hdrop 1 1 (by norm_num)), putU16_getU16 (hdrop 2 2 (by norm_num)),
    putU16_getU16 (hdrop 4 2 (by norm_num)), putU64_getU64 (hdrop 6 8 (by norm_num)),
    putU32_getU32 (hdrop 14 4 (by norm_num)), putU64_getU64 (hdrop 18 8 (by norm_num)),
    putU64_getU64 (hdrop 26 8 (by norm_num)), putU32_getU32 (hdrop 34 4 (by norm_num))]
  change slice src 0 1 ++ slice src 1 1 ++ slice src 2 2 ++ slice src 4 2 ++ slice src 6 8 ++
    slice src 14 4 ++ slice src 18 8 ++ slice src 26 8 ++ slice src 34 4 = slice src 0 38
  iterate 8 rw [slice_append_slice rfl]

lemma encode_of_readable {t : PacketType} (hread : Readable t src) (hflags : KnownFlags src)
    (hcrc : (getU32 (src.drop 38)).1 = crc32c (src.take 38)) :
    ({ readAt t src with headerCrc := (getU32 (src.drop 38)).1 } : PacketHeader).encode crc32c =
      src.take headerSize := by
  have hlen : 42 ≤ src.length := hread.length
  have hfields : ({ readAt t src with headerCrc := (getU32 (src.drop 38)).1 } :
      PacketHeader).fields = src.take 38 := fields_readAt hread hflags
  rw [encode, hfields, ← hcrc, putU32_getU32 (by rw [length_drop]; omega)]
  exact (take_add).symm

lemma packetType_of_decode (hdecode : decode crc32c src = .ok (h, rest)) :
    PacketType.tryFrom (src.getD 1 0) = .ok h.packetType := by
  have hbyte : (getU8 (src.drop 1)).1 = src.getD 1 0 := by
    match src with
    | [] => rfl
    | [_] => rfl
    | _ :: _ :: _ => rfl
  obtain ⟨-, t, hread, rfl, -⟩ := (decode_eq_ok_iff crc32c).mp hdecode
  rw [← hbyte]
  exact hread.type_eq

end PacketHeader

end Favonius.Proto
