import Favonius.Proto.Packet

/-!
# The packet format, both ways

Extensions, payloads and whole packets: encoding and decoding give the packet back with whatever
follows it, and decoding and encoding give the buffer back.
-/

namespace Favonius.Proto

open ByteCodec List PacketHeader

namespace DataPayload

lemma decode_encode {p : DataPayload} (h : p.data.length < 65536) : decode p.encode = .ok p := by
  have hlen : ¬ p.encode.length < dataPayloadHeaderSize := by simp
  have hmod : (UInt16.ofNat p.data.length).toNat = p.data.length := UInt16.toNat_ofNat_of_lt' h
  rw [decode, if_neg hlen]
  simp [encode, append_assoc, hmod]

end DataPayload

namespace NackRange

lemma length_flatMap_put (ranges : List (UInt64 × UInt64)) :
    (ranges.flatMap fun r => putU64 r.1 ++ putU64 r.2).length =
      ranges.length * nackRangeEntrySize := by
  simp [length_flatMap, nackRangeEntrySize]

@[simp] lemma length_encode (n : NackRange) :
    n.encode.length = nackRangeHeaderSize + n.ranges.length * nackRangeEntrySize := by
  rw [encode, length_append, length_flatMap_put, length_append, length_putU32, length_putU16]
  rfl

lemma readRanges_flatMap {count : ℕ} {ranges : List (UInt64 × UInt64)}
    (h : count ≤ ranges.length) :
    readRanges count (ranges.flatMap fun r => putU64 r.1 ++ putU64 r.2) = ranges.take count := by
  induction ranges generalizing count with
  | nil =>
    rw [length_nil, Nat.le_zero] at h
    subst h
    rfl
  | cons r ranges ih =>
    cases count with
    | zero => rfl
    | succ count =>
      rw [length_cons, Nat.add_le_add_iff_right] at h
      simp only [flatMap_cons, readRanges, append_assoc, getU64_put, ih h, take_succ_cons]

/-- The count on the wire has 16 bits; what is above is not read. -/
theorem decode_encode_take (n : NackRange) :
    decode n.encode = .ok ⟨n.streamId, n.ranges.take (n.ranges.length % 65536)⟩ := by
  have hcount : (UInt16.ofNat n.ranges.length).toNat = n.ranges.length % 65536 :=
    UInt16.toNat_ofNat'
  have hle : n.ranges.length % 65536 ≤ n.ranges.length := Nat.mod_le _ _
  have hread := readRanges_flatMap hle
  have hlen := length_flatMap_put n.ranges
  have hroom : n.ranges.length % 65536 * nackRangeEntrySize ≤
      n.ranges.length * nackRangeEntrySize := Nat.mul_le_mul_right _ hle
  rw [decode, if_neg (by simp)]
  simp [encode, append_assoc, hcount, hread, hlen, hroom]

lemma decode_encode {n : NackRange} (h : n.ranges.length < 65536) : decode n.encode = .ok n := by
  rw [decode_encode_take, Nat.mod_eq_of_lt h, take_length]

end NackRange

namespace Extension

@[simp] lemma length_encode (e : Extension) : e.encode.length = e.wireSize := by
  simp [encode, wireSize, extensionHeaderSize]
  omega

variable {e : Extension}

lemma decode_encode (h : e.value.length < 65536) (rest : Bytes) :
    decode (e.encode ++ rest) = .ok (e, rest) := by
  have hlen : ¬ (e.encode ++ rest).length < extensionHeaderSize := by simp [wireSize]; omega
  have hmod : (UInt16.ofNat e.value.length).toNat = e.value.length :=
    UInt16.toNat_ofNat_of_lt' h
  rw [decode, if_neg hlen]
  simp [encode, append_assoc, hmod]

lemma encode_of_decode {src rest : Bytes} (h : decode src = .ok (e, rest)) :
    src = e.encode ++ rest := by
  rw [decode] at h
  split_ifs at h with hshort
  dsimp only at h
  split_ifs at h with hvalue
  cases h
  have hlen : 4 ≤ src.length := not_lt.mp hshort
  have htype : 2 ≤ (getU16 src).2.length := by
    rw [getU16, length_drop]
    omega
  rw [encode, length_take_of_le (not_lt.mp hvalue), UInt16.ofNat_toNat, append_assoc,
    append_assoc, take_append_drop, putU16_append_getU16 htype,
    putU16_append_getU16 (by omega)]

end Extension

lemma length_flatMap_encode (exts : List Extension) :
    (exts.flatMap Extension.encode).length = (exts.map Extension.wireSize).sum := by
  simp [length_flatMap]

variable {fuel : ℕ} {exts : List Extension}

lemma decodeExtensionsFrom_flatMap (hfuel : (exts.flatMap Extension.encode).length ≤ fuel)
    (hfit : ∀ e ∈ exts, e.value.length < 65536) :
    decodeExtensionsFrom fuel (exts.flatMap Extension.encode) = .ok exts := by
  induction exts generalizing fuel with
  | nil => cases fuel <;> rfl
  | cons e exts ih =>
    rw [flatMap_cons, length_append, Extension.length_encode, Extension.wireSize,
      extensionHeaderSize] at hfuel
    obtain ⟨fuel, rfl⟩ : ∃ n, fuel = n + 1 := Nat.exists_eq_add_of_le' (by omega)
    have hdecode := Extension.decode_encode (hfit e mem_cons_self)
      (exts.flatMap Extension.encode)
    have hrest : decodeExtensionsFrom fuel (exts.flatMap Extension.encode) = .ok exts :=
      ih (by omega) fun e' he' => hfit e' (mem_cons_of_mem e he')
    rw [flatMap_cons]
    cases hbytes : e.encode ++ exts.flatMap Extension.encode with
    | nil =>
      have hlen := congrArg List.length hbytes
      simp [Extension.wireSize, extensionHeaderSize] at hlen
    | cons b bs =>
      rw [decodeExtensionsFrom, ← hbytes, hdecode]
      dsimp only
      rw [hrest]
      rfl

lemma flatMap_encode_of_decode {src : Bytes} (hfuel : src.length ≤ fuel)
    (h : decodeExtensionsFrom fuel src = .ok exts) : exts.flatMap Extension.encode = src := by
  induction fuel generalizing src exts with
  | zero =>
    obtain rfl : src = [] := length_eq_zero_iff.mp (Nat.le_zero.mp hfuel)
    cases h
    rfl
  | succ fuel ih =>
    cases src with
    | nil =>
      cases h
      rfl
    | cons b bs =>
      rw [decodeExtensionsFrom] at h
      rcases hdecode : Extension.decode (b :: bs) with _ | r
      · rw [hdecode] at h
        cases h
      obtain ⟨e, rest⟩ := r
      rw [hdecode] at h
      have hsrc := Extension.encode_of_decode hdecode
      have hlen := congrArg List.length hsrc
      rw [length_append, Extension.length_encode, Extension.wireSize, extensionHeaderSize] at hlen
      cases hrest : decodeExtensionsFrom fuel rest with
      | error e' =>
        dsimp only at h
        rw [hrest] at h
        cases h
      | ok exts' =>
        dsimp only at h
        rw [hrest] at h
        cases h
        rw [flatMap_cons, ih (by omega) hrest, hsrc]

section Packets

variable (crc32c : Bytes → UInt32)

/-- The packet as `encode_packet_auto` leaves it and the peer reads it: with its lengths and its
CRC. -/
def Packet.completed (p : Packet) : Packet :=
  let header := { p.header with
    headerLength := UInt16.ofNat (headerSize + (p.extensions.map Extension.wireSize).sum)
    payloadLength := UInt32.ofNat p.payload.length }
  ⟨{ header with headerCrc := crc32c header.fields }, p.extensions, p.payload⟩

lemma decodePacket_append {h : PacketHeader} {payload : Bytes}
    (hversion : h.version = protocolVersion)
    (hheader : h.headerLength.toNat = headerSize + (exts.flatMap Extension.encode).length)
    (hpayload : h.payloadLength.toNat = payload.length) (hfit : ∀ e ∈ exts, e.value.length < 65536)
    (trailing : Bytes) :
    decodePacket crc32c (h.encode crc32c ++ (exts.flatMap Extension.encode ++
      (payload ++ trailing))) = .ok ⟨h.received crc32c, exts, payload⟩ := by
  have hlength : 42 ≤ h.headerLength := by
    rw [UInt16.le_iff_toNat_le, hheader]
    exact Nat.le_add_right _ _
  have hdecode := decode_encode crc32c hversion hlength
    (exts.flatMap Extension.encode ++ (payload ++ trailing))
  have hregion : (h.received crc32c).headerLength.toNat - headerSize =
      (exts.flatMap Extension.encode).length := by
    rw [received, hheader, Nat.add_sub_cancel_left]
  have hexts : decodeExtensions (exts.flatMap Extension.encode) = .ok exts :=
    decodeExtensionsFrom_flatMap le_rfl hfit
  have hlen : (h.received crc32c).payloadLength.toNat = payload.length := hpayload
  simp [decodePacket, hdecode, hregion, hexts, hlen]

lemma decodePacket_encodePacketAuto {p : Packet} (hversion : p.header.version = protocolVersion)
    (hflags : PacketFlags.hasReservedBits p.header.flags = false)
    (hheader : headerSize + (p.extensions.map Extension.wireSize).sum ≤ 65535)
    (hpayload : p.payload.length < 2 ^ 32) (trailing : Bytes) :
    decodePacket crc32c (encodePacketAuto crc32c p ++ trailing) = .ok (p.completed crc32c) := by
  have hfit : ∀ e ∈ p.extensions, e.value.length < 65536 := by
    intro e he
    have hle := single_le_sum (by simp) _ (mem_map_of_mem (f := Extension.wireSize) he)
    rw [Extension.wireSize] at hle
    omega
  have hlengths : (UInt16.ofNat (headerSize + (p.extensions.map Extension.wireSize).sum)).toNat =
      headerSize + (p.extensions.flatMap Extension.encode).length := by
    rw [length_flatMap_encode, UInt16.toNat_ofNat_of_lt' (Nat.lt_succ_of_le hheader)]
  have happend : encodePacketAuto crc32c p ++ trailing =
      (p.completed crc32c).header.encode crc32c ++ (p.extensions.flatMap Extension.encode ++
        (p.payload ++ trailing)) := by
    simp only [encodePacketAuto, encodePacket, append_assoc]
    rfl
  have hdecode := decodePacket_append crc32c (h := (p.completed crc32c).header) hversion hlengths
    (UInt32.toNat_ofNat_of_lt' hpayload) hfit trailing
  have hreceived : (p.completed crc32c).header.received crc32c = (p.completed crc32c).header := by
    simp only [Packet.completed, received, PacketFlags.fromBitsTruncate_eq_self hflags]
    rfl
  rw [happend, hdecode, hreceived]
  rfl

lemma encodePacket_of_decodePacket {data : Bytes} {pkt : Packet}
    (h : decodePacket crc32c data = .ok pkt) (hflags : PacketHeader.KnownFlags data)
    (hend : pkt.header.headerLength.toNat + pkt.payload.length = data.length) :
    encodePacket crc32c pkt = data := by
  obtain ⟨cursor, hheader, hregion, hexts, hpayload, hpkt⟩ := decodePacket_cases h
  obtain ⟨hcrc, t, hread, hh, rfl⟩ := (decode_eq_ok_iff crc32c).mp hheader
  have hencode := encode_of_readable crc32c hread hflags hcrc
  have htake : (data.drop headerSize).drop (pkt.header.headerLength.toNat - headerSize) =
      pkt.payload := by
    rw [hpkt, take_of_length_le]
    have hlen := congrArg List.length hpkt
    rw [length_take, Nat.min_eq_left hpayload] at hlen
    rw [length_drop, length_drop]
    omega
  have hregionBytes : pkt.extensions.flatMap Extension.encode =
      (data.drop headerSize).take (pkt.header.headerLength.toNat - headerSize) :=
    flatMap_encode_of_decode le_rfl hexts
  rw [encodePacket, hregionBytes, ← htake, append_assoc, take_append_drop, hh, hencode,
    take_append_drop]

/-- A packet that is encoded is read back, whatever follows it, and a buffer that is read to its
end is encoded again to the same bytes. -/
theorem packet_round_trip :
    (∀ (p : Packet) (trailing : Bytes), p.header.version = protocolVersion →
      PacketFlags.hasReservedBits p.header.flags = false →
      headerSize + (p.extensions.map Extension.wireSize).sum ≤ 65535 →
      p.payload.length < 2 ^ 32 →
        decodePacket crc32c (encodePacketAuto crc32c p ++ trailing) = .ok (p.completed crc32c)) ∧
    ∀ (data : Bytes) (pkt : Packet), PacketHeader.KnownFlags data →
      decodePacket crc32c data = .ok pkt →
      pkt.header.headerLength.toNat + pkt.payload.length = data.length →
        encodePacket crc32c pkt = data := by
  constructor
  · intro p trailing hversion hflags hheader hpayload
    exact decodePacket_encodePacketAuto crc32c hversion hflags hheader hpayload trailing
  · intro data pkt hflags hdecode hend
    exact encodePacket_of_decodePacket crc32c hdecode hflags hend

end Packets

theorem packet_round_trip_path_id :
    let header : PacketHeader := ⟨1, .data, 0x21, 0, 7, 3, 9, 5, 0, 0⟩
    let p : Packet := ⟨header, [⟨1, [4, 2]⟩], [10, 11, 12]⟩
    let checksum : Bytes → UInt32 := fun bs => UInt32.ofNat bs.length
    decodePacket checksum (encodePacketAuto checksum p ++ [99]) = .ok (p.completed checksum) ∧
      encodePacket checksum (p.completed checksum) = encodePacketAuto checksum p := by
  intro header p checksum
  have hround := packet_round_trip checksum
  refine ⟨hround.1 p [99] rfl (by decide) (by decide) (by decide), ?_⟩
  have hdecode := hround.1 p [] rfl (by decide) (by decide) (by decide)
  rw [append_nil] at hdecode
  exact hround.2 _ _ (by unfold PacketHeader.KnownFlags; decide +kernel) hdecode (by decide +kernel)

end Favonius.Proto
