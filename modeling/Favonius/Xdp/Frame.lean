import Favonius.Lib.OnesComplement
import Favonius.Lib.SlotBuffer

/-!
# Frames for AF_XDP

The Ethernet, IPv4 and UDP headers are written into a frame of the UMEM, which holds the bytes of
earlier packets, either before the payload is copied in or around one that lies there.
-/

namespace Favonius.Xdp

open ByteCodec SlotBuffer OnesComplement List

def overhead : ℕ := 14 + 20 + 8

structure PacketBuilder where
  srcMac : FixedBytes 6
  dstMac : FixedBytes 6
  srcIp : FixedBytes 4
  dstIp : FixedBytes 4
  srcPort : UInt16
  dstPort : UInt16

/-- A header of at most `2 ^ 16` words does not overflow the sum of the source. -/
def ipChecksum (header : Bytes) : UInt16 := ~~~UInt16.ofNat (foldCarries (wordSum header))

namespace PacketBuilder

variable (b : PacketBuilder)

def ethernetWrites : List (ℕ × Bytes) :=
  [(0, b.dstMac.1), (6, b.srcMac.1), (12, beBytes 2 0x0800)]

/-- Lengths are cut to 16 bits; the checksum is zero at first. -/
def ipWrites (payloadLen : ℕ) : List (ℕ × Bytes) :=
  [(14, [0x45]), (15, [0]), (16, beBytes 2 (20 + 8 + payloadLen)), (18, beBytes 2 0),
    (20, beBytes 2 0x4000), (22, [64]), (23, [17]), (24, beBytes 2 0), (26, b.srcIp.1),
    (30, b.dstIp.1)]

def udpWrites (payloadLen : ℕ) : List (ℕ × Bytes) :=
  [(34, putU16 b.srcPort), (36, putU16 b.dstPort), (38, beBytes 2 (8 + payloadLen)),
    (40, beBytes 2 0)]

/-- `none` is a slice out of bounds. -/
def writeHeaders (frame : Bytes) (payloadLen : ℕ) : Option Bytes :=
  if frame.length < overhead then none
  else
    let frame := overwriteAll (overwriteAll frame b.ethernetWrites) (b.ipWrites payloadLen)
    let cksum := ipChecksum (slice frame 14 20)
    some (overwriteAll (overwrite frame 24 (putU16 cksum)) (b.udpWrites payloadLen))

def buildFrame (frame payload : Bytes) : Option (Bytes × ℕ) :=
  let totalLen := overhead + payload.length
  -- `assert!(frame.len() >= total_len)`
  if frame.length < totalLen then none
  else
    (b.writeHeaders frame payload.length).map fun frame =>
      (overwrite frame overhead payload, totalLen)

def buildHeadersOnly (frame : Bytes) (payloadLen : ℕ) : Option (Bytes × ℕ) :=
  (b.writeHeaders frame payloadLen).map (·, overhead + payloadLen)

def ethernet : Bytes := b.dstMac.1 ++ b.srcMac.1 ++ beBytes 2 0x0800

def ipFields (payloadLen : ℕ) : Bytes :=
  [0x45, 0] ++ beBytes 2 (20 + 8 + payloadLen) ++ beBytes 2 0 ++ beBytes 2 0x4000 ++ [64, 17]

def ipv4 (payloadLen : ℕ) (cksum : Bytes) : Bytes :=
  ipFields payloadLen ++ cksum ++ (b.srcIp.1 ++ b.dstIp.1)

def udp (payloadLen : ℕ) : Bytes :=
  putU16 b.srcPort ++ putU16 b.dstPort ++ beBytes 2 (8 + payloadLen) ++ beBytes 2 0

def headers (n : ℕ) : Bytes :=
  b.ethernet ++ b.ipv4 n (putU16 (ipChecksum (b.ipv4 n (beBytes 2 0)))) ++ b.udp n

variable {frame : Bytes} (n : ℕ)

lemma length_ethernet : b.ethernet.length = 14 := by
  simp [ethernet, b.dstMac.2, b.srcMac.2]

lemma length_ipv4 {cksum : Bytes} (h : cksum.length = 2) : (b.ipv4 n cksum).length = 20 := by
  simp [ipv4, ipFields, h, b.srcIp.2, b.dstIp.2]

lemma overwriteAll_ip (frame : Bytes) :
    overwriteAll (overwriteAll frame b.ethernetWrites) (b.ipWrites n) =
      b.ethernet ++ b.ipv4 n (beBytes 2 0) ++ frame.drop 34 := by
  have hadjacent : Adjacent 0 (b.ethernetWrites ++ b.ipWrites n) := by
    simp [ethernetWrites, ipWrites, Adjacent, b.dstMac.2, b.srcMac.2, b.srcIp.2]
  have hfields : (b.ethernetWrites ++ b.ipWrites n).flatMap Prod.snd =
      b.ethernet ++ b.ipv4 n (beBytes 2 0) := by
    simp [ethernetWrites, ipWrites, ethernet, ipv4, ipFields]
  have hall := overwriteAll_eq hadjacent frame
  rw [hfields, length_append, length_ethernet, length_ipv4 _ _ (length_beBytes _ _)] at hall
  rw [← hall, overwriteAll, overwriteAll, overwriteAll, foldl_append]

lemma writeHeaders_eq (hlen : overhead ≤ frame.length) :
    b.writeHeaders frame n = some (b.headers n ++ frame.drop overhead) := by
  have hslice : slice (b.ethernet ++ b.ipv4 n (beBytes 2 0) ++ frame.drop 34) 14 20 =
      b.ipv4 n (beBytes 2 0) :=
    slice_eq_of_append (append_assoc _ _ _) b.length_ethernet (b.length_ipv4 n (length_beBytes _ _))
  have hcksum : ∀ cksum : UInt16,
      overwrite (b.ethernet ++ b.ipv4 n (beBytes 2 0) ++ frame.drop 34) 24 (putU16 cksum) =
        b.ethernet ++ b.ipv4 n (putU16 cksum) ++ frame.drop 34 := by
    intro cksum
    have hpos : (b.ethernet ++ ipFields n).length = 24 := by simp [length_ethernet, ipFields]
    have hover := overwrite_append hpos
      (beBytes 2 0 ++ (b.srcIp.1 ++ b.dstIp.1 ++ frame.drop 34)) (putU16 cksum)
    rw [length_putU16, drop_left' (length_beBytes _ _)] at hover
    simpa only [ipv4, append_assoc] using hover
  have hudp : Adjacent 34 (b.udpWrites n) := by simp [udpWrites, Adjacent]
  have hpos : ∀ cksum : UInt16, (b.ethernet ++ b.ipv4 n (putU16 cksum)).length = 34 := by
    intro cksum
    rw [length_append, length_ethernet, length_ipv4 _ _ (length_putU16 _)]
  rw [writeHeaders, if_neg (Nat.not_lt.mpr hlen)]
  simp only [overwriteAll_ip, hslice, hcksum, overwriteAll_append (hpos _) hudp]
  simp [headers, udp, udpWrites, overhead]

lemma length_headers : (b.headers n).length = overhead := by
  rw [headers, length_append, length_append, length_ethernet, length_ipv4 _ _ (length_putU16 _)]
  simp [udp, overhead]

lemma wordSum_ipv4 (cksum : Bytes) (h : cksum.length = 2) :
    wordSum (b.ipv4 n cksum) = wordSum (b.ipv4 n (beBytes 2 0)) + wordSum cksum := by
  have hfields : (ipFields n).length % 2 = 0 := by simp [ipFields]
  have hzero := wordSum_beBytes 0
  have hall : ∀ c : Bytes, c.length = 2 → wordSum (b.ipv4 n c) =
      wordSum (ipFields n) + wordSum c + wordSum (b.srcIp.1 ++ b.dstIp.1) := by
    intro c hc
    rw [ipv4, wordSum_append (by simp [hc, ipFields]), wordSum_append hfields]
  rw [hall _ h, hall _ (length_beBytes _ _)]
  omega

lemma foldCarries_ipv4 :
    foldCarries (wordSum (b.ipv4 n (putU16 (ipChecksum (b.ipv4 n (beBytes 2 0)))))) = 0xFFFF := by
  have hle := (foldCarries_spec (wordSum (b.ipv4 n (beBytes 2 0)))).1
  rw [wordSum_ipv4 _ _ _ (length_putU16 _), putU16, wordSum_beBytes]
  have hcksum : (ipChecksum (b.ipv4 n (beBytes 2 0))).toNat % 2 ^ 16 =
      0xFFFF - foldCarries (wordSum (b.ipv4 n (beBytes 2 0))) := by
    rw [ipChecksum, UInt16.toNat_not, UInt16.toNat_ofNat_of_lt' (Nat.lt_succ_of_le hle)]
    exact Nat.mod_eq_of_lt (show 65535 - _ < 65536 by omega)
  rw [hcksum, foldCarries_add_complement]

lemma buildFrame_eq {payload : Bytes} (hroom : overhead + payload.length ≤ frame.length) :
    b.buildFrame frame payload = some (b.headers payload.length ++
      (payload ++ frame.drop (overhead + payload.length)), overhead + payload.length) := by
  rw [buildFrame, if_neg (Nat.not_lt.mpr hroom), b.writeHeaders_eq _ (by omega), Option.map_some,
    overwrite_append (b.length_headers _), drop_drop, append_assoc]

lemma buildHeadersOnly_eq {stale rest : Bytes} (h : stale.length = overhead) :
    b.buildHeadersOnly (stale ++ rest) n = some (b.headers n ++ rest, overhead + n) := by
  rw [buildHeadersOnly, writeHeaders_eq, drop_left' h, Option.map_some]
  rw [length_append]
  omega

lemma slice_headers (rest : Bytes) :
    slice (b.headers n ++ rest) 14 20 =
        b.ipv4 n (putU16 (ipChecksum (b.ipv4 n (beBytes 2 0)))) ∧
      slice (b.headers n ++ rest) 16 2 = beBytes 2 (20 + 8 + n) ∧
      slice (b.headers n ++ rest) 38 2 = beBytes 2 (8 + n) := by
  rw [headers]
  generalize ipChecksum (b.ipv4 n (beBytes 2 0)) = cksum
  have hip := b.length_ipv4 n (length_putU16 cksum)
  have heth := b.length_ethernet
  refine ⟨?_, ?_, ?_⟩
  · exact slice_eq_of_append (by simp only [append_assoc]; rfl) heth hip
  · have hstart : (b.ethernet ++ [0x45, 0]).length = 16 := by simp [heth]
    exact slice_eq_of_append (by simp only [ipv4, ipFields, append_assoc]; rfl) hstart
      (length_beBytes _ _)
  · have hstart : (b.ethernet ++ b.ipv4 n (putU16 cksum) ++
        (putU16 b.srcPort ++ putU16 b.dstPort)).length = 38 := by
      simp [heth, hip]
    exact slice_eq_of_append (by simp only [udp, append_assoc]; rfl) hstart (length_beBytes _ _)

/-- A frame with valid headers, whatever it held, and the same one around a payload that is in its
place already. -/
theorem frame_headers_valid {payload : Bytes} (hsize : payload.length ≤ 65507)
    (hroom : overhead + payload.length ≤ frame.length) :
    ∃ built, b.buildFrame frame payload = some (built, overhead + payload.length) ∧
      foldCarries (wordSum (slice built 14 20)) = 0xFFFF ∧
      beNat (slice built 16 2) = 20 + 8 + payload.length ∧
      beNat (slice built 38 2) = 8 + payload.length ∧
      slice built overhead payload.length = payload ∧
      ∀ stale : Bytes, stale.length = overhead →
        b.buildHeadersOnly (stale ++ (payload ++ frame.drop (overhead + payload.length)))
          payload.length = some (built, overhead + payload.length) := by
  obtain ⟨hip, htotal, hudp⟩ := b.slice_headers payload.length
    (payload ++ frame.drop (overhead + payload.length))
  refine ⟨_, b.buildFrame_eq hroom, ?_, ?_, ?_, ?_, fun stale h => b.buildHeadersOnly_eq _ h⟩
  · rw [hip, b.foldCarries_ipv4]
  · rw [htotal, beNat_beBytes_of_lt (by omega)]
  · rw [hudp, beNat_beBytes_of_lt (by omega)]
  · exact slice_eq_of_append rfl (b.length_headers _) rfl

def sampleBuilder : PacketBuilder where
  srcMac := .fill 6 1
  dstMac := .fill 6 2
  srcIp := .fill 4 10
  dstIp := .fill 4 11
  srcPort := 4433
  dstPort := 4434

theorem frame_headers_valid_three :
    ∃ built, sampleBuilder.buildFrame (List.replicate 46 255) [1, 2, 3] = some (built, 45) ∧
      foldCarries (wordSum (slice built 14 20)) = 0xFFFF := by
  obtain ⟨built, hbuilt, hsum, -⟩ := sampleBuilder.frame_headers_valid
    (show [1, 2, 3].length ≤ 65507 by decide)
    (show overhead + [1, 2, 3].length ≤ (List.replicate 46 255).length by decide)
  exact ⟨built, hbuilt, hsum⟩

end PacketBuilder

end Favonius.Xdp
