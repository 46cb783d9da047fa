import Favonius.Crypto.SignedMessages

/-!
# The TCP fallback frame

The header before the payload and the daemon's reply after it.
-/

namespace Favonius.Proto

open ByteCodec Crypto List

namespace Fallback

def magic : Bytes := ascii "FVNFALL1"

def version : UInt8 := 1

def headerLen : ℕ := 8 + 1 + 1 + 2 + 8

def maxPath : ℕ := 4096

def maxSize : ℕ := 1024 * 1024 * 1024 * 1024

end Fallback

open Fallback

inductive FallbackError where
  | badMagic
  | badVersion (v : UInt8)
  | reservedFlags (flags : UInt8)
  | pathTooLong (len : ℕ)
  | emptyPath
  | tooLarge (size : UInt64)
  | badUtf8
  | truncated (expected got : ℕ)
  deriving DecidableEq

def FallbackError.toString : FallbackError → String
  | badMagic => "not a Favonius fallback frame (wrong magic)"
  | badVersion v => s!"unsupported fallback version {v}; this daemon speaks {version}"
  | reservedFlags flags =>
    "reserved flags must be zero, got 0x" ++ String.ofList (Nat.toDigits 16 flags.toNat)
  | pathTooLong len => s!"path length {len} exceeds the {maxPath}-byte maximum"
  | emptyPath => "path is empty"
  | tooLarge size => s!"declared size {size} exceeds the {maxSize}-byte maximum"
  | badUtf8 => "path is not valid UTF-8"
  | truncated expected got => s!"frame is truncated: expected {expected} bytes, got {got}"

structure FallbackHeader where
  path : String
  size : UInt64
  deriving DecidableEq

namespace FallbackHeader

def encode (h : FallbackHeader) : Except FallbackError Bytes :=
  let path := utf8 h.path
  if path = [] then .error .emptyPath
  else if maxPath < path.length then .error (.pathTooLong path.length)
  else if maxSize < h.size.toNat then .error (.tooLarge h.size)
  else .ok (magic ++ putU8 version ++ putU8 0 ++ beBytes 2 path.length ++ putU64 h.size ++ path)

def decodeHead (buf : Bytes) : Except FallbackError (ℕ × UInt64) :=
  if buf.length < headerLen then .error (.truncated headerLen buf.length)
  else if buf.take 8 ≠ magic then .error .badMagic
  else if buf.getD 8 0 ≠ version then .error (.badVersion (buf.getD 8 0))
  else if buf.getD 9 0 ≠ 0 then .error (.reservedFlags (buf.getD 9 0))
  else
    let pathLen := beNat (slice buf 10 2)
    let size := (getU64 (buf.drop 12)).1
    if pathLen = 0 then .error .emptyPath
    else if maxPath < pathLen then .error (.pathTooLong pathLen)
    else if maxSize < size.toNat then .error (.tooLarge size)
    else .ok (pathLen, size)

def fromParts (pathBytes : Bytes) (size : UInt64) : Except FallbackError FallbackHeader :=
  match String.fromUTF8? ⟨pathBytes.toArray⟩ with
  | none => .error .badUtf8
  | some path => .ok ⟨path, size⟩

lemma fromParts_utf8 (path : String) (size : UInt64) :
    fromParts (utf8 path) size = .ok ⟨path, size⟩ := by
  have hvalid : String.fromUTF8? ⟨(utf8 path).toArray⟩ = some path := by
    exact dif_pos path.isValidUTF8
  rw [fromParts, hvalid]

lemma length_magic : magic.length = 8 := rfl

lemma decodeHead_fields {n : ℕ} {size : UInt64} (hpos : n ≠ 0) (hpath : n ≤ maxPath)
    (hsize : size.toNat ≤ maxSize) :
    decodeHead (magic ++ putU8 version ++ putU8 0 ++ beBytes 2 n ++ putU64 size) =
      .ok (n, size) := by
  have hlt : n < 256 ^ 2 := by
    unfold maxPath at hpath
    omega
  generalize hhead : magic ++ putU8 version ++ putU8 0 ++ beBytes 2 n ++ putU64 size = head
  have hlen : head.length = headerLen := by simp [← hhead, length_magic, headerLen]
  have hmagic : head.take 8 = magic := by
    rw [← hhead, append_assoc, append_assoc, append_assoc]
    exact take_left' length_magic
  have hversion : head.getD 8 0 = version := by
    rw [← hhead]
    rfl
  have hflags : head.getD 9 0 = 0 := by
    rw [← hhead]
    rfl
  have hslice : slice head 10 2 = beBytes 2 n := by
    rw [append_assoc] at hhead
    exact slice_eq_of_append hhead.symm rfl (length_beBytes 2 n)
  have hdrop : head.drop 12 = putU64 size := by
    rw [← hhead]
    exact drop_left' (by simp [length_magic])
  have hget : (getU64 (putU64 size)).1 = size := by
    rw [← append_nil (putU64 size), getU64_put]
  simp only [decodeHead]
  rw [if_neg hlen.not_lt, if_neg (not_not.mpr hmagic), if_neg (not_not.mpr hversion),
    if_neg (not_not.mpr hflags), hslice, beNat_beBytes_of_lt hlt, hdrop, hget, if_neg hpos,
    if_neg hpath.not_gt, if_neg hsize.not_gt]

lemma encode_eq_ok {h : FallbackHeader} {bytes : Bytes} (henc : h.encode = .ok bytes) :
    ∃ head, bytes = head ++ utf8 h.path ∧ head.length = headerLen ∧
      decodeHead head = .ok ((utf8 h.path).length, h.size) := by
  unfold encode at henc
  dsimp only at henc
  split_ifs at henc with hempty hlong hlarge
  cases henc
  refine ⟨_, rfl, by simp [length_magic, headerLen], ?_⟩
  apply decodeHead_fields
  · exact fun hzero => hempty (length_eq_zero_iff.mp hzero)
  · exact not_lt.mp hlong
  · exact not_lt.mp hlarge

end FallbackHeader

inductive FallbackReply where
  | accepted
  | refused (reason : String)
  deriving DecidableEq

namespace FallbackReply

def encode : FallbackReply → Bytes
  | .accepted => [0x01]
  | .refused reason =>
    let r := utf8 reason
    let len := min r.length (2 ^ 16 - 1)
    0x02 :: beBytes 2 len ++ r.take len

/-- `lossy` reads text that may not be UTF-8. -/
def decode (lossy : Bytes → String) (buf : Bytes) : Option FallbackReply :=
  match buf with
  | [] => none
  | tag :: rest =>
    if tag = 0x01 then some .accepted
    else if tag = 0x02 then
      if rest.length < 2 then none
      else
        let len := beNat (rest.take 2)
        let reason := rest.drop 2
        if reason.length < len then none else some (.refused (lossy (reason.take len)))
    else none

/-- A reply cut anywhere is read as an acceptance only if it is one. -/
theorem accepted_of_decode {lossy : Bytes → String} {reply : FallbackReply} {buf : Bytes}
    (hpre : buf <+: reply.encode) (h : decode lossy buf = some .accepted) :
    reply = .accepted := by
  cases reply with
  | accepted => rfl
  | refused reason =>
    obtain ⟨rest, hrest⟩ := hpre
    cases buf with
    | nil => cases h
    | cons tag buf =>
      obtain ⟨rfl, -⟩ := cons.inj hrest
      rw [decode, if_neg (by decide), if_pos rfl] at h
      dsimp only at h
      split_ifs at h
      cases h

end FallbackReply

end Favonius.Proto
