import Mathlib.Tactic

/-!
# Bytes read as text with losses

Bytes are read as UTF-8.  Where no character can be read, the replacement character stands
for the bytes that are skipped: the longest beginning of a character, or one byte.
-/

namespace Utf8Lossy

open List
open String (utf8EncodeChar)

def replacement : Char := '�'

def firstChar? (bytes : List UInt8) : Option Char := bytes.toByteArray.utf8DecodeChar? 0

def isContinuation (b : UInt8) : Bool := 0x80 ≤ b && b ≤ 0xbf

/-- The second byte of a character of three or four bytes, after its first byte. -/
def secondFits (first second : UInt8) : Bool :=
  if first = 0xe0 then 0xa0 ≤ second && second ≤ 0xbf
  else if first = 0xed then 0x80 ≤ second && second ≤ 0x9f
  else if first = 0xf0 then 0x90 ≤ second && second ≤ 0xbf
  else if first = 0xf4 then 0x80 ≤ second && second ≤ 0x8f
  else 0xe1 ≤ first && first ≤ 0xf3 && isContinuation second

/-- How many bytes a broken character takes. -/
def brokenLength : List UInt8 → ℕ
  | first :: second :: third :: _ =>
    if secondFits first second then if 0xf0 ≤ first && isContinuation third then 3 else 2
    else 1
  | [first, second] => if secondFits first second then 2 else 1
  | _ => 1

/-- The first argument counts the bytes that belong to the last character. -/
def scan : ℕ → List UInt8 → List Char
  | _, [] => []
  | skip + 1, _ :: rest => scan skip rest
  | 0, b :: rest =>
    match firstChar? (b :: rest) with
    | some c => c :: scan (c.utf8Size - 1) rest
    | none => replacement :: scan (brokenLength (b :: rest) - 1) rest

def decode (bytes : List UInt8) : List Char := scan 0 bytes

def encode (text : List Char) : List UInt8 := text.flatMap utf8EncodeChar

@[simp] lemma decode_nil : decode [] = [] := rfl

@[simp] lemma encode_nil : encode [] = [] := rfl

@[simp] lemma encode_cons (c : Char) (text : List Char) :
    encode (c :: text) = utf8EncodeChar c ++ encode text := rfl

lemma scan_eq_decode (skip : ℕ) (bytes : List UInt8) :
    scan skip bytes = decode (bytes.drop skip) := by
  induction skip generalizing bytes with
  | zero => rfl
  | succ skip ih =>
    cases bytes with
    | nil => rfl
    | cons b rest => exact ih rest

lemma firstChar?_encode_append (c : Char) (rest : List UInt8) :
    firstChar? (utf8EncodeChar c ++ rest) = some c := by
  rw [firstChar?, toByteArray_append]
  exact ByteArray.utf8DecodeChar?_utf8EncodeChar_append

variable {bytes : List UInt8} {c : Char}

lemma eq_append_of_firstChar? (h : firstChar? bytes = some c) :
    bytes = utf8EncodeChar c ++ bytes.drop c.utf8Size := by
  have hencode := String.toByteArray_utf8EncodeChar_of_utf8DecodeChar?_eq_some h
  have htake : utf8EncodeChar c = bytes.take c.utf8Size := by
    have hlists := congrArg (fun b : ByteArray => b.data.toList) hencode
    simpa using hlists
  rw [htake, take_append_drop]

lemma brokenLength_pos (bytes : List UInt8) : 0 < brokenLength bytes := by
  unfold brokenLength
  split
  · split_ifs <;> omega
  · split_ifs <;> omega
  · omega

lemma decode_encode_append (c : Char) (rest : List UInt8) :
    decode (utf8EncodeChar c ++ rest) = c :: decode rest := by
  have hlen := String.length_utf8EncodeChar c
  have hpos := c.utf8Size_pos
  have hfirst := firstChar?_encode_append c rest
  cases henc : utf8EncodeChar c with
  | nil =>
    rw [henc] at hlen
    exact absurd hlen hpos.ne
  | cons b bs =>
    rw [henc, cons_append] at hfirst
    rw [henc, length_cons] at hlen
    have hskip : c.utf8Size - 1 = bs.length := by omega
    rw [cons_append, decode, scan, hfirst]
    dsimp only
    rw [hskip, scan_eq_decode, drop_left]

lemma decode_of_broken (hne : bytes ≠ []) (h : firstChar? bytes = none) :
    decode bytes = replacement :: decode (bytes.drop (brokenLength bytes)) := by
  have hpos := brokenLength_pos bytes
  cases bytes with
  | nil => exact absurd rfl hne
  | cons b rest =>
    obtain ⟨k, hk⟩ := Nat.exists_eq_succ_of_ne_zero hpos.ne'
    rw [decode, scan, h, hk]
    rw [scan_eq_decode]
    rfl

/-- Bytes are empty, begin with a character or begin with a broken one. -/
theorem decode_induction {P : List UInt8 → Prop} (nil : P [])
    (char : ∀ c rest, P rest → P (utf8EncodeChar c ++ rest))
    (broken : ∀ lost rest, decode (lost ++ rest) = replacement :: decode rest → P rest →
      P (lost ++ rest)) (bytes : List UInt8) : P bytes := by
  induction hlen : bytes.length using Nat.strong_induction_on generalizing bytes with
  | _ k ih =>
    by_cases hne : bytes = []
    · rw [hne]
      exact nil
    have hpos : 0 < bytes.length := length_pos_of_ne_nil hne
    cases hfirst : firstChar? bytes with
    | some c =>
      have hsplit := eq_append_of_firstChar? hfirst
      rw [hsplit]
      apply char
      have hsize := c.utf8Size_pos
      apply ih _ _ _ rfl
      rw [length_drop]
      omega
    | none =>
      have hsplit := take_append_drop (brokenLength bytes) bytes
      have hdecode := decode_of_broken hne hfirst
      rw [← hsplit]
      apply broken
      · rw [hsplit]
        exact hdecode
      · have hbroken := brokenLength_pos bytes
        apply ih _ _ _ rfl
        rw [length_drop]
        omega

lemma decode_encode (text : List Char) : decode (encode text) = text := by
  induction text with
  | nil => rfl
  | cons c text ih => rw [encode_cons, decode_encode_append, ih]

lemma infix_of_mem_decode (hc : c ∈ decode bytes) (hread : c ≠ replacement) :
    utf8EncodeChar c <:+: bytes := by
  induction bytes using decode_induction with
  | nil => simp at hc
  | char d rest ih =>
    rw [decode_encode_append, mem_cons] at hc
    rcases hc with rfl | hc
    · exact (prefix_append _ _).isInfix
    · exact (ih hc).trans (suffix_append _ _).isInfix
  | broken lost rest hdecode ih =>
    rw [hdecode, mem_cons] at hc
    exact (ih (hc.resolve_left hread)).trans (suffix_append _ _).isInfix

lemma encode_decode {bytes : List UInt8} (h : replacement ∉ decode bytes) :
    encode (decode bytes) = bytes := by
  induction bytes using decode_induction with
  | nil => rfl
  | char c rest ih =>
    rw [decode_encode_append, mem_cons, not_or] at h
    rw [decode_encode_append, encode_cons, ih h.2]
  | broken lost rest hdecode ih =>
    rw [hdecode] at h
    exact absurd mem_cons_self h

lemma decode_eq_nil (h : decode bytes = []) : bytes = [] := by
  have hencode := @encode_decode bytes (by simp [h])
  rw [h] at hencode
  exact hencode.symm

lemma encode_injective : Function.Injective encode := by
  intro text text' h
  rw [← decode_encode text, h, decode_encode]

lemma utf8EncodeChar_of_mem {b : UInt8} (hb : b ∈ utf8EncodeChar c)
    (hascii : b.toNat < 128) : utf8EncodeChar c = [b] := by
  have hhigh : ∀ k, 128 ≤ k → k < 256 → b ≠ UInt8.ofNat k := by
    rintro k hk hlt rfl
    rw [UInt8.toNat_ofNat', Nat.mod_eq_of_lt (by omega)] at hascii
    omega
  unfold utf8EncodeChar at hb ⊢
  dsimp only at hb ⊢
  split_ifs at hb ⊢
  · rw [mem_singleton.mp hb]
  all_goals
    grind

end Utf8Lossy
