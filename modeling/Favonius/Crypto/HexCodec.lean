import Favonius.Crypto.Grant
import Favonius.Daemon.MerkleInputs

/-!
# Keys and grants as hex digits

The decoder slices the text by bytes in twos and gives every slice to the integer parser, which
also takes a plus sign for a digit that is not there.
-/

namespace Favonius.Crypto

open ByteCodec Daemon List Utf8Text

def hexDecode (s : String) : Option Bytes :=
  let len := byteLength s.toList
  if len % 2 ≠ 0 then none
  else
    (range' 0 (len / 2)).mapM fun k =>
      (Utf8Text.slice s.toList (2 * k) (2 * k + 2)).bind fromStrRadix16

def IsHexDigit (c : Char) : Prop := (hexDigit c).isSome = true

instance : DecidablePred IsHexDigit := fun _ => inferInstanceAs (Decidable (_ = true))

variable {c : Char} {x : ℕ}

lemma digitChar_of_hexDigit (h : hexDigit c = some x) :
    x < 16 ∧ Nat.digitChar x = c.toLower := by
  have hascii : ∀ n : Fin 128, ∀ x ∈ hexDigit (Char.ofNat n),
      x < 16 ∧ Nat.digitChar x = (Char.ofNat n).toLower := by
    decide +kernel
  have hle := Char.utf8Size_eq_one_iff.mp (utf8Size_of_hexDigit h)
  have hc := hascii ⟨c.toNat, Nat.lt_succ_of_le hle⟩ x
  rw [Char.ofNat_toNat] at hc
  exact hc h

lemma hexDigit_digitChar (h : x < 16) : hexDigit (Nat.digitChar x) = some x := by
  have hall : ∀ x : Fin 16, hexDigit (Nat.digitChar x) = some x.1 := by decide +kernel
  exact hall ⟨x, h⟩

lemma hexDigits_pair (c d : Char) :
    hexDigits [c, d] = (hexDigit c).bind fun x =>
      (hexDigit d).map fun y => UInt8.ofNat (x * 16 + y) := by
  cases hc : hexDigit c with
  | none => simp [hexDigits, hc]
  | some x =>
    have hx := (digitChar_of_hexDigit hc).1
    cases hd : hexDigit d with
    | none => simp [hexDigits, hc, hd]
    | some y =>
      have hy := (digitChar_of_hexDigit hd).1
      simp [hexDigits, hc, hd, show x < 256 by omega, show x * 16 + y < 256 by omega]

/-- A plus sign before a digit counts as the digit 0. -/
theorem fromStrRadix16_pair (c d : Char) :
    fromStrRadix16 [c, d] = (if c = '+' then some 0 else hexDigit c).bind fun x =>
      (hexDigit d).map fun y => UInt8.ofNat (x * 16 + y) := by
  by_cases hc : c = '+'
  · subst hc
    cases hd : hexDigit d with
    | none => simp [fromStrRadix16, hexDigits, hd]
    | some y =>
      have hy := (digitChar_of_hexDigit hd).1
      simp [fromStrRadix16, hexDigits, hd, show y < 256 by omega]
  · rw [if_neg hc, ← hexDigits_pair]
    unfold fromStrRadix16
    split
    · rename_i h
      cases h
    · rename_i h
      cases h
      exact absurd rfl hc
    · rfl

/-- The decoder character by character. -/
def decodePairs : List Char → Option Bytes
  | [] => some []
  | [_] => none
  | c :: d :: rest => (fromStrRadix16 [c, d]).bind fun b => (decodePairs rest).map (b :: ·)

variable {d : Char}

lemma utf8Size_of_fromStrRadix16 {b : UInt8} (h : fromStrRadix16 [c, d] = some b) :
    c.utf8Size = 1 ∧ d.utf8Size = 1 := by
  rw [fromStrRadix16_pair] at h
  obtain ⟨x, hx, hmap⟩ := Option.bind_eq_some_iff.mp h
  obtain ⟨y, hy, -⟩ := Option.map_eq_some_iff.mp hmap
  refine ⟨?_, utf8Size_of_hexDigit hy⟩
  split at hx
  · rename_i hc
    rw [hc]
    rfl
  · exact utf8Size_of_hexDigit hx

variable {text : List Char} {b : Bytes}

lemma byteLength_of_decodePairs (h : decodePairs text = some b) :
    byteLength text = 2 * b.length := by
  fun_induction decodePairs text generalizing b with
  | case1 =>
    cases h
    rfl
  | case2 => cases h
  | case3 c d rest ih =>
    obtain ⟨x, hx, hmap⟩ := Option.bind_eq_some_iff.mp h
    obtain ⟨xs, hxs, rfl⟩ := Option.map_eq_some_iff.mp hmap
    obtain ⟨hc, hd⟩ := utf8Size_of_fromStrRadix16 hx
    rw [byteLength_cons, byteLength_cons, ih hxs, hc, hd, length_cons]
    omega

lemma splitAtByte_wide (hc : c.utf8Size ≠ 1) (rest : List Char) :
    ((splitAtByte (c :: rest) 2).map Prod.fst).bind fromStrRadix16 = none := by
  rw [splitAtByte_cons c _ two_ne_zero]
  split_ifs with hsize
  · -- one character of two bytes is no digit
    have htwo : 2 - c.utf8Size = 0 := by
      have hpos := c.utf8Size_pos
      omega
    simp [htwo, fromStrRadix16_singleton hc]
  · rfl

lemma splitAtByte_pair (c d : Char) (rest : List Char) :
    ((splitAtByte (c :: d :: rest) 2).map Prod.fst).bind fromStrRadix16 =
      fromStrRadix16 [c, d] := by
  by_cases hsizes : c.utf8Size = 1 ∧ d.utf8Size = 1
  · simp [splitAtByte, hsizes]
  have hnone : fromStrRadix16 [c, d] = none := by
    rw [Option.eq_none_iff_forall_ne_some]
    exact fun b hb => hsizes (utf8Size_of_fromStrRadix16 hb)
  rw [hnone]
  by_cases hc : c.utf8Size = 1
  · have hd : ¬d.utf8Size ≤ 1 := by
      have hpos := d.utf8Size_pos
      omega
    simp [splitAtByte, hc, hd]
  · exact splitAtByte_wide hc _

lemma mapM_slices (n i : ℕ) (done rest : List Char)
    (hdone : byteLength done = 2 * i) (hrest : byteLength rest = 2 * n) :
    ((range' i n).mapM fun k =>
      (Utf8Text.slice (done ++ rest) (2 * k) (2 * k + 2)).bind fromStrRadix16) =
      decodePairs rest := by
  induction n generalizing i done rest with
  | zero =>
    cases rest with
    | nil => rfl
    | cons c rest =>
      have hpos := c.utf8Size_pos
      rw [byteLength_cons] at hrest
      omega
  | succ n ih =>
    have hslice := Utf8Text.slice_append done rest 2
    rw [hdone] at hslice
    rw [range'_succ, mapM_cons, hslice]
    rcases rest with - | ⟨c, - | ⟨d, rest⟩⟩
    · cases hrest
    · have hc : c.utf8Size ≠ 1 := by
        rw [byteLength_cons, byteLength_nil] at hrest
        omega
      rw [splitAtByte_wide hc]
      rfl
    · rw [splitAtByte_pair, decodePairs]
      cases h : fromStrRadix16 [c, d] with
      | none => rfl
      | some b =>
        obtain ⟨hc, hd⟩ := utf8Size_of_fromStrRadix16 h
        have hnext := ih (i + 1) (done ++ [c, d]) rest
          (by simp [hdone, hc, hd]; omega) (by simp [hc, hd] at hrest; omega)
        rw [append_assoc, cons_append, cons_append, nil_append] at hnext
        rw [hnext]
        cases decodePairs rest <;> rfl

lemma hexDecode_eq (s : String) : hexDecode s = decodePairs s.toList := by
  unfold hexDecode
  dsimp only
  split_ifs with hodd
  · cases h : decodePairs s.toList with
    | none => rfl
    | some b =>
      rw [byteLength_of_decodePairs h] at hodd
      omega
  · exact mapM_slices _ 0 [] s.toList rfl (by omega)

/-- Hex digits, but for plus signs in the first place of a pair. -/
def DigitsOrSigns (text : List Char) : Prop :=
  text.length % 2 = 0 ∧ ∀ i c, text[i]? = some c → IsHexDigit c ∨ c = '+' ∧ i % 2 = 0

lemma exists_fromStrRadix16_iff :
    (∃ b, fromStrRadix16 [c, d] = some b) ↔ (IsHexDigit c ∨ c = '+') ∧ IsHexDigit d := by
  rw [fromStrRadix16_pair, IsHexDigit, IsHexDigit]
  by_cases hc : c = '+'
  · cases hexDigit d <;> simp [hc]
  · cases hexDigit c <;> cases hexDigit d <;> simp [hc]

lemma exists_decodePairs_iff (text : List Char) :
    (∃ b, decodePairs text = some b) ↔ DigitsOrSigns text := by
  fun_induction decodePairs text with
  | case1 => simp [DigitsOrSigns]
  | case2 => simp [DigitsOrSigns]
  | case3 c d rest ih =>
    constructor
    · rintro ⟨b, h⟩
      obtain ⟨x, hx, hmap⟩ := Option.bind_eq_some_iff.mp h
      obtain ⟨xs, hxs, -⟩ := Option.map_eq_some_iff.mp hmap
      obtain ⟨hc, hd⟩ := exists_fromStrRadix16_iff.mp ⟨x, hx⟩
      obtain ⟨hlen, hall⟩ := ih.mp ⟨xs, hxs⟩
      refine ⟨(Nat.add_mod_right rest.length 2).trans hlen, ?_⟩
      rintro (- | - | i) e he
      · cases he
        simpa using hc
      · cases he
        exact .inl hd
      · exact (hall i e he).imp_right (And.imp_right (Nat.add_mod_right i 2).trans)
    · rintro ⟨hlen, hall⟩
      have hc := hall 0 c rfl
      have hd := hall 1 d rfl
      obtain ⟨x, hx⟩ := exists_fromStrRadix16_iff.mpr
        ⟨hc.imp_right And.left, hd.resolve_right (by simp)⟩
      obtain ⟨xs, hxs⟩ := ih.mpr ⟨(Nat.add_mod_right rest.length 2).symm.trans hlen,
        fun i e he => (hall (i + 2) e he).imp_right
          (And.imp_right (Nat.add_mod_right i 2).symm.trans)⟩
      exact ⟨x :: xs, by rw [hx, hxs]; rfl⟩

lemma decodePairs_hexEncode (b : Bytes) : decodePairs (hexEncode b).toList = some b := by
  rw [hexEncode, String.toList_ofList]
  induction b with
  | nil => rfl
  | cons x b ih =>
    have hx := x.toNat_lt
    have hhigh := hexDigit_digitChar (x := x.toNat / 16) (by omega)
    have hlow := hexDigit_digitChar (x := x.toNat % 16) (Nat.mod_lt _ (by norm_num))
    have hplus : Nat.digitChar (x.toNat / 16) ≠ '+' := by
      intro h
      rw [h] at hhigh
      cases hhigh
    rw [flatMap_cons, cons_append, cons_append, nil_append, decodePairs, ih, fromStrRadix16_pair,
      if_neg hplus, hhigh, hlow]
    simp only [Option.bind_some, Option.map_some, Nat.div_add_mod', UInt8.ofNat_toNat]

def lowerCase (s : String) : String := String.ofList (s.toList.map Char.toLower)

lemma hexEncode_of_decodePairs (h : decodePairs text = some b)
    (hdigits : ∀ c ∈ text, IsHexDigit c) : hexEncode b = String.ofList (text.map Char.toLower) := by
  rw [hexEncode]
  congr 1
  fun_induction decodePairs text generalizing b with
  | case1 =>
    cases h
    rfl
  | case2 => cases h
  | case3 c d rest ih =>
    obtain ⟨x, hx, hmap⟩ := Option.bind_eq_some_iff.mp h
    obtain ⟨xs, hxs, rfl⟩ := Option.map_eq_some_iff.mp hmap
    obtain ⟨y, hy⟩ := Option.isSome_iff_exists.mp (hdigits c (by simp))
    obtain ⟨z, hz⟩ := Option.isSome_iff_exists.mp (hdigits d (by simp))
    have hc : c ≠ '+' := by
      rintro rfl
      cases hy
    rw [fromStrRadix16_pair, if_neg hc, hy, hz] at hx
    obtain ⟨hy16, hylow⟩ := digitChar_of_hexDigit hy
    obtain ⟨hz16, hzlow⟩ := digitChar_of_hexDigit hz
    cases hx
    rw [flatMap_cons, ih hxs fun e he => hdigits e (by simp [he]), map_cons, map_cons, ← hylow,
      ← hzlow, UInt8.toNat_ofNat_of_lt' (show y * 16 + z < 256 by omega),
      show (y * 16 + z) / 16 = y by omega, show (y * 16 + z) % 16 = z by omega]
    rfl

/-- An even number of hex digits. -/
def HexText (s : String) : Prop := s.toList.length % 2 = 0 ∧ ∀ c ∈ s.toList, IsHexDigit c

structure HexExact (s : String) : Prop where
  succeeds : (∃ b, hexDecode s = some b) ↔ HexText s
  spelling : ∀ b, hexDecode s = some b → hexEncode b = lowerCase s

/-- What is encoded is decoded again, and a text is decoded exactly if it is an even number of
hex digits, unless some pairs of it have a plus sign for their first digit. -/
theorem hex_codec_exact_iff (b : Bytes) (s : String) : hexDecode (hexEncode b) = some b ∧
    (HexExact s ↔ ¬('+' ∈ s.toList ∧ DigitsOrSigns s.toList)) := by
  refine ⟨(hexDecode_eq _).trans (decodePairs_hexEncode b), ?_⟩
  constructor
  · rintro ⟨hsucceeds, -⟩ ⟨hplus, hsigns⟩
    rw [hexDecode_eq, exists_decodePairs_iff] at hsucceeds
    have hdigit := (hsucceeds.mp hsigns).2 '+' hplus
    exact absurd hdigit (by decide)
  · intro hnot
    have hdigits : DigitsOrSigns s.toList → HexText s := by
      rintro ⟨hlen, hall⟩
      refine ⟨hlen, fun c hc => ?_⟩
      obtain ⟨i, hi⟩ := getElem?_of_mem hc
      rcases hall i c hi with hdigit | ⟨rfl, -⟩
      · exact hdigit
      · exact absurd ⟨hc, hlen, hall⟩ hnot
    refine ⟨?_, fun b hb => ?_⟩
    · rw [hexDecode_eq, exists_decodePairs_iff]
      refine ⟨hdigits, fun h => ⟨h.1, fun i c hi => .inl (h.2 c (mem_of_getElem? hi))⟩⟩
    · rw [hexDecode_eq] at hb
      exact hexEncode_of_decodePairs hb (hdigits ((exists_decodePairs_iff _).mp ⟨b, hb⟩)).2

/-- Two spellings of one byte. -/
theorem plus_sign_is_decoded :
    hexDecode "+f" = some [15] ∧ hexDecode "0f" = some [15] ∧ ¬HexExact "+f" := by
  have hdecode : hexDecode "+f" = some [15] := by decide +kernel
  refine ⟨hdecode, by decide +kernel, fun h => ?_⟩
  have hdigit := (h.succeeds.mp ⟨_, hdecode⟩).2 '+' (by decide +kernel)
  exact absurd hdigit (by decide)

end Favonius.Crypto
