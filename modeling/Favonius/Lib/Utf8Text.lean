import Mathlib.Tactic

/-!
# Slicing text by bytes

A text is a list of characters, each of one to four bytes in UTF-8.  A byte offset
cuts the text only between two characters; slicing elsewhere is a panic, `none` here.
-/

namespace Utf8Text

def byteLength (text : List Char) : ℕ := (text.map Char.utf8Size).sum

def splitAtByte : List Char → ℕ → Option (List Char × List Char)
  | text, 0 => some ([], text)
  | [], _ + 1 => none
  | c :: text, n + 1 =>
    if c.utf8Size ≤ n + 1 then
      (splitAtByte text (n + 1 - c.utf8Size)).map fun p => (c :: p.1, p.2)
    else none

/-- `&text[start..stop]`. -/
def slice (text : List Char) (start stop : ℕ) : Option (List Char) :=
  if start ≤ stop then
    (splitAtByte text start).bind fun p => (splitAtByte p.2 (stop - start)).map Prod.fst
  else none

@[simp] lemma byteLength_nil : byteLength [] = 0 := rfl

variable (c : Char) (text rest : List Char)

@[simp] lemma byteLength_cons : byteLength (c :: text) = c.utf8Size + byteLength text := rfl

@[simp] lemma byteLength_append :
    byteLength (text ++ rest) = byteLength text + byteLength rest := by
  simp [byteLength]

@[simp] lemma splitAtByte_zero : splitAtByte text 0 = some ([], text) := by
  cases text <;> rfl

lemma splitAtByte_cons {n : ℕ} (hn : n ≠ 0) :
    splitAtByte (c :: text) n = if c.utf8Size ≤ n then
      (splitAtByte text (n - c.utf8Size)).map fun p => (c :: p.1, p.2) else none := by
  obtain ⟨k, rfl⟩ := Nat.exists_eq_succ_of_ne_zero hn
  rfl

lemma splitAtByte_append (n : ℕ) :
    splitAtByte (text ++ rest) (byteLength text + n) =
      (splitAtByte rest n).map fun p => (text ++ p.1, p.2) := by
  induction text with
  | nil => simp
  | cons c text ih =>
    have hpos := c.utf8Size_pos
    have hsub : c.utf8Size + byteLength text + n - c.utf8Size = byteLength text + n := by omega
    rw [List.cons_append, byteLength_cons, splitAtByte_cons _ _ (by omega), if_pos (by omega),
      hsub, ih, Option.map_map]
    rfl

lemma slice_append (n : ℕ) :
    slice (text ++ rest) (byteLength text) (byteLength text + n) =
      (splitAtByte rest n).map Prod.fst := by
  have hstart := splitAtByte_append text rest 0
  rw [Nat.add_zero, splitAtByte_zero, Option.map_some, List.append_nil] at hstart
  rw [slice, if_pos (Nat.le_add_right _ _), hstart, Option.bind_some, Nat.add_sub_cancel_left]

end Utf8Text
