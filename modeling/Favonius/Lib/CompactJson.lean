import Favonius.Lib.Utf8Text

/-!
# Compact JSON texts

The text a JSON serializer writes without white space.  Values are built as texts from
the inside out: an array or an object is given the texts of its items.
-/

namespace CompactJson

open Utf8Text List

def escape (c : Char) : List Char :=
  if c = '\"' then ['\\', '\"']
  else if c = '\\' then ['\\', '\\']
  else if c = '\n' then ['\\', 'n']
  else if c = '\r' then ['\\', 'r']
  else if c = '\t' then ['\\', 't']
  else if c = '\x08' then ['\\', 'b']
  else if c = '\x0c' then ['\\', 'f']
  else if c.toNat < 32 then
    ['\\', 'u', '0', '0', Nat.digitChar (c.toNat / 16), Nat.digitChar (c.toNat % 16)]
  else [c]

def str (s : String) : List Char := '\"' :: s.toList.flatMap escape ++ ['\"']

def num (n : ℕ) : List Char := Nat.toDigits 10 n

def bool (b : Bool) : List Char := if b then "true".toList else "false".toList

def orNull : Option (List Char) → List Char
  | some value => value
  | none => "null".toList

def arr (items : List (List Char)) : List Char := '[' :: [','].intercalate items ++ [']']

def entry (name : String) (value : List Char) : List Char := str name ++ ':' :: value

def obj (members : List (String × List Char)) : List Char :=
  '\x7b' :: [','].intercalate (members.map fun m => entry m.1 m.2) ++ ['\x7d']

variable {items : List (List Char)} {members : List (String × List Char)}

/-- Every item of a sequence pays for one comma, the last one for a bracket. -/
theorem byteLength_intercalate (h : items ≠ []) :
    byteLength ([','].intercalate items) + 1 = (items.map fun t => byteLength t + 1).sum := by
  induction items with
  | nil => exact absurd rfl h
  | cons item items ih =>
    cases items with
    | nil => simp
    | cons next items =>
      have hrest := ih (cons_ne_nil next items)
      have hcomma : byteLength [','] = 1 := rfl
      rw [intercalate_cons_cons, byteLength_append, byteLength_append, hcomma,
        map_cons, sum_cons, ← hrest]
      omega

lemma byteLength_arr (h : items ≠ []) :
    byteLength (arr items) = (items.map fun t => byteLength t + 1).sum + 1 := by
  have hitems := byteLength_intercalate h
  have hopen : Char.utf8Size '[' = 1 := rfl
  have hclose : byteLength [']'] = 1 := rfl
  rw [arr, byteLength_append, byteLength_cons, hopen, hclose, ← hitems]
  omega

lemma byteLength_obj (h : members ≠ []) :
    byteLength (obj members) =
      (members.map fun m => byteLength (entry m.1 m.2) + 1).sum + 1 := by
  have hmembers := byteLength_intercalate (mt map_eq_nil_iff.mp h :
    members.map (fun m => entry m.1 m.2) ≠ [])
  have hopen : Char.utf8Size '\x7b' = 1 := rfl
  have hclose : byteLength ['\x7d'] = 1 := rfl
  rw [map_map] at hmembers
  rw [obj, byteLength_append, byteLength_cons, hopen, hclose]
  simp only [Function.comp_def] at hmembers
  omega

lemma byteLength_obj_append (h : members ≠ []) (more : List (String × List Char)) :
    byteLength (obj (members ++ more)) =
      byteLength (obj members) + (more.map fun m => byteLength (entry m.1 m.2) + 1).sum := by
  rw [byteLength_obj h, byteLength_obj (by simp [h]), map_append, sum_append]
  omega

lemma byteLength_num (n : ℕ) : byteLength (num n) = (Nat.toDigits 10 n).length := by
  have hdigits : ∀ c ∈ Nat.toDigits 10 n, Char.utf8Size c = 1 := by
    intro c hc
    have hdigit := Nat.isDigit_of_mem_toDigits (by omega) le_rfl hc
    rw [Char.isDigit, Bool.and_eq_true, decide_eq_true_eq, decide_eq_true_eq] at hdigit
    apply Char.utf8Size_eq_one_iff.mpr
    exact UInt32.le_trans hdigit.2 (by decide)
  rw [num, byteLength, map_congr_left hdigits, map_const', sum_replicate]
  simp

end CompactJson
