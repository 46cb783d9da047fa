import Mathlib.Tactic

/-!
# Unix paths

Paths as text and as components: empty segments and inner `.` segments vanish,
a leading `/` is the root.  A `LexicalPath` has no `.` and no `..`; resolving the
components of a path lexically gives one, and its text reads back as itself.
-/

namespace UnixPath

open List

def IsName (segment : List Char) : Prop :=
  segment ≠ [] ∧ segment ≠ ['.'] ∧ segment ≠ ['.', '.'] ∧ '/' ∉ segment

instance (segment : List Char) : Decidable (IsName segment) :=
  inferInstanceAs (Decidable (_ ∧ _))

structure Name where
  chars : List Char
  isName : IsName chars
  deriving DecidableEq

inductive Component where
  | rootDir
  | curDir
  | parentDir
  | normal (name : Name)
  deriving DecidableEq

/-- What a segment contributes; `.` counts only at the start of a relative path. -/
def classify (segment : List Char) : Option Component :=
  if segment = ['.', '.'] then some .parentDir
  else if h : IsName segment then some (.normal ⟨segment, h⟩)
  else none

def anchor (path : List Char) : List Component :=
  if path.head? = some '/' then [.rootDir]
  else if (path.splitOn '/').head? = some ['.'] then [.curDir]
  else []

def components (path : List Char) : List Component :=
  anchor path ++ (path.splitOn '/').filterMap classify

def StartsWith (path base : List Component) : Prop := base <+: path

instance (path base : List Component) : Decidable (StartsWith path base) :=
  inferInstanceAs (Decidable (base <+: path))

def join (base path : List Char) : List Char :=
  if path.head? = some '/' then path
  else if base = [] ∨ base.getLast? = some '/' then base ++ path
  else base ++ '/' :: path

variable {a : List Char}

structure LexicalPath where
  absolute : Bool
  names : List Name
  deriving DecidableEq

namespace LexicalPath

def components (p : LexicalPath) : List Component :=
  (if p.absolute then [.rootDir] else []) ++ p.names.map .normal

def text (p : LexicalPath) : List Char :=
  (if p.absolute then ['/'] else []) ++ ['/'].intercalate (p.names.map Name.chars)

/-- `..` drops the last name; above the root there is nothing to drop. -/
def push (p : LexicalPath) : Component → LexicalPath
  | .rootDir => ⟨true, []⟩
  | .curDir => p
  | .parentDir => ⟨p.absolute, p.names.dropLast⟩
  | .normal name => ⟨p.absolute, p.names ++ [name]⟩

end LexicalPath

def lexicalNormalize (path : List Component) : LexicalPath :=
  path.foldl LexicalPath.push ⟨false, []⟩

variable (names : List Name) (p : LexicalPath)

lemma splitOn_intercalate_names {names : List Name} (h : names ≠ []) :
    (['/'].intercalate (names.map Name.chars)).splitOn '/' = names.map Name.chars := by
  apply splitOn_intercalate
  · intro segment hsegment
    obtain ⟨name, -, rfl⟩ := List.mem_map.mp hsegment
    exact name.isName.2.2.2
  · simpa using h

end UnixPath
