import Favonius.Lib.DirResolve
import Favonius.Lib.UnixPath
import Mathlib.Data.List.DropRight

/-!
# Paths as text, and changes of a tree

A path as it is handed to the system is walked segment by segment from the root or the working
directory.  Directories are created and files are opened below directories that are there; what
was there before stays.
-/

namespace DirTree

open Function UnixPath List Option

abbrev Location := List Name

def segmentOf (chars : List Char) : Segment Name :=
  if chars = ['.', '.'] then .up
  else if h : IsName chars then .name ⟨chars, h⟩
  else .cur

/-- The segments after the leading `/` or the leading `.` component. -/
structure RawPath where
  absolute : Bool
  leadingDot : Bool
  body : List (Segment Name)
  deriving DecidableEq

namespace RawPath

def ofText (text : List Char) : RawPath :=
  let segments := text.splitOn '/'
  if text.head? = some '/' then ⟨true, false, segments.tail.map segmentOf⟩
  else if segments.head? = some ['.'] then ⟨false, true, segments.tail.map segmentOf⟩
  else ⟨false, false, segments.map segmentOf⟩

variable (p : RawPath)

def segments : List (Segment Name) := if p.leadingDot then .cur :: p.body else p.body

def trimmed : List (Segment Name) := p.body.rdropWhile (· = .cur)

def IsEmpty : Prop := p.absolute = false ∧ p.leadingDot = false ∧ p.trimmed = []

instance : Decidable p.IsEmpty := inferInstanceAs (Decidable (_ ∧ _ ∧ _))

def parent : Option RawPath :=
  if p.trimmed ≠ [] then some { p with body := p.trimmed.dropLast.rdropWhile (· = .cur) }
  else if p.leadingDot then some ⟨false, false, []⟩
  else none

def fileName : Option Name :=
  match p.trimmed.getLast? with
  | some (.name n) => some n
  | _ => none

lemma exists_rdropWhile (segs : List (Segment Name)) :
    ∃ k, segs = segs.rdropWhile (· = .cur) ++ List.replicate k .cur := by
  refine ⟨(segs.rtakeWhile (· = .cur)).length, ?_⟩
  have hcurs : segs.rtakeWhile (· = .cur) =
      List.replicate (segs.rtakeWhile (· = .cur)).length .cur := by
    apply eq_replicate_iff.mpr
    refine ⟨rfl, fun seg hseg => ?_⟩
    simpa using mem_rtakeWhile_imp hseg
  rw [← hcurs, rdropWhile_append_rtakeWhile]

variable {p} {q : RawPath} {n : Name}

lemma fileName_eq_some_iff :
    p.fileName = some n ↔ p.trimmed.getLast? = some (.name n) := by
  unfold fileName
  split
  · rename_i k hk
    rw [hk]
    simp
  · rename_i hk
    simp only [reduceCtorEq, false_iff]
    exact hk n

lemma parent_eq_some (hname : p.fileName = some n) (hparent : p.parent = some q) :
    q = { p with body := p.trimmed.dropLast.rdropWhile (· = .cur) } := by
  have hne : p.trimmed ≠ [] := by
    intro hnil
    rw [fileName_eq_some_iff, hnil] at hname
    cases hname
  rw [parent, if_pos hne] at hparent
  exact (some.inj hparent).symm

/-- The path is its parent and its last name, with dots around the name. -/
theorem body_of_parent (hparent : p.parent = some q) (hname : p.fileName = some n) :
    q.absolute = p.absolute ∧ q.leadingDot = p.leadingDot ∧
      ∃ i j, p.body = q.body ++ (List.replicate i .cur ++ .name n :: List.replicate j .cur) ∧
        (p.trimmed = p.body → j = 0) := by
  obtain ⟨init, hinit⟩ := getLast?_eq_some_iff.mp (fileName_eq_some_iff.mp hname)
  have hlast := parent_eq_some hname hparent
  rw [hinit, dropLast_concat] at hlast
  subst hlast
  obtain ⟨j, hj⟩ := exists_rdropWhile p.body
  obtain ⟨i, hi⟩ := exists_rdropWhile init
  refine ⟨rfl, rfl, i, j, ?_, ?_⟩
  swap
  · intro htrimmed
    have hlen : p.body.length = (p.trimmed ++ List.replicate j Segment.cur).length :=
      congrArg List.length hj
    rw [htrimmed, length_append, length_replicate] at hlen
    omega
  calc p.body = init ++ .name n :: List.replicate j .cur := by
        rw [hj]
        change p.trimmed ++ _ = _
        rw [hinit, append_assoc, singleton_append]
    _ = init.rdropWhile (· = .cur) ++ (List.replicate i .cur ++
        .name n :: List.replicate j .cur) := by
        rw [← append_assoc, ← hi]

lemma length_parent (hparent : p.parent = some q) (hname : p.fileName = some n) :
    q.body.length < p.body.length := by
  obtain ⟨-, -, i, j, hbody, -⟩ := body_of_parent hparent hname
  rw [hbody]
  simp only [length_append, length_cons]
  omega

end RawPath

namespace Fs

variable {α : Type*} (fs : Fs Name (List α)) {loc : Location}

def maxLinks : ℕ := 40

def resolve (cwd : Location) (p : RawPath) (create : Bool) : Except Errno Location :=
  if p.IsEmpty then .error .notFound
  else fs.walk create maxLinks (if p.absolute then [] else cwd) p.segments

def canonicalize (cwd : Location) (p : RawPath) : Except Errno Location := fs.resolve cwd p false

def isDir (cwd : Location) (p : RawPath) : Bool :=
  match fs.canonicalize cwd p with
  | .ok loc => fs.isDirAt loc
  | .error _ => false

section Changes

variable (may : Location → Bool)

end Changes

def Extends (fs fs' : Fs Name (List α)) : Prop :=
  ∀ loc node, fs.node loc = some node → fs'.node loc = some node

lemma Extends.refl : Extends fs fs := fun _ _ => id

variable {fs}

lemma Extends.trans {fs' fs'' : Fs Name (List α)} (h : Extends fs fs') (h' : Extends fs' fs'') :
    Extends fs fs'' :=
  fun loc node hnode => h' loc node (h loc node hnode)

variable {cwd : Location} {p : RawPath}

variable {fs' : Fs Name (List α)}

lemma Extends.isDirAt (h : Extends fs fs') (hdir : fs.isDirAt loc = true) :
    fs'.isDirAt loc = true :=
  isDirAt_iff.mpr (h loc _ (isDirAt_iff.mp hdir))

variable {r : Location} {segs : List (Segment Name)}

lemma Extends.walkWith (h : Extends fs fs') (create : Bool)
    {next next' : Location → List (Segment Name) → Except Errno Location}
    (hnext : ∀ loc segs r, next loc segs = .ok r → next' loc segs = .ok r)
    (hwalk : fs.walkWith false next loc segs = .ok r) :
    fs'.walkWith create next' loc segs = .ok r := by
  induction segs generalizing loc with
  | nil => exact hwalk
  | cons seg rest ih =>
    cases seg with
    | cur | up =>
      unfold Fs.walkWith at hwalk ⊢
      split at hwalk
      · rename_i hdir
        rw [if_pos (h.isDirAt hdir)]
        exact ih hwalk
      · cases hwalk
    | name n =>
      unfold Fs.walkWith at hwalk ⊢
      split at hwalk
      · rename_i hdir
        rw [if_pos (h.isDirAt hdir)]
        cases hnode : fs.node (loc ++ [n]) with
        | none => simp [hnode] at hwalk
        | some node =>
          rw [hnode] at hwalk
          rw [h _ _ hnode]
          cases node with
          | dir | file | special => exact ih hwalk
          | link target => exact hnext _ _ _ hwalk
      · cases hwalk

lemma Extends.walk (h : Extends fs fs') (create : Bool) {links : ℕ}
    (hwalk : fs.walk false links loc segs = .ok r) : fs'.walk create links loc segs = .ok r := by
  induction links generalizing loc r segs with
  | zero => exact h.walkWith create (fun _ _ _ hnext => by cases hnext) hwalk
  | succ links ih => exact h.walkWith create (fun _ _ _ hnext => ih hnext) hwalk

lemma Extends.resolve (h : Extends fs fs') (create : Bool)
    (hresolve : fs.canonicalize cwd p = .ok r) : fs'.resolve cwd p create = .ok r := by
  unfold canonicalize Fs.resolve at hresolve
  unfold Fs.resolve
  split at hresolve
  · cases hresolve
  · rename_i hne
    rw [if_neg hne]
    exact h.walk create hresolve

end Fs

end DirTree
