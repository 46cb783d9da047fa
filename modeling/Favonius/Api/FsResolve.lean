import Favonius.Api.FsListing
import Favonius.Lib.PosixFs

/-!
# Paths of the filesystem endpoints

A requested path is resolved up to its nearest ancestor that the system can resolve, the other
names are put behind it again, and the result must be below the root of the daemon.  The
system follows a limited number of links for each path it is given.
-/

namespace Favonius.Api

open DirTree Client.FsTree List Fs

section Resolve

variable {N : Type*} [DecidableEq N]
variable (text : NameText N) (disk : Disk N) (links : ℕ)

def segment : Segment UnixPath.Name → Segment N
  | .cur => .cur
  | .up => .up
  | .name n => .name (text.ofText n)

def canonicalize (p : RawPath) : Except Errno (List N) :=
  disk.tree.walk false links [] (p.segments.map (segment text))

/-- The nearest ancestor that can be resolved, and the names `tail` after it.  A file name is
never `.` or `..`, so the check of the source for them always passes. -/
def resolveLoop : ℕ → RawPath → List N → Option (List N)
  | 0, _, _ => none
  | fuel + 1, existing, tail =>
    match canonicalize text disk links existing with
    | .ok resolved => some (resolved ++ tail)
    | .error _ =>
      match existing.parent, existing.fileName with
      | some parent, some n => resolveLoop fuel parent (text.ofText n :: tail)
      | _, _ => none

def resolveInRoot (destRoot : Option (List N)) (path : List Char) : Option (List N) :=
  match destRoot with
  | none => none
  | some root =>
    let requested := RawPath.ofText path
    if requested.absolute then
      (resolveLoop text disk links (requested.body.length + 1) requested []).filter (root <+: ·)
    else none

/-- `fs_list`; a path that leads nowhere has an empty listing. -/
def fsListRequest (destRoot : Option (List N)) (path : List Char) (wantHash : Bool)
    (blake3File : List N → Option String) : FsListResponse :=
  match destRoot, resolveInRoot text disk links destRoot path with
  | none, _ => fsList text disk .disabled wantHash blake3File
  | some _, none => fsList text disk .outside wantHash blake3File
  | some _, some full =>
    match disk.tree.follow links [] full with
    | .error _ => .ok []
    | .ok loc => fsList text disk (.inside loc) wantHash blake3File

inductive Strips (p : RawPath) : List N → RawPath → Prop
  | refl : Strips p [] p
  | strip {r q : RawPath} {names : List N} {n : UnixPath.Name} (hstrips : Strips p names r)
      (hparent : r.parent = some q) (hname : r.fileName = some n) :
      Strips p (text.ofText n :: names) q

/-- The path fails at the name `n`, which is looked up in what the part before it leads to. -/
def StopsAt (p : RawPath) (dir : List N) (n : N) (rest : List N) (e : Errno) : Prop :=
  ∃ r q name, Strips text p rest r ∧ r.parent = some q ∧ r.fileName = some name ∧
    text.ofText name = n ∧ canonicalize text disk links r = .error e ∧
      canonicalize text disk links q = .ok dir

def IsAbsolute (p : RawPath) : Prop := p.absolute = true ∧ p.leadingDot = false

variable {path : List Char}

variable {text disk links} {p q r : RawPath} {names : List N}

lemma IsAbsolute.parent {n : UnixPath.Name} (h : IsAbsolute p) (hparent : p.parent = some q)
    (hname : p.fileName = some n) : IsAbsolute q := by
  obtain ⟨habs, hdot, -⟩ := RawPath.body_of_parent hparent hname
  exact ⟨habs.trans h.1, hdot.trans h.2⟩

omit [DecidableEq N] in
lemma Strips.isAbsolute (h : Strips text p names q) (habs : IsAbsolute p) : IsAbsolute q := by
  induction h with
  | refl => exact habs
  | strip _ hparent hname ih => exact ih.parent hparent hname

omit [DecidableEq N] in
lemma Strips.length_le (h : Strips text p names q) :
    names.length + q.body.length ≤ p.body.length := by
  induction h with
  | refl => simp
  | strip _ hparent hname ih =>
    have hlt := RawPath.length_parent hparent hname
    rw [length_cons]
    omega

lemma canonicalize_eq (h : IsAbsolute p) :
    canonicalize text disk links p = disk.tree.walk false links [] (p.body.map (segment text)) := by
  rw [canonicalize, RawPath.segments, h.2]
  rfl

variable (text) in
omit [DecidableEq N] in
lemma map_segment_of_parent {n : UnixPath.Name} (hparent : p.parent = some q)
    (hname : p.fileName = some n) :
    ∃ i j, p.body.map (segment text) = q.body.map (segment text) ++
      (List.replicate i .cur ++ .name (text.ofText n) :: List.replicate j .cur) ∧
        (p.trimmed = p.body → j = 0) := by
  obtain ⟨-, -, i, j, hbody, hdots⟩ := RawPath.body_of_parent hparent hname
  refine ⟨i, j, ?_, hdots⟩
  rw [hbody]
  simp [segment]

variable {loc : List N}

lemma canonicalize_error_of_parent {n : UnixPath.Name} (habs : IsAbsolute p)
    (hparent : p.parent = some q) (hname : p.fileName = some n) {e : Errno}
    (he : canonicalize text disk links q = .error e) :
    canonicalize text disk links p = .error e := by
  obtain ⟨i, j, hbody, -⟩ := map_segment_of_parent text hparent hname
  rw [canonicalize_eq (habs.parent hparent hname)] at he
  rw [canonicalize_eq habs, hbody]
  exact walk_append_error he _

lemma resolveLoop_strip {e : Errno} {n : UnixPath.Name}
    (he : canonicalize text disk links r = .error e) (hparent : r.parent = some q)
    (hname : r.fileName = some n) (fuel : ℕ) :
    resolveLoop text disk links (fuel + 1) r names =
      resolveLoop text disk links fuel q (text.ofText n :: names) := by
  rw [resolveLoop, he, hparent, hname]

lemma resolveLoop_of_strips (habs : IsAbsolute p) (h : Strips text p names r) {e : Errno}
    (he : canonicalize text disk links r = .error e) (fuel : ℕ) :
    resolveLoop text disk links (names.length + fuel) p [] =
      resolveLoop text disk links fuel r names := by
  induction h generalizing fuel with
  | refl => rw [length_nil, Nat.zero_add]
  | strip hstrips hparent hname ih =>
    have hr := canonicalize_error_of_parent (hstrips.isAbsolute habs) hparent hname he
    rw [length_cons, Nat.add_assoc, Nat.add_comm 1, ih hr, resolveLoop_strip hr hparent hname]

lemma StopsAt.resolveLoop (habs : IsAbsolute p) {dir rest : List N} {n : N} {e : Errno}
    (h : StopsAt text disk links p dir n rest e) :
    resolveLoop text disk links (p.body.length + 1) p [] = some (dir ++ n :: rest) := by
  obtain ⟨r, q, name, hstrips, hparent, hname, rfl, he, hdir⟩ := h
  have hlen := hstrips.length_le
  have hlt := RawPath.length_parent hparent hname
  obtain ⟨more, hmore⟩ : ∃ more, p.body.length + 1 = rest.length + (more + 2) :=
    ⟨p.body.length - 1 - rest.length, by omega⟩
  rw [hmore, resolveLoop_of_strips habs hstrips he, resolveLoop_strip he hparent hname,
    Api.resolveLoop, hdir]

variable {root : List N}

variable {dir rest : List N} {n : N} {e : Errno}

omit [DecidableEq N] in
lemma Strips.getLast? (h : Strips text p names q) (hne : names ≠ []) :
    ∃ name, p.fileName = some name ∧ names.getLast? = some (text.ofText name) := by
  induction h with
  | refl => exact absurd rfl hne
  | strip hstrips hparent hname ih =>
    rename_i r q names name
    by_cases hnames : names = []
    · subst hnames
      cases hstrips
      exact ⟨name, hname, rfl⟩
    · obtain ⟨last, hlast, hget⟩ := ih hnames
      refine ⟨last, hlast, ?_⟩
      rw [getLast?_cons, hget]
      rfl

end Resolve

end Favonius.Api
