import Favonius.Client.SyncPlan
import Favonius.Crypto.SignedMessages
import Favonius.Lib.DirTree
import Favonius.Lib.UnixPath
import Mathlib.Data.List.DropRight

/-!
# The walk of a source tree

Glob filters, the recursive walk that collects the regular files of a tree, and the paths of the
files at the destination.  The names of a tree are arbitrary; they become text only in the
relative paths, and a name that is not text is rendered with losses there.
-/

namespace Favonius.Client.FsTree

open ByteCodec DirTree UnixPath Crypto List Option Fs Volume

/-! ## Glob patterns -/

inductive Tok where
  | lit (c : UInt8)
  | any
  | star
  | doubleStar
  | cls (negate : Bool) (ranges : List (UInt8 × UInt8))
  deriving DecidableEq

def slash : UInt8 := 47

def classRanges : Bool → Bytes → Option (List (UInt8 × UInt8) × Bytes)
  | _, [] => none
  | first, c :: rest =>
    -- a bracket in the first place is a literal
    if c = 93 ∧ first = false then some ([], rest)
    else
      match rest with
      | dash :: hi :: rest' =>
        if dash = 45 ∧ hi ≠ 93 then
          (classRanges false rest').map fun p => ((c, hi) :: p.1, p.2)
        else (classRanges false (dash :: hi :: rest')).map fun p => ((c, c) :: p.1, p.2)
      | rest => (classRanges false rest).map fun p => ((c, c) :: p.1, p.2)

def parseClass (pat : Bytes) : Option (Tok × Bytes) :=
  let negate := decide (pat.head? = some 33 ∨ pat.head? = some 94)
  (classRanges true (if negate then pat.tail else pat)).map fun p => (.cls negate p.1, p.2)

def token (c : UInt8) (rest : Bytes) : Tok × Bytes :=
  if c = 42 then
    if rest.head? = some 42 then (.doubleStar, rest.dropWhile (· = 42)) else (.star, rest)
  else if c = 63 then (.any, rest)
  else if c = 91 then (parseClass rest).getD (.lit c, rest)
  else (.lit c, rest)

/-- Every token takes a byte, so a pattern has no more tokens than bytes. -/
def tokens : ℕ → Bytes → List Tok
  | _, [] => []
  | 0, _ => []
  | fuel + 1, c :: rest => (token c rest).1 :: tokens fuel (token c rest).2

def tokenize (pat : Bytes) : List Tok := tokens pat.length pat

def Tok.takes : Tok → UInt8 → Bool
  | .lit c, b => b == c
  | .any, b => b != slash
  | .star, b => b != slash
  | .doubleStar, _ => true
  | .cls negate ranges, b => (ranges.any fun r => r.1 ≤ b && b ≤ r.2) != negate && b != slash

def Tok.repeats : Tok → Bool
  | .star | .doubleStar => true
  | _ => false

/-- The row of a token from the row of the tokens after it, from the end of the text: `next` says
which suffixes the later tokens match, `skip` which ones they match without the next one. -/
def fillRow (t : Tok) (skip : Bytes → Bool) : Bytes → List Bool → List Bool
  | [], next => [t.repeats && next.headD false || skip []]
  | b :: text, next =>
    let cur := fillRow t skip text next.tail
    let cell :=
      if t.repeats then next.headD false || t.takes b && cur.headD false
      else t.takes b && next.tail.headD false
    (cell || skip (b :: text)) :: cur

def globRow : List Tok → Bytes → List Bool
  | [], text => List.replicate text.length false ++ [true]
  | .doubleStar :: .lit c :: toks, text =>
    -- `**/` may also match no directory at all
    fillRow .doubleStar (fun rest => c == slash && (globRow toks rest).headD false) text
      (globRow (.lit c :: toks) text)
  | t :: toks, text => fillRow t (fun _ => false) text (globRow toks text)

def globToks (toks : List Tok) (text : Bytes) : Bool := (globRow toks text).headD false

def globSegment (pat text : Bytes) : Bool := globToks (tokenize pat) text

def bytesOf (text : List Char) : Bytes := utf8 (String.ofList text)

/-- A pattern without a separator is also matched against the last name. -/
def globMatch (pattern text : List Char) : Bool :=
  let base := (text.splitOn '/').getLastD text
  ('/' ∉ pattern && globSegment (bytesOf pattern) (bytesOf base)) ||
    globSegment (bytesOf pattern) (bytesOf text)

/-! ## Filters -/

structure Filters where
  includes : List (List Char)
  excludes : List (List Char)
  deriving DecidableEq

def isWhitespace (c : Char) : Bool :=
  (9 ≤ c.toNat && c.toNat ≤ 13) || (0x2000 ≤ c.toNat && c.toNat ≤ 0x200a) ||
    c.toNat ∈ [0x20, 0x85, 0xa0, 0x1680, 0x2028, 0x2029, 0x202f, 0x205f, 0x3000]

def trim (s : List Char) : List Char := (s.dropWhile isWhitespace).rdropWhile isWhitespace

def splitPatterns : Option (List Char) → List (List Char)
  | none => []
  | some s => ((s.splitOn ',').map trim).filter (· ≠ [])

def Filters.new (includes excludes : Option (List Char)) : Filters :=
  ⟨splitPatterns includes, splitPatterns excludes⟩

/-- A path that is excluded is not accepted, whatever includes it. -/
def Filters.accepts (f : Filters) (rel : RelPath) : Bool :=
  if f.excludes.any (globMatch · rel) then false
  else f.includes.isEmpty || f.includes.any (globMatch · rel)

/-! ## Paths -/

structure NameText (N : Type*) where
  /-- The name inside a path that is opened. -/
  raw : N → List Char
  lossy : N → Name
  ofText : Name → N
  lossy_ofText : ∀ n, lossy (ofText n) = n
  le : N → N → Bool

def relText (names : List Name) : RelPath := intercalate ['/'] (names.map Name.chars)

def joinDest (base rel : List Char) : Option (List Char) :=
  if rel = [] then none
  else if (rel.splitOn '/').any fun part => part = [] ∨ part = ['.'] ∨ part = ['.', '.'] then none
  else some (base.rdropWhile (· = '/') ++ '/' :: rel)

/-! ## The walk -/

structure FileMeta where
  size : UInt64
  modified : Option ℤ
  deriving DecidableEq

def mtimeSecs (m : FileMeta) : ℤ :=
  match m.modified with
  | some t => max t 0
  | none => 0

structure Disk (N : Type*) [DecidableEq N] where
  tree : Volume N FileMeta
  readable : List N → Bool

structure Found (N : Type*) where
  out : List TreeEntry
  seen : List (List N)

section Walk

variable {N : Type*} [DecidableEq N]
variable (text : NameText N) (disk : Disk N) (links : ℕ) (root : List N) (rootText : List Char)
variable (filters : Filters)

def metadata (path : List N) : Except Errno (Node N FileMeta) :=
  match disk.tree.follow links root path with
  | .error e => .error e
  | .ok loc =>
    match disk.tree.node loc with
    | none => .error .notFound
    | some node => .ok node

def symlinkMetadata (dir : List N) (n : N) : Except Errno (Node N FileMeta) :=
  match disk.tree.follow links root dir with
  | .error e => .error e
  | .ok loc =>
    if disk.tree.isDirAt loc then
      match disk.tree.node (loc ++ [n]) with
      | none => .error .notFound
      | some node => .ok node
    else .error .notDir

def relativeSlashPath (path : List N) : RelPath := relText (path.map text.lossy)

def absPath (path : List N) : List Char := path.foldl (fun p n => join p (text.raw n)) rootText

def isSymlink : Node N FileMeta → Bool
  | .link _ => true
  | _ => false

/-- A link to a directory is not entered; a link that leads nowhere is no error. -/
def visit (descend : List N → Found N → Except Errno (Found N)) (canonical dir : List N)
    (found : Found N) (n : N) : Except Errno (Found N) :=
  match disk.tree.node (canonical ++ [n]) with
  | none => .error .notFound
  | some linkMeta =>
    match metadata disk links root (dir ++ [n]) with
    | .error e => if isSymlink linkMeta then .ok found else .error e
    | .ok .dir => if isSymlink linkMeta then .ok found else descend (dir ++ [n]) found
    | .ok (.file m) =>
      let rel := relativeSlashPath text (dir ++ [n])
      if filters.accepts rel then
        .ok { found with
          out := found.out ++ [⟨absPath text rootText (dir ++ [n]), rel, m.size, mtimeSecs m⟩] }
      else .ok found
    | .ok _ => .ok found

/-- The first argument bounds the depth. -/
def walkInner : ℕ → List N → Found N → Except Errno (Found N)
  | 0, _, _ => .error .loop
  | fuel + 1, dir, found =>
    match disk.tree.follow links root dir with
    | .error e => .error e
    | .ok canonical =>
      if canonical ∈ found.seen then .ok found
      else if disk.readable canonical then
        ((disk.tree.names canonical).insertionSort (text.le · ·)).foldlM
          (visit text disk links root rootText filters (walkInner fuel) canonical dir)
          { found with seen := canonical :: found.seen }
      else .error .denied

def walk : Except Errno (List TreeEntry) :=
  (walkInner text disk links root rootText filters (disk.tree.depth + 1) [] ⟨[], []⟩).map
    fun found => found.out.insertionSort (·.rel ≤ ·.rel)

/-! ## What the walk finds -/

def RegularAt (path : List N) : Prop := ∃ m, metadata disk links root path = .ok (.file m)

def IsFile (path : List N) : Prop :=
  disk.tree.node (root ++ path) ≠ none ∧ RegularAt disk links root path

def Fresh (found : Found N) (loc : List N) : Prop := ∀ s ∈ found.seen, ¬loc <+: s

/-- The directories that were entered since are below `loc`. -/
def Grows (loc : List N) (found found' : Found N) : Prop :=
  ∀ s ∈ found'.seen, s ∈ found.seen ∨ loc <+: s

def Walks (descend : List N → Found N → Except Errno (Found N)) (dir : List N) : Prop :=
  disk.tree.node (root ++ dir) = some .dir → ∀ found found', descend dir found = .ok found' →
    Grows (root ++ dir) found found'

variable {text disk links root rootText filters}
variable {found found' : Found N} {dir : List N} {n : N}

omit [DecidableEq N] in
lemma Grows.refl (loc : List N) (found : Found N) : Grows loc found found := fun _ => .inl

variable {path : List N}

lemma metadata_of_node {node : Node N FileMeta}
    (hnode : disk.tree.node (root ++ path) = some node) (hlink : ∀ target, node ≠ .link target) :
    metadata disk links root path = .ok node := by
  have hfollow : disk.tree.follow links root path = .ok (root ++ path) := by
    apply follow_eq
    · rw [hnode]
      nofun
    · intro target htarget
      rw [hnode] at htarget
      exact hlink target (some.inj htarget)
  simp only [metadata, hfollow, hnode]

lemma metadata_of_real {node : Node N FileMeta}
    (hnode : disk.tree.node (root ++ path) = some node) (hreal : isSymlink node = false) :
    metadata disk links root path = .ok node := by
  apply metadata_of_node hnode
  rintro target rfl
  cases hreal

variable {descend : List N → Found N → Except Errno (Found N)}

lemma visit_grows (hdescend : Walks disk root descend (dir ++ [n]))
    (hvisit : visit text disk links root rootText filters descend (root ++ dir) dir found n =
      .ok found') : Grows (root ++ (dir ++ [n])) found found' := by
  unfold visit at hvisit
  split at hvisit
  · cases hvisit
  rename_i linkMeta hlinkMeta
  rw [append_assoc] at hlinkMeta
  split at hvisit
  · split at hvisit
    · cases hvisit
      exact Grows.refl _ _
    · cases hvisit
  · rename_i hmeta
    split at hvisit
    · cases hvisit
      exact Grows.refl _ _
    rename_i hsymlink
    cases hmeta.symm.trans (metadata_of_real hlinkMeta (Bool.eq_false_iff.mpr hsymlink))
    exact hdescend hlinkMeta _ _ hvisit
  · dsimp only at hvisit
    split at hvisit
    · cases hvisit
      exact Grows.refl _ _
    · cases hvisit
      exact Grows.refl _ _
  · cases hvisit
    exact Grows.refl _ _

lemma visits_grow (hdescend : ∀ n, Walks disk root descend (dir ++ [n])) {ns : List N}
    (hvisits : ns.foldlM (visit text disk links root rootText filters descend (root ++ dir) dir)
      found = .ok found') :
    ∀ s ∈ found'.seen, s ∈ found.seen ∨ ∃ n ∈ ns, root ++ (dir ++ [n]) <+: s := by
  induction ns generalizing found with
  | nil =>
    cases hvisits
    exact fun s => .inl
  | cons n ns ih =>
    obtain ⟨mid, hvisit, hrest⟩ := foldlM_cons_eq_ok hvisits
    have hgrows := visit_grows (hdescend n) hvisit
    intro s hs
    rcases ih hrest s hs with hmid | ⟨n', hn', hpre⟩
    · rcases hgrows s hmid with hold | hpre
      · exact .inl hold
      · exact .inr ⟨n, mem_cons_self, hpre⟩
    · exact .inr ⟨n', mem_cons_of_mem _ hn', hpre⟩

omit [DecidableEq N] in
lemma Fresh.of_grows {k : N} (h : Fresh found (root ++ (dir ++ [k])))
    (hgrows : Grows (root ++ (dir ++ [n])) found found') (hne : n ≠ k) :
    Fresh found' (root ++ (dir ++ [k])) := by
  intro s hs hpre
  rcases hgrows s hs with hold | hbelow
  · exact h s hold hpre
  · rw [← append_assoc] at hpre hbelow
    exact hne (eq_of_prefixes hbelow hpre)

omit [DecidableEq N] in
lemma Fresh.child (h : Fresh found (root ++ dir)) (n : N) :
    Fresh { found with seen := (root ++ dir) :: found.seen } (root ++ (dir ++ [n])) := by
  intro s hs hpre
  rw [← append_assoc] at hpre
  rcases mem_cons.mp hs with rfl | hs
  · have hlen := hpre.length_le
    simp at hlen
  · exact h s hs ((prefix_append _ _).trans hpre)

lemma walks_walkInner (fuel : ℕ) (dir : List N) :
    Walks disk root (walkInner text disk links root rootText filters fuel) dir := by
  induction fuel generalizing dir with
  | zero =>
    intro _ found found' h
    cases h
  | succ fuel ih =>
    intro hdir found found' h
    simp only [walkInner, follow_of_dir hdir] at h
    split_ifs at h
    · cases h
      exact Grows.refl _ _
    · intro s hs
      rcases visits_grow (fun n => ih (dir ++ [n])) h s hs with hold | ⟨n, -, hpre⟩
      · rcases mem_cons.mp hold with rfl | hold
        · exact .inr (prefix_refl _)
        · exact .inl hold
      · rw [← append_assoc] at hpre
        exact .inr ((prefix_append _ _).trans hpre)

lemma exists_visit (hdescend : disk.tree.node (root ++ (dir ++ [n])) = some .dir →
      ∀ found, ∃ found', descend (dir ++ [n]) found = .ok found')
    (hn : n ∈ disk.tree.names (root ++ dir)) (found : Found N) :
    ∃ found', visit text disk links root rootText filters descend (root ++ dir) dir found n =
      .ok found' := by
  obtain ⟨linkMeta, hlinkMeta⟩ := ne_none_iff_exists'.mp (mem_names.mp hn)
  simp only [visit, hlinkMeta]
  rw [append_assoc] at hlinkMeta
  cases hsymlink : isSymlink linkMeta with
  | true =>
    -- a link is skipped or read
    split
    · exact ⟨_, rfl⟩
    · exact ⟨_, rfl⟩
    · split
      · exact ⟨_, rfl⟩
      · exact ⟨_, rfl⟩
    · exact ⟨_, rfl⟩
  | false =>
    rw [metadata_of_real hlinkMeta hsymlink]
    cases linkMeta with
    | dir => exact hdescend hlinkMeta found
    | file m =>
      dsimp only
      split
      · exact ⟨_, rfl⟩
      · exact ⟨_, rfl⟩
    | link target => cases hsymlink
    | special => exact ⟨_, rfl⟩

lemma exists_walkInner (hreadable : ∀ loc, disk.readable loc = true) (fuel : ℕ) (dir : List N)
    (hdir : disk.tree.node (root ++ dir) = some .dir)
    (hfuel : disk.tree.depth < (root ++ dir).length + fuel) (found : Found N) :
    ∃ found', walkInner text disk links root rootText filters fuel dir found = .ok found' := by
  have hnone : disk.tree.node (root ++ dir) ≠ none := by
    rw [hdir]
    nofun
  induction fuel generalizing dir found with
  | zero => exact absurd hfuel (length_le_depth hnone).not_gt
  | succ fuel ih =>
    simp only [walkInner, follow_of_dir hdir, hreadable, if_true]
    split
    · exact ⟨_, rfl⟩
    apply exists_foldlM
    intro n hn found
    have hnames := (perm_insertionSort (fun a b => text.le a b = true)
      (disk.tree.names (root ++ dir))).mem_iff.mp hn
    apply exists_visit _ hnames
    intro hbelow found
    apply ih (dir ++ [n]) hbelow
    · simp only [length_append, length_singleton] at hfuel ⊢
      omega
    · rw [hbelow]
      nofun

end Walk

end Favonius.Client.FsTree
