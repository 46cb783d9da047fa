import Mathlib.Tactic

/-!
# Directory trees

A tree of directories, files, symbolic links and special files, over any type of names; there are
no hard links.  A path is walked from a directory; a link on the way is replaced by its target,
and only so many links are followed.  A volume is a tree with a list of its entries, and its
directories are read in the order of that list.
-/

namespace DirTree

open Function List Option

variable {N μ : Type*}

inductive Segment (N : Type*) where
  | cur
  | up
  | name (n : N)
  deriving DecidableEq

structure Target (N : Type*) where
  absolute : Bool
  body : List (Segment N)
  deriving DecidableEq

inductive Node (N μ : Type*) where
  | dir
  | file (data : μ)
  | link (target : Target N)
  | special
  deriving DecidableEq

inductive Errno where
  | notFound
  | notDir
  | isDir
  | exists
  | loop
  | denied
  deriving DecidableEq

/-- A location is the names from the root down; what has a node is below directories only. -/
structure Fs (N μ : Type*) where
  node : List N → Option (Node N μ)
  root : node [] = some .dir
  parent : ∀ (loc : List N) (n : N), node (loc ++ [n]) ≠ none → node loc = some .dir

namespace Fs

variable (t : Fs N μ)

def isDirAt (loc : List N) : Bool :=
  match t.node loc with
  | some .dir => true
  | _ => false

/-- Walk up to the first link; `next` goes on from there.  With `create` a missing last name
is a place for a new file. -/
def walkWith (create : Bool) (next : List N → List (Segment N) → Except Errno (List N)) :
    List N → List (Segment N) → Except Errno (List N)
  | loc, [] => .ok loc
  | loc, .cur :: rest => if t.isDirAt loc then walkWith create next loc rest else .error .notDir
  | loc, .up :: rest =>
    if t.isDirAt loc then walkWith create next loc.dropLast rest else .error .notDir
  | loc, .name n :: rest =>
    if t.isDirAt loc then
      match t.node (loc ++ [n]) with
      | none => if create = true ∧ rest = [] then .ok (loc ++ [n]) else .error .notFound
      | some (.link target) => next (if target.absolute then [] else loc) (target.body ++ rest)
      | some _ => walkWith create next (loc ++ [n]) rest
    else .error .notDir

def walk (create : Bool) : ℕ → List N → List (Segment N) → Except Errno (List N)
  | 0 => t.walkWith create fun _ _ => .error .loop
  | links + 1 => t.walkWith create (walk create links)

/-- Where the names lead from a directory. -/
def follow (links : ℕ) (start : List N) (path : List N) : Except Errno (List N) :=
  t.walk false links start (path.map .name)

variable {t} {loc : List N} {n : N} {x : Node N μ}

lemma isDirAt_iff : t.isDirAt loc = true ↔ t.node loc = some .dir := by
  unfold isDirAt
  split
  · rename_i h
    simp [h]
  · rename_i h
    simp only [Bool.false_eq_true, false_iff]
    exact h

lemma node_parent (h : t.node (loc ++ [n]) ≠ none) : t.node loc = some .dir := t.parent loc n h

lemma dir_of_below {rest : List N} (hrest : rest ≠ []) (h : t.node (loc ++ rest) ≠ none) :
    t.node loc = some .dir := by
  induction rest using reverseRecOn with
  | nil => exact absurd rfl hrest
  | append_singleton init n ih =>
    rw [← append_assoc] at h
    have hdir := node_parent h
    by_cases hinit : init = []
    · rw [hinit, append_nil] at hdir
      exact hdir
    · apply ih hinit
      rw [hdir]
      nofun

variable {links : ℕ} {start path : List N}

variable (t) in
lemma exists_walk_eq (create : Bool) (links : ℕ) :
    ∃ next, t.walk create links = t.walkWith create next := by
  cases links with
  | zero | succ => exact ⟨_, rfl⟩

@[simp] lemma follow_nil : t.follow links start [] = .ok start := by
  cases links with
  | zero | succ => rfl

lemma walkWith_name {create : Bool} {next : List N → List (Segment N) → Except Errno (List N)}
    (hdir : t.isDirAt loc = true) (hnode : t.node (loc ++ [n]) = some x)
    (hreal : ∀ target, x ≠ .link target) (segs : List (Segment N)) :
    t.walkWith create next loc (.name n :: segs) = t.walkWith create next (loc ++ [n]) segs := by
  rw [walkWith, if_pos hdir, hnode]
  cases x with
  | link target => exact absurd rfl (hreal target)
  | dir | file | special => rfl

lemma follow_cons (links : ℕ) (start : List N) (n : N) (path : List N)
    (hdir : t.node start = some .dir)
    (hlink : ∀ target, t.node (start ++ [n]) ≠ some (.link target))
    (hnode : t.node (start ++ [n]) ≠ none) :
    t.follow links start (n :: path) = t.follow links (start ++ [n]) path := by
  obtain ⟨next, hnext⟩ := t.exists_walk_eq false links
  obtain ⟨x, hx⟩ := ne_none_iff_exists'.mp hnode
  rw [follow, follow, hnext, map_cons, walkWith_name (isDirAt_iff.mpr hdir) hx]
  rintro target rfl
  exact hlink target hx

lemma follow_eq (hnode : t.node (start ++ path) ≠ none)
    (hlink : ∀ target, t.node (start ++ path) ≠ some (.link target)) :
    t.follow links start path = .ok (start ++ path) := by
  induction path generalizing start with
  | nil =>
    rw [append_nil, follow_nil]
  | cons n path ih =>
    rw [append_cons] at hnode hlink ⊢
    have hnot : t.node (start ++ [n]) ≠ none ∧
        ∀ target, t.node (start ++ [n]) ≠ some (.link target) := by
      by_cases hpath : path = []
      · subst hpath
        rw [append_nil] at hnode hlink
        exact ⟨hnode, hlink⟩
      · have hdir := dir_of_below hpath hnode
        rw [hdir]
        exact ⟨nofun, nofun⟩
    rw [follow_cons links start n path (node_parent hnot.1) hnot.2 hnot.1]
    exact ih hnode hlink

lemma follow_of_dir (hdir : t.node (start ++ path) = some .dir) :
    t.follow links start path = .ok (start ++ path) := by
  apply follow_eq
  · rw [hdir]
    nofun
  · rw [hdir]
    nofun

end Fs

def lookup [DecidableEq N] (entries : List (List N × Node N μ)) (loc : List N) :
    Option (Node N μ) :=
  if loc = [] then some .dir else (entries.find? (·.1 = loc)).map Prod.snd

/-- A tree with the list of its entries; the root is a directory without an entry. -/
structure Volume (N μ : Type*) [DecidableEq N] extends Fs N μ where
  entries : List (List N × Node N μ)
  nodup : (entries.map Prod.fst).Nodup
  listed : node = lookup entries

variable [DecidableEq N]

lemma lookup_eq_some_iff {entries : List (List N × Node N μ)}
    (nodup : (entries.map Prod.fst).Nodup) {loc : List N} {x : Node N μ} (hne : loc ≠ []) :
    lookup entries loc = some x ↔ (loc, x) ∈ entries := by
  rw [lookup, if_neg hne, map_eq_some_iff]
  constructor
  · rintro ⟨⟨l, y⟩, hfind, rfl⟩
    obtain rfl : l = loc := by simpa using find?_some hfind
    exact mem_of_find?_eq_some hfind
  · intro hmem
    obtain ⟨⟨l, y⟩, hfind⟩ : ∃ e, entries.find? (·.1 = loc) = some e :=
      isSome_iff_exists.mp (find?_isSome.mpr ⟨_, hmem, by simp⟩)
    obtain rfl : l = loc := by simpa using find?_some hfind
    -- one location has one entry
    have heq := inj_on_of_nodup_map nodup (mem_of_find?_eq_some hfind) hmem rfl
    exact ⟨(l, y), hfind, (Prod.ext_iff.mp heq).2⟩

namespace Volume

/-- The volume with these entries, each below entries of directories. -/
def ofEntries (entries : List (List N × Node N μ)) (nodup : (entries.map Prod.fst).Nodup)
    (below : ∀ e ∈ entries, e.1.dropLast = [] ∨ (e.1.dropLast, Node.dir) ∈ entries) :
    Volume N μ where
  node := lookup entries
  root := if_pos rfl
  parent loc n h := by
    obtain ⟨x, hx⟩ := ne_none_iff_exists'.mp h
    have hbelow := below _ ((lookup_eq_some_iff nodup (by simp)).mp hx)
    rw [dropLast_concat] at hbelow
    by_cases hloc : loc = []
    · rw [hloc]
      exact if_pos rfl
    · exact (lookup_eq_some_iff nodup hloc).mpr (hbelow.resolve_left hloc)
  entries := entries
  nodup := nodup
  listed := rfl

variable (t : Volume N μ)

def names (loc : List N) : List N :=
  (t.entries.map Prod.fst).filterMap fun l => if l.dropLast = loc then l.getLast? else none

def depth : ℕ := (t.entries.map (·.1.length)).foldr max 0

variable {t} {loc : List N} {n : N}

lemma node_eq_some_iff {x : Node N μ} (hne : loc ≠ []) :
    t.node loc = some x ↔ (loc, x) ∈ t.entries := by
  rw [t.listed]
  exact lookup_eq_some_iff t.nodup hne

lemma mem_names : n ∈ t.names loc ↔ t.node (loc ++ [n]) ≠ none := by
  rw [ne_none_iff_exists']
  simp only [names, mem_filterMap]
  constructor
  · rintro ⟨l, hl, hname⟩
    obtain ⟨⟨l, x⟩, hmem, rfl⟩ := List.mem_map.mp hl
    obtain ⟨hdrop, hlast⟩ := ite_none_right_eq_some.mp hname
    obtain ⟨init, rfl⟩ := getLast?_eq_some_iff.mp hlast
    rw [dropLast_concat] at hdrop
    subst hdrop
    exact ⟨x, (node_eq_some_iff (by simp)).mpr hmem⟩
  · rintro ⟨x, hx⟩
    refine ⟨loc ++ [n], mem_map_of_mem ((node_eq_some_iff (by simp)).mp hx), ?_⟩
    rw [if_pos dropLast_concat, getLast?_concat]

lemma mem_names_of_below (rest : List N) (h : t.node (loc ++ [n] ++ rest) ≠ none) :
    n ∈ t.names loc := by
  rw [mem_names]
  by_cases hrest : rest = []
  · rw [hrest, append_nil] at h
    exact h
  · rw [Fs.dir_of_below hrest h]
    nofun

lemma nodup_names : (t.names loc).Nodup := by
  apply t.nodup.filterMap
  intro l l' n hn hn'
  obtain ⟨hdrop, hlast⟩ := ite_none_right_eq_some.mp hn
  obtain ⟨hdrop', hlast'⟩ := ite_none_right_eq_some.mp hn'
  obtain ⟨init, rfl⟩ := getLast?_eq_some_iff.mp hlast
  obtain ⟨init', rfl⟩ := getLast?_eq_some_iff.mp hlast'
  rw [dropLast_concat] at hdrop hdrop'
  rw [hdrop, hdrop']

lemma length_le_depth (h : t.node loc ≠ none) : loc.length ≤ t.depth := by
  by_cases hloc : loc = []
  · rw [hloc]
    exact Nat.zero_le _
  · obtain ⟨x, hx⟩ := ne_none_iff_exists'.mp h
    have hmem := mem_map_of_mem (f := fun e : List N × Node N μ => e.1.length)
      ((node_eq_some_iff hloc).mp hx)
    exact le_max_of_le' 0 hmem le_rfl

omit [DecidableEq N] in
lemma eq_of_prefixes {s : List N} {n' : N} (h : loc ++ [n] <+: s) (h' : loc ++ [n'] <+: s) :
    n = n' := by
  have heq := IsPrefix.eq_of_length_le
    (prefix_of_prefix_length_le h h' (by simp)) (by simp)
  simpa using heq

end Volume

section Loops

variable {ε σ ι : Type*} {f : σ → ι → Except ε σ} {is : List ι}

lemma foldlM_cons_eq_ok {i : ι} {s s' : σ} (h : (i :: is).foldlM f s = .ok s') :
    ∃ mid, f s i = .ok mid ∧ is.foldlM f mid = .ok s' := by
  rw [foldlM_cons] at h
  rcases hi : f s i with _ | mid
  · rw [hi] at h
    cases h
  rw [hi] at h
  exact ⟨mid, rfl, h⟩

lemma exists_foldlM (h : ∀ i ∈ is, ∀ s, ∃ s', f s i = .ok s') (s : σ) :
    ∃ s', is.foldlM f s = .ok s' := by
  induction is generalizing s with
  | nil => exact ⟨s, rfl⟩
  | cons i is ih =>
    obtain ⟨mid, hmid⟩ := h i mem_cons_self s
    obtain ⟨s', hs'⟩ := ih (fun k hk => h k (mem_cons_of_mem i hk)) mid
    refine ⟨s', ?_⟩
    rw [foldlM_cons, hmid]
    exact hs'

end Loops

end DirTree
