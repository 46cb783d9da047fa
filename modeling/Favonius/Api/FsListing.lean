import Favonius.Client.FsTree

/-!
# The daemon's listing

`GET /fs/list` reports the regular files below a directory, up to a number of entries.  Links are
not reported, whatever they lead to.  Every location of a regular file is in the listing, once,
unless the number of entries was reached.
-/

namespace Favonius.Api

open DirTree Client Client.FsTree List Fs Volume

def fsListMaxEntries : ℕ := 1000000

inductive Resolved (N : Type*) where
  | disabled
  | outside
  | inside (loc : List N)

inductive FsListResponse where
  | ok (entries : List FsEntry)
  | notFound (error : String)
  | forbidden (error : String)
  | internalServerError (e : Errno)

section Listing

variable {N : Type*} [DecidableEq N]
variable (text : NameText N) (disk : Disk N) (root : List N) (cap : ℕ)
variable (hashOf : List N → Option String)

def entryOf (path : List N) (m : FileMeta) : FsEntry :=
  ⟨relativeSlashPath text path, m.size, mtimeSecs m, hashOf (root ++ path)⟩

def collect (descend : List N → List FsEntry → Except Errno (List FsEntry)) (dir : List N)
    (out : List FsEntry) (n : N) : Except Errno (List FsEntry) :=
  if cap ≤ out.length then .ok out
  else
    match disk.tree.node (root ++ dir ++ [n]) with
    | none => .error .notFound
    | some (.link _) => .ok out
    | some .dir => descend (dir ++ [n]) out
    | some (.file m) => .ok (out ++ [entryOf text root hashOf (dir ++ [n]) m])
    | some .special => .ok out

/-- The first argument bounds the depth. -/
def collectEntries : ℕ → List N → List FsEntry → Except Errno (List FsEntry)
  | 0, _, _ => .error .loop
  | fuel + 1, dir, out =>
    if disk.readable (root ++ dir) then
      (disk.tree.names (root ++ dir)).foldlM
        (collect text disk root cap hashOf (collectEntries fuel) dir) out
    else .error .denied

/-- A path that leads to no directory has an empty listing. -/
def listing : Except Errno (List FsEntry) :=
  if disk.tree.isDirAt root then
    (collectEntries text disk root cap hashOf (disk.tree.depth + 1) [] []).map fun entries =>
      entries.insertionSort (·.path ≤ ·.path)
  else .ok []

def fsList (resolved : Resolved N) (wantHash : Bool) (blake3File : List N → Option String) :
    FsListResponse :=
  match resolved with
  | .disabled => .notFound "filesystem endpoints are disabled; start the daemon with --dest-root"
  | .outside => .forbidden "path is outside --dest-root"
  | .inside root =>
    match listing text disk root fsListMaxEntries
        (if wantHash then blake3File else fun _ => none) with
    | .error e => .internalServerError e
    | .ok entries => .ok entries

def filesAt (below : List N → List (List N × FileMeta)) (dir : List N) (n : N) :
    List (List N × FileMeta) :=
  match disk.tree.node (root ++ dir ++ [n]) with
  | some .dir => below (dir ++ [n])
  | some (.file m) => [(dir ++ [n], m)]
  | _ => []

/-- The regular files below a directory, in the order in which the directories are read; what is
behind a link is not below. -/
def filesBelow : ℕ → List N → List (List N × FileMeta)
  | 0, _ => []
  | fuel + 1, dir =>
    (disk.tree.names (root ++ dir)).flatMap (filesAt disk root (filesBelow fuel) dir)

/-- The relative paths of the first files, as many as a listing may hold. -/
def listedPaths : List RelPath :=
  ((filesBelow disk root (disk.tree.depth + 1) []).take cap).map fun f => relativeSlashPath text f.1

/-- Entries are added up to the number that the listing may hold. -/
def fill (out added : List FsEntry) : List FsEntry := out ++ added.take (cap - out.length)

variable {text disk root cap hashOf}
variable {out out' : List FsEntry} {dir : List N}

lemma fill_fill (out xs ys : List FsEntry) :
    fill cap (fill cap out xs) ys = fill cap out (xs ++ ys) := by
  have hroom : ys.take (cap - (fill cap out xs).length) =
      ys.take (cap - out.length - xs.length) := by
    congr 1
    rw [fill, length_append, length_take]
    omega
  rw [fill, hroom, fill, fill, append_assoc, take_append]

section Collect

variable {descend : List N → List FsEntry → Except Errno (List FsEntry)}
  {below : List N → List (List N × FileMeta)}
  (hdescend : ∀ dir out out', descend dir out = .ok out' →
    out' = fill cap out ((below dir).map fun f => entryOf text root hashOf f.1 f.2))
include hdescend

lemma collect_eq {n : N}
    (h : collect text disk root cap hashOf descend dir out n = .ok out') :
    out' = fill cap out
      ((filesAt disk root below dir n).map fun f => entryOf text root hashOf f.1 f.2) := by
  unfold collect at h
  split_ifs at h with hfull
  · cases h
    rw [fill, Nat.sub_eq_zero_of_le hfull, take_zero, append_nil]
  have hroom : 1 ≤ cap - out.length := by omega
  rcases hentry : disk.tree.node (root ++ dir ++ [n]) with _ | node
  · rw [hentry] at h
    cases h
  rw [hentry] at h
  rw [filesAt, hentry]
  cases node with
  | link | special =>
    cases h
    simp [fill]
  | dir => exact hdescend _ _ _ h
  | file m =>
    cases h
    rw [fill, map_singleton, take_of_length_le hroom]

lemma collects_eq {ns : List N}
    (h : ns.foldlM (collect text disk root cap hashOf descend dir) out = .ok out') :
    out' = fill cap out ((ns.flatMap (filesAt disk root below dir)).map fun f =>
      entryOf text root hashOf f.1 f.2) := by
  induction ns generalizing out with
  | nil =>
    cases h
    simp [fill]
  | cons n ns ih =>
    obtain ⟨mid, hcollect, hrest⟩ := foldlM_cons_eq_ok h
    rw [ih hrest, collect_eq hdescend hcollect, fill_fill, flatMap_cons, map_append]

end Collect

lemma collectEntries_eq (fuel : ℕ) (dir : List N) (out out' : List FsEntry)
    (h : collectEntries text disk root cap hashOf fuel dir out = .ok out') :
    out' = fill cap out
      ((filesBelow disk root fuel dir).map fun f => entryOf text root hashOf f.1 f.2) := by
  induction fuel generalizing dir out out' with
  | zero => cases h
  | succ fuel ih =>
    unfold collectEntries at h
    split_ifs at h
    exact collects_eq ih h

/-- A listing that succeeds has the first files, as many as it may hold. -/
theorem mem_listing {entries : List FsEntry}
    (h : listing text disk root cap hashOf = .ok entries) {rel : RelPath} :
    rel ∈ entries.map (·.path) ↔ rel ∈ listedPaths text disk root cap := by
  unfold listing at h
  split_ifs at h with hdir
  swap
  · cases h
    have hnames : disk.tree.names root = [] := by
      refine eq_nil_iff_forall_not_mem.mpr fun n hn => hdir (isDirAt_iff.mpr ?_)
      exact dir_of_below (cons_ne_nil n []) (mem_names.mp hn)
    simp [listedPaths, filesBelow, hnames]
  cases hcollected : collectEntries text disk root cap hashOf (disk.tree.depth + 1) [] [] with
  | error e =>
    rw [hcollected] at h
    cases h
  | ok out =>
    rw [hcollected] at h
    cases h
    have hperm := perm_insertionSort (fun a b : FsEntry => a.path ≤ b.path) out
    rw [(hperm.map (·.path)).mem_iff, collectEntries_eq _ _ _ _ hcollected, fill, nil_append,
      length_nil, Nat.sub_zero, ← map_take, map_map, listedPaths]
    rfl

end Listing

end Favonius.Api
