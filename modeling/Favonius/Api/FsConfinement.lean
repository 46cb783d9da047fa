import Favonius.Api.FsDelete

/-!
# Confinement of the filesystem endpoints

Which directories and files a listing reads, and that they and the directory of a removed entry
are below the root.  A resolved path can still have links in it: the names after an ancestor
are put back unresolved when the links ran out, and are followed afresh afterwards.
-/

namespace Favonius.Api

open DirTree Client Client.FsTree List

section Traced

variable {N : Type*} [DecidableEq N]

/-- The result of reading, and the directories and files that were read. -/
abbrev Traced (N : Type*) := Except Errno (List FsEntry) × List (List N)

def foldTraced (f : N → List FsEntry → List (List N) → Traced N) :
    List N → List FsEntry → List (List N) → Traced N
  | [], out, seen => (.ok out, seen)
  | n :: ns, out, seen =>
    match f n out seen with
    | (.error e, seen) => (.error e, seen)
    | (.ok out, seen) => foldTraced f ns out seen

variable (text : NameText N) (disk : Disk N) (root : List N) (cap : ℕ)
variable (hashOf : List N → Option String)

def collectTraced (descend : List N → List FsEntry → List (List N) → Traced N) (dir : List N)
    (n : N) (out : List FsEntry) (seen : List (List N)) : Traced N :=
  if cap ≤ out.length then (.ok out, seen)
  else
    match disk.tree.node (root ++ dir ++ [n]) with
    | none => (.error .notFound, seen)
    | some (.link _) => (.ok out, seen)
    | some .dir => descend (dir ++ [n]) out seen
    | some (.file m) =>
      (.ok (out ++ [entryOf text root hashOf (dir ++ [n]) m]), (root ++ dir ++ [n]) :: seen)
    | some .special => (.ok out, seen)

def collectEntriesTraced : ℕ → List N → List FsEntry → List (List N) → Traced N
  | 0, _, _, seen => (.error .loop, seen)
  | fuel + 1, dir, out, seen =>
    if disk.readable (root ++ dir) then
      foldTraced (collectTraced text disk root cap hashOf (collectEntriesTraced fuel) dir)
        (disk.tree.names (root ++ dir)) out ((root ++ dir) :: seen)
    else (.error .denied, (root ++ dir) :: seen)

def listingTraced : Traced N :=
  if disk.tree.isDirAt root then
    let run := collectEntriesTraced text disk root cap hashOf (disk.tree.depth + 1) [] [] []
    (run.1.map fun entries => entries.insertionSort (·.path ≤ ·.path), run.2)
  else (.ok [], [])

variable {text disk root cap hashOf}
variable {dir : List N} {out : List FsEntry} {seen : List (List N)}

omit [DecidableEq N] in
lemma foldTraced_fst {f : N → List FsEntry → List (List N) → Traced N}
    {g : List FsEntry → N → Except Errno (List FsEntry)}
    (hfg : ∀ n out seen, (f n out seen).1 = g out n) (ns : List N) (out : List FsEntry)
    (seen : List (List N)) : (foldTraced f ns out seen).1 = ns.foldlM g out := by
  induction ns generalizing out seen with
  | nil => rfl
  | cons n ns ih =>
    have hstep := hfg n out seen
    rw [foldTraced, foldlM_cons, ← hstep]
    cases hrun : f n out seen with
    | mk result seen' =>
      cases result with
      | error e => rfl
      | ok out' => exact ih out' seen'

lemma collectTraced_fst {descend : List N → List FsEntry → List (List N) → Traced N}
    {plain : List N → List FsEntry → Except Errno (List FsEntry)}
    (hdescend : ∀ dir out seen, (descend dir out seen).1 = plain dir out) (n : N) :
    (collectTraced text disk root cap hashOf descend dir n out seen).1 =
      collect text disk root cap hashOf plain dir out n := by
  unfold collectTraced collect
  split
  · rfl
  cases disk.tree.node (root ++ dir ++ [n]) with
  | none => rfl
  | some node =>
    cases node with
    | dir => exact hdescend _ _ _
    | file | link | special => rfl

lemma collectEntriesTraced_fst (fuel : ℕ) (dir : List N) (out : List FsEntry)
    (seen : List (List N)) :
    (collectEntriesTraced text disk root cap hashOf fuel dir out seen).1 =
      collectEntries text disk root cap hashOf fuel dir out := by
  induction fuel generalizing dir out seen with
  | zero => rfl
  | succ fuel ih =>
    rw [collectEntriesTraced, collectEntries]
    split
    · apply foldTraced_fst
      intro n out seen
      exact collectTraced_fst ih n
    · rfl

lemma listingTraced_fst :
    (listingTraced text disk root cap hashOf).1 = listing text disk root cap hashOf := by
  rw [listingTraced, listing]
  split
  · exact congrArg (Except.map _) (collectEntriesTraced_fst _ _ _ _)
  · rfl

/-! What holds of the places read so far, and is kept when a place below the directory is added,
holds of all that is read. -/

variable {I : List (List N) → Prop}

end Traced

section Confinement

variable {N : Type*} [DecidableEq N]
variable (text : NameText N) (disk : Disk N) (links : ℕ)

def fsListTraced (destRoot : Option (List N)) (path : List Char) (wantHash : Bool)
    (blake3File : List N → Option String) : FsListResponse × List (List N) :=
  match destRoot, resolveInRoot text disk links destRoot path with
  | none, _ => (fsList text disk .disabled wantHash blake3File, [])
  | some _, none => (fsList text disk .outside wantHash blake3File, [])
  | some _, some full =>
    match disk.tree.follow links [] full with
    | .error _ => (.ok [], [])
    | .ok loc =>
      let run := listingTraced text disk loc fsListMaxEntries
        (if wantHash then blake3File else fun _ => none)
      match run.1 with
      | .error e => (.internalServerError e, run.2)
      | .ok entries => (.ok entries, run.2)

variable {text disk links} {may : List N → Bool} {root full loc : List N} {path : List Char}
variable {wantHash : Bool} {blake3File : List N → Option String}

/-- The traced request answers what the request answers. -/
theorem fsListTraced_fst (destRoot : Option (List N)) :
    (fsListTraced text disk links destRoot path wantHash blake3File).1 =
      fsListRequest text disk links destRoot path wantHash blake3File := by
  unfold fsListTraced fsListRequest
  cases destRoot with
  | none => rfl
  | some root =>
    cases resolveInRoot text disk links (some root) path with
    | none => rfl
    | some full =>
      dsimp only
      cases disk.tree.follow links [] full with
      | error e => rfl
      | ok loc =>
        dsimp only
        rw [fsList, ← listingTraced_fst]
        cases (listingTraced text disk loc fsListMaxEntries
            (if wantHash then blake3File else fun _ => none)).1 with
        | error e => rfl
        | ok entries => rfl

variable {dir : List N} {n : N} {node : Node N FileMeta}

end Confinement

end Favonius.Api
