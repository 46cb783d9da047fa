import Favonius.Api.FsListing
import Favonius.Client.ExactWalk

/-!
# The sync command

The command walks the source, asks the daemon for the listing of the destination, plans, and then
sends the files and asks for the deletions.  Everything it reads is given: the disk of the source,
the reply of the daemon and the hashes of the files.
-/

namespace Favonius.Client

open DirTree UnixPath FsTree Api List Option SyncPlan

def SyncMode.parse (s : String) : Except String SyncMode :=
  if s = "one-way" ∨ s = "oneway" then .ok .oneWay
  else if s = "mirror" then .ok .mirror
  else if s = "append-only" ∨ s = "append" then .ok .appendOnly
  else if s ∈ ["two-way", "bidirectional", "snapshot", "version-preserving"] then
    .error (s!"'{s}' needs persistent state (change history and conflict lineage) which " ++
      "Favonius deliberately does not keep. Available modes: one-way, mirror, append-only.")
  else .error s!"unknown sync mode '{s}'. Available: one-way, mirror, append-only."

def clientFsList : FsListResponse → Except String (List FsEntry)
  | .ok entries => .ok entries
  | .notFound _ =>
    .error ("API error: daemon has no --dest-root configured, so it cannot list the " ++
      "destination (required for sync)")
  | .forbidden _ => .error "API error: HTTP 403 Forbidden"
  | .internalServerError _ => .error "API error: HTTP 500 Internal Server Error"

def errnoText : Errno → String
  | .notFound => "No such file or directory (os error 2)"
  | .notDir => "Not a directory (os error 20)"
  | .isDir => "Is a directory (os error 21)"
  | .exists => "File exists (os error 17)"
  | .loop => "Too many levels of symbolic links (os error 40)"
  | .denied => "Permission denied (os error 13)"

structure SyncArgs where
  source : List Char
  destination : Except String (List Char)
  mode : String
  checksum : Bool
  dryRun : Bool
  confirmDelete : Bool
  includes : Option (List Char)
  excludes : Option (List Char)
  congestion : Except String Unit

inductive SyncOutcome where
  | exit (code : ℕ) (message : String)
  | dryRun (plan : Plan)
  | inSync
  /-- The files that are sent, with their destinations; then the deletions that are asked for. -/
  | ran (items : List (List Char × List Char)) (deletes : List (RelPath × List Char))
  deriving DecidableEq

def items (destRoot : List Char) (plan : Plan) : List (List Char × List Char) :=
  plan.transfers.filterMap fun t => (joinDest destRoot t.entry.rel).map fun d => (t.entry.abs, d)

def deletions (destRoot : List Char) (plan : Plan) : List (RelPath × List Char) :=
  plan.deletes.filterMap fun rel => (joinDest destRoot rel).map fun abs => (rel, abs)

def execute (args : SyncArgs) (destRoot : List Char) (plan : Plan) : SyncOutcome :=
  if args.dryRun then .dryRun plan
  else if plan.IsEmpty then .inSync
  else if plan.deletes ≠ [] ∧ args.confirmDelete = false then
    .exit 1 (s!"Refusing to delete {plan.deletes.length} destination file(s) without " ++
      "--confirm-delete. Re-run with --dry-run to see the list.")
  else
    match args.congestion with
    | .error e => .exit 2 s!"error: {e}"
    | .ok _ => .ran (items destRoot plan) (deletions destRoot plan)

section Sync

variable {N : Type*} [DecidableEq N]
variable (text : NameText N) (disk : Disk N) (links : ℕ) (root : List N)
variable (blake3File : List Char → Option String) (args : SyncArgs)
variable (remote : Except String (List FsEntry))

def SyncArgs.filters (args : SyncArgs) : Filters := Filters.new args.includes args.excludes

def SyncArgs.compare (args : SyncArgs) : Compare := if args.checksum then .checksum else .size

def localHashes (entries : List TreeEntry) : List (Option String) :=
  if args.checksum then entries.map fun e => blake3File e.abs else []

def sync : SyncOutcome :=
  match SyncMode.parse args.mode with
  | .error e => .exit 1 s!"Error: {e}"
  | .ok mode =>
    match args.destination with
    | .error e =>
      .exit 1 s!"Error: sync needs a remote destination of the form host:port:/path — {e}"
    | .ok destRoot =>
      if disk.tree.isDirAt root then
        match walk text disk links root args.source args.filters with
        | .error e =>
          .exit 1 s!"Error: cannot walk {String.ofList args.source}: {errnoText e}"
        | .ok entries =>
          match remote with
          | .error e => .exit 1 s!"Error: cannot list destination: {e}"
          | .ok remote =>
            execute args destRoot (SyncPlan.plan remote mode args.compare
              (localHashes blake3File args entries) entries)
      else
        .exit 1 s!"Error: sync source must be a directory (got '{String.ofList args.source}')."

variable {text disk links root blake3File args remote}
variable {items : List (List Char × List Char)} {deletes : List (RelPath × List Char)}

variable {destRoot : List Char} {plan : Plan}

lemma execute_eq_ran (h : execute args destRoot plan = .ran items deletes) :
    items = Client.items destRoot plan ∧ deletes = deletions destRoot plan := by
  unfold execute at h
  split_ifs at h
  split at h
  · cases h
  · cases h
    exact ⟨rfl, rfl⟩

lemma sync_eq_ran
    (h : sync text disk links root blake3File args remote = .ran items deletes) :
    ∃ mode destRoot entries listed, SyncMode.parse args.mode = .ok mode ∧
      args.destination = .ok destRoot ∧ disk.tree.node root = some .dir ∧
      walk text disk links root args.source args.filters = .ok entries ∧ remote = .ok listed ∧
      items = Client.items destRoot
        (SyncPlan.plan listed mode args.compare (localHashes blake3File args entries) entries) ∧
      deletes = deletions destRoot
        (SyncPlan.plan listed mode args.compare (localHashes blake3File args entries) entries) := by
  unfold sync at h
  split at h
  · cases h
  rename_i mode hmode
  split at h
  · cases h
  rename_i destRoot hdest
  split_ifs at h with hroot
  split at h
  · cases h
  rename_i entries hwalk
  split at h
  · cases h
  rename_i listed
  obtain ⟨hitems, hdeletes⟩ := execute_eq_ran h
  exact ⟨mode, destRoot, entries, listed, hmode, hdest, Fs.isDirAt_iff.mp hroot, hwalk, rfl,
    hitems, hdeletes⟩

lemma mem_deletions {rel : RelPath} {abs : List Char} :
    (rel, abs) ∈ deletions destRoot plan ↔
      rel ∈ plan.deletes ∧ joinDest destRoot rel = some abs := by
  simp only [deletions, mem_filterMap, map_eq_some_iff, Prod.mk.injEq]
  constructor
  · rintro ⟨rel, hrel, abs, habs, rfl, rfl⟩
    exact ⟨hrel, habs⟩
  · rintro ⟨hrel, habs⟩
    exact ⟨rel, hrel, abs, habs, rfl, rfl⟩

variable (text disk links root) in
/-- Every listed path at which the source has a regular file is the path of a file that the walk
takes: of one that the filters accept, and that is not only behind a linked directory. -/
def ListedWalked (filters : Filters) (destRoot : List Char) (listed : List FsEntry) : Prop :=
  ∀ e ∈ listed, joinDest destRoot e.path ≠ none →
    ∀ path, relativeSlashPath text path = e.path → RegularAt disk links root path →
      ∃ path', Accepted text disk links root filters path' ∧
        relativeSlashPath text path' = e.path

/-- Mirror deletes only what the source lacks exactly if each file of the source that is in the
listing is in the walk. -/
theorem mirror_deletes_only_missing_iff {listed : List FsEntry}
    (hmode : SyncMode.parse args.mode = .ok .mirror) (hdest : args.destination = .ok destRoot)
    (hrun : sync text disk links root blake3File args (.ok listed) = .ran items deletes) :
    (∀ rel abs, (rel, abs) ∈ deletes → ∀ path, relativeSlashPath text path = rel →
        ¬RegularAt disk links root path) ↔
      ListedWalked text disk links root args.filters destRoot listed := by
  obtain ⟨mode, destRoot', entries, listed', hparsed, hdest', hroot, hwalk, hlisted, -, rfl⟩ :=
    sync_eq_ran hrun
  obtain rfl : mode = .mirror := by simpa using hparsed.symm.trans hmode
  obtain rfl : destRoot = destRoot' := by simpa using hdest.symm.trans hdest'
  obtain rfl : listed = listed' := by simpa using hlisted
  simp only [mem_deletions, mem_deletes_plan, true_and, (walkExact_of_walk hroot hwalk).mem_rel]
  constructor
  · intro hmissing e he hjoin path hpath hregular
    obtain ⟨abs, habs⟩ := ne_none_iff_exists'.mp hjoin
    by_contra hwalked
    exact hmissing e.path abs ⟨⟨mem_map_of_mem he, hwalked⟩, habs⟩ path hpath hregular
  · rintro hwalked rel abs ⟨⟨hrel, hnot⟩, habs⟩ path hpath hregular
    obtain ⟨e, he, rfl⟩ := List.mem_map.mp hrel
    exact hnot (hwalked e he (by rw [habs]; nofun) path hpath hregular)

def sampleText : NameText Name := ⟨Name.chars, id, id, fun _ => rfl, fun a b => a.chars ≤ b.chars⟩

def nameX : Name := ⟨['x'], by decide⟩

def nameY : Name := ⟨['y'], by decide⟩

def oneFile (name : Name) : Disk Name where
  tree := .ofEntries [([name], .file ⟨1, none⟩)] (by simp) (by simp)
  readable _ := true

def sampleArgs (mode : String) (excludes : Option (List Char)) : SyncArgs where
  source := ['s']
  destination := .ok ['/', 'd', '/']
  mode := mode
  checksum := false
  dryRun := false
  confirmDelete := true
  includes := none
  excludes := excludes
  congestion := .ok ()

def listedFile (name : Name) : FsEntry := ⟨name.chars, 1, 0, none⟩

abbrev syncX (mode : String) (excludes : Option (List Char)) :=
  sync sampleText (oneFile nameX) 0 [] (fun _ => none) (sampleArgs mode excludes)

abbrev listingOf (dest : Disk Name) :=
  clientFsList (fsList sampleText dest (.inside []) false fun _ => none)

theorem mirror_deletes_y :
    ∃ items, syncX "mirror" none (.ok [listedFile nameY]) =
        .ran items [(['y'], ['/', 'd', '/', 'y'])] ∧
      ∀ path, relativeSlashPath sampleText path = ['y'] → ¬RegularAt (oneFile nameX) 0 [] path := by
  have hrun : syncX "mirror" none (.ok [listedFile nameY]) =
      .ran [(['s', '/', 'x'], ['/', 'd', '/', 'x'])] [(['y'], ['/', 'd', '/', 'y'])] := by
    decide +kernel
  refine ⟨_, hrun, ?_⟩
  refine (mirror_deletes_only_missing_iff rfl rfl hrun).mpr ?_ _ _ mem_cons_self
  intro e he _ path hpath hregular
  obtain rfl := mem_singleton.mp he
  obtain rfl : path = [nameY] := by
    rw [relativeSlashPath, show sampleText.lossy = id from rfl, List.map_id] at hpath
    exact relText_injective hpath
  obtain ⟨m, hm⟩ := hregular
  have habsent : metadata (oneFile nameX) 0 [] [nameY] = .error .notFound := by decide +kernel
  rw [habsent] at hm
  cases hm

/-- A file on both sides that a filter excludes is deleted. -/
theorem mirror_deletes_excluded_file :
    syncX "mirror" (some ['x']) (.ok [listedFile nameX]) =
        .ran [] [(['x'], ['/', 'd', '/', 'x'])] ∧ RegularAt (oneFile nameX) 0 [] [nameX] := by
  refine ⟨by decide +kernel, ⟨1, none⟩, ?_⟩
  decide +kernel

lemma mem_items {item : List Char × List Char} :
    item ∈ Client.items destRoot plan ↔
      ∃ t ∈ plan.transfers, t.entry.abs = item.1 ∧ joinDest destRoot t.entry.rel = some item.2 := by
  simp only [Client.items, mem_filterMap, map_eq_some_iff]
  constructor
  · rintro ⟨t, ht, dest, hdest, rfl⟩
    exact ⟨t, ht, rfl, hdest⟩
  · rintro ⟨t, ht, habs, hdest⟩
    exact ⟨t, ht, item.2, hdest, by rw [habs]⟩

/-- Append-only plans a transfer for the paths of the walk that are not in the listing. -/
theorem transfer_appendOnly_iff {listed : List FsEntry} {compare : Compare}
    {hashes : List (Option String)} {entries : List TreeEntry} {rel : RelPath} :
    (∃ t ∈ (SyncPlan.plan listed .appendOnly compare hashes entries).transfers,
        t.entry.rel = rel) ↔
      rel ∈ entries.map (·.rel) ∧ rel ∉ listed.map (·.path) := by
  have hnone : remoteByPath listed rel = none ↔ rel ∉ listed.map (·.path) := by
    simp [remoteByPath]
  simp only [SyncPlan.mem_transfers_plan, ← hnone]
  constructor
  · rintro ⟨t, ⟨i, hi, hjudge⟩, rfl⟩
    refine ⟨mem_map_of_mem (mem_of_getElem? hi), ?_⟩
    cases hfound : remoteByPath listed t.entry.rel with
    | none => rfl
    | some r =>
      rw [judge, hfound] at hjudge
      cases hjudge
  · rintro ⟨hrel, hfound⟩
    obtain ⟨entry, hentry, rfl⟩ := List.mem_map.mp hrel
    obtain ⟨i, hi⟩ := mem_iff_getElem?.mp hentry
    exact ⟨⟨entry, .create⟩, ⟨i, hi, by rw [judge, hfound]⟩, rfl⟩

variable {D : Type*} [DecidableEq D]
variable {destText : NameText D} {destDisk : Disk D} {destLinks : ℕ} {destDir : List D}
variable {destHash : List D → Option String}

lemma listing_of_clientFsList {listed : List FsEntry} {wantHash : Bool}
    (h : clientFsList (fsList destText destDisk (.inside destDir) wantHash destHash) = .ok listed) :
    ∃ hashOf, listing destText destDisk destDir fsListMaxEntries hashOf = .ok listed := by
  rw [fsList] at h
  refine ⟨if wantHash then destHash else fun _ => none, ?_⟩
  split at h
  · cases h
  rename_i hlisting
  cases h
  exact hlisting

/-- Something is at the path, which may be a link, also one that leads nowhere. -/
def ExistsAt (text : NameText D) (disk : Disk D) (links : ℕ) (base : List D)
    (names : List Name) : Prop :=
  ∃ dir n node, names = dir ++ [n] ∧
    symlinkMetadata disk links base (dir.map text.ofText) (text.ofText n) = .ok node

/-- The path at the destination to which the file with these names is sent. -/
def sentTo (destRoot : List Char) (names : List Name) : List Char :=
  destRoot.rdropWhile (· = '/') ++ '/' :: relText names

lemma sentTo_injective : Function.Injective (sentTo destRoot) := by
  intro names names' h
  exact relText_injective (cons_injective (append_cancel_left h))

lemma joinDest_of_accepted (hroot : disk.tree.node root = some .dir) {filters : Filters}
    {path : List N} (h : Accepted text disk links root filters path) (destRoot : List Char) :
    joinDest destRoot (relativeSlashPath text path) =
      some (sentTo destRoot (path.map text.lossy)) := by
  have hne := h.ne_nil hroot
  exact joinDest_relText (mt map_eq_nil_iff.mp hne) destRoot

/-- Append-only deletes nothing.  It sends files only to paths at which nothing existed when the
destination was listed exactly if the listing has every path of the walk at which something
existed. -/
theorem append_only_sends_to_missing_iff
    (hmode : SyncMode.parse args.mode = .ok .appendOnly) (hdest : args.destination = .ok destRoot)
    (hrun : sync text disk links root blake3File args
      (clientFsList (fsList destText destDisk (.inside destDir) args.checksum destHash)) =
        .ran items deletes) :
    deletes = [] ∧
      ((∀ item ∈ items, ∃ names, item.2 = sentTo destRoot names ∧
          ¬ExistsAt destText destDisk destLinks destDir names) ↔
        ∀ path, Accepted text disk links root args.filters path →
          ExistsAt destText destDisk destLinks destDir (path.map text.lossy) →
            relativeSlashPath text path ∈
              listedPaths destText destDisk destDir fsListMaxEntries) := by
  obtain ⟨mode, destRoot', entries, listed, hparsed, hdest', hroot, hwalk, hlisted, rfl, rfl⟩ :=
    sync_eq_ran hrun
  obtain rfl : mode = .appendOnly := by simpa using hparsed.symm.trans hmode
  obtain rfl : destRoot = destRoot' := by simpa using hdest.symm.trans hdest'
  have hexact := walkExact_of_walk hroot hwalk
  obtain ⟨hashOf, hlisting⟩ := listing_of_clientFsList hlisted
  refine ⟨?_, ?_, ?_⟩
  · apply eq_nil_iff_forall_not_mem.mpr
    rintro ⟨rel, abs⟩ hmem
    obtain ⟨hmirror, -⟩ := mem_deletes_plan.mp (mem_deletions.mp hmem).1
    cases hmirror
  · intro hmissing path haccepted hexists
    by_contra hnot
    -- the file is in the walk and not in the listing, so that it is sent
    have hwalked := hexact.mem_rel.mpr ⟨path, haccepted, rfl⟩
    obtain ⟨t, ht, hrel⟩ :=
      transfer_appendOnly_iff.mpr ⟨hwalked, fun h => hnot ((mem_listing hlisting).mp h)⟩
    have hitem : (t.entry.abs, sentTo destRoot (path.map text.lossy)) ∈ Client.items destRoot _ :=
      mem_items.mpr ⟨t, ht, rfl, hrel ▸ joinDest_of_accepted hroot haccepted destRoot⟩
    obtain ⟨names, hsent, habsent⟩ := hmissing _ hitem
    rw [sentTo_injective hsent] at hexists
    exact habsent hexists
  · intro hcovered item hitem
    obtain ⟨t, ht, -, hjoin⟩ := mem_items.mp hitem
    obtain ⟨hwalked, hunlisted⟩ := transfer_appendOnly_iff.mp ⟨t, ht, rfl⟩
    obtain ⟨path, haccepted, hpath⟩ := hexact.mem_rel.mp hwalked
    refine ⟨path.map text.lossy, ?_, fun hexists => ?_⟩
    · have hsent := joinDest_of_accepted hroot haccepted destRoot
      rw [hpath, hjoin] at hsent
      exact Option.some.inj hsent
    · refine hunlisted ((mem_listing hlisting).mpr ?_)
      rw [← hpath]
      exact hcovered path haccepted hexists

theorem append_only_creates_x :
    ∃ items, syncX "append-only" none (listingOf (oneFile nameY)) = .ran items [] ∧ items ≠ [] ∧
      ∀ item ∈ items, ∃ names, item.2 = sentTo ['/', 'd', '/'] names ∧
        ¬ExistsAt sampleText (oneFile nameY) 0 [] names := by
  have hrun : syncX "append-only" none (listingOf (oneFile nameY)) =
      .ran [(['s', '/', 'x'], ['/', 'd', '/', 'x'])] [] := by
    decide +kernel
  have hwalk : walk sampleText (oneFile nameX) 0 [] ['s'] (sampleArgs "append-only" none).filters =
      .ok [⟨['s', '/', 'x'], ['x'], 1, 0⟩] := by
    decide +kernel
  refine ⟨_, hrun, by simp, (append_only_sends_to_missing_iff rfl rfl hrun).2.mpr ?_⟩
  rintro path haccepted ⟨dir, n, node, hnames, hnode⟩
  have hrel := (walkExact_of_walk (by decide +kernel) hwalk).mem_rel.mpr ⟨path, haccepted, rfl⟩
  have hpath : path.map sampleText.lossy = [nameX] := relText_injective (mem_singleton.mp hrel)
  obtain ⟨rfl, rfl⟩ : dir = [] ∧ n = nameX := by
    simpa [append_eq_cons_iff] using hnames.symm.trans hpath
  have habsent : symlinkMetadata (oneFile nameY) 0 [] [] nameX = .error .notFound := by
    decide +kernel
  rw [map_nil, show sampleText.ofText nameX = nameX from rfl, habsent] at hnode
  cases hnode

def linkedFile : Disk Name where
  tree := .ofEntries [([nameX], .link ⟨false, [.name nameY]⟩), ([nameY], .file ⟨1, none⟩)]
    (by decide) (by decide)
  readable _ := true

/-- A file is sent to a path at which there is a link, which leads to a file. -/
theorem append_only_sends_to_link :
    syncX "append-only" none (listingOf linkedFile) =
        .ran [(['s', '/', 'x'], ['/', 'd', '/', 'x'])] [] ∧
      symlinkMetadata linkedFile 1 [] [] nameX = .ok (.link ⟨false, [.name nameY]⟩) ∧
      metadata linkedFile 1 [] [nameX] = .ok (.file ⟨1, none⟩) := by
  refine ⟨by decide +kernel, ?_, ?_⟩
  · decide +kernel
  · decide +kernel

end Sync

end Favonius.Client
