import Favonius.Client.FsTree
import Favonius.Lib.Utf8Lossy

/-!
# What the walk returns

The walk lists every accepted file once.  The relative paths are text, read with losses from
names that are bytes, so two files can have one path there.
-/

namespace Favonius.Client.FsTree

open ByteCodec DirTree UnixPath List

section Exact

variable {N : Type*} [DecidableEq N]
variable (text : NameText N) (disk : Disk N) (links : ℕ) (root : List N) (rootText : List Char)
variable (filters : Filters)

/-- A regular file or a link to one, below real directories, that the filters accept. -/
def Accepted (path : List N) : Prop :=
  IsFile disk links root path ∧ filters.accepts (relativeSlashPath text path) = true

def fileMeta (path : List N) : FileMeta :=
  match metadata disk links root path with
  | .ok (.file m) => m
  | _ => ⟨0, none⟩

def entryAt (path : List N) : TreeEntry :=
  let m := fileMeta disk links root path
  ⟨absPath text rootText path, relativeSlashPath text path, m.size, mtimeSecs m⟩

def Lists (files : Set (List N)) (found found' : Found N) : Prop :=
  ∃ paths : List (List N), paths.Nodup ∧ (∀ p, p ∈ paths ↔ p ∈ files) ∧
    found'.out = found.out ++ paths.map (entryAt text disk links root rootText)

def acceptedBelow (path : List N) : Set (List N) :=
  {p | path <+: p ∧ Accepted text disk links root filters p}

variable {text disk links root rootText filters}
variable {found mid found' : Found N} {dir : List N} {n : N}

lemma lists_empty {files : Set (List N)} (h : ∀ p, p ∉ files) (found : Found N) :
    Lists text disk links root rootText files found found :=
  ⟨[], nodup_nil, by simpa using h, by simp⟩

lemma Lists.union {files files' : Set (List N)}
    (h : Lists text disk links root rootText files found mid)
    (h' : Lists text disk links root rootText files' mid found')
    (hdisj : ∀ p ∈ files, p ∉ files') :
    Lists text disk links root rootText (files ∪ files') found found' := by
  obtain ⟨paths, hnodup, hmem, hout⟩ := h
  obtain ⟨paths', hnodup', hmem', hout'⟩ := h'
  refine ⟨paths ++ paths', ?_, ?_, ?_⟩
  · apply hnodup.append hnodup'
    intro p hp hp'
    exact hdisj p ((hmem p).mp hp) ((hmem' p).mp hp')
  · intro p
    rw [mem_append, hmem, hmem', Set.mem_union]
  · rw [hout', hout, map_append, append_assoc]

variable {path : List N}

lemma node_ne_dir (hmeta : metadata disk links root path ≠ .ok .dir) :
    disk.tree.node (root ++ path) ≠ some .dir :=
  fun hdir => hmeta (metadata_of_node hdir nofun)

variable {p : List N}

lemma eq_of_accepted_below (hnode : disk.tree.node (root ++ path) ≠ some .dir)
    (hp : p ∈ acceptedBelow text disk links root filters path) : p = path := by
  obtain ⟨⟨rest, rfl⟩, ⟨hfile, -⟩, -⟩ := hp
  rw [← append_assoc] at hfile
  by_cases hrest : rest = []
  · rw [hrest, append_nil]
  · exact absurd (Fs.dir_of_below hrest hfile) hnode

lemma lists_nothing (hnode : disk.tree.node (root ++ path) ≠ some .dir)
    (hmeta : ∀ m, metadata disk links root path ≠ .ok (.file m)) (found : Found N) :
    Lists text disk links root rootText (acceptedBelow text disk links root filters path)
      found found := by
  apply lists_empty
  intro p hp
  obtain rfl := eq_of_accepted_below hnode hp
  obtain ⟨-, ⟨-, m, hm⟩, -⟩ := hp
  exact hmeta m hm

lemma acceptedBelow_file (hfile : IsFile disk links root path) (p : List N) :
    p ∈ acceptedBelow text disk links root filters path ↔
      p = path ∧ filters.accepts (relativeSlashPath text path) = true := by
  constructor
  · intro hp
    obtain ⟨-, m, hm⟩ := hfile
    obtain rfl := eq_of_accepted_below (node_ne_dir (by rw [hm]; nofun)) hp
    exact ⟨rfl, hp.2.2⟩
  · rintro ⟨rfl, haccepts⟩
    exact ⟨prefix_refl _, hfile, haccepts⟩

variable {descend : List N → Found N → Except Errno (Found N)}

def ListsBelow (text : NameText N) (disk : Disk N) (links : ℕ) (root : List N)
    (rootText : List Char) (filters : Filters)
    (descend : List N → Found N → Except Errno (Found N)) (dir : List N) : Prop :=
  disk.tree.node (root ++ dir) = some .dir → ∀ found found', Fresh found (root ++ dir) →
    descend dir found = .ok found' →
      Lists text disk links root rootText (acceptedBelow text disk links root filters dir)
        found found'

lemma visit_lists
    (hdescend : ListsBelow text disk links root rootText filters descend (dir ++ [n]))
    (hfresh : Fresh found (root ++ (dir ++ [n])))
    (hvisit : visit text disk links root rootText filters descend (root ++ dir) dir found n =
      .ok found') :
    Lists text disk links root rootText
      (acceptedBelow text disk links root filters (dir ++ [n])) found found' := by
  unfold visit at hvisit
  split at hvisit
  · cases hvisit
  rename_i linkMeta hlinkMeta
  rw [append_assoc] at hlinkMeta
  split at hvisit
  · rename_i e hmeta
    split at hvisit
    · cases hvisit
      apply lists_nothing (node_ne_dir (by rw [hmeta]; nofun))
      rw [hmeta]
      nofun
    · cases hvisit
  · rename_i hmeta
    split at hvisit
    · -- a link to a directory
      rename_i hsymlink
      cases hvisit
      apply lists_nothing
      · rw [hlinkMeta]
        rintro ⟨⟩
        cases hsymlink
      · rw [hmeta]
        nofun
    · rename_i hsymlink
      cases hmeta.symm.trans (metadata_of_real hlinkMeta (Bool.eq_false_iff.mpr hsymlink))
      exact hdescend hlinkMeta found found' hfresh hvisit
  · rename_i m hmeta
    have hfile : IsFile disk links root (dir ++ [n]) :=
      ⟨by rw [hlinkMeta]; nofun, m, hmeta⟩
    dsimp only at hvisit
    split at hvisit
    · rename_i haccepts
      cases hvisit
      refine ⟨[dir ++ [n]], nodup_singleton _, ?_, ?_⟩
      · intro p
        rw [mem_singleton, acceptedBelow_file hfile]
        exact ⟨fun hp => ⟨hp, haccepts⟩, fun hp => hp.1⟩
      · simp [entryAt, fileMeta, hmeta]
    · rename_i haccepts
      cases hvisit
      apply lists_empty
      intro p hp
      exact haccepts ((acceptedBelow_file hfile p).mp hp).2
  · rename_i node hdir hnofile hmeta
    cases hvisit
    apply lists_nothing (node_ne_dir (by rw [hmeta]; simpa using hdir))
    intro m hm
    rw [hmeta] at hm
    exact hnofile m (Except.ok.inj hm)

lemma disjoint_acceptedBelow {k : N} (hne : n ≠ k)
    (hp : p ∈ acceptedBelow text disk links root filters (dir ++ [n])) :
    p ∉ acceptedBelow text disk links root filters (dir ++ [k]) := by
  rintro ⟨hk, -⟩
  exact hne (Volume.eq_of_prefixes hp.1 hk)

lemma visits_list (hwalks : ∀ n, Walks disk root descend (dir ++ [n]))
    (hlists : ∀ n, ListsBelow text disk links root rootText filters descend (dir ++ [n]))
    {ns : List N} (hnodup : ns.Nodup) (hfresh : ∀ n ∈ ns, Fresh found (root ++ (dir ++ [n])))
    (hvisits : ns.foldlM (visit text disk links root rootText filters descend (root ++ dir) dir)
      found = .ok found') :
    Lists text disk links root rootText
      {p | ∃ n ∈ ns, p ∈ acceptedBelow text disk links root filters (dir ++ [n])}
      found found' := by
  induction ns generalizing found with
  | nil =>
    cases hvisits
    apply lists_empty
    rintro p ⟨n, hn, -⟩
    exact not_mem_nil hn
  | cons n ns ih =>
    obtain ⟨mid, hvisit, hrest⟩ := foldlM_cons_eq_ok hvisits
    obtain ⟨hn, hnodup'⟩ := nodup_cons.mp hnodup
    have hfirst := visit_lists (hlists n) (hfresh n mem_cons_self) hvisit
    have hfresh' : ∀ k ∈ ns, Fresh mid (root ++ (dir ++ [k])) := by
      intro k hk
      apply Fresh.of_grows (hfresh k (mem_cons_of_mem _ hk)) (visit_grows (hwalks n) hvisit)
      rintro rfl
      exact hn hk
    have hlater := ih hnodup' hfresh' hrest
    have hboth := hfirst.union hlater (by
      rintro p hp ⟨k, hk, hpk⟩
      have hne : n ≠ k := by
        rintro rfl
        exact hn hk
      exact disjoint_acceptedBelow hne hp hpk)
    convert hboth using 1
    ext p
    simp

lemma mem_acceptedBelow_dir (hdir : disk.tree.node (root ++ dir) = some .dir) (p : List N) :
    p ∈ acceptedBelow text disk links root filters dir ↔
      ∃ n ∈ disk.tree.names (root ++ dir),
        p ∈ acceptedBelow text disk links root filters (dir ++ [n]) := by
  constructor
  · rintro ⟨⟨rest, rfl⟩, hfile, haccepts⟩
    cases rest with
    | nil =>
      -- the directory itself is no file
      obtain ⟨-, m, hm⟩ := hfile
      rw [append_nil, metadata_of_node hdir nofun] at hm
      cases hm
    | cons n rest =>
      rw [append_cons] at hfile haccepts ⊢
      refine ⟨n, ?_, prefix_append _ _, hfile, haccepts⟩
      apply Volume.mem_names_of_below rest
      rw [append_assoc root, append_assoc root]
      exact hfile.1
  · rintro ⟨n, -, hpre, haccepted⟩
    exact ⟨(prefix_append _ _).trans hpre, haccepted⟩

lemma listsBelow_walkInner (fuel : ℕ) (dir : List N) :
    ListsBelow text disk links root rootText filters
      (walkInner text disk links root rootText filters fuel) dir := by
  induction fuel generalizing dir with
  | zero =>
    intro _ found found' _ h
    cases h
  | succ fuel ih =>
    intro hdir found found' hfresh h
    simp only [walkInner, Fs.follow_of_dir hdir] at h
    split_ifs at h with hseen hreadable
    · exact absurd (prefix_refl _) (hfresh _ hseen)
    have hperm := perm_insertionSort (fun a b => text.le a b = true)
      (disk.tree.names (root ++ dir))
    obtain ⟨paths, hnodup, hmem, hout⟩ := visits_list
      (fun n => walks_walkInner fuel (dir ++ [n])) (fun n => ih (dir ++ [n]))
      (hperm.nodup_iff.mpr Volume.nodup_names)
      (fun k _ => hfresh.child k) h
    refine ⟨paths, hnodup, fun p => ?_, hout⟩
    rw [hmem, mem_acceptedBelow_dir hdir]
    simp only [Set.mem_ofPred_eq, hperm.mem_iff]

/-! ## The result -/

variable (text disk links root rootText filters) in
structure WalkExact (entries : List TreeEntry) : Prop where
  sorted : entries.Pairwise fun a b => a.rel ≤ b.rel
  files : ∃ paths : List (List N), paths.Nodup ∧
    (∀ p, p ∈ paths ↔ Accepted text disk links root filters p) ∧
      entries.Perm (paths.map (entryAt text disk links root rootText))

lemma pairwise_insertionSort_rel (entries : List TreeEntry) :
    (entries.insertionSort fun a b => a.rel ≤ b.rel).Pairwise fun a b => a.rel ≤ b.rel := by
  exact pairwise_insertionSort _ entries

/-- A walk that succeeds has the accepted files. -/
theorem walkExact_of_walk (hroot : disk.tree.node root = some .dir) {entries : List TreeEntry}
    (hwalk : walk text disk links root rootText filters = .ok entries) :
    WalkExact text disk links root rootText filters entries := by
  have hdir : disk.tree.node (root ++ []) = some .dir := by
    rw [append_nil]
    exact hroot
  unfold walk at hwalk
  rcases hfound : walkInner text disk links root rootText filters (disk.tree.depth + 1) []
    ⟨[], []⟩ with e | found
  · rw [hfound] at hwalk
    cases hwalk
  rw [hfound] at hwalk
  cases hwalk
  obtain ⟨paths, hnodup, hmem, hout⟩ :=
    listsBelow_walkInner (disk.tree.depth + 1) [] hdir _ _ (by simp [Fresh]) hfound
  refine ⟨pairwise_insertionSort_rel _, paths, hnodup, ?_, ?_⟩
  · intro p
    rw [hmem]
    exact and_iff_right nil_prefix
  · rw [nil_append] at hout
    rw [← hout]
    exact perm_insertionSort _ _

lemma WalkExact.mem_rel {entries : List TreeEntry}
    (h : WalkExact text disk links root rootText filters entries) {rel : RelPath} :
    rel ∈ entries.map (·.rel) ↔
      ∃ path, Accepted text disk links root filters path ∧ relativeSlashPath text path = rel := by
  obtain ⟨paths, -, hmem, hperm⟩ := h.files
  rw [(hperm.map (·.rel)).mem_iff, map_map, mem_map]
  exact exists_congr fun path => and_congr_left fun _ => hmem path

lemma exists_walk_exact (hreadable : ∀ loc, disk.readable loc = true)
    (hroot : disk.tree.node root = some .dir) :
    ∃ entries, walk text disk links root rootText filters = .ok entries ∧
      WalkExact text disk links root rootText filters entries := by
  have hdir : disk.tree.node (root ++ []) = some .dir := by
    rw [append_nil]
    exact hroot
  obtain ⟨found, hfound⟩ : ∃ found, walkInner text disk links root rootText filters
      (disk.tree.depth + 1) [] ⟨[], []⟩ = .ok found :=
    exists_walkInner hreadable _ [] hdir (by omega) _
  have hwalk := congrArg (Except.map fun found : Found N =>
    found.out.insertionSort fun a b => a.rel ≤ b.rel) hfound
  exact ⟨_, hwalk, walkExact_of_walk hroot hwalk⟩

lemma Accepted.ne_nil (hroot : disk.tree.node root = some .dir)
    (h : Accepted text disk links root filters p) : p ≠ [] := by
  rintro rfl
  obtain ⟨⟨-, m, hm⟩, -⟩ := h
  rw [← append_nil root] at hroot
  rw [metadata_of_node hroot nofun] at hm
  cases hm

/-! ## Relative paths -/

lemma relText_injective : Function.Injective relText := by
  have hnil : ∀ names, relText names = [] → names = [] := by
    intro names h
    by_contra hne
    have hsplit := splitOn_intercalate_names hne
    rw [show ['/'].intercalate (names.map Name.chars) = [] from h] at hsplit
    obtain ⟨name, rest, rfl⟩ := exists_cons_of_ne_nil hne
    exact name.isName.1 (cons.inj hsplit).1.symm
  intro names names' h
  by_cases hne : names = []
  · subst hne
    exact (hnil names' h.symm).symm
  have hne' : names' ≠ [] := by
    rintro rfl
    exact hne (hnil names h)
  have hchars : names.map Name.chars = names'.map Name.chars := by
    rw [← splitOn_intercalate_names hne, ← splitOn_intercalate_names hne']
    exact congrArg (splitOn '/') h
  apply map_injective_iff.mpr _ hchars
  rintro ⟨chars, _⟩ ⟨chars', _⟩ rfl
  rfl

lemma joinDest_relText {names : List Name} (hne : names ≠ []) (base : List Char) :
    joinDest base (relText names) =
      some (base.rdropWhile (· = '/') ++ '/' :: relText names) := by
  have hsplit : (relText names).splitOn '/' = names.map Name.chars :=
    splitOn_intercalate_names hne
  have hempty : relText names ≠ [] := by
    intro h
    exact hne (relText_injective h)
  rw [joinDest, if_neg hempty, if_neg]
  rw [hsplit]
  simp only [any_map, any_eq_true, not_exists, not_and, Function.comp_apply,
    decide_eq_true_eq]
  intro name _
  obtain ⟨hnil, hdot, hdots, -⟩ := name.isName
  tauto

/-- Two accepted files that have one path as text are one file. -/
def PathsDistinct (text : NameText N) (disk : Disk N) (links : ℕ) (root : List N)
    (filters : Filters) : Prop :=
  ∀ p q, Accepted text disk links root filters p → Accepted text disk links root filters q →
    p.map text.lossy = q.map text.lossy → p = q

variable {entries : List TreeEntry}

lemma pairwise_rel_iff (h : WalkExact text disk links root rootText filters entries) :
    (entries.Pairwise fun a b => a.rel ≠ b.rel) ↔
      PathsDistinct text disk links root filters := by
  obtain ⟨paths, hnodup, hmem, hperm⟩ := h.files
  have hsymm : ∀ {a b : TreeEntry}, a.rel ≠ b.rel → b.rel ≠ a.rel := fun hab => hab.symm
  rw [hperm.pairwise_iff hsymm, pairwise_map]
  constructor
  · intro hpairwise p q hp hq hpq
    have hrels : (paths.map (relativeSlashPath text)).Nodup := pairwise_map.mpr hpairwise
    exact inj_on_of_nodup_map hrels ((hmem p).mpr hp) ((hmem q).mpr hq)
      (congrArg relText hpq)
  · intro hdistinct
    apply hnodup.imp_of_mem
    intro p q hp hq hne heq
    exact hne (hdistinct p q ((hmem p).mp hp) ((hmem q).mp hq) (relText_injective heq))

lemma pairwise_joinDest (hroot : disk.tree.node root = some .dir)
    (h : WalkExact text disk links root rootText filters entries)
    (hrel : entries.Pairwise fun a b => a.rel ≠ b.rel) (base : List Char) :
    entries.Pairwise fun a b => joinDest base a.rel ≠ joinDest base b.rel := by
  obtain ⟨paths, -, hmem, hperm⟩ := h.files
  have hjoin : ∀ e ∈ entries, joinDest base e.rel =
      some (base.rdropWhile (· = '/') ++ '/' :: e.rel) := by
    intro e he
    obtain ⟨p, hp, rfl⟩ := List.mem_map.mp (hperm.subset he)
    apply joinDest_relText
    simpa using ((hmem p).mp hp).ne_nil hroot
  apply hrel.imp_of_mem
  intro a b ha hb hne heq
  rw [hjoin a ha, hjoin b hb, Option.some.injEq] at heq
  exact hne (cons.inj (append_cancel_left heq)).2

end Exact

/-! ## Names that are bytes -/

open Utf8Lossy

/-- The name of a directory entry: any bytes but a separator. -/
structure FileName where
  bytes : Bytes
  isName : bytes ≠ [] ∧ bytes ≠ [46] ∧ bytes ≠ [46, 46] ∧ slash ∉ bytes
  deriving DecidableEq

namespace FileName

lemma isName_decode {bytes : Bytes}
    (h : bytes ≠ [] ∧ bytes ≠ [46] ∧ bytes ≠ [46, 46] ∧ slash ∉ bytes) :
    IsName (decode bytes) := by
  obtain ⟨hne, hdot, hdots, hslash⟩ := h
  have hread : ∀ segment, replacement ∉ segment → decode bytes = segment →
      bytes = encode segment := by
    intro segment hlost heq
    rw [← heq] at hlost ⊢
    exact (encode_decode hlost).symm
  refine ⟨mt decode_eq_nil hne, ?_, ?_, ?_⟩
  · intro heq
    exact hdot (hread ['.'] (by decide) heq)
  · intro heq
    exact hdots (hread ['.', '.'] (by decide) heq)
  · intro hmem
    have hbyte := infix_of_mem_decode hmem (by decide)
    exact hslash (hbyte.subset mem_cons_self)

def lossy (n : FileName) : Name := ⟨decode n.bytes, isName_decode n.isName⟩

lemma isName_encode (n : Name) :
    encode n.chars ≠ [] ∧ encode n.chars ≠ [46] ∧ encode n.chars ≠ [46, 46] ∧
      slash ∉ encode n.chars := by
  obtain ⟨hne, hdot, hdots, hslash⟩ := n.isName
  refine ⟨fun h => hne ?_, fun h => hdot ?_, fun h => hdots ?_, fun h => hslash ?_⟩
  · exact encode_injective (h.trans encode_nil.symm)
  · exact encode_injective h
  · exact encode_injective h
  · obtain ⟨c, hc, hb⟩ := mem_flatMap.mp h
    have hencode : String.utf8EncodeChar c = String.utf8EncodeChar '/' :=
      utf8EncodeChar_of_mem hb (by decide)
    have hsame : encode [c] = encode ['/'] := by rw [encode_cons, hencode, encode_cons]
    obtain rfl := (cons.inj (encode_injective hsame)).1
    exact hc

def ofText (n : Name) : FileName := ⟨encode n.chars, isName_encode n⟩

end FileName

/-- Names in paths that are opened keep their bytes, here one character each. -/
def byteNames : NameText FileName where
  raw n := n.bytes.map fun b => Char.ofNat b.toNat
  lossy := FileName.lossy
  ofText := FileName.ofText
  lossy_ofText n := by
    cases n
    simp [FileName.lossy, FileName.ofText, decode_encode]
  le a b := a.bytes ≤ b.bytes

/-- The walk of a readable tree ends; it returns the accepted files, each once, sorted by
relative path.  They have different relative paths, and so different destinations, exactly if
no two of them have names that read as the same text. -/
theorem walk_collision_free_iff (disk : Disk FileName) (links : ℕ) (root : List FileName)
    (rootText : List Char) (filters : Filters) (hreadable : ∀ loc, disk.readable loc = true)
    (hroot : disk.tree.node root = some .dir) :
    (∃ entries, walk byteNames disk links root rootText filters = .ok entries ∧
      WalkExact byteNames disk links root rootText filters entries) ∧
    ((∃ entries, walk byteNames disk links root rootText filters = .ok entries ∧
        WalkExact byteNames disk links root rootText filters entries ∧
        (entries.Pairwise fun a b => a.rel ≠ b.rel) ∧
        ∀ base, entries.Pairwise fun a b => joinDest base a.rel ≠ joinDest base b.rel) ↔
      PathsDistinct byteNames disk links root filters) := by
  obtain ⟨entries, hwalk, hexact⟩ :
      ∃ entries, walk byteNames disk links root rootText filters = .ok entries ∧
        WalkExact byteNames disk links root rootText filters entries :=
    exists_walk_exact hreadable hroot
  refine ⟨⟨entries, hwalk, hexact⟩, ?_, ?_⟩
  · rintro ⟨listed, -, hlisted, hrel, -⟩
    exact (pairwise_rel_iff hlisted).mp hrel
  · intro hdistinct
    have hrel := (pairwise_rel_iff hexact).mpr hdistinct
    exact ⟨entries, hwalk, hexact, hrel, pairwise_joinDest hroot hexact hrel⟩

def oneByteName (b : UInt8) (h : b ≠ 46 ∧ b ≠ slash) : FileName :=
  ⟨[b], by simpa [eq_comm] using h⟩

def sampleTree : Disk FileName where
  tree := .ofEntries [([oneByteName 97 (by decide)], .file ⟨1, none⟩),
    ([oneByteName 100 (by decide)], .dir),
    ([oneByteName 100 (by decide), oneByteName 98 (by decide)], .file ⟨2, none⟩),
    ([oneByteName 110 (by decide)], .link ⟨false, [.name (oneByteName 120 (by decide))]⟩),
    ([oneByteName 109 (by decide)], .link ⟨false, [.name (oneByteName 109 (by decide))]⟩)]
    (by decide +kernel) (by decide +kernel)
  readable _ := true

theorem walk_collision_free_sample :
    ∃ entries, walk byteNames sampleTree 40 [] ['s'] ⟨[], []⟩ = .ok entries ∧
      entries.map (·.rel) = [['a'], ['d', '/', 'b']] ∧
      entries.Pairwise fun a b => a.rel ≠ b.rel := by
  have hentry : ∀ p, Accepted byteNames sampleTree 40 [] ⟨[], []⟩ p →
      p ∈ sampleTree.tree.entries.map Prod.fst := by
    intro p hp
    obtain ⟨x, hx⟩ := Option.ne_none_iff_exists'.mp hp.1.1
    exact mem_map_of_mem ((Volume.node_eq_some_iff (hp.ne_nil rfl)).mp hx)
  have hnames : ∀ p ∈ sampleTree.tree.entries.map Prod.fst,
      ∀ q ∈ sampleTree.tree.entries.map Prod.fst,
        p.map FileName.lossy = q.map FileName.lossy → p = q := by
    decide +kernel
  obtain ⟨entries, hwalk, -, hrel, -⟩ :=
    (walk_collision_free_iff sampleTree 40 [] ['s'] ⟨[], []⟩ (fun _ => rfl) rfl).2.mpr
      fun p q hp hq => hnames p (hentry p hp) q (hentry q hq)
  refine ⟨entries, hwalk, ?_, hrel⟩
  have hrels : (walk byteNames sampleTree 40 [] ['s'] ⟨[], []⟩).map (List.map (·.rel)) =
      .ok [['a'], ['d', '/', 'b']] := by decide +kernel
  rw [hwalk] at hrels
  exact Except.ok.inj hrels

def brokenNames : Disk FileName where
  tree := .ofEntries [([oneByteName 254 (by decide)], .file ⟨1, none⟩),
    ([oneByteName 255 (by decide)], .file ⟨2, none⟩)] (by decide +kernel) (by decide +kernel)
  readable _ := true

/-- Two names that are not UTF-8 read alike. -/
theorem broken_names_share_a_path :
    walk byteNames brokenNames 40 [] ['s'] ⟨[], []⟩ =
        .ok [⟨['s', '/', 'þ'], ['�'], 1, 0⟩, ⟨['s', '/', 'ÿ'], ['�'], 2, 0⟩] ∧
      joinDest ['/', 'd'] ['�'] = some ['/', 'd', '/', '�'] := by
  decide +kernel

end Favonius.Client.FsTree
