import Favonius.Client.SyncPlan

/-!
# A plan, applied, leaves nothing to plan

The destination is a map from paths to a size and a content.  Applying a plan writes the local
size and content at each transferred path and removes each deleted one.  Every lookup in the
result is given by what the planner said about the path, and planning again finds nothing to do.
-/

namespace Favonius.Client.SyncPlan

open List Option AList

variable {γ : Type*}

structure Stored (γ : Type*) where
  size : UInt64
  content : γ

abbrev Store (γ : Type*) := AList fun _ : RelPath => Stored γ

section Listing

variable (compare : Compare) (hash : γ → String) (mtime : RelPath → ℤ)

def entryOf (path : RelPath) (s : Stored γ) : FsEntry :=
  ⟨path, s.size, mtime path, if compare = .checksum then some (hash s.content) else none⟩

def listing (store : Store γ) : List FsEntry :=
  store.entries.map fun e => entryOf compare hash mtime e.1 e.2

/-- The hashes are computed for a comparison by checksum only. -/
def hashesOf (contentOf : TreeEntry → γ) (localEntries : List TreeEntry) : List (Option String) :=
  match compare with
  | .size => []
  | .checksum => localEntries.map fun e => some (hash (contentOf e))

end Listing

def Agree (compare : Compare) (hash : γ → String) (contentOf : TreeEntry → γ) (entry : TreeEntry)
    (s : Stored γ) : Prop :=
  match compare with
  | .size => entry.size = s.size
  | .checksum => hash (contentOf entry) = hash s.content

instance (compare : Compare) (hash : γ → String) (contentOf : TreeEntry → γ) (entry : TreeEntry)
    (s : Stored γ) : Decidable (Agree compare hash contentOf entry s) :=
  match compare with
  | .size => inferInstanceAs (Decidable (_ = _))
  | .checksum => inferInstanceAs (Decidable (_ = _))

def write (contentOf : TreeEntry → γ) (store : Store γ) (t : PlannedTransfer) : Store γ :=
  store.insert t.entry.rel ⟨t.entry.size, contentOf t.entry⟩

def applyPlan (contentOf : TreeEntry → γ) (p : Plan) (store : Store γ) : Store γ :=
  p.deletes.foldl (fun store path => store.erase path) (p.transfers.foldl (write contentOf) store)

section Lookup

variable {compare : Compare} {hash : γ → String} {mtime : RelPath → ℤ}
  {contentOf : TreeEntry → γ} {localEntries : List TreeEntry} {store : Store γ}

lemma mem_listing {e : FsEntry} : e ∈ listing compare hash mtime store ↔
    ∃ s, store.lookup e.path = some s ∧ e = entryOf compare hash mtime e.path s := by
  simp only [listing, List.mem_map, Sigma.exists]
  constructor
  · rintro ⟨path, s, hmem, rfl⟩
    exact ⟨s, mem_lookup_iff.mpr hmem, rfl⟩
  · rintro ⟨s, hlookup, he⟩
    exact ⟨e.path, s, mem_lookup_iff.mp hlookup, he.symm⟩

lemma remoteByPath_listing (path : RelPath) :
    remoteByPath (listing compare hash mtime store) path =
      (store.lookup path).map (entryOf compare hash mtime path) := by
  cases hfind : remoteByPath (listing compare hash mtime store) path with
  | none =>
    cases hlookup : store.lookup path with
    | none => rfl
    | some s =>
      have hmem : entryOf compare hash mtime path s ∈ listing compare hash mtime store :=
        mem_listing.mpr ⟨s, hlookup, rfl⟩
      have := find?_eq_none.mp hfind _ (mem_reverse.mpr hmem)
      exact absurd (decide_eq_true rfl) this
  | some e =>
    have hmem := mem_reverse.mp (mem_of_find?_eq_some hfind)
    have hpath : e.path = path := by simpa using find?_some hfind
    obtain ⟨s, hlookup, he⟩ := mem_listing.mp hmem
    rw [hpath] at hlookup he
    rw [hlookup, map_some, ← he]

lemma mem_map_path_listing {path : RelPath} :
    path ∈ (listing compare hash mtime store).map (·.path) ↔ path ∈ store := by
  rw [← lookup_isSome, isSome_iff_exists, List.mem_map]
  constructor
  · rintro ⟨e, hmem, rfl⟩
    obtain ⟨s, hlookup, -⟩ := mem_listing.mp hmem
    exact ⟨s, hlookup⟩
  · rintro ⟨s, hlookup⟩
    exact ⟨entryOf compare hash mtime path s, mem_listing.mpr ⟨s, hlookup, rfl⟩, rfl⟩

lemma same_entryOf {i : ℕ} {entry : TreeEntry} (hi : localEntries[i]? = some entry)
    (path : RelPath) (s : Stored γ) :
    same compare (hashesOf compare hash contentOf localEntries) i entry
      (entryOf compare hash mtime path s) = decide (Agree compare hash contentOf entry s) := by
  cases compare with
  | size => rfl
  | checksum =>
    apply Bool.eq_iff_iff.mpr
    rw [decide_eq_true_iff]
    simp [same, hashesOf, hi, entryOf, Agree]

lemma judge_listing {mode : SyncMode} {i : ℕ} {entry : TreeEntry}
    (hi : localEntries[i]? = some entry) :
    judge (listing compare hash mtime store) mode compare
        (hashesOf compare hash contentOf localEntries) i entry =
      match store.lookup entry.rel with
      | none => .transfer .create
      | some s =>
        if mode = .appendOnly then .protect
        else if Agree compare hash contentOf entry s then .unchanged
        else .transfer .update := by
  rw [judge, remoteByPath_listing]
  cases store.lookup entry.rel with
  | none => rfl
  | some s => simp only [map_some, same_entryOf hi, decide_eq_true_eq]

end Lookup

section Apply

variable {contentOf : TreeEntry → γ} {ts : List PlannedTransfer}

lemma lookup_foldl_write_of_notMem {path : RelPath} (h : path ∉ ts.map (·.entry.rel))
    (store : Store γ) : (ts.foldl (write contentOf) store).lookup path = store.lookup path := by
  induction ts generalizing store with
  | nil => rfl
  | cons t ts ih =>
    simp only [map_cons, mem_cons, not_or] at h
    rw [foldl_cons, ih h.2, write, lookup_insert_ne h.1]

lemma lookup_foldl_write_of_mem {t : PlannedTransfer} (hnodup : (ts.map (·.entry.rel)).Nodup)
    (h : t ∈ ts) (store : Store γ) :
    (ts.foldl (write contentOf) store).lookup t.entry.rel =
      some ⟨t.entry.size, contentOf t.entry⟩ := by
  induction ts generalizing store with
  | nil => cases h
  | cons u ts ih =>
    rw [map_cons, nodup_cons] at hnodup
    rw [foldl_cons]
    rcases mem_cons.mp h with rfl | hmem
    · rw [lookup_foldl_write_of_notMem hnodup.1, write, lookup_insert]
    · exact ih hnodup.2 hmem _

lemma lookup_foldl_erase (path : RelPath) (ds : List RelPath) (store : Store γ) :
    (ds.foldl (fun store path => store.erase path) store).lookup path =
      if path ∈ ds then none else store.lookup path := by
  induction ds generalizing store with
  | nil => simp
  | cons d ds ih =>
    rw [foldl_cons, ih]
    by_cases hd : path = d
    · subst hd
      simp
    · simp [hd, lookup_erase_ne hd]

end Apply

section Again

variable {compare : Compare} {hash : γ → String} {mtime mtime' : RelPath → ℤ} {mode : SyncMode}
  {contentOf : TreeEntry → γ} {localEntries : List TreeEntry} {store : Store γ}

variable (compare hash mtime mode contentOf localEntries store) in
def planFor : Plan :=
  plan (listing compare hash mtime store) mode compare
    (hashesOf compare hash contentOf localEntries) localEntries

variable (compare hash mtime mode contentOf localEntries store) in
def synced : Store γ :=
  applyPlan contentOf (planFor compare hash mtime mode contentOf localEntries store) store

lemma rel_transfers_sublist :
    ((planFor compare hash mtime mode contentOf localEntries store).transfers.map
      (·.entry.rel)).Sublist (localEntries.map (·.rel)) := by
  have h := sublist_filterMap_transferOf (judged (listing compare hash mtime store) mode compare
    (hashesOf compare hash contentOf localEntries) localEntries)
  rw [map_fst_judged, ← transfers_plan] at h
  have := h.map TreeEntry.rel
  rwa [List.map_map] at this

variable {i : ℕ}

lemma eq_of_rel_eq (hnodup : (localEntries.map (·.rel)).Nodup) {j : ℕ} {e e' : TreeEntry}
    (hi : localEntries[i]? = some e) (hj : localEntries[j]? = some e') (h : e.rel = e'.rel) :
    i = j := by
  have hlt : i < (localEntries.map (·.rel)).length := by
    rw [length_map]
    exact (List.getElem?_eq_some_iff.mp hi).1
  apply (getElem?_inj hlt hnodup).mp
  rw [getElem?_map, getElem?_map, hi, hj, map_some, map_some, h]

lemma lookup_synced_of_transfer (hnodup : (localEntries.map (·.rel)).Nodup) {t : PlannedTransfer}
    (h : t ∈ (planFor compare hash mtime mode contentOf localEntries store).transfers) :
    (synced compare hash mtime mode contentOf localEntries store).lookup t.entry.rel =
      some ⟨t.entry.size, contentOf t.entry⟩ := by
  have hrel : t.entry.rel ∈ localEntries.map (·.rel) :=
    rel_transfers_sublist.subset (mem_map_of_mem h)
  have hkept : t.entry.rel ∉
      (planFor compare hash mtime mode contentOf localEntries store).deletes := by
    intro hdeleted
    exact (mem_deletes_plan.mp hdeleted).2.2 hrel
  rw [synced, applyPlan, lookup_foldl_erase, if_neg hkept]
  exact lookup_foldl_write_of_mem (rel_transfers_sublist.nodup hnodup) h store

variable {entry : TreeEntry}

lemma lookup_synced_of_not_transfer (hnodup : (localEntries.map (·.rel)).Nodup)
    (hi : localEntries[i]? = some entry)
    (h : ∀ action, judge (listing compare hash mtime store) mode compare
      (hashesOf compare hash contentOf localEntries) i entry ≠ .transfer action) :
    (synced compare hash mtime mode contentOf localEntries store).lookup entry.rel =
      store.lookup entry.rel := by
  have hkept : entry.rel ∉
      (planFor compare hash mtime mode contentOf localEntries store).deletes := by
    intro hdeleted
    exact (mem_deletes_plan.mp hdeleted).2.2 (mem_map_of_mem (mem_of_getElem? hi))
  have hnotSent : entry.rel ∉ (planFor compare hash mtime mode contentOf localEntries
      store).transfers.map (·.entry.rel) := by
    rintro hsent
    obtain ⟨t, ht, hrel⟩ := List.mem_map.mp hsent
    obtain ⟨j, hj, hjudge⟩ := mem_transfers_plan.mp ht
    obtain rfl := eq_of_rel_eq hnodup hj hi hrel
    rw [hi, some.injEq] at hj
    rw [← hj] at hjudge
    exact h _ hjudge
  rw [synced, applyPlan, lookup_foldl_erase, if_neg hkept, lookup_foldl_write_of_notMem hnotSent]

variable {path : RelPath}

lemma lookup_synced_of_notMem (h : path ∉ localEntries.map (·.rel)) :
    (synced compare hash mtime mode contentOf localEntries store).lookup path =
      if mode = .mirror then none else store.lookup path := by
  have hnotSent : path ∉ (planFor compare hash mtime mode contentOf localEntries
      store).transfers.map (·.entry.rel) := fun hsent => h (rel_transfers_sublist.subset hsent)
  rw [synced, applyPlan, lookup_foldl_erase, lookup_foldl_write_of_notMem hnotSent]
  have hdeletes : path ∈ (planFor compare hash mtime mode contentOf localEntries store).deletes ↔
      mode = .mirror ∧ path ∈ store := by
    rw [planFor, mem_deletes_plan, mem_map_path_listing]
    simp [h]
  simp only [hdeletes]
  by_cases hmode : mode = .mirror
  · by_cases hmem : path ∈ store
    · rw [if_pos ⟨hmode, hmem⟩, if_pos hmode]
    · rw [if_neg (fun hboth => hmem hboth.2), if_pos hmode]
      exact lookup_eq_none.mpr hmem
  · rw [if_neg (fun hboth => hmode hboth.1), if_neg hmode]

variable (compare hash mtime mode contentOf store) in
/-- After the plan, what is at a local path agrees with the source or is protected. -/
theorem lookup_synced (hnodup : (localEntries.map (·.rel)).Nodup)
    (hi : localEntries[i]? = some entry) :
    ∃ s, (synced compare hash mtime mode contentOf localEntries store).lookup entry.rel = some s ∧
      (s = ⟨entry.size, contentOf entry⟩ ∨ store.lookup entry.rel = some s ∧
        (mode = .appendOnly ∨ Agree compare hash contentOf entry s)) := by
  cases hverdict : judge (listing compare hash mtime store) mode compare
      (hashesOf compare hash contentOf localEntries) i entry with
  | transfer action =>
    refine ⟨⟨entry.size, contentOf entry⟩, ?_, .inl rfl⟩
    exact lookup_synced_of_transfer hnodup
      (mem_transfers_plan.mpr ⟨i, hi, hverdict⟩ : (⟨entry, action⟩ : PlannedTransfer) ∈ _)
  | unchanged | protect =>
    have hkept : (synced compare hash mtime mode contentOf localEntries store).lookup entry.rel =
        store.lookup entry.rel := by
      apply lookup_synced_of_not_transfer hnodup hi
      rw [hverdict]
      exact fun _ => nofun
    rw [judge_listing hi] at hverdict
    cases hlookup : store.lookup entry.rel with
    | none => simp [hlookup] at hverdict
    | some s =>
      refine ⟨s, hkept.trans hlookup, .inr ⟨rfl, ?_⟩⟩
      by_cases hmode : mode = .appendOnly
      · exact .inl hmode
      · simp only [hlookup, hmode, if_false] at hverdict
        split at hverdict
        · exact .inr ‹_›
        · cases hverdict

lemma agree_self (entry : TreeEntry) :
    Agree compare hash contentOf entry ⟨entry.size, contentOf entry⟩ := by
  cases compare <;> rfl

lemma judge_synced (hnodup : (localEntries.map (·.rel)).Nodup)
    (hi : localEntries[i]? = some entry) (action : Action) :
    judge (listing compare hash mtime'
        (synced compare hash mtime mode contentOf localEntries store)) mode compare
      (hashesOf compare hash contentOf localEntries) i entry ≠ .transfer action := by
  obtain ⟨s, hlookup, hs⟩ := lookup_synced compare hash mtime mode contentOf store hnodup hi
  rw [judge_listing hi, hlookup]
  by_cases hmode : mode = .appendOnly
  · simp [hmode]
  have hagree : Agree compare hash contentOf entry s := by
    rcases hs with rfl | ⟨-, hprotected | hagree⟩
    · exact agree_self entry
    · exact absurd hprotected hmode
    · exact hagree
  simp [hmode, hagree]

lemma transfers_planFor_synced (hnodup : (localEntries.map (·.rel)).Nodup) :
    (planFor compare hash mtime' mode contentOf localEntries
      (synced compare hash mtime mode contentOf localEntries store)).transfers = [] := by
  apply eq_nil_iff_forall_not_mem.mpr
  intro t ht
  obtain ⟨i, hi, hjudge⟩ := mem_transfers_plan.mp ht
  exact judge_synced hnodup hi t.action hjudge

lemma deletes_planFor_synced :
    (planFor compare hash mtime' mode contentOf localEntries
      (synced compare hash mtime mode contentOf localEntries store)).deletes = [] := by
  apply eq_nil_iff_forall_not_mem.mpr
  intro path hdeleted
  obtain ⟨hmode, hlisted, hextra⟩ := mem_deletes_plan.mp hdeleted
  rw [mem_map_path_listing] at hlisted
  have hgone :
      (synced compare hash mtime mode contentOf localEntries store).lookup path = none := by
    rw [lookup_synced_of_notMem hextra, if_pos hmode]
  exact lookup_eq_none.mp hgone hlisted

lemma mem_synced_of_mem (hnodup : (localEntries.map (·.rel)).Nodup)
    (h : path ∈ localEntries.map (·.rel)) :
    path ∈ synced compare hash mtime mode contentOf localEntries store := by
  obtain ⟨entry, hmem, rfl⟩ := List.mem_map.mp h
  obtain ⟨i, hi⟩ := mem_iff_getElem?.mp hmem
  obtain ⟨s, hlookup, -⟩ := lookup_synced compare hash mtime mode contentOf store hnodup hi
  rw [← lookup_isSome, hlookup]
  rfl

lemma lookup_synced_appendOnly (hnodup : (localEntries.map (·.rel)).Nodup) (h : path ∈ store) :
    (synced compare hash mtime .appendOnly contentOf localEntries store).lookup path =
      store.lookup path := by
  by_cases hlocal : path ∈ localEntries.map (·.rel)
  · obtain ⟨entry, hmem, rfl⟩ := List.mem_map.mp hlocal
    obtain ⟨i, hi⟩ := mem_iff_getElem?.mp hmem
    apply lookup_synced_of_not_transfer hnodup hi
    intro action
    obtain ⟨s, hs⟩ := isSome_iff_exists.mp (lookup_isSome.mpr h)
    simp [judge_listing hi, hs]
  · rw [lookup_synced_of_notMem hlocal]
    rfl

end Again

/-- Every local entry is sent, unchanged or protected; after the plan nothing is left to send or
to delete; a mirror has the local paths, and with known hashes that do not collide their contents;
what the source does not have stays unless the mode is mirror, and append-only leaves all that
is there. -/
theorem sync_plan_converges (compare : Compare) (hash : γ → String) (mtime mtime' : RelPath → ℤ)
    (mode : SyncMode) (contentOf : TreeEntry → γ) (localEntries : List TreeEntry) (store : Store γ)
    (hnodup : (localEntries.map (·.rel)).Nodup) :
    let p := planFor compare hash mtime mode contentOf localEntries store
    let result := synced compare hash mtime mode contentOf localEntries store
    (∃ verdicts : List Verdict, verdicts.length = localEntries.length ∧
      p.transfers = (localEntries.zip verdicts).filterMap transferOf ∧
      p.unchanged = verdicts.count .unchanged ∧ p.protect = verdicts.count .protect) ∧
    (planFor compare hash mtime' mode contentOf localEntries result).IsEmpty ∧
    (mode = .mirror → ∀ path, path ∈ result ↔ path ∈ localEntries.map (·.rel)) ∧
    (compare = .checksum → mode ≠ .appendOnly →
      (∀ e ∈ localEntries, ∀ s, store.lookup e.rel = some s → hash (contentOf e) = hash s.content →
        contentOf e = s.content) →
      ∀ e ∈ localEntries, (result.lookup e.rel).map (·.content) = some (contentOf e)) ∧
    (mode ≠ .mirror → ∀ path, path ∉ localEntries.map (·.rel) →
      result.lookup path = store.lookup path) ∧
    (mode = .appendOnly → ∀ path ∈ store, result.lookup path = store.lookup path) := by
  refine ⟨?_, ⟨transfers_planFor_synced hnodup, deletes_planFor_synced⟩, ?_, ?_, ?_, ?_⟩
  · exact plan_verdicts _ _ _ _ _
  · rintro hmode path
    refine ⟨?_, mem_synced_of_mem hnodup⟩
    intro hmem
    by_contra hextra
    refine lookup_eq_none.mp ?_ hmem
    rw [lookup_synced_of_notMem hextra, if_pos hmode]
  · intro hchecksum hmode hcollision e he
    obtain ⟨i, hi⟩ := mem_iff_getElem?.mp he
    obtain ⟨s, hlookup, hs⟩ := lookup_synced compare hash mtime mode contentOf store hnodup hi
    rw [hlookup, map_some, some.injEq]
    rcases hs with rfl | ⟨hstored, hprotected | hagree⟩
    · rfl
    · exact absurd hprotected hmode
    · subst hchecksum
      exact (hcollision e he s hstored hagree).symm
  · intro hmode path hextra
    rw [lookup_synced_of_notMem hextra, if_neg hmode]
  · rintro rfl path hmem
    exact lookup_synced_appendOnly hnodup hmem

theorem mirror_of_a_changed_file_converges :
    let entry : TreeEntry := ⟨['/', 's', '/', 'a'], ['a'], 3, 0⟩
    let store : Store ℕ := ⟨[⟨['a'], 3, 7⟩, ⟨['b'], 1, 9⟩], by rw [List.NodupKeys]; decide⟩
    ([entry].map (·.rel)).Nodup ∧
      (planFor .checksum toString (fun _ => 0) .mirror (fun _ => 5) [entry]
        (synced .checksum toString (fun _ => 0) .mirror (fun _ => 5) [entry] store)).IsEmpty :=
  ⟨by decide, (sync_plan_converges _ _ _ _ _ _ _ _ (by decide)).2.1⟩

end Favonius.Client.SyncPlan
