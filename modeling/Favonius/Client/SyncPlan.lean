import Mathlib.Data.Char
import Mathlib.Data.List.AList
import Mathlib.Data.List.Lex
import Mathlib.Tactic

/-!
# The plan of a sync

The planner compares the walk of the source with the listing of the destination, path by path,
and says what to send and what to delete.  It looks paths up in a hash map of the listing, in
which the last entry of a path wins, and takes the local hashes from a list parallel to the walk.
-/

namespace Favonius.Client

open List

/-- A path relative to a root, with `/` between the names. -/
abbrev RelPath := List Char

/-- One regular file found by a walk; `abs` is what is opened for reading. -/
structure TreeEntry where
  abs : List Char
  rel : RelPath
  size : UInt64
  mtime : ℤ
  deriving DecidableEq

structure FsEntry where
  path : RelPath
  size : UInt64
  mtime : ℤ
  hash : Option String
  deriving DecidableEq

inductive SyncMode where
  | oneWay
  | mirror
  | appendOnly
  deriving DecidableEq

inductive Compare where
  | size
  | checksum
  deriving DecidableEq

inductive Action where
  | create
  | update
  deriving DecidableEq

structure PlannedTransfer where
  entry : TreeEntry
  action : Action
  deriving DecidableEq

structure Plan where
  transfers : List PlannedTransfer
  deletes : List RelPath
  unchanged : ℕ
  protect : ℕ
  deriving DecidableEq

def Plan.IsEmpty (p : Plan) : Prop := p.transfers = [] ∧ p.deletes = []

instance (p : Plan) : Decidable p.IsEmpty := inferInstanceAs (Decidable (_ ∧ _))

namespace SyncPlan

def remoteByPath (remote : List FsEntry) (path : RelPath) : Option FsEntry :=
  remote.reverse.find? (·.path = path)

/-- A missing hash on either side means different. -/
def same (compare : Compare) (localHashes : List (Option String)) (i : ℕ) (entry : TreeEntry)
    (r : FsEntry) : Bool :=
  match compare with
  | .size => entry.size == r.size
  | .checksum =>
    match localHashes[i]?.join, r.hash with
    | some a, some b => a == b
    | _, _ => false

inductive Verdict where
  | transfer (action : Action)
  | unchanged
  | protect
  deriving DecidableEq

section Plan

variable (remote : List FsEntry) (mode : SyncMode) (compare : Compare)
  (localHashes : List (Option String))

def judge (i : ℕ) (entry : TreeEntry) : Verdict :=
  match remoteByPath remote entry.rel with
  | none => .transfer .create
  | some r =>
    if mode = .appendOnly then .protect
    else if same compare localHashes i entry r then .unchanged
    else .transfer .update

def record (out : Plan) (entry : TreeEntry) : Verdict → Plan
  | .transfer action => { out with transfers := out.transfers ++ [⟨entry, action⟩] }
  | .unchanged => { out with unchanged := out.unchanged + 1 }
  | .protect => { out with protect := out.protect + 1 }

def compareEntries (localEntries : List TreeEntry) : Plan :=
  localEntries.zipIdx.foldl
    (fun out e => record out e.1 (judge remote mode compare localHashes e.2 e.1)) ⟨[], [], 0, 0⟩

def extraneous (localEntries : List TreeEntry) : List RelPath :=
  (remote.map (·.path)).filter fun path => path ∉ localEntries.map (·.rel)

def plan (localEntries : List TreeEntry) : Plan :=
  let out := compareEntries remote mode compare localHashes localEntries
  if mode = .mirror then { out with deletes := (extraneous remote localEntries).mergeSort } else out

def judged (localEntries : List TreeEntry) : List (TreeEntry × Verdict) :=
  localEntries.zipIdx.map fun e => (e.1, judge remote mode compare localHashes e.2 e.1)

def transferOf : TreeEntry × Verdict → Option PlannedTransfer
  | (entry, .transfer action) => some ⟨entry, action⟩
  | _ => none

variable {remote mode compare localHashes} {localEntries : List TreeEntry}
  (es : List (TreeEntry × Verdict))

lemma foldl_record (out : Plan) :
    es.foldl (fun out e => record out e.1 e.2) out =
      { transfers := out.transfers ++ es.filterMap transferOf
        deletes := out.deletes
        unchanged := out.unchanged + es.countP (·.2 = .unchanged)
        protect := out.protect + es.countP (·.2 = .protect) } := by
  induction es generalizing out with
  | nil => simp
  | cons e es ih =>
    obtain ⟨entry, verdict⟩ := e
    rw [foldl_cons, ih]
    cases verdict with
    | transfer action => simp [record, transferOf]
    | unchanged | protect =>
      simp [record, transferOf, filterMap_cons, Nat.add_assoc, Nat.add_comm]

lemma compareEntries_eq :
    compareEntries remote mode compare localHashes localEntries =
      { transfers := (judged remote mode compare localHashes localEntries).filterMap transferOf
        deletes := []
        unchanged := (judged remote mode compare localHashes localEntries).countP
          (·.2 = .unchanged)
        protect :=
          (judged remote mode compare localHashes localEntries).countP (·.2 = .protect) } := by
  have h := foldl_record (judged remote mode compare localHashes localEntries) ⟨[], [], 0, 0⟩
  simp only [judged, foldl_map] at h
  rw [compareEntries, h]
  simp [judged]

lemma transfers_plan : (plan remote mode compare localHashes localEntries).transfers =
    (judged remote mode compare localHashes localEntries).filterMap transferOf := by
  unfold plan
  split <;> rw [compareEntries_eq]

lemma unchanged_plan : (plan remote mode compare localHashes localEntries).unchanged =
    (judged remote mode compare localHashes localEntries).countP (·.2 = .unchanged) := by
  unfold plan
  split <;> rw [compareEntries_eq]

lemma protect_plan : (plan remote mode compare localHashes localEntries).protect =
    (judged remote mode compare localHashes localEntries).countP (·.2 = .protect) := by
  unfold plan
  split <;> rw [compareEntries_eq]

lemma map_fst_judged :
    (judged remote mode compare localHashes localEntries).map Prod.fst = localEntries := by
  rw [judged, map_map]
  exact zipIdx_map_fst 0 localEntries

variable (remote mode compare localHashes localEntries) in
lemma plan_verdicts : ∃ verdicts : List Verdict, verdicts.length = localEntries.length ∧
    (plan remote mode compare localHashes localEntries).transfers =
      (localEntries.zip verdicts).filterMap transferOf ∧
    (plan remote mode compare localHashes localEntries).unchanged = verdicts.count .unchanged ∧
    (plan remote mode compare localHashes localEntries).protect = verdicts.count .protect := by
  refine ⟨(judged remote mode compare localHashes localEntries).map Prod.snd, ?_, ?_, ?_, ?_⟩
  · rw [length_map, judged, length_map, length_zipIdx]
  · rw [transfers_plan, ← zip_of_prod map_fst_judged rfl]
  · rw [unchanged_plan, count, countP_map]
    rfl
  · rw [protect_plan, count, countP_map]
    rfl

lemma sublist_filterMap_transferOf :
    ((es.filterMap transferOf).map (·.entry)).Sublist (es.map Prod.fst) := by
  induction es with
  | nil => exact Sublist.refl _
  | cons e es ih =>
    obtain ⟨entry, verdict⟩ := e
    cases verdict with
    | transfer action => exact ih.cons_cons entry
    | unchanged | protect => exact ih.cons entry

lemma mem_deletes_plan {path : RelPath} :
    path ∈ (plan remote mode compare localHashes localEntries).deletes ↔
      mode = .mirror ∧ path ∈ remote.map (·.path) ∧ path ∉ localEntries.map (·.rel) := by
  unfold plan
  split
  · rename_i hmode
    simp [hmode, extraneous]
  · rename_i hmode
    simp [hmode, compareEntries_eq]

lemma mem_judged {entry : TreeEntry} {verdict : Verdict} :
    (entry, verdict) ∈ judged remote mode compare localHashes localEntries ↔
      ∃ i, localEntries[i]? = some entry ∧
        verdict = judge remote mode compare localHashes i entry := by
  simp only [judged, mem_map, Prod.mk.injEq, Prod.exists, mem_zipIdx_iff_getElem?]
  constructor
  · rintro ⟨entry', i, hi, rfl, rfl⟩
    exact ⟨i, hi, rfl⟩
  · rintro ⟨i, hi, rfl⟩
    exact ⟨entry, i, hi, rfl, rfl⟩

lemma mem_transfers_plan {t : PlannedTransfer} :
    t ∈ (plan remote mode compare localHashes localEntries).transfers ↔
      ∃ i, localEntries[i]? = some t.entry ∧
        judge remote mode compare localHashes i t.entry = .transfer t.action := by
  rw [transfers_plan, mem_filterMap]
  constructor
  · rintro ⟨⟨entry, verdict⟩, hmem, ht⟩
    obtain ⟨i, hi, rfl⟩ := mem_judged.mp hmem
    cases hjudge : judge remote mode compare localHashes i entry with
    | transfer action =>
      simp only [hjudge, transferOf, Option.some.injEq] at ht
      subst ht
      exact ⟨i, hi, hjudge⟩
    | unchanged | protect => simp [hjudge, transferOf] at ht
  · rintro ⟨i, hi, hjudge⟩
    exact ⟨(t.entry, .transfer t.action), mem_judged.mpr ⟨i, hi, hjudge.symm⟩, rfl⟩

end Plan

end SyncPlan

end Favonius.Client
