import Favonius.Lib.RecentPerKey

/-!
# The history of the adaptive policy

Every accepted outcome is put at the end of the history, and one pass over it then evicts what
is too much of each link type, by countdowns from the oldest record on.
-/

namespace Favonius.Policy

open RecentPerKey List

def maxRecordsPerLinkType : ℕ := 256

structure NetworkContext where
  linkType : String
  baseRttUs : UInt64
  jitterUs : UInt64
  lossRate : Float

/-- `P` stands for the parameters of a transfer, which the history only keeps. -/
structure TrainingRecord (P : Type*) where
  context : NetworkContext
  params : P
  throughput : Float
  retxRatio : Float
  score : Float

structure Outcome (P : Type*) where
  context : NetworkContext
  params : P
  throughput : Float
  retxRatio : Float

section

variable {P : Type*}

def TrainingRecord.linkType (r : TrainingRecord P) : String := r.context.linkType

/-- A `HashMap` is the function of its lookups, here with 0 for a missing key. -/
def counts (records : List (TrainingRecord P)) : String → ℕ :=
  records.foldl (fun m r => Function.update m r.linkType (m r.linkType + 1)) fun _ => 0

def excess (records : List (TrainingRecord P)) (k : String) : Option ℕ :=
  if maxRecordsPerLinkType ≤ counts records k then some (counts records k - maxRecordsPerLinkType)
  else none

def retain : (String → Option ℕ) → List (TrainingRecord P) → List (TrainingRecord P)
  | _, [] => []
  | excess, r :: records =>
    match excess r.linkType with
    | some (e + 1) => retain (Function.update excess r.linkType (some e)) records
    | _ => r :: retain excess records

/-- A key of the counts is the link type of some record. -/
def enforceHistoryCap (records : List (TrainingRecord P)) : List (TrainingRecord P) :=
  if records.all fun r => (excess records r.linkType).isNone then records
  else retain (excess records) records

def Outcome.accepted (o : Outcome P) : Bool :=
  (o.throughput.isFinite && !(o.throughput < 0.0)) &&
    (o.retxRatio.isFinite && (0.0 ≤ o.retxRatio && o.retxRatio ≤ 1.0))

def Outcome.record (o : Outcome P) : TrainingRecord P :=
  ⟨o.context, o.params, o.throughput, o.retxRatio, o.throughput * (1.0 - o.retxRatio)⟩

def recordOutcome (records : List (TrainingRecord P)) (o : Outcome P) :
    List (TrainingRecord P) × Bool :=
  if !o.accepted then (records, false) else (enforceHistoryCap (records ++ [o.record]), true)

abbrev AcceptedOutcome (P : Type*) := { o : Outcome P // o.accepted = true }

def recordAll (records : List (TrainingRecord P)) (os : List (AcceptedOutcome P)) :
    List (TrainingRecord P) :=
  os.foldl (fun records o => (recordOutcome records o.1).1) records

open TrainingRecord

variable (records : List (TrainingRecord P)) (initial : List (TrainingRecord P))

lemma counts_eq (k : String) : counts records k = keyCount linkType k records := by
  induction records using reverseRecOn with
  | nil => rfl
  | append_singleton records r ih =>
    rw [counts, foldl_append, foldl_cons, foldl_nil, ← counts, keyCount, countP_append, ← keyCount,
      ← ih]
    by_cases hk : r.linkType = k
    · subst hk
      simp
    · simp [hk, Function.update_of_ne (Ne.symm hk)]

lemma getD_excess (k : String) :
    (excess records k).getD 0 =
      keyCount linkType k records - maxRecordsPerLinkType := by
  rw [excess, counts_eq]
  split_ifs with hle
  · rfl
  · rw [Option.getD_none]
    omega

lemma retain_eq_skip (excess : String → Option ℕ) (records : List (TrainingRecord P)) :
    retain excess records =
      skip linkType (fun k => (excess k).getD 0) records := by
  fun_induction retain excess records with
  | case1 => rfl
  | case2 excess r records e he ih =>
    rw [ih, skip, he, if_pos (by simp)]
    congr 1
    ext k
    by_cases hk : k = r.linkType
    · simp [hk]
    · simp [hk]
  | case3 excess r records hkeep ih =>
    rw [ih, skip, if_neg]
    cases he : excess r.linkType with
    | none => simp
    | some e =>
      cases e with
      | zero => simp
      | succ e => exact absurd he (hkeep e)

lemma retain_of_none {excess : String → Option ℕ} {records : List (TrainingRecord P)}
    (h : ∀ r ∈ records, excess r.linkType = none) : retain excess records = records := by
  induction records with
  | nil => rfl
  | cons r records ih =>
    rw [retain, h r mem_cons_self, ih fun r hr => h r (mem_cons_of_mem _ hr)]

lemma enforceHistoryCap_eq :
    enforceHistoryCap records =
      recent linkType maxRecordsPerLinkType records := by
  rw [← skip_eq_recent (getD_excess records), ← retain_eq_skip, enforceHistoryCap]
  split_ifs with hnone
  · refine (retain_of_none fun r hr => ?_).symm
    exact Option.isNone_iff_eq_none.mp (all_eq_true.mp hnone r hr)
  · rfl

lemma recordAll_concat (os : List (AcceptedOutcome P)) (o : AcceptedOutcome P) :
    recordAll initial (os ++ [o]) =
      recent linkType maxRecordsPerLinkType (recordAll initial os ++ [o.1.record]) := by
  simp [recordAll, recordOutcome, o.2, enforceHistoryCap_eq]

lemma recordAll_eq {os : List (AcceptedOutcome P)} (hne : os ≠ []) : recordAll initial os =
      recent linkType maxRecordsPerLinkType (initial ++ os.map (·.1.record)) := by
  induction os using reverseRecOn with
  | nil => exact absurd rfl hne
  | append_singleton os o ih =>
    rw [recordAll_concat, map_append, map_singleton, ← append_assoc]
    by_cases hos : os = []
    · subst hos
      rw [map_nil, append_nil]
      rfl
    · rw [ih hos, recent_append]

/-- After an accepted outcome the history has of every link type the last 256 records there ever
were, those with fewer than 256 later ones of their type, in the order in which they came. -/
theorem policy_history_retention (initial : List (TrainingRecord P)) (o : AcceptedOutcome P)
    (os : List (AcceptedOutcome P)) :
    let ever := initial ++ (o :: os).map (·.1.record)
    recordAll initial (o :: os) = recent linkType maxRecordsPerLinkType ever ∧
      ∀ k, (recordAll initial (o :: os)).filter (·.linkType = k) =
        (ever.filter (·.linkType = k)).rtake maxRecordsPerLinkType := by
  have hall := recordAll_eq initial (cons_ne_nil o os)
  refine ⟨hall, fun k => ?_⟩
  rw [hall]
  exact filter_recent k _

end

end Favonius.Policy
