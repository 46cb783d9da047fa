import Favonius.Sync.ZeroRuns

/-!
# Finding the holes of a file

The sender asks the file system for the next hole and for the data after it until the file ends.
The answers may be wrong in one way only: a call may fail.  A failed search for a hole ends the
loop, a failed search for data is taken as "no data up to the end of the file".
-/

namespace Favonius.Client

open Runs Sync.ZeroRuns List

inductive Whence where
  | hole
  | data
  deriving DecidableEq

inductive SeekError where
  | noData
  | io
  deriving DecidableEq

abbrev Lseek := ℕ → Whence → ℕ → Except SeekError ℕ

variable (lseek : Lseek) (fileSize : ℕ)

def holesTurn (calls off : ℕ) (out : List (ℕ × ℕ)) : List (ℕ × ℕ) × Option ℕ :=
  match (lseek calls .hole off).toOption with
  | none => (out, none)
  | some hole =>
    if fileSize ≤ hole then (out, none)
    else
      let data := min ((lseek (calls + 1) .data hole).toOption.getD fileSize) fileSize
      let out := if hole < data then out ++ [(hole, data - hole)] else out
      -- no progress: a file system misreporting
      if data ≤ off then (out, none) else (out, some data)

def holesLoop : ℕ → ℕ → ℕ → List (ℕ × ℕ) → Option (List (ℕ × ℕ))
  | 0, _, _, _ => none
  | fuel + 1, calls, off, out =>
    if off < fileSize then
      match holesTurn lseek fileSize calls off out with
      | (out, none) => some out
      | (out, some next) => holesLoop fuel (calls + 2) next out
    else some out

def holes : Option (List (ℕ × ℕ)) := holesLoop lseek fileSize (fileSize + 1) 0 0 []

variable {lseek fileSize}

lemma lt_of_holesTurn {calls off next : ℕ} {out out' : List (ℕ × ℕ)}
    (h : holesTurn lseek fileSize calls off out = (out', some next)) :
    off < next ∧ next ≤ fileSize := by
  unfold holesTurn at h
  split at h
  · cases h
  split at h
  · cases h
  dsimp only at h
  split at h
  · cases h
  · cases h
    omega

/-- Where a turn leads does not depend on what was found before it. -/
theorem snd_holesTurn (calls off : ℕ) (out out' : List (ℕ × ℕ)) :
    (holesTurn lseek fileSize calls off out).2 = (holesTurn lseek fileSize calls off out').2 := by
  unfold holesTurn
  split
  · rfl
  split
  · rfl
  dsimp only
  split <;> rfl

/-- A failed search for data is taken for the end of the file. -/
theorem holesTurn_dataError {calls off hole : ℕ} {e : SeekError} (out : List (ℕ × ℕ))
    (hoff : off < fileSize) (hhole : lseek calls .hole off = .ok hole) (hlt : hole < fileSize)
    (hdata : lseek (calls + 1) .data hole = .error e) :
    holesTurn lseek fileSize calls off out =
      (out ++ [(hole, fileSize - hole)], some fileSize) := by
  rw [holesTurn, hhole]
  simp only [Except.toOption, hdata, Option.getD_none, min_self, if_pos hlt,
    if_neg (Nat.not_le.mpr hlt), if_neg (Nat.not_le.mpr hoff)]

/-- Whatever the answers are, each turn moves on, and the loop needs at most one for each byte. -/
theorem exists_holesLoop {off : ℕ} (calls : ℕ) (out : List (ℕ × ℕ)) (hoff : off ≤ fileSize) :
    ∃ ranges, ∀ fuel, fileSize - off < fuel →
      holesLoop lseek fileSize fuel calls off out = some ranges := by
  induction hrest : fileSize - off using Nat.strong_induction_on generalizing calls off out with
  | _ rest ih =>
    -- Only the fuel for this turn is needed now.
    suffices hnext : ∃ ranges, ∀ n, rest ≤ n →
        holesLoop lseek fileSize (n + 1) calls off out = some ranges by
      obtain ⟨ranges, hranges⟩ := hnext
      refine ⟨ranges, fun fuel hfuel => ?_⟩
      obtain ⟨n, rfl⟩ := Nat.exists_eq_succ_of_ne_zero (Nat.ne_zero_of_lt hfuel)
      exact hranges n (Nat.le_of_lt_succ hfuel)
    simp only [holesLoop]
    by_cases hend : off < fileSize
    · cases hturn : holesTurn lseek fileSize calls off out with
      | mk out' next =>
        simp only [if_pos hend]
        cases next with
        | none => exact ⟨out', fun _ _ => rfl⟩
        | some next =>
          obtain ⟨hlt, hle⟩ := lt_of_holesTurn hturn
          obtain ⟨ranges, hranges⟩ := ih (fileSize - next) (by omega) (calls + 2) out' hle rfl
          exact ⟨ranges, fun n hn => hranges n (by omega)⟩
    · exact ⟨out, fun _ _ => if_neg hend⟩

/-- The answers name the next hole, with one at the end of every file, and the next data.  Any call
may fail instead. -/
structure Truthful (inHole : ℕ → Bool) (lseek : Lseek) (fileSize : ℕ) : Prop where
  hole : ∀ calls off hole, off < fileSize → lseek calls .hole off = .ok hole →
    off ≤ hole ∧ hole ≤ fileSize ∧ (∀ k, off ≤ k → k < hole → inHole k = false) ∧
      (hole < fileSize → inHole hole = true)
  data : ∀ calls off data, off < fileSize → lseek calls .data off = .ok data →
    off ≤ data ∧ data < fileSize ∧ (∀ k, off ≤ k → k < data → inHole k = true) ∧
      inHole data = false

/-- The loop comes to `off` after that many calls. -/
inductive Visited (lseek : Lseek) (fileSize : ℕ) : ℕ → ℕ → Prop
  | start : Visited lseek fileSize 0 0
  | next {calls off next : ℕ} {out out' : List (ℕ × ℕ)} : Visited lseek fileSize calls off →
      off < fileSize → holesTurn lseek fileSize calls off out = (out', some next) →
        Visited lseek fileSize (calls + 2) next

/-- A search for data that the loop makes fails only if there is none up to the end of the file. -/
def DataErrorsTrue (inHole : ℕ → Bool) (lseek : Lseek) (fileSize : ℕ) : Prop :=
  ∀ calls off hole e, Visited lseek fileSize calls off → off < fileSize →
    lseek calls .hole off = .ok hole → hole < fileSize →
      lseek (calls + 1) .data hole = .error e → ∀ k, hole ≤ k → k < fileSize → inHole k = true

/-- The ranges found before `off`, where data goes on unless nothing was found yet. -/
structure FoundHoles (inHole : ℕ → Bool) (fileSize : ℕ) (errorsTrue : Prop) (off : ℕ)
    (out : List (ℕ × ℕ)) : Prop where
  pos : ∀ r ∈ out, 0 < r.2
  apart : out.Pairwise fun a b => a.1 + a.2 < b.1
  before : ∀ r ∈ out, r.1 + r.2 ≤ off
  inside : off ≤ fileSize
  edge : out ≠ [] → off < fileSize → inHole off = false
  real : errorsTrue → ∀ k, Covers out k → inHole k = true

section Found

variable {inHole : ℕ → Bool} {errorsTrue : Prop}

lemma foundHoles_nil (fileSize : ℕ) : FoundHoles inHole fileSize errorsTrue 0 [] where
  pos := forall_mem_nil _
  apart := .nil
  before := forall_mem_nil _
  inside := Nat.zero_le _
  edge h := absurd rfl h
  real _ k hk := absurd hk (not_covers_nil k)

variable {off : ℕ} {out : List (ℕ × ℕ)}

lemma FoundHoles.stop (h : FoundHoles inHole fileSize errorsTrue off out) :
    FoundHoles inHole fileSize errorsTrue fileSize out where
  pos := h.pos
  apart := h.apart
  before r hr := (h.before r hr).trans h.inside
  inside := le_rfl
  edge _ hlt := absurd hlt (lt_irrefl _)
  real := h.real

lemma FoundHoles.push {hole data : ℕ} (h : FoundHoles inHole fileSize errorsTrue off out)
    (hle : off ≤ hole) (hlt : hole < data) (hdata : data ≤ fileSize) (hhole : inHole hole = true)
    (hedge : data < fileSize → inHole data = false)
    (hreal : errorsTrue → ∀ k, hole ≤ k → k < data → inHole k = true) :
    FoundHoles inHole fileSize errorsTrue data (out ++ [(hole, data - hole)]) where
  pos := by
    exact forall_mem_append.mpr ⟨h.pos, forall_mem_singleton.mpr (Nat.sub_pos_of_lt hlt)⟩
  apart := by
    refine pairwise_append.mpr ⟨h.apart, pairwise_singleton _ _, ?_⟩
    intro a ha b hb
    rw [mem_singleton.mp hb]
    -- the hole is not where the data before it begins
    have hne : off ≠ hole := by
      rintro rfl
      rw [h.edge (ne_nil_of_mem ha) (by omega)] at hhole
      cases hhole
    have hbefore := h.before a ha
    dsimp only
    omega
  before := by
    refine forall_mem_append.mpr ⟨?_, ?_⟩
    · intro r hr
      exact (h.before r hr).trans (hle.trans hlt.le)
    · rw [forall_mem_singleton]
      dsimp only
      omega
  inside := hdata
  edge _ := hedge
  real := by
    intro herrors k hk
    rcases covers_concat.mp hk with hold | ⟨hlow, hhigh⟩
    · exact h.real herrors k hold
    · dsimp only at hlow hhigh
      exact hreal herrors k hlow (by omega)

section

variable (htrue : Truthful inHole lseek fileSize)
include htrue

lemma FoundHoles.turn {calls : ℕ} {out' : List (ℕ × ℕ)} {next : Option ℕ}
    (hvisited : Visited lseek fileSize calls off) (hoff : off < fileSize)
    (h : FoundHoles inHole fileSize (DataErrorsTrue inHole lseek fileSize) off out)
    (hturn : holesTurn lseek fileSize calls off out = (out', next)) :
    FoundHoles inHole fileSize (DataErrorsTrue inHole lseek fileSize) (next.getD fileSize)
      out' := by
  cases hhole : lseek calls .hole off with
  | error e =>
    rw [holesTurn, hhole] at hturn
    cases hturn
    exact h.stop
  | ok hole =>
    obtain ⟨hle, -, -, hin⟩ := htrue.hole calls off hole hoff hhole
    rcases Nat.lt_or_ge hole fileSize with hlt | hend
    swap
    · rw [holesTurn, hhole] at hturn
      dsimp only [Except.toOption] at hturn
      rw [if_pos hend] at hturn
      cases hturn
      exact h.stop
    cases hdata : lseek (calls + 1) .data hole with
    | error e =>
      rw [holesTurn_dataError out hoff hhole hlt hdata] at hturn
      cases hturn
      apply h.push hle hlt le_rfl (hin hlt)
      · exact fun hend => absurd hend (lt_irrefl _)
      · intro herrors k
        exact herrors calls off hole e hvisited hoff hhole hlt hdata k
    | ok data =>
      obtain ⟨hge, hend, hall, hedge⟩ := htrue.data (calls + 1) hole data hlt hdata
      have hnext : hole < data := by
        apply lt_of_le_of_ne hge
        rintro rfl
        rw [hin hlt] at hedge
        cases hedge
      rw [holesTurn, hhole] at hturn
      simp only [Except.toOption, hdata, Option.getD_some, min_eq_left hend.le, if_pos hnext,
        if_neg (Nat.not_le.mpr hlt), if_neg (Nat.not_le.mpr (hle.trans_lt hnext))] at hturn
      cases hturn
      exact h.push hle hnext hend.le (hin hlt) (fun _ => hedge) fun _ => hall

lemma FoundHoles.loop {fuel calls : ℕ} {ranges : List (ℕ × ℕ)}
    (hvisited : Visited lseek fileSize calls off)
    (h : FoundHoles inHole fileSize (DataErrorsTrue inHole lseek fileSize) off out)
    (hloop : holesLoop lseek fileSize fuel calls off out = some ranges) :
    FoundHoles inHole fileSize (DataErrorsTrue inHole lseek fileSize) fileSize ranges := by
  induction fuel generalizing calls off out with
  | zero => cases hloop
  | succ fuel ih =>
    rw [holesLoop] at hloop
    split at hloop
    · rename_i hoff
      cases hturn : holesTurn lseek fileSize calls off out with
      | mk out' next =>
        have hfound := h.turn htrue hvisited hoff hturn
        rw [hturn] at hloop
        cases next with
        | none =>
          cases hloop
          exact hfound
        | some next => exact ih (hvisited.next hoff hturn) hfound hloop
    · cases hloop
      exact h.stop

lemma exists_holes :
    ∃ ranges, (∀ fuel, fileSize < fuel → holesLoop lseek fileSize fuel 0 0 [] = some ranges) ∧
      FoundHoles inHole fileSize (DataErrorsTrue inHole lseek fileSize) fileSize ranges := by
  obtain ⟨ranges, hranges⟩ := @exists_holesLoop lseek fileSize 0 0 [] (Nat.zero_le _)
  exact ⟨ranges, hranges,
    (foundHoles_nil fileSize).loop htrue .start (hranges _ (Nat.lt_succ_self _))⟩

end

/-- From wherever the loop comes by, it goes on to the ranges that it returns. -/
theorem Visited.loop {calls : ℕ} {ranges : List (ℕ × ℕ)}
    (hvisited : Visited lseek fileSize calls off)
    (hranges : ∀ fuel, fileSize < fuel → holesLoop lseek fileSize fuel 0 0 [] = some ranges) :
    ∃ out, ∀ fuel, fileSize < fuel → holesLoop lseek fileSize fuel calls off out = some ranges := by
  induction hvisited with
  | start => exact ⟨[], hranges⟩
  | @next calls off next tail tail' hbefore hoff hturn ih =>
    obtain ⟨out, hout⟩ := ih
    cases hturn' : holesTurn lseek fileSize calls off out with
    | mk out' next' =>
      have hsame := @snd_holesTurn lseek fileSize calls off out tail
      rw [hturn, hturn'] at hsame
      dsimp only at hsame
      obtain ⟨found, hfound⟩ := @exists_holesLoop lseek fileSize next (calls + 2) out'
        (lt_of_holesTurn hturn).2
      have hwhole := hout (fileSize + 2) (by omega)
      rw [holesLoop, if_pos hoff, hturn', hsame] at hwhole
      obtain rfl := Option.some.inj ((hfound (fileSize + 1) (by omega)).symm.trans hwhole)
      exact ⟨out', fun fuel hfuel => hfound fuel (by omega)⟩

/-- A failed search for data leaves a range up to the end of the file. -/
theorem dataErrorsTrue_of_real {ranges : List (ℕ × ℕ)}
    (hranges : ∀ fuel, fileSize < fuel → holesLoop lseek fileSize fuel 0 0 [] = some ranges)
    (hreal : ∀ k, Covers ranges k → inHole k = true) : DataErrorsTrue inHole lseek fileSize := by
  intro calls off hole e hvisited hoff hhole hlt hdata k hlow hhigh
  obtain ⟨out, hout⟩ := hvisited.loop hranges
  have hrun := hout (fileSize + 2) (by omega)
  rw [holesLoop, if_pos hoff, holesTurn_dataError out hoff hhole hlt hdata] at hrun
  dsimp only at hrun
  rw [holesLoop, if_neg (lt_irrefl _)] at hrun
  obtain rfl := Option.some.inj hrun
  refine hreal k (covers_concat.mpr (.inr ⟨hlow, ?_⟩))
  dsimp only
  omega

/-- The loop ends with ranges of the file in ascending order that do not touch, and if searches for
data fail only where there is none, and only then, each byte in them is in a hole. -/
theorem holes_found_are_holes_iff (htrue : Truthful inHole lseek fileSize) :
    ∃ ranges, holes lseek fileSize = some ranges ∧
      (∀ fuel, fileSize < fuel → holesLoop lseek fileSize fuel 0 0 [] = some ranges) ∧
      Ascending fileSize ranges ∧
      ((∀ k, Covers ranges k → inHole k = true) ↔ DataErrorsTrue inHole lseek fileSize) := by
  obtain ⟨ranges, hranges, hfound⟩ := exists_holes htrue
  exact ⟨ranges, hranges _ (Nat.lt_succ_self _), hranges,
    ⟨hfound.pos, hfound.apart.imp le_of_lt, hfound.before⟩, dataErrorsTrue_of_real hranges,
    hfound.real⟩

/-- What the sender leaves out of the transfer is in a hole: the bytes of every chunk in the runs
that it computes from the ranges. -/
theorem inHole_of_runsInHoles (htrue : Truthful inHole lseek fileSize)
    (herrors : DataErrorsTrue inHole lseek fileSize) (hfile : fileSize < 2 ^ 64)
    {ranges : List (ℕ × ℕ)} (h : holes lseek fileSize = some ranges) {payloadSize c k : ℕ}
    (hc : Covers (runsInHoles ranges fileSize payloadSize) c) (hk : k < fileSize)
    (hlow : c * payloadSize ≤ k) (hhigh : k < (c + 1) * payloadSize) : inHole k = true := by
  obtain ⟨found, hranges, hfound⟩ := exists_holes htrue
  obtain rfl : found = ranges :=
    Option.some.inj ((hranges _ (Nat.lt_succ_self _)).symm.trans h)
  obtain ⟨-, hole, hhole, hstart, hstop⟩ :=
    ((found_runsInHoles hfile payloadSize hfound.apart).covers_iff c).mp hc
  apply hfound.real herrors
  exact ⟨hole, hhole, by omega, by omega⟩

end Found

def halfHole (k : ℕ) : Bool := decide (k < 4096)

def halfSeek (dataFails : Bool) : Lseek := fun calls whence off =>
  match whence with
  | .hole => if calls = 0 ∧ off = 0 then .ok 0 else .error .io
  | .data => if dataFails then .error .io else .ok (max off 4096)

lemma truthful_halfSeek (dataFails : Bool) : Truthful halfHole (halfSeek dataFails) 8192 := by
  constructor
  · intro calls off hole hoff h
    dsimp only [halfSeek] at h
    split at h
    · obtain rfl := Except.ok.inj h
      refine ⟨by omega, by omega, ?_, fun _ => rfl⟩
      intro k hge hlt
      omega
    · cases h
  · intro calls off data hoff h
    dsimp only [halfSeek] at h
    split at h
    · cases h
    obtain rfl := Except.ok.inj h
    simp only [halfHole, decide_eq_true_eq, decide_eq_false_iff_not]
    refine ⟨by omega, by omega, ?_, by omega⟩
    intro k hge hlt
    omega

theorem holes_found_are_holes_half :
    holes (halfSeek false) 8192 = some [(0, 4096)] ∧
      ∀ k, Covers [(0, 4096)] k → halfHole k = true := by
  have hrun : holes (halfSeek false) 8192 = some [(0, 4096)] := by decide +kernel
  obtain ⟨ranges, hranges, -, -, hreal⟩ := holes_found_are_holes_iff (truthful_halfSeek false)
  obtain rfl := Option.some.inj (hranges.symm.trans hrun)
  refine ⟨hrun, hreal.mpr ?_⟩
  intro calls off hole e hvisited hoff hhole hlt h
  cases h

theorem inHole_of_runsInHoles_half :
    Covers (runsInHoles [(0, 4096)] 8192 1024) 3 ∧ halfHole 4000 = true := by
  have hrun : holes (halfSeek false) 8192 = some [(0, 4096)] := by decide +kernel
  have hcovers : Covers (runsInHoles [(0, 4096)] 8192 1024) 3 :=
    ⟨(0, 4), by decide +kernel, by decide, by decide⟩
  refine ⟨hcovers, inHole_of_runsInHoles (truthful_halfSeek false) ?_ (by decide) hrun hcovers
    (by decide) (by decide) (by decide)⟩
  intro calls off hole e hvisited hoff hhole hlt h
  cases h

/-- One failed search for data, and a file with 4096 bytes of data is a single hole: the sender
leaves out all of it. -/
theorem hole_invented :
    Truthful halfHole (halfSeek true) 8192 ∧
      holes (halfSeek true) 8192 = some [(0, 8192)] ∧ halfHole 4096 = false ∧
      runsInHoles [(0, 8192)] 8192 1024 = [(0, 8)] := by
  refine ⟨truthful_halfSeek true, ?_, ?_, ?_⟩ <;> decide +kernel

end Favonius.Client
