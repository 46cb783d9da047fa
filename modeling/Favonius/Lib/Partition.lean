import Mathlib.Tactic

/-!
# Marking indices in a list of ranges

Elements that own disjoint ranges of indices, with a flag for each of their own.
An index is marked in the first element that owns it; since no two own the same
index, marking a list of indices is the same as marking them in every element
for itself.
-/

namespace Partition

open List Option

variable {τ : Type*}

/-- Update the first element that satisfies `p`, if there is one; the flag says whether the
update changed something.  Fails if the update does. -/
def updateFirst (p : τ → Bool) (update : τ → Option (τ × Bool)) : List τ → Option (List τ × Bool)
  | [] => some ([], false)
  | t :: ts =>
    if p t then (update t).map fun r => (r.1 :: ts, r.2)
    else (updateFirst p update ts).map fun r => (t :: r.1, r.2)

/-- The same for a list of indices; the number counts the updates that changed something. -/
def updateOwners (owns : ℕ → τ → Bool) (update : ℕ → τ → Option (τ × Bool)) :
    List ℕ → List τ → Option (List τ × ℕ)
  | [], ts => some (ts, 0)
  | g :: gs, ts => do
      let (ts, changed) ← updateFirst (owns g) (update g) ts
      let (ts, n) ← updateOwners owns update gs ts
      return (ts, (if changed then 1 else 0) + n)

/-- With at most one candidate, updating the first is updating wherever it applies. -/
theorem updateFirst_eq {p : τ → Bool} {update : τ → Option (τ × Bool)} {f : τ → τ × Bool}
    {ts : List τ} (hupdate : ∀ t ∈ ts, p t = true → update t = some (f t))
    (hone : ts.Pairwise fun a b => ¬(p a = true ∧ p b = true)) :
    ∃ changed, updateFirst p update ts =
      some (ts.map fun t => if p t then (f t).1 else t, changed) := by
  induction ts with
  | nil => exact ⟨false, rfl⟩
  | cons t ts ih =>
    rw [pairwise_cons] at hone
    by_cases hp : p t = true
    · have hrest : ts.map (fun t => if p t then (f t).1 else t) = ts := by
        rw [map_congr_left fun u hu => if_neg fun hpu => hone.1 u hu ⟨hp, hpu⟩]
        exact map_id ts
      refine ⟨(f t).2, ?_⟩
      simp only [updateFirst, hp, if_true, hupdate t mem_cons_self hp, map_some, map_cons, hrest]
    · obtain ⟨changed, hts⟩ :=
        ih (fun u hu => hupdate u (mem_cons_of_mem t hu)) hone.2
      refine ⟨changed, ?_⟩
      simp only [updateFirst, hp, Bool.false_eq_true, if_false, hts, map_some, map_cons]

/-- How elements own and flag indices, and how one of their own is marked. -/
structure Marking (τ : Type*) where
  base : τ → ℕ
  count : τ → ℕ
  flag : τ → ℕ → Bool
  mark : ℕ → τ → τ × Bool
  Good : τ → Prop
  base_mark : ∀ g t, base (mark g t).1 = base t
  count_mark : ∀ g t, count (mark g t).1 = count t
  flag_mark : ∀ g t, base t ≤ g → g < base t + count t →
    ∀ i, flag (mark g t).1 i = (flag t i || decide (base t + i = g))
  good_mark : ∀ g t, Good t → base t ≤ g → g < base t + count t → Good (mark g t).1

namespace Marking

variable (M : Marking τ)

def owns (g : ℕ) (t : τ) : Bool := M.base t ≤ g && g < M.base t + M.count t

def markOwn (t : τ) (g : ℕ) : τ := if M.owns g t then (M.mark g t).1 else t

def Disjoint (ts : List τ) : Prop :=
  ∀ g, ts.Pairwise fun a b => ¬(M.owns g a = true ∧ M.owns g b = true)

variable {M}

variable {t : τ}

lemma owns_iff {g : ℕ} : M.owns g t = true ↔ M.base t ≤ g ∧ g < M.base t + M.count t := by
  simp [owns]

lemma base_markOwn (t : τ) (g : ℕ) : M.base (M.markOwn t g) = M.base t := by
  unfold markOwn
  split
  · exact M.base_mark g t
  · rfl

lemma count_markOwn (t : τ) (g : ℕ) : M.count (M.markOwn t g) = M.count t := by
  unfold markOwn
  split
  · exact M.count_mark g t
  · rfl

lemma owns_markOwn (t : τ) (g h : ℕ) : M.owns h (M.markOwn t g) = M.owns h t := by
  simp only [owns, base_markOwn, count_markOwn]

lemma good_markOwn (h : M.Good t) (g : ℕ) : M.Good (M.markOwn t g) := by
  unfold markOwn
  split
  · rename_i hown
    obtain ⟨hge, hlt⟩ := owns_iff.mp hown
    exact M.good_mark g t h hge hlt
  · exact h

lemma flag_markOwn (t : τ) (g i : ℕ) :
    M.flag (M.markOwn t g) i =
      (M.flag t i || (decide (i < M.count t) && decide (M.base t + i = g))) := by
  unfold markOwn
  split
  · rename_i hown
    obtain ⟨hge, hlt⟩ := owns_iff.mp hown
    rw [M.flag_mark g t hge hlt]
    by_cases hi : M.base t + i = g
    · have hcount : i < M.count t := by omega
      simp [hi, hcount]
    · simp [hi]
  · rename_i hown
    have hnot : ¬(i < M.count t ∧ M.base t + i = g) := by
      rintro ⟨hi, rfl⟩
      exact hown (owns_iff.mpr ⟨by omega, by omega⟩)
    have hfalse : (decide (i < M.count t) && decide (M.base t + i = g)) = false := by
      simpa using hnot
    rw [hfalse, Bool.or_false]

variable {ts : List τ}

lemma disjoint_of_pairwise (h : ts.Pairwise fun a b => M.base a + M.count a ≤ M.base b) :
    M.Disjoint ts := by
  intro g
  refine h.imp ?_
  rintro a b hab ⟨ha, hb⟩
  have ha' := owns_iff.mp ha
  have hb' := owns_iff.mp hb
  omega

lemma Disjoint.map_markOwn (h : M.Disjoint ts) (g : ℕ) :
    M.Disjoint (ts.map fun t => M.markOwn t g) := by
  intro k
  rw [pairwise_map]
  simpa only [owns_markOwn] using h k

lemma updateOwners_eq {update : ℕ → τ → Option (τ × Bool)}
    (hupdate : ∀ g t, M.Good t → M.owns g t = true → update g t = some (M.mark g t)) (gs : List ℕ)
    (hdisjoint : M.Disjoint ts) (hgood : ∀ t ∈ ts, M.Good t) :
    ∃ n, updateOwners M.owns update gs ts =
      some (ts.map fun t => gs.foldl M.markOwn t, n) := by
  induction gs generalizing ts with
  | nil => exact ⟨0, by simp [updateOwners]⟩
  | cons g gs ih =>
    obtain ⟨changed, hfirst⟩ :=
      updateFirst_eq (fun t ht hown => hupdate g t (hgood t ht) hown) (hdisjoint g)
    have hgood' : ∀ t ∈ ts.map fun t => M.markOwn t g, M.Good t := by
      intro t ht
      obtain ⟨u, hu, rfl⟩ := List.mem_map.mp ht
      exact good_markOwn (hgood u hu) g
    obtain ⟨n, hrest⟩ := ih (hdisjoint.map_markOwn g) hgood'
    refine ⟨(if changed then 1 else 0) + n, ?_⟩
    have hmap : ts.map (fun t => if M.owns g t then (M.mark g t).1 else t) =
        ts.map fun t => M.markOwn t g := rfl
    rw [updateOwners, hfirst, hmap]
    simp only [bind_eq_bind, bind_some, hrest, List.map_map, foldl_cons]
    rfl

variable (gs : List ℕ)

lemma good_foldl_markOwn (h : M.Good t) : M.Good (gs.foldl M.markOwn t) := by
  induction gs generalizing t with
  | nil => exact h
  | cons g gs ih => exact ih (good_markOwn h g)

lemma range_foldl_markOwn (t : τ) :
    M.base (gs.foldl M.markOwn t) = M.base t ∧ M.count (gs.foldl M.markOwn t) = M.count t := by
  induction gs generalizing t with
  | nil => exact ⟨rfl, rfl⟩
  | cons g gs ih =>
    obtain ⟨hbase, hcount⟩ := ih (M.markOwn t g)
    exact ⟨hbase.trans (base_markOwn t g), hcount.trans (count_markOwn t g)⟩

lemma flag_foldl_markOwn (t : τ) (i : ℕ) :
    M.flag (gs.foldl M.markOwn t) i =
      (M.flag t i || (decide (i < M.count t) && decide (M.base t + i ∈ gs))) := by
  induction gs generalizing t with
  | nil => simp
  | cons g gs ih =>
    rw [foldl_cons, ih, flag_markOwn, base_markOwn, count_markOwn, Bool.or_assoc,
      ← Bool.and_or_distrib_left, ← Bool.decide_or]
    simp only [mem_cons]

end Marking

end Partition
