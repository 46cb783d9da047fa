import Mathlib.Tactic

/-!
# A replay cache with lazy eviction

Each use of a key is checked against the uses remembered so far.  What has run
out by the time of a check is forgotten first, a remembered key is refused, and
a key that is not remembered is accepted and remembered until its expiry.  So a
key is accepted only once exactly if each later use of it comes before the entry
of its first use has run out.
-/

namespace ReplayCache

open List Option

variable {K T : Type*} [DecidableEq K] [LinearOrder T]

/-- One use of a key: when it is checked and until when it will be remembered. -/
structure Use (K T : Type*) where
  key : K
  now : T
  expiry : T
  deriving DecidableEq

def retain (now : T) (used : List (K × T)) : List (K × T) :=
  used.filter fun p => decide (now < p.2)

def check (used : List (K × T)) (u : Use K T) : Bool × List (K × T) :=
  let used := retain u.now used
  if u.key ∈ used.map Prod.fst then (false, used) else (true, (u.key, u.expiry) :: used)

def checkAll (used : List (K × T)) (us : List (Use K T)) : List K × List (K × T) :=
  us.foldl (fun acc u =>
    let (fresh, used) := check acc.2 u
    (if fresh then acc.1 ++ [u.key] else acc.1, used)) ([], used)

def accepted (us : List (Use K T)) : List K := (checkAll [] us).1

def first (us : List (Use K T)) (k : K) : Option (Use K T) := us.find? fun u => decide (u.key = k)

/-- Every use of a key comes before the entry of the key's first use has run out. -/
def Covered (us : List (Use K T)) : Prop :=
  ∀ before v after, us = before ++ v :: after → ∀ u ∈ first before v.key, v.now < u.expiry

variable {us : List (Use K T)} {u : Use K T}

lemma checkAll_concat (used : List (K × T)) :
    checkAll used (us ++ [u]) =
      (if (check (checkAll used us).2 u).1 then (checkAll used us).1 ++ [u.key]
        else (checkAll used us).1, (check (checkAll used us).2 u).2) := by
  rw [checkAll, foldl_append]
  rfl

variable {used : List (K × T)}

omit [DecidableEq K] in
lemma mem_retain {now : T} {p : K × T} : p ∈ retain now used ↔ p ∈ used ∧ now < p.2 := by
  rw [retain, mem_filter, decide_eq_true_eq]

lemma check_fst (used : List (K × T)) :
    (check used u).1 = true ↔ ∀ e, (u.key, e) ∈ used → e ≤ u.now := by
  simp only [check]
  split
  · rename_i hmem
    obtain ⟨⟨k, e⟩, hp, rfl⟩ := List.mem_map.mp hmem
    obtain ⟨he, hlt⟩ := mem_retain.mp hp
    simp only [Bool.false_eq_true, false_iff, not_forall, not_le]
    exact ⟨e, he, hlt⟩
  · rename_i hmem
    refine iff_of_true rfl fun e he => not_lt.mp fun hlt => hmem ?_
    exact mem_map_of_mem (mem_retain.mpr ⟨he, hlt⟩)

lemma mem_check_snd {p : K × T} :
    p ∈ (check used u).2 ↔
      (p ∈ used ∧ u.now < p.2) ∨ ((check used u).1 = true ∧ p = (u.key, u.expiry)) := by
  simp only [check]
  split
  · simp [mem_retain]
  · simp [mem_retain, or_comm]

omit [LinearOrder T] in
lemma first_concat (k : K) :
    first (us ++ [u]) k = (first us k).or (if u.key = k then some u else none) := by
  by_cases h : u.key = k <;> simp [first, h]

lemma covered_nil : Covered ([] : List (Use K T)) := by
  intro before v after h
  simp at h

variable {v : Use K T}

lemma covered_concat :
    Covered (us ++ [v]) ↔ Covered us ∧ ∀ u ∈ first us v.key, v.now < u.expiry := by
  constructor
  · intro h
    refine ⟨fun before w after hus => h before w (after ++ [v]) (by simp [hus]), ?_⟩
    exact h us v [] rfl
  · rintro ⟨hus, hv⟩ before w after heq
    rcases eq_nil_or_concat after with rfl | ⟨rest, x, rfl⟩
    · obtain ⟨rfl, hw⟩ := append_inj' heq rfl
      cases hw
      exact hv
    · have hlast : us ++ [v] = (before ++ w :: rest) ++ [x] := by simpa using heq
      exact hus before w rest (append_inj' hlast rfl).1

/-- While all uses are covered, the cache holds first uses, and a first use is missing
only once a later check has found it run out. -/
structure Remembers (us : List (Use K T)) (used : List (K × T)) : Prop where
  sound : ∀ k e, (k, e) ∈ used → ∃ u, first us k = some u ∧ u.expiry = e
  complete : ∀ k u, first us k = some u → (k, u.expiry) ∈ used ∨ ∃ w ∈ us, u.expiry ≤ w.now

/-- A use is accepted exactly if it is the first of its key or the entry has run out. -/
theorem Remembers.check_fst (h : Remembers us used) (hmono : ∀ w ∈ us, w.now ≤ v.now) :
    (check used v).1 = true ↔ ∀ u ∈ first us v.key, u.expiry ≤ v.now := by
  rw [ReplayCache.check_fst]
  constructor
  · intro hall u hu
    rcases h.complete v.key u hu with hmem | ⟨w, hw, hle⟩
    · exact hall _ hmem
    · exact hle.trans (hmono w hw)
  · intro hall e he
    obtain ⟨u, hu, rfl⟩ := h.sound v.key e he
    exact hall u hu

lemma Remembers.concat (h : Remembers us used) (hmono : ∀ w ∈ us, w.now ≤ v.now)
    (hcovered : ∀ u ∈ first us v.key, v.now < u.expiry) :
    Remembers (us ++ [v]) (check used v).2 := by
  have hfresh : (check used v).1 = true ↔ first us v.key = none := by
    rw [h.check_fst hmono]
    constructor
    · intro hall
      by_contra hne
      obtain ⟨u, hu⟩ := ne_none_iff_exists'.mp hne
      exact absurd (hall u hu) (not_le.mpr (hcovered u hu))
    · intro hnone u hu
      rw [hnone] at hu
      cases hu
  constructor
  · intro k e hmem
    rcases mem_check_snd.mp hmem with ⟨hold, -⟩ | ⟨hnew, heq⟩
    · obtain ⟨u, hu, he⟩ := h.sound k e hold
      exact ⟨u, by rw [first_concat, hu, some_or], he⟩
    · cases heq
      exact ⟨v, by rw [first_concat, hfresh.mp hnew]; simp, rfl⟩
  · intro k u hu
    rw [first_concat] at hu
    cases hk : first us k with
    | some u' =>
      rw [hk, some_or] at hu
      obtain rfl : u' = u := some.inj hu
      rcases h.complete k u' hk with hmem | ⟨w, hw, hle⟩
      · rcases lt_or_ge v.now u'.expiry with hlt | hge
        · exact .inl (mem_check_snd.mpr (.inl ⟨hmem, hlt⟩))
        · exact .inr ⟨v, by simp, hge⟩
      · exact .inr ⟨w, by simp [hw], hle⟩
    | none =>
      rw [hk, none_or] at hu
      split at hu
      · rename_i hkey
        cases hu
        subst hkey
        exact .inl (mem_check_snd.mpr (.inr ⟨hfresh.mpr hk, rfl⟩))
      · cases hu

structure SingleUse (us : List (Use K T)) : Prop where
  nodup : (accepted us).Nodup
  remembers : Remembers us (checkAll [] us).2
  mem_iff : ∀ k, k ∈ accepted us ↔ ∃ u, first us k = some u

lemma accepted_concat (v : Use K T) :
    accepted (us ++ [v]) =
      if (check (checkAll [] us).2 v).1 then accepted us ++ [v.key] else accepted us := by
  rw [accepted, checkAll_concat]
  rfl

lemma SingleUse.concat (h : SingleUse us) (hmono : ∀ w ∈ us, w.now ≤ v.now)
    (hcovered : ∀ u ∈ first us v.key, v.now < u.expiry) : SingleUse (us ++ [v]) := by
  have hremembers := h.remembers.concat hmono hcovered
  have hfresh := h.remembers.check_fst hmono
  cases hfirst : first us v.key with
  | none =>
    have haccepted : accepted (us ++ [v]) = accepted us ++ [v.key] := by
      rw [accepted_concat, if_pos (hfresh.mpr (by simp [hfirst]))]
    refine ⟨?_, by rw [checkAll_concat]; exact hremembers, ?_⟩
    · rw [haccepted, nodup_append]
      refine ⟨h.nodup, nodup_singleton _, ?_⟩
      rintro k hk _ hv rfl
      rw [mem_singleton.mp hv, h.mem_iff, hfirst] at hk
      simp at hk
    · intro k
      rw [haccepted, first_concat, mem_append, h.mem_iff, mem_singleton]
      by_cases hk : v.key = k
      · subst hk
        simp [hfirst]
      · simp [hk, Ne.symm hk]
  | some u =>
    have haccepted : accepted (us ++ [v]) = accepted us := by
      rw [accepted_concat, if_neg]
      rw [hfresh]
      exact fun hall => absurd (hall u hfirst) (not_le.mpr (hcovered u hfirst))
    refine ⟨haccepted ▸ h.nodup, by rw [checkAll_concat]; exact hremembers, ?_⟩
    intro k
    rw [haccepted, first_concat, h.mem_iff]
    by_cases hk : v.key = k
    · subst hk
      simp [hfirst]
    · simp [hk]

lemma SingleUse.not_nodup_concat (h : SingleUse us) (hmono : ∀ w ∈ us, w.now ≤ v.now)
    (hfirst : first us v.key = some u) (hle : u.expiry ≤ v.now) :
    ¬ (accepted (us ++ [v])).Nodup := by
  have hfresh : (check (checkAll [] us).2 v).1 = true := by
    rw [h.remembers.check_fst hmono]
    intro u' hu'
    obtain rfl : u = u' := some.inj (hfirst.symm.trans hu')
    exact hle
  rw [accepted_concat, if_pos hfresh, nodup_append]
  rintro ⟨-, -, hdisjoint⟩
  exact hdisjoint v.key ((h.mem_iff v.key).mpr ⟨u, hfirst⟩) v.key (by simp) rfl

lemma singleUse_of_covered (hmono : us.Pairwise fun u v => u.now ≤ v.now) (h : Covered us) :
    SingleUse us := by
  induction us using reverseRecOn with
  | nil =>
    refine ⟨nodup_nil, ⟨?_, ?_⟩, ?_⟩
    · simp [checkAll]
    · simp [first]
    · simp [accepted, checkAll, first]
  | append_singleton us v ih =>
    obtain ⟨hus, -, hlast⟩ := pairwise_append.mp hmono
    obtain ⟨hcovered, hv⟩ := covered_concat.mp h
    exact (ih hus hcovered).concat (fun w hw => hlast w hw v (by simp)) hv

/-- Every key is accepted at most once exactly if all uses are covered. -/
theorem accepted_nodup_iff (hmono : us.Pairwise fun u v => u.now ≤ v.now) :
    (accepted us).Nodup ↔ Covered us := by
  refine ⟨?_, fun h => (singleUse_of_covered hmono h).nodup⟩
  induction us using reverseRecOn with
  | nil => exact fun _ => covered_nil
  | append_singleton us v ih =>
    obtain ⟨hus, -, hlast⟩ := pairwise_append.mp hmono
    intro hnodup
    have hprev : (accepted us).Nodup := by
      rw [accepted_concat] at hnodup
      split at hnodup
      · exact hnodup.of_append_left
      · exact hnodup
    have hcovered := ih hus hprev
    refine covered_concat.mpr ⟨hcovered, fun u hu => lt_of_not_ge fun hle => ?_⟩
    exact (singleUse_of_covered hus hcovered).not_nodup_concat
      (fun w hw => hlast w hw v (by simp)) hu hle hnodup

section MapKey

variable {L : Type*} [DecidableEq L]

def Use.mapKey (f : K → L) (u : Use K T) : Use L T := ⟨f u.key, u.now, u.expiry⟩

lemma check_mapKey (f : K → L) (hinj : ∀ p ∈ used, f p.1 = f u.key → p.1 = u.key) :
    check (used.map (Prod.map f id)) (u.mapKey f) =
      ((check used u).1, (check used u).2.map (Prod.map f id)) := by
  have hretain : retain u.now (used.map (Prod.map f id)) =
      (retain u.now used).map (Prod.map f id) := by
    simp only [retain, List.filter_map]
    rfl
  have hkey : f u.key ∈ ((retain u.now used).map (Prod.map f id)).map Prod.fst ↔
      u.key ∈ (retain u.now used).map Prod.fst := by
    simp only [List.map_map, List.mem_map, Function.comp_apply, Prod.map_fst]
    constructor
    · rintro ⟨p, hp, hf⟩
      exact ⟨p, hp, hinj p (mem_retain.mp hp).1 hf⟩
    · rintro ⟨p, hp, hk⟩
      exact ⟨p, hp, by rw [hk]⟩
  simp only [check, Use.mapKey, hretain, hkey]
  split <;> rfl

lemma mem_keys_of_checkAll {p : K × T} (hp : p ∈ (checkAll [] us).2) :
    ∃ u ∈ us, u.key = p.1 := by
  induction us using reverseRecOn with
  | nil => simp [checkAll] at hp
  | append_singleton us v ih =>
    rw [checkAll_concat] at hp
    rcases mem_check_snd.mp hp with ⟨hold, -⟩ | ⟨-, rfl⟩
    · obtain ⟨u, hu, hkey⟩ := ih hold
      exact ⟨u, by simp [hu], hkey⟩
    · exact ⟨v, by simp, rfl⟩

end MapKey

end ReplayCache
