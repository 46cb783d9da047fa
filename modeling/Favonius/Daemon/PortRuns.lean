import Favonius.Lib.Machine
import Mathlib.Data.List.Sort

/-!
# Runs of data ports

A transfer takes data sockets with consecutive ports out of the pool of free ones.  The search
goes over the ports in order; the sockets are then removed by their places in the pool, the last
place first.
-/

namespace Favonius.Daemon

open Machine ByteCodec List Option
open Prod (ext fst snd)

variable {σ : Type} (localPort : σ → Option UInt16)

def byPort (pool : List σ) : List (ℕ × ℕ) :=
  (pool.zipIdx.filterMap fun x => (localPort x.1).map fun port => (port.toNat, x.2)).insertionSort
    fun a b => a.1 < b.1 ∨ a.1 = b.1 ∧ a.2 ≤ b.2

/-- `none` is an index out of bounds or a port past the last one. -/
def breaksAt (ports : List (ℕ × ℕ)) (k : ℕ) : Option Bool :=
  if k = ports.length then some true
  else do
    let this ← index ports k
    let before ← index ports (k - 1)
    let next ← add 16 before.1 1
    return decide (this.1 ≠ next)

def findRun (ports : List (ℕ × ℕ)) (n : ℕ) : List ℕ → ℕ → Option (Option ℕ)
  | [], _ => some none
  | k :: ks, runStart => do
    let broken ← breaksAt ports k
    if n ≤ k - runStart then return some runStart
    else findRun ports n ks (if broken then k else runStart)

def removeEach : List ℕ → List σ → Option (List σ × List σ)
  | [], pool => some ([], pool)
  | i :: idxs, pool => do
    let sock ← index pool i
    let (taken, rest) ← removeEach idxs (pool.eraseIdx i)
    return (sock :: taken, rest)

def portOf (sock : σ) : ℕ := ((localPort sock).map UInt16.toNat).getD 0

def takeContiguousPorts (pool : List σ) (n : ℕ) : Option (Option (List σ) × List σ) :=
  if n = 0 ∨ pool.length < n then some (none, pool)
  else do
    match ← findRun (byPort localPort pool) n (List.range' 1 (byPort localPort pool).length) 0 with
    | none => return (none, pool)
    | some runStart =>
      let run ← range (byPort localPort pool) runStart (runStart + n)
      let (taken, rest) ← removeEach ((run.map snd).insertionSort (· ≥ ·)) pool
      return (some (taken.insertionSort fun a b => portOf localPort a ≤ portOf localPort b), rest)

def takeFirst (pool : List σ) : List ℕ → Option (Option (List σ) × List σ)
  | [] => some (pool.getLast?.map fun sock => [sock], pool.dropLast)
  | n :: ns => do
    match ← takeContiguousPorts localPort pool n with
    | (some run, rest) => return (some run, rest)
    | (none, pool) => takeFirst pool ns

/-- The longest run up to a maximum, or a single socket. -/
def takeTransferSockets (pool : List σ) (maxRun : ℕ) : Option (Option (List σ) × List σ) :=
  takeFirst localPort pool (List.range' 2 (min maxRun pool.length - 1)).reverse

/-! ## The search -/

def NoRun (n : ℕ) (ports : List ℕ) : Prop := ∀ p, ¬ List.range' p n ⊆ ports

/-- A run cannot go on over a gap. -/
theorem NoRun.append {n m a : ℕ} {ports : List ℕ} (h : NoRun n ports)
    (hgap : ∀ b ∈ ports, b + 1 < a) (hm : m < n) : NoRun n (ports ++ List.range' a m) := by
  intro p hsub
  have hin : ∀ q, p ≤ q → q < p + n → q ∈ ports ∨ a ≤ q ∧ q < a + m := by
    intro q hle hlt
    simpa using hsub (mem_range'_1.mpr ⟨hle, hlt⟩)
  by_cases hbelow : p + n ≤ a
  · refine h p fun q hq => ?_
    obtain ⟨hle, hlt⟩ := mem_range'_1.mp hq
    exact (hin q hle hlt).resolve_right (by omega)
  · rcases Nat.lt_or_ge p a with hpa | hpa
    · rcases hin (a - 1) (by omega) (by omega) with hmem | hrange
      · have := hgap _ hmem
        omega
      · omega
    · rcases hin (p + n - 1) (by omega) (by omega) with hmem | hrange
      · have := hgap _ hmem
        omega
      · omega

def RunFound (ports : List (ℕ × ℕ)) (n : ℕ) : Option ℕ → Prop
  | some start => start + n ≤ ports.length ∧
      ∃ p, (slice ports start n).map fst = List.range' p n
  | none => NoRun n (ports.map fst)

/-- The search has come past `done` and is in a run of consecutive ports from `a` to `last`. -/
structure Scanning (ports : List (ℕ × ℕ)) (n : ℕ) (done : List (ℕ × ℕ)) (a : ℕ)
    (run : List (ℕ × ℕ)) (last : ℕ × ℕ) (todo : List (ℕ × ℕ)) : Prop where
  split : ports = done ++ run ++ last :: todo
  consecutive : (run ++ [last]).map fst = List.range' a (run.length + 1)
  gap : ∀ b ∈ done.map fst, b + 1 < a
  short : run.length < n
  noRun : NoRun n (done.map fst)

section Search

variable {ports : List (ℕ × ℕ)} {n : ℕ} {done run todo : List (ℕ × ℕ)} {last c : ℕ × ℕ} {a : ℕ}

lemma breaksAt_of_split (hsorted : ports.Pairwise (·.1 < ·.1)) (hbound : ∀ x ∈ ports, x.1 < 2 ^ 16)
    (hports : ports = done ++ last :: c :: todo) :
    last.1 < c.1 ∧ breaksAt ports (done.length + 1) = some (decide (c.1 ≠ last.1 + 1)) := by
  have hlt : last.1 < c.1 := by
    rw [hports] at hsorted
    exact (pairwise_cons.mp (pairwise_append.mp hsorted).2.1).1 c mem_cons_self
  have hc := hbound c (by simp [hports])
  have hthis : index ports (done.length + 1) = some c := by simp [index, hports]
  have hbefore : index ports (done.length + 1 - 1) = some last := by simp [index, hports]
  have hend : done.length + 1 ≠ ports.length := by simp [hports]
  refine ⟨hlt, ?_⟩
  rw [breaksAt, if_neg hend, hthis, hbefore]
  simp only [bind_eq_bind, bind_some]
  rw [add_of_lt (by omega)]
  rfl

namespace Scanning

lemma last_eq (h : Scanning ports n done a run last todo) : last.1 = a + run.length := by
  have := congrArg getLast? h.consecutive
  simpa [getLast?_range'] using this

lemma runFound (h : Scanning ports (run.length + 1) done a run last todo) :
    RunFound ports (run.length + 1) (some done.length) := by
  refine ⟨by simp [h.split], a, Eq.trans ?_ h.consecutive⟩
  rw [h.split, append_assoc, slice, drop_left, append_cons run, take_left' (by simp)]

lemma noRun_of_lt (h : Scanning ports n done a run last todo) (hshort : run.length + 1 < n) :
    NoRun n ((done ++ run ++ [last]).map fst) := by
  rw [append_assoc, map_append, h.consecutive]
  exact h.noRun.append h.gap hshort

lemma grow (h : Scanning ports n done a run last (c :: todo)) (hshort : run.length + 1 < n)
    (hc : c.1 = last.1 + 1) : Scanning ports n done a (run ++ [last]) c todo where
  split := by simp [h.split]
  consecutive := by
    have hconcat := @List.range'_concat 1 a (run.length + 1)
    rw [map_append, h.consecutive, length_append, length_singleton, hconcat]
    simp [hc, h.last_eq, Nat.add_assoc]
  gap := h.gap
  short := by simpa using hshort
  noRun := h.noRun

lemma renew (h : Scanning ports n done a run last (c :: todo)) (hshort : run.length + 1 < n)
    (hlt : last.1 < c.1) (hc : c.1 ≠ last.1 + 1) :
    Scanning ports n (done ++ run ++ [last]) c.1 [] c todo where
  split := by simp [h.split]
  consecutive := rfl
  gap b hb := by
    have hlast := h.last_eq
    rw [append_assoc, map_append, h.consecutive, mem_append, mem_range'_1] at hb
    rcases hb with hb | hb
    · have := h.gap b hb
      omega
    · omega
  short := Nat.zero_lt_of_lt hshort
  noRun := h.noRun_of_lt hshort

lemma findRun (hsorted : ports.Pairwise (·.1 < ·.1)) (hbound : ∀ x ∈ ports, x.1 < 2 ^ 16)
    (h : Scanning ports n done a run last todo) :
    ∃ r, findRun ports n (List.range' ((done ++ run).length + 1) (todo.length + 1)) done.length =
      some r ∧ RunFound ports n r := by
  have hroom : (done ++ run).length + 1 - done.length = run.length + 1 := by
    rw [length_append]
    omega
  induction todo generalizing done run last a with
  | nil =>
    have hend : (done ++ run).length + 1 = ports.length := by simp [h.split, Nat.add_assoc]
    rw [range'_succ, Daemon.findRun, breaksAt, if_pos hend, bind_eq_bind, bind_some, hroom]
    rcases (Nat.succ_le_of_lt h.short).eq_or_lt with rfl | hshort
    · exact ⟨_, if_pos le_rfl, h.runFound⟩
    · refine ⟨none, if_neg (Nat.not_le.mpr hshort), ?_⟩
      rw [h.split]
      exact h.noRun_of_lt hshort
  | cons c todo ih =>
    obtain ⟨hlt, hbreak⟩ := breaksAt_of_split hsorted hbound h.split
    rw [range'_succ, Daemon.findRun, hbreak, bind_eq_bind, bind_some, hroom]
    rcases (Nat.succ_le_of_lt h.short).eq_or_lt with rfl | hshort
    · exact ⟨_, if_pos le_rfl, h.runFound⟩
    · rw [if_neg (Nat.not_le.mpr hshort)]
      by_cases hc : c.1 = last.1 + 1
      · simpa [hc, Nat.add_assoc] using ih (h.grow hshort hc) (by simp; omega)
      · simpa [hc, Nat.add_assoc] using ih (h.renew hshort hlt hc) (by simp)

end Scanning

end Search

/-! ## The removal -/

lemma eraseIdx_eq_filter {f : σ → ℕ} {pool : List σ} (hnodup : (pool.map f).Nodup) {i : ℕ}
    {s : σ} (hs : pool[i]? = some s) : pool.eraseIdx i = pool.filter fun t => f t ≠ f s := by
  induction pool generalizing i with
  | nil => simp at hs
  | cons t pool ih =>
    obtain ⟨ht, hnodup⟩ := nodup_cons.mp hnodup
    cases i with
    | zero =>
      cases hs
      rw [eraseIdx_cons_zero, filter_cons_of_neg (by simp), filter_eq_self.mpr]
      intro u hu
      exact decide_eq_true fun h => ht (h ▸ mem_map_of_mem hu)
    | succ i =>
      have hne : f t ≠ f s := fun h => ht (h ▸ mem_map_of_mem (mem_of_getElem? hs))
      rw [eraseIdx_cons_succ, ih hnodup hs, filter_cons_of_pos (by simpa using hne)]

lemma removeEach_eq {f : σ → ℕ} {idxs : List ℕ} {pool : List σ} (hnodup : (pool.map f).Nodup)
    (hidxs : idxs.Pairwise (· > ·)) (hlt : ∀ i ∈ idxs, i < pool.length) :
    removeEach idxs pool = some (idxs.filterMap (pool[·]?),
      pool.filter fun t => f t ∉ (idxs.filterMap (pool[·]?)).map f) := by
  induction idxs generalizing pool with
  | nil => simp [removeEach]
  | cons i idxs ih =>
    obtain ⟨hi, hidxs⟩ := pairwise_cons.mp hidxs
    obtain ⟨hlti, hlt⟩ := forall_mem_cons.mp hlt
    have hs : pool[i]? = some pool[i] := getElem?_eq_getElem hlti
    have hsame : idxs.filterMap ((pool.eraseIdx i)[·]?) = idxs.filterMap (pool[·]?) :=
      filterMap_congr fun j hj => getElem?_eraseIdx_of_lt (hi j hj)
    have hrest := ih (hnodup.sublist ((eraseIdx_sublist pool i).map f)) hidxs fun j hj => by
      have := hi j hj
      rw [length_eraseIdx_of_lt hlti]
      omega
    rw [removeEach, index, hs, bind_eq_bind, bind_some, hrest, hsame,
      eraseIdx_eq_filter hnodup hs, List.filter_filter, filterMap_cons_some hs]
    refine congrArg some (ext rfl (filter_congr fun t _ => ?_))
    rw [Bool.eq_iff_iff, map_cons, Bool.and_eq_true, decide_eq_true_iff, decide_eq_true_iff,
      decide_eq_true_iff, mem_cons, not_or, and_comm]

/-! ## Allocation -/

def HoldsRun (pool : List σ) (n : ℕ) : Prop :=
  ∃ p, List.range' p n ⊆ pool.map (portOf localPort)

/-- Consecutive ports, ascending; the others stay in their order. -/
structure TakesRun (pool : List σ) (n : ℕ) (run rest : List σ) : Prop where
  consecutive : ∃ p, run.map (portOf localPort) = List.range' p n
  subset : run ⊆ pool
  rest_eq : rest = pool.filter fun s => portOf localPort s ∉ run.map (portOf localPort)

section Pool

variable {localPort} {pool : List σ} {n : ℕ}

lemma HoldsRun.le_length (h : HoldsRun localPort pool n) : n ≤ pool.length := by
  obtain ⟨p, hp⟩ := h
  simpa using ((nodup_range' 1).subperm hp).length_le

lemma TakesRun.holdsRun {run rest : List σ} (h : TakesRun localPort pool n run rest) :
    HoldsRun localPort pool n := by
  obtain ⟨p, hp⟩ := h.consecutive
  exact ⟨p, hp ▸ map_subset _ h.subset⟩

variable (hopen : ∀ s ∈ pool, (localPort s).isSome)
include hopen

lemma byPort_perm :
    (byPort localPort pool).Perm (pool.zipIdx.map fun x => (portOf localPort x.1, x.2)) := by
  refine (perm_insertionSort _ _).trans (Perm.of_eq ?_)
  rw [← filterMap_eq_map]
  refine filterMap_congr fun x hx => ?_
  obtain ⟨port, hport⟩ := isSome_iff_exists.mp
    (hopen x.1 (fst_mem_of_mem_zipIdx hx))
  simp [portOf, hport]

lemma byPort_map_fst :
    ((byPort localPort pool).map fst).Perm (pool.map (portOf localPort)) := by
  refine ((byPort_perm hopen).map fst).trans (Perm.of_eq ?_)
  have hfst := congrArg (List.map (portOf localPort)) (zipIdx_map_fst 0 pool)
  rwa [List.map_map] at hfst ⊢

lemma of_mem_byPort {x : ℕ × ℕ} (hx : x ∈ byPort localPort pool) :
    x.1 < 2 ^ 16 ∧ x.2 < pool.length ∧ (pool[x.2]?).map (portOf localPort) = some x.1 := by
  obtain ⟨⟨s, i⟩, hs, rfl⟩ := List.mem_map.mp ((byPort_perm hopen).mem_iff.mp hx)
  have hs := mem_zipIdx_iff_getElem?.mp hs
  obtain ⟨port, hport⟩ := isSome_iff_exists.mp (hopen s (mem_of_getElem? hs))
  refine ⟨?_, (List.getElem?_eq_some_iff.mp hs).1, congrArg (Option.map _) hs⟩
  simpa [portOf, hport] using port.toNat_lt

variable (hdistinct : (pool.map (portOf localPort)).Nodup)
include hdistinct

lemma byPort_sorted : (byPort localPort pool).Pairwise (·.1 < ·.1) := by
  have hle : (byPort localPort pool).Pairwise fun a b => a.1 < b.1 ∨ a.1 = b.1 ∧ a.2 ≤ b.2 := by
    have : Std.Total fun a b : ℕ × ℕ => a.1 < b.1 ∨ a.1 = b.1 ∧ a.2 ≤ b.2 := ⟨by omega⟩
    have : IsTrans (ℕ × ℕ) fun a b => a.1 < b.1 ∨ a.1 = b.1 ∧ a.2 ≤ b.2 := ⟨by omega⟩
    exact pairwise_insertionSort _ _
  have hne : (byPort localPort pool).Pairwise (·.1 ≠ ·.1) :=
    pairwise_map.mp ((byPort_map_fst hopen).nodup_iff.mpr hdistinct)
  exact (hle.and hne).imp fun h => by omega

lemma takesRun_of_run {run : List (ℕ × ℕ)} {p : ℕ} (hsub : run.Sublist (byPort localPort pool))
    (hrun : run.map fst = List.range' p n) :
    ∃ taken rest, removeEach ((run.map snd).insertionSort (· ≥ ·)) pool = some (taken, rest) ∧
      TakesRun localPort pool n
        (taken.insertionSort fun a b => portOf localPort a ≤ portOf localPort b) rest := by
  have hperm := perm_insertionSort (· ≥ ·) (run.map snd)
  have hnodup : (run.map snd).Nodup := by
    refine (hsub.map snd).nodup (((byPort_perm hopen).map snd).nodup_iff.mpr ?_)
    rw [List.map_map]
    exact (zipIdx_map_snd 0 pool).symm ▸ nodup_range' 1
  have hdescending := ((pairwise_insertionSort (· ≥ ·) (run.map snd)).and
    (hperm.nodup_iff.mpr hnodup)).imp fun h => lt_of_le_of_ne h.1 (Ne.symm h.2)
  generalize (run.map snd).insertionSort (· ≥ ·) = idxs at hperm hdescending
  refine ⟨_, _, removeEach_eq hdistinct hdescending fun i hi => ?_, ?_⟩
  · obtain ⟨x, hx, rfl⟩ := List.mem_map.mp (hperm.mem_iff.mp hi)
    exact (of_mem_byPort hopen (hsub.subset hx)).2.1
  have hports : ((idxs.filterMap (pool[·]?)).map (portOf localPort)).Perm (List.range' p n) := by
    refine ((hperm.filterMap _).map _).trans (Perm.of_eq ?_)
    rw [← hrun, filterMap_map, map_filterMap, ← filterMap_eq_map]
    exact filterMap_congr fun x hx => (of_mem_byPort hopen (hsub.subset hx)).2.2
  have hmem : idxs.filterMap (pool[·]?) ⊆ pool := by
    intro s hs
    obtain ⟨i, -, hi⟩ := mem_filterMap.mp hs
    exact mem_of_getElem? hi
  generalize idxs.filterMap (pool[·]?) = taken at hports hmem
  have hsort := perm_insertionSort (fun a b => portOf localPort a ≤ portOf localPort b) taken
  refine ⟨⟨p, ?_⟩, List.Subset.trans hsort.subset hmem, filter_congr fun s _ =>
    decide_eq_decide.mpr (not_congr (hsort.map (portOf localPort)).mem_iff.symm)⟩
  have : Std.Total fun a b : σ => portOf localPort a ≤ portOf localPort b :=
    ⟨fun _ _ => le_total _ _⟩
  have : IsTrans σ fun a b => portOf localPort a ≤ portOf localPort b := ⟨fun _ _ _ => le_trans⟩
  exact Perm.eq_of_pairwise (fun _ _ _ _ => le_antisymm)
    (pairwise_map.mpr (pairwise_insertionSort _ _))
    ((pairwise_lt_range' 1).imp le_of_lt) ((hsort.map _).trans hports)

lemma takeContiguousPorts_spec (hn : 1 ≤ n) :
    (∃ run rest, takeContiguousPorts localPort pool n = some (some run, rest) ∧
      TakesRun localPort pool n run rest) ∨
    takeContiguousPorts localPort pool n = some (none, pool) ∧ ¬HoldsRun localPort pool n := by
  unfold takeContiguousPorts
  by_cases hshort : n = 0 ∨ pool.length < n
  · refine .inr ⟨if_pos hshort, fun h => ?_⟩
    have := h.le_length
    omega
  rw [if_neg hshort]
  have hlength : (byPort localPort pool).length = pool.length := by
    simpa using (byPort_perm hopen).length_eq
  obtain ⟨first, todo, hports⟩ := exists_cons_of_length_pos
    (hlength.trans_gt (show 0 < pool.length by omega))
  have hstart : Scanning (byPort localPort pool) n [] first.1 [] first todo :=
    ⟨hports, rfl, forall_mem_nil _, hn,
      fun p h => not_mem_nil (h (mem_range'_1.mpr ⟨le_rfl, by omega⟩))⟩
  obtain ⟨r, hfind, hfound⟩ := hstart.findRun (byPort_sorted hopen hdistinct)
    fun x hx => (of_mem_byPort hopen hx).1
  have hall : findRun (byPort localPort pool) n (List.range' 1 (byPort localPort pool).length) 0 =
      some r := by
    rw [congrArg List.length hports]
    exact hfind
  rw [hall]
  cases r with
  | none =>
    refine .inr ⟨rfl, fun ⟨p, hp⟩ => hfound p fun q hq => ?_⟩
    exact (byPort_map_fst hopen).mem_iff.mpr (hp hq)
  | some start =>
    obtain ⟨hend, p, hrun⟩ := hfound
    have hsub : (slice (byPort localPort pool) start n).Sublist (byPort localPort pool) :=
      (take_sublist _ _).trans (drop_sublist _ _)
    obtain ⟨taken, rest, hremove, htakes⟩ := takesRun_of_run hopen hdistinct hsub hrun
    have hrange := @range_of_le _ (byPort localPort pool) start (start + n) (by omega) hend
    rw [Nat.add_sub_cancel_left] at hrange
    refine .inl ⟨_, rest, ?_, htakes⟩
    simp only [bind_eq_bind, bind_some, hrange, hremove]
    rfl

lemma takeFirst_spec (hpool : pool ≠ []) (j : ℕ) :
    ∃ run rest, takeFirst localPort pool (List.range' 2 j).reverse = some (some run, rest) ∧
      (∃ p, run.map (portOf localPort) = List.range' p run.length) ∧ run ⊆ pool ∧
      run.length ≤ j + 1 ∧ ∀ n ≤ j + 1, HoldsRun localPort pool n → n ≤ run.length := by
  induction j with
  | zero =>
    have hlast := getLast?_eq_getLast_of_ne_nil hpool
    refine ⟨[pool.getLast hpool], pool.dropLast, ?_, ⟨_, rfl⟩, ?_, le_rfl, fun _ hn _ => hn⟩
    · simp [takeFirst, hlast]
    · simp
  | succ j ih =>
    rw [range'_concat, reverse_append, reverse_singleton, singleton_append, takeFirst]
    rcases takeContiguousPorts_spec hopen hdistinct (show 1 ≤ 2 + 1 * j by omega) with
      ⟨run, rest, htake, htakes⟩ | ⟨htake, hnone⟩
    · obtain ⟨p, hp⟩ := htakes.consecutive
      have hlen : run.length = 2 + 1 * j := by simpa using congrArg List.length hp
      rw [htake]
      exact ⟨run, rest, rfl, ⟨p, hlen ▸ hp⟩, htakes.subset, by omega, by omega⟩
    · obtain ⟨run, rest, hfirst, hconsecutive, hsubset, hle, hgreatest⟩ := ih
      rw [htake]
      refine ⟨run, rest, hfirst, hconsecutive, hsubset, by omega, fun n hn hholds => ?_⟩
      refine hgreatest n (Nat.lt_succ_iff.mp (lt_of_le_of_ne hn ?_)) hholds
      rintro rfl
      exact hnone ((show j + 1 + 1 = 2 + 1 * j by omega) ▸ hholds)

/-- Open sockets with distinct ports: a run is found exactly when there is one, in order, and the
others stay; a transfer gets the longest one up to its maximum, and at least one socket. -/
theorem port_run_allocation :
    (∀ n, 1 ≤ n →
      (HoldsRun localPort pool n ∧ ∃ run rest, takeContiguousPorts localPort pool n =
        some (some run, rest) ∧ TakesRun localPort pool n run rest) ∨
      (¬HoldsRun localPort pool n ∧ takeContiguousPorts localPort pool n = some (none, pool))) ∧
    ∀ maxRun, pool ≠ [] → ∃ run rest,
      takeTransferSockets localPort pool maxRun = some (some run, rest) ∧
      (∃ p, run.map (portOf localPort) = List.range' p run.length) ∧ run ⊆ pool ∧
      IsGreatest {n | n ≤ max maxRun 1 ∧ HoldsRun localPort pool n} run.length := by
  refine ⟨fun n hn => ?_, fun maxRun hpool => ?_⟩
  · rcases takeContiguousPorts_spec hopen hdistinct hn with
      ⟨run, rest, htake, htakes⟩ | ⟨htake, hno⟩
    · exact .inl ⟨htakes.holdsRun, run, rest, htake, htakes⟩
    · exact .inr ⟨hno, htake⟩
  · obtain ⟨run, rest, htake, ⟨p, hp⟩, hsubset, hle, hgreatest⟩ :=
      takeFirst_spec hopen hdistinct hpool (min maxRun pool.length - 1)
    refine ⟨run, rest, htake, ⟨p, hp⟩, hsubset, ⟨by omega, p, hp ▸ map_subset _ hsubset⟩, ?_⟩
    rintro n ⟨hn, hholds⟩
    have := hholds.le_length
    exact hgreatest n (by omega) hholds

end Pool

theorem port_run_allocation_fragmented :
    HoldsRun some [7, 3, 9, 2, 4, 8] 3 ∧ ∃ run rest,
      takeTransferSockets some [7, 3, 9, 2, 4, 8] 4 = some (some run, rest) ∧
      IsGreatest {n | n ≤ max 4 1 ∧ HoldsRun some [7, 3, 9, 2, 4, 8] n} run.length := by
  obtain ⟨-, htransfer⟩ := @port_run_allocation UInt16 some [7, 3, 9, 2, 4, 8] (by simp)
    (by decide)
  obtain ⟨run, rest, htake, -, -, hgreatest⟩ := htransfer 4 (by decide)
  exact ⟨⟨2, by decide⟩, run, rest, htake, hgreatest⟩

end Favonius.Daemon
