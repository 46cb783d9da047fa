import Mathlib.Data.Nat.Log
import Mathlib.Tactic

/-!
# Levels of a binary hash tree

Each level combines the neighbours of the one below; the last element of a level
of odd length is combined with itself.  A node depends on the block of leaves
below it and on nothing else, and if no two pairs collide it determines them.
-/

namespace HashTree

open List

variable {H : Type*}

def pairs : List H → List (H × H)
  | a :: b :: rest => (a, b) :: pairs rest
  | [a] => [(a, a)]
  | [] => []

lemma length_pairs : ∀ xs : List H, (pairs xs).length = (xs.length + 1) / 2
  | a :: b :: rest => by
      simp only [pairs, length_cons, length_pairs rest]
      omega
  | [a] => by simp [pairs]
  | [] => by simp [pairs]

lemma pairs_drop (k : ℕ) (xs : List H) : pairs (xs.drop (k * 2)) = (pairs xs).drop k := by
  induction k generalizing xs with
  | zero => simp
  | succ k ih =>
    match xs with
    | a :: b :: rest => simpa [pairs, Nat.succ_mul] using ih rest
    | [a] => simp [pairs, Nat.succ_mul]
    | [] => simp [pairs]

lemma pairs_take (k : ℕ) (xs : List H) : pairs (xs.take (k * 2)) = (pairs xs).take k := by
  induction k generalizing xs with
  | zero => simp [pairs]
  | succ k ih =>
    match xs with
    | a :: b :: rest => simpa [pairs, Nat.succ_mul] using ih rest
    | [a] => simp [pairs, Nat.succ_mul]
    | [] => simp [pairs]

lemma pairs_inj {xs ys : List H} (hlen : xs.length = ys.length) (h : pairs xs = pairs ys) :
    xs = ys := by
  match xs, ys with
  | [], [] => rfl
  | [a], [b] => simpa [pairs] using h
  | a :: b :: xs, c :: d :: ys =>
    simp only [pairs, cons.injEq, Prod.mk.injEq, length_cons, Nat.add_right_cancel_iff]
      at h hlen ⊢
    exact ⟨h.1.1, h.1.2, pairs_inj hlen h.2⟩
  | [], _ :: _ => simp at hlen
  | _ :: _, [] => simp at hlen
  | [_], _ :: _ :: _ => simp at hlen
  | _ :: _ :: _, [_] => simp at hlen

variable (combine : H → H → H)

def parents (xs : List H) : List H := (pairs xs).map fun p => combine p.1 p.2

def level : ℕ → List H → List H
  | 0, xs => xs
  | l + 1, xs => parents combine (level l xs)

lemma level_parents (l : ℕ) (xs : List H) :
    level combine l (parents combine xs) = level combine (l + 1) xs := by
  induction l with
  | zero => rfl
  | succ l ih => rw [level, ih, ← level]

lemma length_level (l : ℕ) (xs : List H) :
    (level combine l xs).length = (xs.length + (2 ^ l - 1)) / 2 ^ l := by
  induction l with
  | zero => simp [level]
  | succ l ih =>
    have hpos : 0 < 2 ^ l := Nat.two_pow_pos l
    rw [level, parents, length_map, length_pairs, ih, ← Nat.add_div_right _ hpos,
      Nat.div_div_eq_div_mul, pow_succ]
    congr 1
    omega

def width (l n : ℕ) : ℕ := (n + (2 ^ l - 1)) / 2 ^ l

@[simp] lemma width_zero (n : ℕ) : width 0 n = n := by simp [width]

lemma length_level_eq_width (l : ℕ) (xs : List H) :
    (level combine l xs).length = width l xs.length := length_level combine l xs

variable {l i : ℕ}

lemma lt_width {n : ℕ} : i < width l n ↔ i * 2 ^ l < n := by
  have hpos : 0 < 2 ^ l := Nat.two_pow_pos l
  rw [width, ← Nat.succ_le_iff, Nat.le_div_iff_mul_le hpos, Nat.succ_mul]
  omega

variable {xs : List H}

lemma lt_length_level : i < (level combine l xs).length ↔ i * 2 ^ l < xs.length := by
  rw [length_level_eq_width, lt_width]

lemma level_drop (l k : ℕ) (xs : List H) :
    level combine l (xs.drop (k * 2 ^ l)) = (level combine l xs).drop k := by
  induction l generalizing k with
  | zero => simp [level]
  | succ l ih =>
    rw [level, level, parents, parents, ← map_drop, ← pairs_drop, ← ih, pow_succ]
    congr 4
    ring

lemma level_take (l k : ℕ) (xs : List H) :
    level combine l (xs.take (k * 2 ^ l)) = (level combine l xs).take k := by
  induction l generalizing k with
  | zero => simp [level]
  | succ l ih =>
    rw [level, level, parents, parents, ← map_take, ← pairs_take, ← ih, pow_succ]
    congr 4
    ring

def block (l i : ℕ) (xs : List H) : List H := (xs.drop (i * 2 ^ l)).take (2 ^ l)

lemma getElem?_block (l i j : ℕ) (xs : List H) :
    (block l i xs)[j]? = if j < 2 ^ l then xs[i * 2 ^ l + j]? else none := by
  rw [block, getElem?_take, getElem?_drop]

variable {m : ℕ} {ys : List H} {fuel : ℕ}

lemma level_block (hml : m ≤ l) (i : ℕ) (xs : List H) :
    level combine m (block l i xs) =
      ((level combine m xs).drop (i * 2 ^ (l - m))).take (2 ^ (l - m)) := by
  have hpow : 2 ^ l = 2 ^ (l - m) * 2 ^ m := by rw [← pow_add, Nat.sub_add_cancel hml]
  rw [block, hpow, level_take, ← mul_assoc, level_drop]

lemma level_block_eq_toList (l i : ℕ) (xs : List H) :
    level combine l (block l i xs) = (level combine l xs)[i]?.toList := by
  rw [level_block combine le_rfl, Nat.sub_self, pow_zero, mul_one, take_one, head?_drop]

lemma getElem?_level (l i : ℕ) (xs : List H) :
    (level combine l xs)[i]? = (level combine l (block l i xs)).head? := by
  rw [level_block_eq_toList]
  cases (level combine l xs)[i]? <;> rfl

variable {combine}

/-- No two pairs that the trees combine below height `n` collide, the one in one tree, the
other in the other. -/
def Separates (combine : H → H → H) (n : ℕ) (xs ys : List H) : Prop :=
  ∀ l < n, ∀ p ∈ pairs (level combine l xs), ∀ q ∈ pairs (level combine l ys),
    combine p.1 p.2 = combine q.1 q.2 → p = q

lemma level_inj (hsep : Separates combine l xs ys) (hlen : xs.length = ys.length)
    (h : level combine l xs = level combine l ys) : xs = ys := by
  induction l with
  | zero => exact h
  | succ l ih =>
    refine ih (fun m hm => hsep m (by omega)) (pairs_inj (by simp [length_level, hlen]) ?_)
    have hpairs : (pairs (level combine l xs)).length = (pairs (level combine l ys)).length := by
      simp [length_pairs, length_level, hlen]
    refine ext_getElem hpairs fun i hi hj => ?_
    have hget := congrArg (fun zs => zs[i]?) h
    simp only [level, parents, getElem?_map, getElem?_eq_getElem hi,
      getElem?_eq_getElem hj, Option.map_some, Option.some.injEq] at hget
    exact hsep l (by omega) _ (getElem_mem hi) _ (getElem_mem hj) hget

lemma mem_pairs_of_block (hml : m < l) {p : H × H}
    (hp : p ∈ pairs (level combine m (block l i xs))) : p ∈ pairs (level combine m xs) := by
  have hpow : 2 ^ (l - m) = 2 ^ (l - m - 1) * 2 := by
    rw [← pow_succ]
    congr 1
    omega
  rw [level_block combine hml.le, hpow, pairs_take, ← mul_assoc, pairs_drop] at hp
  exact mem_of_mem_drop (mem_of_mem_take hp)

/-- Two nodes at the same place are equal exactly if the leaves below them are. -/
theorem getElem?_level_eq_iff (hsep : Separates combine l xs ys) (hlen : xs.length = ys.length)
    (i : ℕ) :
    (level combine l xs)[i]? = (level combine l ys)[i]? ↔ block l i xs = block l i ys := by
  refine ⟨fun h => ?_, fun h => by rw [getElem?_level, getElem?_level, h]⟩
  have hblock : (block l i xs).length = (block l i ys).length := by
    simp [block, hlen]
  have hsep' : Separates combine l (block l i xs) (block l i ys) := by
    intro m hm p hp q hq
    exact hsep m hm p (mem_pairs_of_block hm hp) q (mem_pairs_of_block hm hq)
  refine level_inj hsep' hblock ?_
  rw [level_block_eq_toList, level_block_eq_toList, h]

lemma parents_replicate (k : ℕ) (x : H) :
    parents combine (List.replicate (k * 2) x) = List.replicate k (combine x x) := by
  induction k with
  | zero => rfl
  | succ k ih => simpa [Nat.succ_mul, replicate_succ, parents, pairs] using ih

/-- A leaf that stands alone in its block is combined with itself all the way up, which is
what a full block of equal leaves comes to. -/
theorem level_replicate (l : ℕ) (x : H) :
    level combine l (List.replicate (2 ^ l) x) = level combine l [x] := by
  have hall : ∃ y, level combine l [x] = [y] ∧
      ∀ k, level combine l (List.replicate (k * 2 ^ l) x) = List.replicate k y := by
    induction l with
    | zero => exact ⟨x, rfl, fun k => by simp [level]⟩
    | succ l ih =>
      obtain ⟨y, hone, hmany⟩ := ih
      refine ⟨combine y y, by rw [level, hone]; rfl, fun k => ?_⟩
      rw [level, pow_succ', ← mul_assoc, hmany, parents_replicate]
  obtain ⟨y, hone, hmany⟩ := hall
  rw [hone, ← one_mul (2 ^ l), hmany]
  rfl

variable (combine)

/-- The levels from the leaves to the root; `fuel` bounds the number of rounds. -/
def levelsFrom : ℕ → List H → List (List H)
  | 0, current => [current]
  | fuel + 1, current =>
    if current.length ≤ 1 then [current]
    else current :: levelsFrom fuel (parents combine current)

/-- As many rounds as there are leaves are enough: the levels are those up to the first
that has a single node. -/
theorem getElem?_levelsFrom (hfuel : xs.length ≤ fuel) (l : ℕ) :
    (levelsFrom combine fuel xs)[l]? =
      if l ≤ Nat.clog 2 xs.length then some (level combine l xs) else none := by
  induction fuel generalizing xs l with
  | zero =>
    obtain rfl : xs = [] := eq_nil_of_length_eq_zero (by omega)
    cases l <;> simp [levelsFrom, level]
  | succ fuel ih =>
    rw [levelsFrom]
    split
    · rename_i hshort
      have hclog : Nat.clog 2 xs.length = 0 := Nat.clog_of_right_le_one hshort 2
      cases l <;> simp [hclog, level]
    · have hparents : (parents combine xs).length = (xs.length + 1) / 2 := by
        rw [parents, length_map, length_pairs]
      have hclog : Nat.clog 2 xs.length = Nat.clog 2 (parents combine xs).length + 1 := by
        rw [hparents, Nat.clog_of_two_le (by norm_num) (by omega)]
        rfl
      cases l with
      | zero => simp [level]
      | succ l =>
        rw [getElem?_cons_succ, ih (by omega) l, hclog, level_parents]
        simp

lemma length_levelsFrom (hfuel : xs.length ≤ fuel) :
    (levelsFrom combine fuel xs).length = Nat.clog 2 xs.length + 1 := by
  refine le_antisymm ?_ ?_
  · by_contra! hlt
    have hget := getElem?_levelsFrom combine hfuel (Nat.clog 2 xs.length + 1)
    rw [getElem?_eq_getElem hlt] at hget
    simp at hget
  · by_contra! hlt
    have hget := getElem?_levelsFrom combine hfuel (Nat.clog 2 xs.length)
    rw [getElem?_eq_none (by omega)] at hget
    simp at hget

end HashTree
