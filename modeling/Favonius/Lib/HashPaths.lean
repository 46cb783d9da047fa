import Favonius.Lib.HashTree

/-!
# Paths in a binary hash tree

A node stands for `2 ^ l` places.  Places past the last leaf are filled by copies,
because the last node of an odd level is combined with itself; going down, the
missing right child of a node is its left child.  Two nodes are equal exactly if
they have the same leaf at every place, also in trees of different sizes.
-/

namespace HashTree

open List

variable {H : Type*}

variable {l i n : ℕ}

lemma two_mul_lt_width (hi : i < width (l + 1) n) : 2 * i < width l n := by
  rw [lt_width, pow_succ] at hi
  rw [lt_width]
  calc 2 * i * 2 ^ l = i * (2 ^ l * 2) := by ring
    _ < n := hi

def leafUnder (n : ℕ) : ℕ → ℕ → ℕ → ℕ
  | 0, i, _ => i
  | l + 1, i, k => leafUnder n l (min (2 * i + k / 2 ^ l % 2) (width l n - 1)) k

lemma leafUnder_add (n l i c k : ℕ) : leafUnder n l i (c * 2 ^ l + k) = leafUnder n l i k := by
  induction l generalizing i c with
  | zero => rfl
  | succ l ih =>
    have hshift : c * 2 ^ (l + 1) + k = (2 * c) * 2 ^ l + k := by ring
    have hbit : ((2 * c) * 2 ^ l + k) / 2 ^ l % 2 = k / 2 ^ l % 2 := by
      rw [Nat.add_comm, Nat.add_mul_div_right _ _ (Nat.two_pow_pos l)]
      omega
    rw [leafUnder, leafUnder, hshift, hbit, ih]

variable {k : ℕ}

lemma leafUnder_left (hi : i < width (l + 1) n) (hk : k < 2 ^ l) :
    leafUnder n (l + 1) i k = leafUnder n l (2 * i) k := by
  have := two_mul_lt_width hi
  rw [leafUnder, Nat.div_eq_of_lt hk, Nat.zero_mod, Nat.add_zero, min_eq_left (by omega)]

lemma leafUnder_right (hk : k < 2 ^ l) :
    leafUnder n (l + 1) i (2 ^ l + k) =
      leafUnder n l (min (2 * i + 1) (width l n - 1)) k := by
  have hbit : (2 ^ l + k) / 2 ^ l % 2 = 1 := by
    rw [Nat.add_div_left _ (Nat.two_pow_pos l), Nat.div_eq_of_lt hk]
  have hadd := leafUnder_add n l (min (2 * i + 1) (width l n - 1)) 1 k
  rw [leafUnder, hbit, ← hadd, Nat.one_mul]

lemma forall_lt_two_pow_succ {P : ℕ → Prop} :
    (∀ k < 2 ^ (l + 1), P k) ↔ (∀ k < 2 ^ l, P k) ∧ ∀ k < 2 ^ l, P (2 ^ l + k) := by
  refine ⟨fun h => ⟨fun k hk => h k (by omega), fun k hk => h _ (by omega)⟩, fun h k hk => ?_⟩
  rcases Nat.lt_or_ge k (2 ^ l) with hlow | hhigh
  · exact h.1 k hlow
  · have hrest := h.2 (k - 2 ^ l) (by omega)
    rwa [Nat.add_sub_cancel' hhigh] at hrest

lemma leafUnder_eq (hk : k < 2 ^ l) (hn : i * 2 ^ l + k < n) :
    leafUnder n l i k = i * 2 ^ l + k := by
  induction l generalizing i k with
  | zero =>
    obtain rfl : k = 0 := by simpa using hk
    simp [leafUnder]
  | succ l ih =>
    have hpos : 0 < 2 ^ l := Nat.two_pow_pos l
    have hbit : k / 2 ^ l < 2 := by
      rw [Nat.div_lt_iff_lt_mul hpos, ← pow_succ']
      exact hk
    have hsum : k / 2 ^ l * 2 ^ l + k % 2 ^ l = k := by
      rw [Nat.mul_comm]
      exact Nat.div_add_mod k (2 ^ l)
    have hplace : (2 * i + k / 2 ^ l) * 2 ^ l + k % 2 ^ l = i * 2 ^ (l + 1) + k := by
      rw [Nat.add_mul, Nat.add_assoc, hsum, pow_succ]
      ring
    have hnode : 2 * i + k / 2 ^ l < width l n := by
      rw [lt_width]
      omega
    have hlow : leafUnder n l (2 * i + k / 2 ^ l) k =
        leafUnder n l (2 * i + k / 2 ^ l) (k % 2 ^ l) := by
      have hadd := leafUnder_add n l (2 * i + k / 2 ^ l) (k / 2 ^ l) (k % 2 ^ l)
      rwa [hsum] at hadd
    rw [leafUnder, Nat.mod_eq_of_lt hbit, min_eq_left (by omega), hlow,
      ih (Nat.mod_lt _ hpos) (by omega), hplace]

variable {xs : List H}

lemma getElem?_pairs_eq_some {p : H × H} :
    (pairs xs)[i]? = some p ↔
      xs[2 * i]? = some p.1 ∧ xs[min (2 * i + 1) (xs.length - 1)]? = some p.2 := by
  induction i generalizing xs with
  | zero =>
    match xs with
    | [] => simp [pairs]
    | [a] => simp [pairs, Prod.ext_iff]
    | a :: b :: rest => simp [pairs, Prod.ext_iff]
  | succ i ih =>
    match xs with
    | [] => simp [pairs]
    | [a] => simp [pairs]
    | a :: b :: rest =>
      have htwo : 2 * (i + 1) = 2 * i + 1 + 1 := by ring
      rw [pairs, getElem?_cons_succ, ih, htwo, getElem?_cons_succ, getElem?_cons_succ]
      cases hrest : rest.length with
      | zero =>
        obtain rfl : rest = [] := eq_nil_of_length_eq_zero hrest
        simp
      | succ m =>
        have hmin : min (2 * i + 1 + 1 + 1) ((a :: b :: rest).length - 1) =
            min (2 * i + 1) (m + 1 - 1) + 1 + 1 := by
          simp only [length_cons, hrest]
          omega
        rw [hmin, getElem?_cons_succ, getElem?_cons_succ]

variable {combine : H → H → H}

lemma getElem?_level_succ {x : H} :
    (level combine (l + 1) xs)[i]? = some x ↔ ∃ p ∈ pairs (level combine l xs),
      (level combine l xs)[2 * i]? = some p.1 ∧
        (level combine l xs)[min (2 * i + 1) (width l xs.length - 1)]? = some p.2 ∧
          combine p.1 p.2 = x := by
  rw [level, parents, getElem?_map, Option.map_eq_some_iff]
  constructor
  · rintro ⟨p, hp, rfl⟩
    refine ⟨p, mem_of_getElem? hp, ?_⟩
    rw [getElem?_pairs_eq_some, length_level_eq_width] at hp
    exact ⟨hp.1, hp.2, rfl⟩
  · rintro ⟨p, -, hleft, hright, rfl⟩
    refine ⟨p, ?_, rfl⟩
    rw [getElem?_pairs_eq_some, length_level_eq_width]
    exact ⟨hleft, hright⟩

lemma exists_getElem?_level {l i : ℕ} {xs : List H} (hi : i < width l xs.length) :
    ∃ x, (level combine l xs)[i]? = some x := by
  rw [← length_level_eq_width combine] at hi
  exact ⟨_, getElem?_eq_getElem hi⟩

lemma Separates.mono {m : ℕ} {ys : List H} (h : Separates combine n xs ys) (hmn : m ≤ n) :
    Separates combine m xs ys := fun l hl => h l (by omega)

/-- Two nodes of one height are equal exactly if they have the same leaf at every place. -/
theorem node_eq_iff {ys : List H} (hsep : Separates combine l xs ys) {j : ℕ}
    (hi : i < width l xs.length) (hj : j < width l ys.length) :
    (level combine l xs)[i]? = (level combine l ys)[j]? ↔
      ∀ k < 2 ^ l, xs[leafUnder xs.length l i k]? = ys[leafUnder ys.length l j k]? := by
  induction l generalizing i j with
  | zero => simp [level, leafUnder]
  | succ l ih =>
    obtain ⟨x, hx⟩ := @exists_getElem?_level _ combine _ _ _ hi
    obtain ⟨y, hy⟩ := @exists_getElem?_level _ combine _ _ _ hj
    obtain ⟨p, hp, hpl, hpr, rfl⟩ := getElem?_level_succ.mp hx
    obtain ⟨q, hq, hql, hqr, rfl⟩ := getElem?_level_succ.mp hy
    have hil := two_mul_lt_width hi
    have hjl := two_mul_lt_width hj
    have hleft := ih (hsep.mono (by omega)) hil hjl
    have hright := ih (hsep.mono (by omega))
      (show min (2 * i + 1) (width l xs.length - 1) < width l xs.length by omega)
      (show min (2 * j + 1) (width l ys.length - 1) < width l ys.length by omega)
    rw [hpl, hql, Option.some_inj] at hleft
    rw [hpr, hqr, Option.some_inj] at hright
    have hpair : combine p.1 p.2 = combine q.1 q.2 ↔ p.1 = q.1 ∧ p.2 = q.2 := by
      refine ⟨fun h => ?_, fun h => by rw [h.1, h.2]⟩
      rw [hsep l (by omega) p hp q hq h]
      exact ⟨rfl, rfl⟩
    rw [hx, hy, Option.some_inj, hpair, hleft, hright, forall_lt_two_pow_succ]
    refine and_congr (forall₂_congr fun k hk => ?_) (forall₂_congr fun k hk => ?_)
    · rw [leafUnder_left hi hk, leafUnder_left hj hk]
    · rw [leafUnder_right hk, leafUnder_right hk]

/-! ## Climbing to the root

A path lists the siblings from a leaf upwards, each with whether it stands to the right.
-/

def joined (current : H) (s : Bool × H) : H × H := if s.1 then (current, s.2) else (s.2, current)

variable (combine) in
def climb (leaf : H) (path : List (Bool × H)) : H :=
  path.foldl (fun current s => combine (joined current s).1 (joined current s).2) leaf

variable (combine) in
def climbed (leaf : H) : List (Bool × H) → List (H × H)
  | [] => []
  | s :: path =>
    joined leaf s :: climbed (combine (joined leaf s).1 (joined leaf s).2) path

def place : List (Bool × H) → ℕ
  | [] => 0
  | s :: path => 2 * place path + if s.1 then 0 else 1

lemma climb_concat (leaf : H) (path : List (Bool × H)) (s : Bool × H) :
    climb combine leaf (path ++ [s]) = combine (joined (climb combine leaf path) s).1
      (joined (climb combine leaf path) s).2 := by
  simp [climb]

lemma climbed_concat (leaf : H) (path : List (Bool × H)) (s : Bool × H) :
    climbed combine leaf (path ++ [s]) =
      climbed combine leaf path ++ [joined (climb combine leaf path) s] := by
  induction path generalizing leaf with
  | nil => rfl
  | cons r path ih => exact congrArg (joined leaf r :: ·) (ih _)

lemma place_concat (path : List (Bool × H)) (s : Bool × H) :
    place (path ++ [s]) = (if s.1 then 0 else 2 ^ path.length) + place path := by
  induction path with
  | nil => simp [place]
  | cons r path ih =>
    rw [cons_append, place, ih, place, length_cons, pow_succ]
    split <;> ring

lemma place_lt (path : List (Bool × H)) : place path < 2 ^ path.length := by
  induction path with
  | nil => simp [place]
  | cons r path ih =>
    rw [place, length_cons, pow_succ]
    split <;> omega

/-- A path that ends at a node starts at the leaf that stands at its place, unless a pair on
it collides with one of the tree. -/
theorem climb_sound {xs : List H} {leaf : H} {path : List (Bool × H)} {i : ℕ}
    (hfree : ∀ l < path.length, ∀ p ∈ pairs (level combine l xs),
      ∀ q ∈ climbed combine leaf path, combine q.1 q.2 = combine p.1 p.2 → q = p)
    (hnode : (level combine path.length xs)[i]? = some (climb combine leaf path)) :
    xs[leafUnder xs.length path.length i (place path)]? = some leaf := by
  induction path using reverseRecOn generalizing i with
  | nil => exact hnode
  | append_singleton path s ih =>
    rw [climb_concat, length_append, length_singleton] at hnode
    rw [climbed_concat, length_append, length_singleton] at hfree
    have hi : i < width (path.length + 1) xs.length := by
      rw [← length_level_eq_width combine]
      exact (List.getElem?_eq_some_iff.mp hnode).1
    obtain ⟨p, hp, hleft, hright, heq⟩ := getElem?_level_succ.mp hnode
    have hjoin := hfree path.length (by omega) p hp _ (by simp) heq.symm
    have hfree' : ∀ l < path.length, ∀ p ∈ pairs (level combine l xs),
        ∀ q ∈ climbed combine leaf path, combine q.1 q.2 = combine p.1 p.2 → q = p :=
      fun l hl p hp q hq => hfree l (by omega) p hp q (mem_append_left _ hq)
    have hlow := place_lt path
    rw [length_append, length_singleton, place_concat]
    cases hs : s.1 with
    | true =>
      have hcur : climb combine leaf path = p.1 := by
        simpa [joined, hs] using congrArg Prod.fst hjoin
      rw [if_pos rfl, Nat.zero_add, leafUnder_left hi hlow]
      apply ih hfree'
      rw [hleft, hcur]
    | false =>
      have hcur : climb combine leaf path = p.2 := by
        simpa [joined, hs] using congrArg Prod.snd hjoin
      rw [if_neg (by simp), leafUnder_right hlow]
      apply ih hfree'
      rw [hright, hcur]

lemma getElem?_parents_div_two {x s : H} (hx : xs[i]? = some x)
    (hs : xs[if i % 2 = 0 then min (i + 1) (xs.length - 1) else i - 1]? = some s) :
    (parents combine xs)[i / 2]? =
      some (combine (joined x (decide (i % 2 = 0), s)).1
        (joined x (decide (i % 2 = 0), s)).2) := by
  have hlt := (List.getElem?_eq_some_iff.mp hx).1
  rw [parents, getElem?_map, Option.map_eq_some_iff]
  refine ⟨_, getElem?_pairs_eq_some.mpr ?_, rfl⟩
  rcases Nat.mod_two_eq_zero_or_one i with heven | hodd
  · rw [if_pos heven] at hs
    have htwo : 2 * (i / 2) = i := by omega
    simp only [joined, heven, htwo, decide_true, if_true]
    exact ⟨hx, hs⟩
  · rw [if_neg (by omega)] at hs
    have htwo : 2 * (i / 2) = i - 1 := by omega
    have hone : min (2 * (i / 2) + 1) (xs.length - 1) = i := by omega
    simp only [joined, hodd, hone, one_ne_zero, decide_false, Bool.false_eq_true, if_false]
    rw [htwo]
    exact ⟨hs, hx⟩

end HashTree
