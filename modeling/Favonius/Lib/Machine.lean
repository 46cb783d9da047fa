import Favonius.Lib.ByteCodec

/-!
# Machine operations that can stop a program

Indexing, slicing, copying and unsigned arithmetic of a fixed width.  The result is `none`
where the program would panic, so that a function written with them in the `Option` monad
returns a value exactly when all its accesses are in bounds and nothing overflows.
-/

namespace Machine

open ByteCodec List

variable {α σ ι : Type*}

def index (xs : List α) (i : ℕ) : Option α := xs[i]?

def range (xs : List α) (start stop : ℕ) : Option (List α) :=
  if start ≤ stop ∧ stop ≤ xs.length then some (slice xs start (stop - start)) else none

/-- `xs[start..stop].copy_from_slice(src)`. -/
def copyInto (xs : List α) (start stop : ℕ) (src : List α) : Option (List α) :=
  if start ≤ stop ∧ stop ≤ xs.length ∧ src.length = stop - start then
    some (xs.take start ++ src ++ xs.drop stop)
  else none

def add (w a b : ℕ) : Option ℕ := if a + b < 2 ^ w then some (a + b) else none

def sub (a b : ℕ) : Option ℕ := if b ≤ a then some (a - b) else none

def mul (w a b : ℕ) : Option ℕ := if a * b < 2 ^ w then some (a * b) else none

/-- `a << k` on words of `w` bits. -/
def shl (w a k : ℕ) : Option ℕ := if k < w then some (a * 2 ^ k % 2 ^ w) else none

/-- `xs[i] = x`. -/
def setAt (xs : List α) (i : ℕ) (x : α) : Option (List α) :=
  if i < xs.length then some (xs.set i x) else none

def saturatingAdd (w a b : ℕ) : ℕ := min (a + b) (2 ^ w - 1)

def saturatingMul (w a b : ℕ) : ℕ := min (a * b) (2 ^ w - 1)

def beAt (w : ℕ) (buf : Bytes) (off : ℕ) : Option ℕ :=
  (List.range w).foldlM (fun acc i => (index buf (off + i)).map fun b => acc * 256 + b.toNat) 0

def advance (n : ℕ) (src : Bytes) : Option Bytes :=
  if n ≤ src.length then some (src.drop n) else none

def forRange (n : ℕ) (body : ℕ → Option Unit) : Option Unit :=
  (List.range n).foldlM (fun _ i => body i) ()

variable {xs : List α} {i : ℕ} {start stop : ℕ} {n : ℕ} {f : σ → ι → Option σ}

lemma index_of_lt (h : i < xs.length) (d : α) : index xs i = some (xs.getD i d) := by
  rw [index, getD_eq_getElem?_getD, getElem?_eq_getElem h, Option.getD_some]

lemma range_of_le (h : start ≤ stop) (hstop : stop ≤ xs.length) :
    range xs start stop = some (slice xs start (stop - start)) :=
  if_pos ⟨h, hstop⟩

lemma copyInto_of_le {src : List α} (h : start ≤ stop) (hstop : stop ≤ xs.length)
    (hsrc : src.length = stop - start) :
    copyInto xs start stop src = some (xs.take start ++ src ++ xs.drop stop) :=
  if_pos ⟨h, hstop, hsrc⟩

variable {w a b : ℕ}

lemma add_of_lt (h : a + b < 2 ^ w) : add w a b = some (a + b) := if_pos h

lemma sub_of_le (h : b ≤ a) : sub a b = some (a - b) := if_pos h

lemma mul_of_lt (h : a * b < 2 ^ w) : mul w a b = some (a * b) := if_pos h

lemma shl_of_lt {k : ℕ} (hk : k < w) (h : a * 2 ^ k < 2 ^ w) : shl w a k = some (a * 2 ^ k) := by
  rw [shl, if_pos hk, Nat.mod_eq_of_lt h]

lemma setAt_of_lt (h : i < xs.length) (x : α) : setAt xs i x = some (xs.set i x) :=
  if_pos h

lemma advance_of_le {src : Bytes} (h : n ≤ src.length) : advance n src = some (src.drop n) :=
  if_pos h

/-- A loop that never stops does what its body does; the invariant may speak of the elements
that are left. -/
theorem foldlM_eq_some {g : σ → ι → σ} {I : σ → List ι → Prop}
    (hbody : ∀ s x xs, I s (x :: xs) → f s x = some (g s x) ∧ I (g s x) xs) :
    ∀ xs s, I s xs → xs.foldlM f s = some (xs.foldl g s) := by
  intro xs
  induction xs with
  | nil => exact fun _ _ => rfl
  | cons x xs ih =>
    intro s hs
    obtain ⟨hx, hrest⟩ := hbody s x xs hs
    rw [foldlM_cons, hx, foldl_cons]
    exact ih _ hrest

lemma exists_foldlM {I : σ → Prop} (xs : List ι)
    (hbody : ∀ s, I s → ∀ x ∈ xs, ∃ s', f s x = some s' ∧ I s') :
    ∀ s, I s → ∃ s', xs.foldlM f s = some s' ∧ I s' := by
  induction xs with
  | nil => exact fun s hs => ⟨s, rfl, hs⟩
  | cons x xs ih =>
    intro s hs
    obtain ⟨next, hnext, hI⟩ := hbody s hs x mem_cons_self
    rw [foldlM_cons, hnext]
    exact ih (fun t ht y hy => hbody t ht y (mem_cons_of_mem x hy)) next hI

lemma mapM_eq_some {f : ι → Option α} {g : ι → α} (xs : List ι)
    (h : ∀ x ∈ xs, f x = some (g x)) : xs.mapM f = some (xs.map g) := by
  induction xs with
  | nil => rfl
  | cons x xs ih =>
    rw [mapM_cons, h x mem_cons_self, ih fun y hy => h y (mem_cons_of_mem x hy)]
    rfl

lemma forRange_eq_some {body : ℕ → Option Unit} (h : ∀ i < n, body i = some ()) :
    forRange n body = some () := by
  refine foldlM_eq_some (g := fun _ _ => ()) (I := fun _ is => ∀ i ∈ is, i < n) ?_ _ _ ?_
  · intro _ i is his
    exact ⟨h i (his i mem_cons_self), fun j hj => his j (mem_cons_of_mem i hj)⟩
  · exact fun i hi => mem_range.mp hi

lemma beAt_of_le {off : ℕ} {buf : Bytes} (h : off + w ≤ buf.length) :
    beAt w buf off = some (beNat ((buf.drop off).take w)) := by
  have hbytes : (buf.drop off).take w = (List.range w).map fun i => buf.getD (off + i) 0 := by
    apply ext_getElem (by simp; omega)
    intro i hi hi'
    have hlt : off + i < buf.length := by
      simp only [length_take, length_drop] at hi
      omega
    simp [getElem?_eq_getElem hlt]
  have hloop : beAt w buf off = some ((List.range w).foldl
      (fun acc i => acc * 256 + (buf.getD (off + i) 0).toNat) 0) := by
    refine foldlM_eq_some (I := fun _ is => ∀ i ∈ is, i < w) ?_ _ _ ?_
    · intro acc i is his
      have hi := his i mem_cons_self
      rw [index_of_lt (by omega) 0]
      exact ⟨rfl, fun j hj => his j (mem_cons_of_mem i hj)⟩
    · exact fun i hi => mem_range.mp hi
  rw [hloop, hbytes, beNat, foldl_map]

end Machine
