import Favonius.Lib.ByteCodec

/-!
# One's-complement sums

The Internet checksum: big-endian words are added and the carries are folded back in.
-/

namespace OnesComplement

open ByteCodec List

/-- The words of a buffer; a last byte alone is the high half of one. -/
def wordSum : Bytes → ℕ
  | [] => 0
  | [a] => a.toNat * 256
  | a :: b :: rest => a.toNat * 256 + b.toNat + wordSum rest

def foldCarries (sum : ℕ) : ℕ :=
  if 0xFFFF < sum then foldCarries (sum % 2 ^ 16 + sum / 2 ^ 16) else sum
  termination_by sum
  decreasing_by omega

lemma wordSum_append {xs : Bytes} (h : xs.length % 2 = 0) (ys : Bytes) :
    wordSum (xs ++ ys) = wordSum xs + wordSum ys := by
  fun_induction wordSum xs with
  | case1 => rw [nil_append, Nat.zero_add]
  | case2 => cases h
  | case3 a b rest ih =>
    rw [cons_append, cons_append, wordSum, ih, Nat.add_assoc _ (wordSum rest)]
    rw [length_cons, length_cons] at h
    omega

lemma wordSum_beBytes (n : ℕ) : wordSum (beBytes 2 n) = n % 2 ^ 16 := by
  rw [show 2 ^ 16 = 256 ^ 2 by norm_num, ← beNat_beBytes]
  simp [beBytes, wordSum, beNat]

/-- Folding keeps the sum modulo `2 ^ 16 - 1`, and only zero is folded to zero. -/
theorem foldCarries_spec (sum : ℕ) :
    foldCarries sum ≤ 0xFFFF ∧ foldCarries sum % 0xFFFF = sum % 0xFFFF ∧
      (foldCarries sum = 0 ↔ sum = 0) := by
  fun_induction foldCarries sum with
  | case1 sum hlt ih => omega
  | case2 sum hle => omega

lemma foldCarries_add_complement (sum : ℕ) :
    foldCarries (sum + (0xFFFF - foldCarries sum)) = 0xFFFF := by
  have h := foldCarries_spec sum
  have h' := foldCarries_spec (sum + (0xFFFF - foldCarries sum))
  omega

end OnesComplement
