import Mathlib.Tactic

/-!
# Ideal authenticated encryption

The record of every seal made so far plays the part of the cipher's secret.
Opening looks the four public inputs up in that record, so exactly the
(key, nonce, associated data, ciphertext) tuples that were sealed open, and
nothing an adversary puts together from other bytes does.
-/

namespace IdealAead

open List

variable {K N A P C : Type*}

structure Sealed (K N A P C : Type*) where
  key : K
  nonce : N
  aad : A
  plaintext : P
  ciphertext : C
  deriving DecidableEq

def Sealed.Genuine (encrypt : K → N → A → P → C) (r : Sealed K N A P C) : Prop :=
  r.ciphertext = encrypt r.key r.nonce r.aad r.plaintext

def CollisionFree (log : List (Sealed K N A P C)) : Prop :=
  ∀ r ∈ log, ∀ r' ∈ log, r.ciphertext = r'.ciphertext → r = r'

instance [DecidableEq K] [DecidableEq N] [DecidableEq A] [DecidableEq P] [DecidableEq C]
    (log : List (Sealed K N A P C)) : Decidable (CollisionFree log) :=
  inferInstanceAs (Decidable (∀ r ∈ log, ∀ r' ∈ log, r.ciphertext = r'.ciphertext → r = r'))

variable {log : List (Sealed K N A P C)}

lemma CollisionFree.of_append {new : List (Sealed K N A P C)} (h : CollisionFree (log ++ new)) :
    CollisionFree log :=
  fun r hr r' hr' => h r (mem_append_left _ hr) r' (mem_append_left _ hr')

variable [DecidableEq K] [DecidableEq N] [DecidableEq A] [DecidableEq C]

def openIn (log : List (Sealed K N A P C)) (key : K) (nonce : N) (aad : A) (ct : C) :
    Option P :=
  (log.find? fun r =>
    decide (r.key = key) && decide (r.nonce = nonce) && decide (r.aad = aad) &&
      decide (r.ciphertext = ct)).map Sealed.plaintext

lemma exists_sealed_of_openIn {key : K} {nonce : N} {aad : A} {ct : C} {pt : P}
    (h : openIn log key nonce aad ct = some pt) :
    (⟨key, nonce, aad, pt, ct⟩ : Sealed K N A P C) ∈ log := by
  obtain ⟨r, hfind, hpt⟩ := Option.map_eq_some_iff.mp h
  have hmem := mem_of_find?_eq_some hfind
  have hmatch := find?_some hfind
  simp only [Bool.and_eq_true, decide_eq_true_eq] at hmatch
  cases r
  simp_all

/-- A cipher under which the ciphertext determines the plaintext opens every
genuine record as the plaintext that was sealed. -/
theorem openIn_of_mem {encrypt : K → N → A → P → C}
    (hinj : ∀ k n a, Function.Injective (encrypt k n a)) (hlog : ∀ r ∈ log, r.Genuine encrypt)
    {r : Sealed K N A P C} (hr : r ∈ log) :
    openIn log r.key r.nonce r.aad r.ciphertext = some r.plaintext := by
  cases hopen : openIn log r.key r.nonce r.aad r.ciphertext with
  | none =>
    have hnone := find?_eq_none.mp (Option.map_eq_none_iff.mp hopen) r hr
    simp at hnone
  | some pt =>
    have hgen := hlog _ (exists_sealed_of_openIn hopen)
    have hpt : encrypt r.key r.nonce r.aad pt = encrypt r.key r.nonce r.aad r.plaintext :=
      hgen.symm.trans (hlog r hr)
    rw [hinj _ _ _ hpt]

end IdealAead
