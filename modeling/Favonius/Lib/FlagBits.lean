import Favonius.Lib.ByteCodec
import Mathlib.Data.Nat.Bitwise

/-!
# Flag lists and their bitmaps

Lists of flags packed into bytes, least significant bit first, and cursors that
skip a run of set flags.
-/

namespace FlagBits

open ByteCodec List Option
open UInt8 (ofNat toNat_and toNat_inj toNat_or toNat_zero)

variable {flags : List Bool} {i j : ℕ}

lemma getD_set_true (h : flags.getD j false = true) : (flags.set i true).getD j false = true := by
  rw [getD_eq_getElem?_getD] at h ⊢
  rw [getElem?_set]
  split
  · split
    · rfl
    · simp_all
  · exact h

lemma count_set_true (hi : i < flags.length) (hfalse : flags.getD i false = false) :
    (flags.set i true).count true = flags.count true + 1 := by
  rw [getD_eq_getElem?_getD, getElem?_eq_getElem hi, getD_some] at hfalse
  rw [count_set hi, hfalse]
  simp

lemma getD_replicate_false (n i : ℕ) : (List.replicate n false).getD i false = false := by
  rw [getD_eq_getElem?_getD, getElem?_replicate]
  split <;> rfl

lemma getD_modify {α : Type*} (f : α → α) {l : List α} (hi : i < l.length) (j : ℕ) (d : α) :
    (l.modify i f).getD j d = if j = i then f (l.getD j d) else l.getD j d := by
  by_cases hj : j = i
  · subst hj
    simp [getElem?_eq_getElem hi]
  · simp [hj, Ne.symm hj]

lemma or_and_ne_zero {mask bit : UInt8} (h : mask &&& bit ≠ 0) (x : UInt8) :
    (x ||| mask) &&& bit ≠ 0 := by
  intro hzero
  apply h
  apply toNat_inj.mp
  have hnat := congrArg UInt8.toNat hzero
  simp only [toNat_and, toNat_or, Nat.and_or_distrib_right, toNat_zero, Nat.or_eq_zero_iff] at hnat
  exact hnat.2

def setBit (bm : Bytes) (i : ℕ) : Bytes :=
  bm.modify (i / 8) fun b => b ||| (1 <<< ofNat (i % 8))

def bitSet (bm : Bytes) (i : ℕ) : Bool :=
  bm.getD (i / 8) 0 &&& (1 <<< ofNat (i % 8)) != 0

def packFlags (len : ℕ) (flags : List Bool) : Bytes :=
  flags.zipIdx.foldl (fun bm p => if p.1 then setBit bm p.2 else bm) (List.replicate len 0)

lemma toNat_one_shiftLeft {k : ℕ} (hk : k < 8) :
    ((1 : UInt8) <<< ofNat k).toNat = 2 ^ k := by
  have hall : ∀ k : Fin 8, ((1 : UInt8) <<< ofNat k.1).toNat = 2 ^ k.1 := by decide
  exact hall ⟨k, hk⟩

variable (bm : Bytes) (rest : List Bool)

lemma bitSet_eq_testBit (i : ℕ) : bitSet bm i = (bm.getD (i / 8) 0).toNat.testBit (i % 8) := by
  have hk : i % 8 < 8 := Nat.mod_lt i (by norm_num)
  have hne : ∀ b : UInt8, (b != 0) = (b.toNat != 0) := by
    intro b
    rw [Bool.eq_iff_iff]
    simp [← toNat_inj]
  rw [bitSet, hne, toNat_and, toNat_one_shiftLeft hk]
  generalize (bm.getD (i / 8) 0).toNat = n
  rw [Nat.and_two_pow]
  cases n.testBit (i % 8) <;> simp

@[simp] lemma length_setBit (i : ℕ) : (setBit bm i).length = bm.length := by
  simp [setBit]

lemma bitSet_setBit {bm : Bytes} (hi : i / 8 < bm.length) :
    bitSet (setBit bm i) j = (bitSet bm j || decide (i = j)) := by
  have hk : i % 8 < 8 := Nat.mod_lt i (by norm_num)
  simp only [bitSet_eq_testBit, setBit, getD_eq_getElem?_getD, getElem?_modify]
  by_cases hbyte : i / 8 = j / 8
  · rw [← hbyte, getElem?_eq_getElem hi]
    have hiff : (i % 8 = j % 8) ↔ (i = j) := by omega
    simp only [if_true, Option.map_eq_map, map_some, getD_some]
    rw [toNat_or, Nat.testBit_or, toNat_one_shiftLeft hk, Nat.testBit_two_pow]
    simp [hiff]
  · have hne : i ≠ j := fun h => hbyte (by rw [h])
    simp [if_neg hbyte, hne]

lemma bitSet_replicate (len j : ℕ) : bitSet (List.replicate len 0) j = false := by
  have hzero : (List.replicate len (0 : UInt8)).getD (j / 8) 0 = 0 := by
    rw [getD_eq_getElem?_getD, getElem?_replicate]
    split <;> rfl
  rw [bitSet, hzero]
  simp

lemma bitSet_foldl {flags : List (Bool × ℕ)} {bm : Bytes}
    (hfit : ∀ p ∈ flags, p.2 / 8 < bm.length) :
    bitSet (flags.foldl (fun bm p => if p.1 then setBit bm p.2 else bm) bm) j =
      (bitSet bm j || flags.any fun p => p.1 && decide (p.2 = j)) := by
  induction flags generalizing bm with
  | nil => simp
  | cons p flags ih =>
    rw [foldl_cons, ih]
    · cases hp : p.1 with
      | true => simp [hp, bitSet_setBit (hfit p mem_cons_self), Bool.or_assoc]
      | false => simp [hp]
    · intro q hq
      have hlen : (if p.1 = true then setBit bm p.2 else bm).length = bm.length := by
        split <;> simp
      rw [hlen]
      exact hfit q (mem_cons_of_mem p hq)

lemma bitSet_packFlags {len : ℕ} (hfit : flags.length ≤ 8 * len) (j : ℕ) :
    bitSet (packFlags len flags) j = flags.getD j false := by
  rw [packFlags, bitSet_foldl, bitSet_replicate, Bool.false_or]
  · rw [Bool.eq_iff_iff, List.any_eq_true]
    simp only [Bool.and_eq_true, decide_eq_true_eq, getD_eq_getElem?_getD]
    constructor
    · rintro ⟨⟨b, i⟩, hmem, hb, rfl⟩
      rw [mem_zipIdx_iff_getElem?] at hmem
      simp_all
    · intro h
      cases hget : flags[j]? with
      | none => simp [hget] at h
      | some b =>
        refine ⟨(b, j), mem_zipIdx_iff_getElem?.mpr hget, ?_, rfl⟩
        simpa [hget] using h
  · rintro ⟨b, i⟩ hmem
    have hget := mem_zipIdx_iff_getElem?.mp hmem
    obtain ⟨hi, -⟩ := List.getElem?_eq_some_iff.mp hget
    rw [length_replicate]
    omega

@[simp] lemma length_packFlags (len : ℕ) (flags : List Bool) :
    (packFlags len flags).length = len := by
  have hfold (ps : List (Bool × ℕ)) (bm : Bytes) :
      (ps.foldl (fun bm p => if p.1 then setBit bm p.2 else bm) bm).length = bm.length := by
    induction ps generalizing bm with
    | nil => rfl
    | cons p ps ih =>
      rw [foldl_cons, ih]
      split <;> simp
  rw [packFlags, hfold, length_replicate]

/-- As many set bits as given, in as few bytes as possible. -/
def fullBitmap (total : ℕ) : Bytes :=
  let n := (total + 7) / 8
  let trailing := total % 8
  if trailing ≠ 0 then
    (List.replicate n 0xFF).set (n - 1) ((1 <<< ofNat trailing) - 1)
  else List.replicate n 0xFF

/-- Indices outside the bitmap are ignored. -/
def clearBit (bm : Bytes) (i : ℕ) : Bytes :=
  bm.modify (i / 8) fun b => b &&& ~~~(1 <<< ofNat (i % 8))

lemma testBit_clear (b : UInt8) (hi : i < 8) (hj : j < 8) :
    (b &&& ~~~(1 <<< ofNat i)).toNat.testBit j = (b.toNat.testBit j && decide (i ≠ j)) := by
  have hmask : ∀ i j : Fin 8,
      (~~~((1 : UInt8) <<< ofNat i.1)).toNat.testBit j.1 = decide (i.1 ≠ j.1) := by decide
  rw [toNat_and, Nat.testBit_and, hmask ⟨i, hi⟩ ⟨j, hj⟩]

lemma bitSet_clearBit (i j : ℕ) : bitSet (clearBit bm i) j = (bitSet bm j && decide (i ≠ j)) := by
  simp only [bitSet_eq_testBit, clearBit, getD_eq_getElem?_getD, getElem?_modify]
  by_cases hbyte : i / 8 = j / 8
  · have hiff : (i % 8 ≠ j % 8) ↔ (i ≠ j) := by omega
    cases hget : bm[j / 8]? with
    | none => simp
    | some b =>
      simp only [hbyte, if_true, Option.map_eq_map, map_some, getD_some]
      rw [testBit_clear b (Nat.mod_lt i (by norm_num)) (Nat.mod_lt j (by norm_num))]
      simp only [hiff]
  · have hne : i ≠ j := fun h => hbyte (by rw [h])
    simp [if_neg hbyte, hne]

lemma bitSet_foldl_clearBit (is : List ℕ) (j : ℕ) :
    bitSet (is.foldl clearBit bm) j = (bitSet bm j && decide (j ∉ is)) := by
  induction is generalizing bm with
  | nil => simp
  | cons i is ih =>
    rw [foldl_cons, ih, bitSet_clearBit, Bool.and_assoc]
    congr 1
    by_cases h : i = j
    · simp [h]
    · simp [h, Ne.symm h]

lemma bitSet_replicate_ones (n i : ℕ) :
    bitSet (List.replicate n 0xFF) i = decide (i < 8 * n) := by
  have hones : ∀ k : Fin 8, (0xFF : UInt8).toNat.testBit k.1 = true := by decide
  rw [bitSet_eq_testBit, getD_eq_getElem?_getD, getElem?_replicate]
  split
  · rw [getD_some, hones ⟨_, Nat.mod_lt i (by norm_num)⟩, eq_comm, decide_eq_true_eq]
    omega
  · simp only [getD_none, toNat_zero, Nat.zero_testBit]
    rw [eq_comm, decide_eq_false_iff_not]
    omega

lemma bitSet_fullBitmap (total i : ℕ) : bitSet (fullBitmap total) i = decide (i < total) := by
  have htail : ∀ t : Fin 8, ((1 <<< ofNat t.1) - 1 : UInt8).toNat = 2 ^ t.1 - 1 := by decide
  simp only [fullBitmap]
  split
  · by_cases hlast : (total + 7) / 8 - 1 = i / 8
    · rw [bitSet_eq_testBit, getD_eq_getElem?_getD, hlast, getElem?_set_self
        (by rw [length_replicate]; omega), getD_some,
        htail ⟨_, Nat.mod_lt total (by norm_num)⟩, Nat.testBit_two_pow_sub_one, decide_eq_decide]
      dsimp only
      omega
    · have hsame : bitSet ((List.replicate ((total + 7) / 8) 0xFF).set ((total + 7) / 8 - 1)
          ((1 <<< ofNat (total % 8)) - 1)) i =
            bitSet (List.replicate ((total + 7) / 8) 0xFF) i := by
        rw [bitSet, bitSet, getD_eq_getElem?_getD, getElem?_set_ne hlast, ← getD_eq_getElem?_getD]
      rw [hsame, bitSet_replicate_ones, decide_eq_decide]
      omega
  · rw [bitSet_replicate_ones, decide_eq_decide]
    omega

/-- Step over the set flags at the front of the remaining list. -/
def skipSet : List Bool → ℕ → ℕ
  | true :: rest, cursor => skipSet rest (cursor + 1)
  | _, cursor => cursor

def advanceCursor (flags : List Bool) (cursor : ℕ) : ℕ := skipSet (flags.drop cursor) cursor

lemma skipSet_spec (cursor : ℕ) :
    cursor ≤ skipSet rest cursor ∧ skipSet rest cursor ≤ cursor + rest.length ∧
      ∀ i, cursor ≤ i → i < skipSet rest cursor → rest.getD (i - cursor) false = true := by
  induction rest generalizing cursor with
  | nil =>
    refine ⟨le_refl _, le_refl _, ?_⟩
    intro i hi hlt
    exact (Nat.not_lt.mpr hi hlt).elim
  | cons b rest ih =>
    cases b with
    | false =>
      refine ⟨le_refl _, by simp [skipSet], ?_⟩
      intro i hi hlt
      exact (Nat.not_lt.mpr hi hlt).elim
    | true =>
      obtain ⟨hge, hle, hall⟩ := ih (cursor + 1)
      refine ⟨by simp only [skipSet]; omega, by simp only [skipSet, length_cons]; omega, ?_⟩
      intro i hi hlt
      rcases Nat.eq_or_lt_of_le hi with rfl | hgt
      · simp
      · have htail := hall i hgt hlt
        have hsub : i - cursor = (i - (cursor + 1)) + 1 := by omega
        rw [hsub, getD_cons_succ]
        exact htail

/-- A cursor below which every flag is set stays one. -/
theorem advanceCursor_spec (flags : List Bool) (cursor : ℕ) (hlen : cursor ≤ flags.length)
    (hbelow : ∀ i < cursor, flags.getD i false = true) :
    cursor ≤ advanceCursor flags cursor ∧ advanceCursor flags cursor ≤ flags.length ∧
      ∀ i < advanceCursor flags cursor, flags.getD i false = true := by
  obtain ⟨hge, hle, hall⟩ := skipSet_spec (flags.drop cursor) cursor
  refine ⟨hge, ?_, ?_⟩
  · rw [length_drop] at hle
    unfold advanceCursor
    omega
  · intro i hi
    by_cases hlt : i < cursor
    · exact hbelow i hlt
    · have hget := hall i (by omega) hi
      rw [getD_eq_getElem?_getD, getElem?_drop] at hget
      rwa [Nat.add_sub_cancel' (by omega)] at hget

lemma getD_skipSet (cursor : ℕ) : rest.getD (skipSet rest cursor - cursor) false = false := by
  induction rest generalizing cursor with
  | nil => simp [skipSet]
  | cons b rest ih =>
    cases b with
    | false => simp [skipSet]
    | true =>
      have hge := (skipSet_spec rest (cursor + 1)).1
      have hsub : skipSet rest (cursor + 1) - cursor =
          skipSet rest (cursor + 1) - (cursor + 1) + 1 := by omega
      rw [skipSet, hsub, getD_cons_succ]
      exact ih (cursor + 1)

lemma getD_advanceCursor (flags : List Bool) (cursor : ℕ) :
    flags.getD (advanceCursor flags cursor) false = false := by
  have hge := (skipSet_spec (flags.drop cursor) cursor).1
  have hstop := getD_skipSet (flags.drop cursor) cursor
  rw [getD_eq_getElem?_getD, getElem?_drop, Nat.add_sub_cancel' hge] at hstop
  rwa [getD_eq_getElem?_getD]

end FlagBits
