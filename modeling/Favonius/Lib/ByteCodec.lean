import Mathlib.Tactic

/-!
# Fixed-width integers in byte buffers

Big- and little-endian encodings of naturals and of the machine words, read
back through a cursor.  A cursor read returns the value and the rest of the
buffer, so a decoder that reads fields in the order in which an encoder wrote
them is inverted by one rewrite per field.
-/

namespace ByteCodec

open List

abbrev Bytes := List UInt8

abbrev FixedBytes (n : ℕ) := {b : Bytes // b.length = n}

def FixedBytes.fill (n : ℕ) (b : UInt8) : FixedBytes n := ⟨List.replicate n b, length_replicate⟩

lemma length_take_zeros (data : Bytes) (n : ℕ) :
    ((data ++ List.replicate n 0).take n).length = n := by
  simp

/-- The first `n` bytes, with zeros behind a shorter buffer. -/
def FixedBytes.pad (n : ℕ) (data : Bytes) : FixedBytes n :=
  ⟨(data ++ List.replicate n 0).take n, length_take_zeros data n⟩

/-- The `w` low-order bytes of `n`, most significant first. -/
def beBytes : ℕ → ℕ → Bytes
  | 0, _ => []
  | w + 1, n => beBytes w (n / 256) ++ [UInt8.ofNat (n % 256)]

def beNat (bs : Bytes) : ℕ := bs.foldl (fun acc b => acc * 256 + b.toNat) 0

@[simp] lemma length_beBytes (w n : ℕ) : (beBytes w n).length = w := by
  induction w generalizing n with
  | zero => rfl
  | succ w ih => simp [beBytes, ih]

@[simp] lemma beNat_nil : beNat [] = 0 := rfl

variable (bs : Bytes)

lemma beNat_concat (b : UInt8) : beNat (bs ++ [b]) = beNat bs * 256 + b.toNat := by
  simp [beNat]

lemma beNat_lt : beNat bs < 256 ^ bs.length := by
  induction bs using reverseRecOn with
  | nil => simp
  | append_singleton bs b ih =>
    have hb : b.toNat < 256 := b.toNat_lt
    rw [beNat_concat, length_append, length_singleton, pow_succ]
    omega

lemma beNat_beBytes (w n : ℕ) : beNat (beBytes w n) = n % 256 ^ w := by
  induction w generalizing n with
  | zero => simp [beBytes, Nat.mod_one]
  | succ w ih =>
    have hlow : (UInt8.ofNat (n % 256)).toNat = n % 256 := by
      exact Nat.mod_eq_of_lt (Nat.mod_lt n (by norm_num))
    rw [beBytes, beNat_concat, ih, hlow, pow_succ', Nat.mod_mul]
    omega

variable {w : ℕ} {n : ℕ}

lemma beNat_beBytes_of_lt (h : n < 256 ^ w) : beNat (beBytes w n) = n := by
  rw [beNat_beBytes, Nat.mod_eq_of_lt h]

lemma beBytes_beNat : beBytes bs.length (beNat bs) = bs := by
  induction bs using reverseRecOn with
  | nil => rfl
  | append_singleton bs b ih =>
    have hb : b.toNat < 256 := b.toNat_lt
    have hhigh : (beNat bs * 256 + b.toNat) / 256 = beNat bs := by omega
    have hlow : (beNat bs * 256 + b.toNat) % 256 = b.toNat := by omega
    rw [length_append, length_singleton, beNat_concat, beBytes, hhigh, hlow, ih, UInt8.ofNat_toNat]

lemma beBytes_injOn (w : ℕ) : Set.InjOn (beBytes w) (Set.Iio (256 ^ w)) := by
  intro m hm n hn h
  rw [← beNat_beBytes_of_lt hm, ← beNat_beBytes_of_lt hn, h]

/-- The `w` low-order bytes of `n`, least significant first. -/
def leBytes (w n : ℕ) : Bytes := (beBytes w n).reverse

def leNat (bs : Bytes) : ℕ := beNat bs.reverse

@[simp] lemma length_leBytes (w n : ℕ) : (leBytes w n).length = w := by
  simp [leBytes]

lemma leNat_leBytes_of_lt (h : n < 256 ^ w) : leNat (leBytes w n) = n := by
  rw [leNat, leBytes, reverse_reverse, beNat_beBytes_of_lt h]

lemma leBytes_injOn (w : ℕ) : Set.InjOn (leBytes w) (Set.Iio (256 ^ w)) := by
  intro m hm n hn h
  rw [← leNat_leBytes_of_lt hm, ← leNat_leBytes_of_lt hn, h]

/-- A field after its length is read back, and so is what follows it, as long as the length
fits its encoding. -/
theorem prefixed_append_inj {enc : ℕ → Bytes} {bound : ℕ} {xs ys rest rest' : Bytes}
    (hlen : ∀ n, (enc n).length = w) (hinj : Set.InjOn enc (Set.Iio bound)) (hx : xs.length < bound)
    (hy : ys.length < bound) (h : enc xs.length ++ (xs ++ rest) = enc ys.length ++ (ys ++ rest')) :
    xs = ys ∧ rest = rest' := by
  obtain ⟨hlength, hfields⟩ := append_inj h (by rw [hlen, hlen])
  exact append_inj hfields (hinj hx hy hlength)

/-- Records that can be told from what follows them can be told in a sequence, as far as `key`
tells them. -/
theorem flatMap_inj_of_append_inj {α β : Type*} {enc : α → Bytes} {key : α → β} {p : α → Prop}
    (hinj : ∀ {x y rest rest'}, p x → p y → enc x ++ rest = enc y ++ rest' →
      key x = key y ∧ rest = rest') {xs ys : List α} (hxs : ∀ x ∈ xs, p x) (hys : ∀ y ∈ ys, p y)
    (hlen : xs.length = ys.length) (h : xs.flatMap enc = ys.flatMap enc) :
    xs.map key = ys.map key := by
  induction xs generalizing ys with
  | nil =>
    rw [length_eq_zero_iff.mp hlen.symm]
  | cons x xs ih =>
    cases ys with
    | nil => cases hlen
    | cons y ys =>
      obtain ⟨hx, hxs⟩ := forall_mem_cons.mp hxs
      obtain ⟨hy, hys⟩ := forall_mem_cons.mp hys
      obtain ⟨hkey, h⟩ := hinj hx hy h
      rw [map_cons, map_cons, hkey, ih hxs hys (Nat.succ.inj hlen) h]

section Slices

variable {α : Type*}

def slice (bs : List α) (start len : ℕ) : List α := (bs.drop start).take len

variable (bs : List α)

lemma length_slice (start len : ℕ) :
    (slice bs start len).length = min len (bs.length - start) := by
  simp [slice]

variable {start len : ℕ}

lemma slice_append_left {xs ys : List α} (h : start + len ≤ xs.length) :
    slice (xs ++ ys) start len = slice xs start len := by
  rw [slice, slice, drop_append_of_le_length (by omega), take_append_of_le_length (by simp; omega)]

lemma slice_append_right (xs ys : List α) (start len : ℕ) :
    slice (xs ++ ys) (xs.length + start) len = slice ys start len := by
  rw [slice, slice, ← drop_drop, drop_left]

lemma drop_eq_slice_append (start len : ℕ) :
    bs.drop start = slice bs start len ++ bs.drop (start + len) := by
  rw [slice, ← drop_drop, take_append_drop]

lemma slice_append_slice {bs : List α} {m next : ℕ} (h : start + m = next) :
    slice bs start m ++ slice bs next n = slice bs start (m + n) := by
  rw [slice, slice, slice, ← h, ← drop_drop, take_add]

lemma slice_eq_of_append {bs before xs after : List α} (h : bs = before ++ (xs ++ after))
    (hstart : before.length = start) (hlen : xs.length = len) : slice bs start len = xs := by
  rw [h, slice, drop_left' hstart]
  exact take_left' hlen

end Slices

def fixedSlice (bs : Bytes) (start len : ℕ) (h : start + len ≤ bs.length) : FixedBytes len :=
  ⟨slice bs start len, by rw [length_slice]; omega⟩

def putU8 (x : UInt8) : Bytes := [x]

def putU16 (x : UInt16) : Bytes := beBytes 2 x.toNat

def putU32 (x : UInt32) : Bytes := beBytes 4 x.toNat

def putU64 (x : UInt64) : Bytes := beBytes 8 x.toNat

def getU8 (src : Bytes) : UInt8 × Bytes := (src.headD 0, src.drop 1)

def getU16 (src : Bytes) : UInt16 × Bytes := (UInt16.ofNat (beNat (src.take 2)), src.drop 2)

def getU32 (src : Bytes) : UInt32 × Bytes := (UInt32.ofNat (beNat (src.take 4)), src.drop 4)

def getU64 (src : Bytes) : UInt64 × Bytes := (UInt64.ofNat (beNat (src.take 8)), src.drop 8)

variable (x : UInt32)

lemma ofNat_leNat_leBytes32 : UInt32.ofNat (leNat (leBytes 4 x.toNat)) = x := by
  have hx : x.toNat < 256 ^ 4 := x.toNat_lt
  rw [leNat_leBytes_of_lt hx, UInt32.ofNat_toNat]

lemma ofNat_leNat_leBytes64 (x : UInt64) : UInt64.ofNat (leNat (leBytes 8 x.toNat)) = x := by
  have hx : x.toNat < 256 ^ 8 := x.toNat_lt
  rw [leNat_leBytes_of_lt hx, UInt64.ofNat_toNat]

@[simp] lemma length_putU8 (x : UInt8) : (putU8 x).length = 1 := rfl

@[simp] lemma length_putU16 (x : UInt16) : (putU16 x).length = 2 := length_beBytes _ _

@[simp] lemma length_putU32 : (putU32 x).length = 4 := length_beBytes _ _

@[simp] lemma length_putU64 (x : UInt64) : (putU64 x).length = 8 := length_beBytes _ _

@[simp] lemma getU8_put (x : UInt8) (rest : Bytes) : getU8 (putU8 x ++ rest) = (x, rest) := rfl

@[simp] lemma getU16_put (x : UInt16) (rest : Bytes) :
    getU16 (putU16 x ++ rest) = (x, rest) := by
  have hx : x.toNat < 256 ^ 2 := x.toNat_lt
  simp only [getU16, putU16]
  rw [take_left' (length_beBytes 2 _), drop_left' (length_beBytes 2 _),
    beNat_beBytes_of_lt hx, UInt16.ofNat_toNat]

@[simp] lemma getU32_put (rest : Bytes) : getU32 (putU32 x ++ rest) = (x, rest) := by
  have hx : x.toNat < 256 ^ 4 := x.toNat_lt
  simp only [getU32, putU32]
  rw [take_left' (length_beBytes 4 _), drop_left' (length_beBytes 4 _),
    beNat_beBytes_of_lt hx, UInt32.ofNat_toNat]

variable {src : Bytes}

lemma beBytes_beNat_take (h : w ≤ src.length) : beBytes w (beNat (src.take w)) = src.take w := by
  have hback := beBytes_beNat (src.take w)
  rwa [length_take, Nat.min_eq_left h] at hback

lemma beNat_take_lt (src : Bytes) (w : ℕ) : beNat (src.take w) < 256 ^ w := by
  apply (beNat_lt (src.take w)).trans_le
  exact Nat.pow_le_pow_right (by norm_num) (length_take_le w src)

lemma putU8_getU8 (h : 1 ≤ src.length) : putU8 (getU8 src).1 = src.take 1 := by
  cases src with
  | nil => cases h
  | cons b src => rfl

lemma putU16_getU16 (h : 2 ≤ src.length) : putU16 (getU16 src).1 = src.take 2 := by
  rw [putU16, getU16, UInt16.toNat_ofNat_of_lt' (beNat_take_lt src 2), beBytes_beNat_take h]

lemma putU32_getU32 (h : 4 ≤ src.length) : putU32 (getU32 src).1 = src.take 4 := by
  rw [putU32, getU32, UInt32.toNat_ofNat_of_lt' (beNat_take_lt src 4), beBytes_beNat_take h]

lemma putU64_getU64 (h : 8 ≤ src.length) : putU64 (getU64 src).1 = src.take 8 := by
  rw [putU64, getU64, UInt64.toNat_ofNat_of_lt' (beNat_take_lt src 8), beBytes_beNat_take h]

lemma putU16_append_getU16 (h : 2 ≤ src.length) :
    putU16 (getU16 src).1 ++ (getU16 src).2 = src := by
  rw [putU16_getU16 h]
  exact take_append_drop 2 src

@[simp] lemma getU64_put (x : UInt64) (rest : Bytes) :
    getU64 (putU64 x ++ rest) = (x, rest) := by
  have hx : x.toNat < 256 ^ 8 := x.toNat_lt
  simp only [getU64, putU64]
  rw [take_left' (length_beBytes 8 _), drop_left' (length_beBytes 8 _),
    beNat_beBytes_of_lt hx, UInt64.ofNat_toNat]

/-! Reads at a fixed offset skip the fields written before it. -/

lemma drop_add_of_length {α : Type*} {xs : List α} (h : xs.length = w) (n : ℕ) (ys : List α) :
    (xs ++ ys).drop (n + w) = ys.drop n := by
  rw [Nat.add_comm, ← drop_drop, drop_left' h]

@[simp] lemma drop_putU8 (n : ℕ) (x : UInt8) (rest : Bytes) :
    (putU8 x ++ rest).drop (n + 1) = rest.drop n := drop_add_of_length (length_putU8 x) n rest

@[simp] lemma drop_putU16 (n : ℕ) (x : UInt16) (rest : Bytes) :
    (putU16 x ++ rest).drop (n + 2) = rest.drop n := drop_add_of_length (length_putU16 x) n rest

@[simp] lemma drop_putU32 (n : ℕ) (x : UInt32) (rest : Bytes) :
    (putU32 x ++ rest).drop (n + 4) = rest.drop n := drop_add_of_length (length_putU32 x) n rest

@[simp] lemma drop_putU64 (n : ℕ) (x : UInt64) (rest : Bytes) :
    (putU64 x ++ rest).drop (n + 8) = rest.drop n := drop_add_of_length (length_putU64 x) n rest

lemma putU64_injective : Function.Injective putU64 := by
  intro x y h
  have hx := getU64_put x []
  rw [h, getU64_put y []] at hx
  exact (congrArg Prod.fst hx).symm

end ByteCodec
