import Favonius.Proto.Packet

/-!
# TLV records

The decoder of one record takes what it has read off the cursor, the header also when the value
is cut off.  `decode_tlvs` stops at its first error; the iterator goes on from the cursor.
-/

namespace Favonius.Proto

open ByteCodec

def tlvHeaderSize : ℕ := 4

structure Tlv where
  tlvType : UInt16
  value : Bytes
  deriving DecidableEq

namespace Tlv

def encode (t : Tlv) : Bytes :=
  putU16 t.tlvType ++ (putU16 (UInt16.ofNat t.value.length) ++ t.value)

/-- With the cursor afterwards; the error is the text of `InvalidTlv`. -/
def decode (src : Bytes) : Except String Tlv × Bytes :=
  if src.length < tlvHeaderSize then
    (.error s!"buffer too short for TLV header: need {tlvHeaderSize}, have {src.length}", src)
  else
    let (tlvType, src) := getU16 src
    let (len, src) := getU16 src
    if src.length < len.toNat then
      (.error (s!"TLV 0x{hex04 tlvType.toNat} declares length {len} but only " ++
        s!"{src.length} bytes remain"), src)
    else (.ok ⟨tlvType, src.take len.toNat⟩, src.drop len.toNat)

def Fits (t : Tlv) : Prop := t.value.length ≤ 65535

lemma decode_header (tlvType len : UInt16) (rest : Bytes) :
    decode (putU16 tlvType ++ (putU16 len ++ rest)) =
      if rest.length < len.toNat then
        (.error (s!"TLV 0x{hex04 tlvType.toNat} declares length {len} but only " ++
          s!"{rest.length} bytes remain"), rest)
      else (.ok ⟨tlvType, rest.take len.toNat⟩, rest.drop len.toNat) := by
  rw [decode, if_neg (by simp [tlvHeaderSize]; omega)]
  simp only [getU16_put]

variable {src : Bytes} {t : Tlv}

lemma exists_header (h : tlvHeaderSize ≤ src.length) :
    ∃ tlvType len rest, src = putU16 tlvType ++ (putU16 len ++ rest) := by
  have hlen : 2 ≤ (getU16 src).2.length := by
    rw [getU16, List.length_drop]
    exact Nat.le_sub_of_add_le h
  refine ⟨(getU16 src).1, (getU16 (getU16 src).2).1, (getU16 (getU16 src).2).2, ?_⟩
  rw [putU16_append_getU16 hlen, putU16_append_getU16 (le_trans (by decide) h)]

lemma decode_encode_append (h : t.Fits) (rest : Bytes) :
    decode (t.encode ++ rest) = (.ok t, rest) := by
  have hlen : (UInt16.ofNat t.value.length).toNat = t.value.length :=
    UInt16.toNat_ofNat_of_lt' (Nat.lt_succ_of_le h)
  rw [encode, List.append_assoc, List.append_assoc, decode_header, hlen, if_neg (by simp),
    List.take_left, List.drop_left]

lemma eq_encode_of_decode {rest : Bytes} (h : decode src = (.ok t, rest)) :
    t.Fits ∧ src = t.encode ++ rest := by
  have hlong : tlvHeaderSize ≤ src.length := by
    by_contra hshort
    rw [decode, if_pos (not_le.mp hshort)] at h
    cases h
  obtain ⟨tlvType, len, body, rfl⟩ := exists_header hlong
  rw [decode_header] at h
  split at h
  · cases h
  rename_i hvalue
  cases h
  have htake := List.length_take_of_le (not_lt.mp hvalue)
  refine ⟨?_, ?_⟩
  · rw [Fits, htake]
    exact Nat.le_of_lt_succ len.toNat_lt
  · rw [encode, htake, UInt16.ofNat_toNat, List.append_assoc, List.append_assoc,
      List.take_append_drop]

/-- An error that leaves nothing behind is about the length in a header. -/
theorem eq_header_of_decode {e : String} (hne : src ≠ []) (h : decode src = (.error e, [])) :
    ∃ tlvType len, len ≠ 0 ∧ src = putU16 tlvType ++ putU16 len := by
  by_cases hlong : tlvHeaderSize ≤ src.length
  · obtain ⟨tlvType, len, rest, rfl⟩ := exists_header hlong
    rw [decode_header] at h
    split at h
    · rename_i hcut
      obtain ⟨-, rfl⟩ := Prod.mk.inj h
      refine ⟨tlvType, len, ?_, by rw [List.append_nil]⟩
      rintro rfl
      exact Nat.not_lt_zero _ hcut
    · cases h
  · rw [decode, if_pos (not_le.mp hlong)] at h
    exact absurd (Prod.mk.inj h).2 hne

lemma decode_lone_header (tlvType : UInt16) {len : UInt16} (h : len ≠ 0) :
    ∃ e, decode (putU16 tlvType ++ putU16 len) = (.error e, []) := by
  have hpos : 0 < len.toNat := Nat.pos_of_ne_zero fun hzero => h (UInt16.toNat_inj.mp hzero)
  rw [← List.append_nil (putU16 len), decode_header, if_pos (by exact hpos)]
  exact ⟨_, rfl⟩

lemma length_encode_pos (t : Tlv) : 0 < t.encode.length := by
  simp [encode]

end Tlv

def encodeTlvs (tlvs : List Tlv) : Bytes := tlvs.flatMap Tlv.encode

def decodeTlvs (src : Bytes) : Except String (List Tlv) :=
  if src = [] then .ok []
  else
    match _h : Tlv.decode src with
    | (.error e, _) => .error e
    | (.ok t, rest) => (decodeTlvs rest).map (t :: ·)
termination_by src.length
decreasing_by
  rw [(Tlv.eq_encode_of_decode _h).2, List.length_append]
  exact Nat.lt_add_of_pos_left t.length_encode_pos

lemma decodeTlvs_encode_append {t : Tlv} (h : t.Fits) (rest : Bytes) :
    decodeTlvs (t.encode ++ rest) = (decodeTlvs rest).map (t :: ·) := by
  have hne : t.encode ++ rest ≠ [] := by
    rw [← List.length_pos_iff, List.length_append]
    exact Nat.add_pos_left t.length_encode_pos _
  have hdecode := Tlv.decode_encode_append h rest
  rw [decodeTlvs, if_neg hne]
  split <;> simp_all

variable {tlvs : List Tlv} {src : Bytes} {tail : Bytes} {items : List (Except String Tlv)}

lemma decodeTlvs_append (h : ∀ t ∈ tlvs, t.Fits) (rest : Bytes) :
    decodeTlvs (encodeTlvs tlvs ++ rest) = (decodeTlvs rest).map (tlvs ++ ·) := by
  induction tlvs with
  | nil => cases hrest : decodeTlvs rest <;> simp [encodeTlvs, hrest, Except.map]
  | cons t tlvs ih =>
    obtain ⟨ht, htlvs⟩ := List.forall_mem_cons.mp h
    rw [encodeTlvs, List.flatMap_cons, List.append_assoc, decodeTlvs_encode_append ht,
      ← encodeTlvs, ih htlvs]
    cases decodeTlvs rest <;> rfl

lemma decodeTlvs_encodeTlvs (h : ∀ t ∈ tlvs, t.Fits) :
    decodeTlvs (encodeTlvs tlvs) = .ok tlvs := by
  have hnil : decodeTlvs [] = .ok [] := by rw [decodeTlvs, if_pos rfl]
  rw [← List.append_nil (encodeTlvs tlvs), decodeTlvs_append h, hnil]
  exact congrArg Except.ok (List.append_nil tlvs)

def tlvNext (remaining : Bytes) : Option (Except String Tlv × Bytes) :=
  if remaining = [] then none else some (Tlv.decode remaining)

def Yields : Bytes → List (Except String Tlv) → Prop
  | remaining, [] => tlvNext remaining = none
  | remaining, item :: items => ∃ rest, tlvNext remaining = some (item, rest) ∧ Yields rest items

/-- Iteration ends, with the records of `decode_tlvs`, or with those before the malformed one and
its error. -/
def IteratesAs (src : Bytes) : Prop :=
  ∃ items, Yields src items ∧
    ((∃ tlvs, decodeTlvs src = .ok tlvs ∧ items = tlvs.map .ok) ∨
      ∃ tlvs tail e, decodeTlvs src = .error e ∧ src = encodeTlvs tlvs ++ tail ∧
        (Tlv.decode tail).1 = .error e ∧ items = tlvs.map .ok ++ [.error e])

/-- Whole records, and behind them nothing or the header of one whose value is missing. -/
def WellCut (src : Bytes) : Prop :=
  ∃ tlvs tail, (∀ t ∈ tlvs, t.Fits) ∧ src = encodeTlvs tlvs ++ tail ∧
    (tail = [] ∨ ∃ tlvType len, len ≠ 0 ∧ tail = putU16 tlvType ++ putU16 len)

lemma tlvNext_of_ne (h : src ≠ []) : tlvNext src = some (Tlv.decode src) :=
  if_neg h

lemma yields_append (h : ∀ t ∈ tlvs, t.Fits) (htail : Yields tail items) :
    Yields (encodeTlvs tlvs ++ tail) (tlvs.map .ok ++ items) := by
  induction tlvs with
  | nil => exact htail
  | cons t tlvs ih =>
    obtain ⟨ht, htlvs⟩ := List.forall_mem_cons.mp h
    refine ⟨encodeTlvs tlvs ++ tail, ?_, ih htlvs⟩
    rw [encodeTlvs, List.flatMap_cons, List.append_assoc, ← encodeTlvs, tlvNext_of_ne,
      Tlv.decode_encode_append ht]
    rw [← List.length_pos_iff, List.length_append]
    exact Nat.add_pos_left t.length_encode_pos _

lemma exists_tail_of_yields (h : Yields src (tlvs.map .ok ++ items)) :
    ∃ tail, (∀ t ∈ tlvs, t.Fits) ∧ src = encodeTlvs tlvs ++ tail ∧ Yields tail items := by
  induction tlvs generalizing src with
  | nil => exact ⟨src, List.forall_mem_nil _, rfl, h⟩
  | cons t tlvs ih =>
    obtain ⟨rest, hnext, hrest⟩ := h
    unfold tlvNext at hnext
    split at hnext
    · cases hnext
    obtain ⟨hfits, hsrc⟩ := Tlv.eq_encode_of_decode (Option.some.inj hnext)
    obtain ⟨tail, htlvs, rfl, htail⟩ := ih hrest
    refine ⟨tail, List.forall_mem_cons.mpr ⟨hfits, htlvs⟩, ?_, htail⟩
    rw [hsrc, encodeTlvs, encodeTlvs, List.flatMap_cons, List.append_assoc]

lemma tail_of_yields :
    (Yields tail [] → tail = []) ∧ ∀ e, Yields tail [.error e] →
      ∃ tlvType len, len ≠ 0 ∧ tail = putU16 tlvType ++ putU16 len := by
  have hnil : ∀ rest, tlvNext rest = none → rest = [] := by
    intro rest h
    by_contra hne
    rw [tlvNext_of_ne hne] at h
    cases h
  refine ⟨hnil tail, ?_⟩
  rintro e ⟨rest, hnext, hend⟩
  unfold tlvNext at hnext
  split at hnext
  · cases hnext
  rename_i hne
  rw [hnil rest hend] at hnext
  exact Tlv.eq_header_of_decode hne (Option.some.inj hnext)

lemma iteratesAs_of_wellCut (h : WellCut src) : IteratesAs src := by
  obtain ⟨tlvs, tail, hfits, rfl, htail⟩ := h
  rcases htail with rfl | ⟨tlvType, len, hlen, rfl⟩
  · have hyields := yields_append hfits (show Yields [] [] from rfl)
    rw [List.append_nil, List.append_nil] at hyields
    rw [List.append_nil]
    exact ⟨_, hyields, .inl ⟨tlvs, decodeTlvs_encodeTlvs hfits, rfl⟩⟩
  · obtain ⟨e, he⟩ := Tlv.decode_lone_header tlvType hlen
    have hne : putU16 tlvType ++ putU16 len ≠ [] := by
      rw [← List.length_pos_iff]
      simp
    have hstop : decodeTlvs (putU16 tlvType ++ putU16 len) = .error e := by
      rw [decodeTlvs, if_neg hne]
      split <;> simp_all
    have hlast : Yields (putU16 tlvType ++ putU16 len) [.error e] :=
      ⟨[], by rw [tlvNext_of_ne hne, he], rfl⟩
    refine ⟨_, yields_append hfits hlast, .inr ⟨tlvs, _, e, ?_, rfl, ?_, rfl⟩⟩
    · rw [decodeTlvs_append hfits, hstop]
      rfl
    · rw [he]

/-- The iterator agrees with `decode_tlvs` exactly if the bytes are whole records, with nothing
behind them or the header of one whose value is missing; and `decode_tlvs` reads back every list
of records that fit. -/
theorem tlv_iteration_iff (src : Bytes) (tlvs : List Tlv) : (IteratesAs src ↔ WellCut src) ∧
    ((∀ t ∈ tlvs, t.value.length ≤ 65535) → decodeTlvs (encodeTlvs tlvs) = .ok tlvs) := by
  refine ⟨⟨?_, iteratesAs_of_wellCut⟩, fun hfits => decodeTlvs_encodeTlvs hfits⟩
  rintro ⟨items, hyields, ⟨tlvs, -, rfl⟩ | ⟨tlvs, -, e, -, -, -, rfl⟩⟩
  · rw [← List.append_nil (tlvs.map _)] at hyields
    obtain ⟨tail, hfits, rfl, htail⟩ := exists_tail_of_yields hyields
    exact ⟨tlvs, tail, hfits, rfl, .inl (tail_of_yields.1 htail)⟩
  · obtain ⟨tail, hfits, rfl, htail⟩ := exists_tail_of_yields hyields
    exact ⟨tlvs, tail, hfits, rfl, .inr (tail_of_yields.2 e htail)⟩

/-- A cut record is reported again and again. -/
theorem iteration_never_ends : ¬IteratesAs [0] := by
  have hnever : ∀ items, ¬Yields [0] items := by
    intro items
    induction items with
    | nil => exact nofun
    | cons item items ih =>
      rintro ⟨rest, hnext, hrest⟩
      cases hnext
      exact ih hrest
  rintro ⟨items, hyields, -⟩
  exact hnever items hyields

end Favonius.Proto
