import Favonius.Client.FsTree
import Favonius.Lib.Pieces

/-!
# What a glob pattern means

The meaning of a pattern is a cut of the text into pieces, one for each item, where `**/` is one
item: no directory or any number of them.  The matcher fills a table with a row for each token.  It
takes `**/` for any run of bytes, as if it were `**`; that makes no difference where `*` or `**`
comes next, also after some `?`.
-/

namespace Favonius.Client.FsTree

open ByteCodec Pieces Crypto List

inductive Item where
  | one (t : Tok)
  | dirs

def items : List Tok → List Item
  | [] => []
  | .doubleStar :: .lit c :: toks =>
    if c = slash then .dirs :: items toks else .one .doubleStar :: items (.lit c :: toks)
  | t :: toks => .one t :: items toks

def Item.Fits : Item → Bytes → Prop
  | .one (.lit c), piece => piece = [c]
  | .one .any, piece => ∃ b, piece = [b] ∧ b ≠ slash
  | .one (.cls negate ranges), piece =>
    ∃ b, piece = [b] ∧ ((∃ r ∈ ranges, r.1 ≤ b ∧ b ≤ r.2) ↔ negate = false) ∧ b ≠ slash
  | .one .star, piece => slash ∉ piece
  | .one .doubleStar, _ => True
  | .dirs, piece => piece = [] ∨ piece.getLast? = some slash

def PathMatch (toks : List Tok) (text : Bytes) : Prop := Splits Item.Fits (items toks) text

variable {t : Tok} {piece : Bytes} {pattern : List Item}

lemma Item.fits_one : (Item.one t).Fits piece ↔
    if t.repeats then ∀ b ∈ piece, t.takes b = true
    else ∃ b, piece = [b] ∧ t.takes b = true := by
  cases t with
  | lit | any | doubleStar => simp [Fits, Tok.repeats, Tok.takes]
  | star =>
    simp only [Fits, Tok.repeats, Tok.takes, if_true, bne_iff_ne]
    exact forall_mem_ne'.symm
  | cls negate ranges =>
    simp only [Fits, Tok.repeats, Tok.takes, Bool.and_eq_true, bne_iff_ne]
    refine exists_congr fun b => and_congr_right fun _ => and_congr_left fun _ => ?_
    cases negate <;> simp

def cell (t : Tok) (skip below : Bytes → Bool) : Bytes → Bool
  | [] => t.repeats && below [] || skip []
  | b :: text =>
    (if t.repeats then below (b :: text) || t.takes b && cell t skip below text
      else t.takes b && below text) || skip (b :: text)

lemma fillRow_suffixRow (t : Tok) (skip below : Bytes → Bool) (text : Bytes) :
    fillRow t skip text (suffixRow below text) = suffixRow (cell t skip below) text := by
  induction text with
  | nil => rfl
  | cons b text ih =>
    simp only [fillRow, suffixRow, tail_cons, headD_cons, ih, headD_suffixRow, cell]

lemma globRow_nil (text : Bytes) : globRow [] text = suffixRow isEmpty text := by
  induction text with
  | nil => rfl
  | cons b text ih =>
    rw [globRow] at ih ⊢
    rw [length_cons, replicate_succ, cons_append, ih]
    rfl

def StartsDirs (toks : List Tok) : Prop := ∃ rest, toks = .doubleStar :: .lit slash :: rest

lemma not_startsDirs_lit (c : UInt8) (toks : List Tok) : ¬StartsDirs (.lit c :: toks) := by
  rintro ⟨rest, heq⟩
  cases heq

@[elab_as_elim]
lemma toks_induction {motive : List Tok → Prop} (nil : motive [])
    (dirs : ∀ toks, motive toks → motive (.doubleStar :: .lit slash :: toks))
    (cons : ∀ t toks, ¬StartsDirs (t :: toks) → motive toks → motive (t :: toks))
    (toks : List Tok) : motive toks := by
  induction toks using items.induct with
  | case1 => exact nil
  | case2 toks ih => exact dirs toks ih
  | case3 c toks hne ih =>
    refine cons _ _ ?_ ih
    rintro ⟨rest, heq⟩
    cases heq
    exact hne rfl
  | case4 t toks hpair ih =>
    refine cons _ _ ?_ ih
    rintro ⟨rest, heq⟩
    cases heq
    exact hpair _ _ rfl rfl

variable {toks : List Tok}

lemma globRow_cons (h : ¬StartsDirs (t :: toks)) (text : Bytes) :
    globRow (t :: toks) text = fillRow t (fun _ => false) text (globRow toks text) := by
  rw [globRow.eq_def]
  split
  · rename_i heq
    cases heq
  · rename_i c rest heq
    cases heq
    have hne : (c == slash) = false := by
      rw [beq_eq_false_iff_ne]
      rintro rfl
      exact h ⟨rest, rfl⟩
    simp only [hne, Bool.false_and]
  · rename_i heq
    cases heq
    rfl

lemma globRow_eq (toks : List Tok) (text : Bytes) :
    globRow toks text = suffixRow (globToks toks) text := by
  suffices hrow : ∃ f, ∀ text, globRow toks text = suffixRow f text by
    obtain ⟨f, hf⟩ := hrow
    have hglob : globToks toks = f := by
      funext text
      rw [globToks, hf, headD_suffixRow]
    rw [hglob, hf]
  induction toks using toks_induction with
  | nil => exact ⟨isEmpty, globRow_nil⟩
  | dirs toks ih =>
    obtain ⟨f, hf⟩ := ih
    refine ⟨cell .doubleStar (fun rest => slash == slash && (globRow toks rest).headD false)
      (cell (.lit slash) (fun _ => false) f), fun text => ?_⟩
    rw [globRow, globRow_cons (not_startsDirs_lit slash toks), hf, fillRow_suffixRow,
      fillRow_suffixRow]
  | cons t toks h ih =>
    obtain ⟨f, hf⟩ := ih
    refine ⟨cell t (fun _ => false) f, fun text => ?_⟩
    rw [globRow_cons h, hf, fillRow_suffixRow]

variable {text : Bytes}

lemma globToks_nil : globToks [] text = true ↔ text = [] := by
  rw [globToks, globRow_nil, headD_suffixRow, List.isEmpty_iff]

lemma globToks_eq_cell (h : ¬StartsDirs (t :: toks)) (text : Bytes) :
    globToks (t :: toks) text = cell t (fun _ => false) (globToks toks) text := by
  rw [globToks, globRow_cons h, globRow_eq, fillRow_suffixRow, headD_suffixRow]

lemma globToks_dirs_eq_cell (toks : List Tok) (text : Bytes) :
    globToks (.doubleStar :: .lit slash :: toks) text =
      cell .doubleStar (globToks toks) (globToks (.lit slash :: toks)) text := by
  rw [globToks, globRow, globRow_eq, fillRow_suffixRow, headD_suffixRow]
  rfl

lemma cell_of_repeats (ht : t.repeats = true) {skip below : Bytes → Bool} :
    cell t skip below text = true ↔
      ∃ run rest, text = run ++ rest ∧ (∀ b ∈ run, t.takes b = true) ∧
        (below rest = true ∨ skip rest = true) := by
  induction text with
  | nil =>
    rw [cell, ht, Bool.true_and, Bool.or_eq_true]
    constructor
    · intro h
      exact ⟨[], [], rfl, forall_mem_nil _, h⟩
    · rintro ⟨run, rest, heq, -, h⟩
      obtain ⟨rfl, rfl⟩ := append_eq_nil_iff.mp heq.symm
      exact h
  | cons b text ih =>
    rw [cell, if_pos ht, Bool.or_eq_true, Bool.or_eq_true, Bool.and_eq_true, ih]
    constructor
    · rintro ((h | ⟨hb, run, rest, rfl, hrun, h⟩) | h)
      · exact ⟨[], b :: text, rfl, forall_mem_nil _, .inl h⟩
      · exact ⟨b :: run, rest, rfl, forall_mem_cons.mpr ⟨hb, hrun⟩, h⟩
      · exact ⟨[], b :: text, rfl, forall_mem_nil _, .inr h⟩
    · rintro ⟨run, rest, heq, hrun, h⟩
      cases run with
      | nil =>
        rw [nil_append] at heq
        subst heq
        rcases h with h | h
        · exact .inl (.inl h)
        · exact .inr h
      | cons a run =>
        rw [cons_append, cons.injEq] at heq
        obtain ⟨rfl, rfl⟩ := heq
        obtain ⟨hb, hrun⟩ := forall_mem_cons.mp hrun
        exact .inl (.inr ⟨hb, run, rest, rfl, hrun, h⟩)

lemma cell_of_single (ht : t.repeats = false) {below : Bytes → Bool} :
    cell t (fun _ => false) below text = true ↔
      ∃ b rest, text = b :: rest ∧ t.takes b = true ∧ below rest = true := by
  cases text with
  | nil | cons => simp [cell, ht]

/-- The pattern with `**` in the place of every `**/`. -/
def loosened : List Item → List Item
  | [] => []
  | .one t :: rest => .one t :: loosened rest
  | .dirs :: rest => .one .doubleStar :: loosened rest

lemma globToks_cons (h : ¬StartsDirs (t :: toks)) :
    globToks (t :: toks) text = true ↔
      ∃ piece rest, text = piece ++ rest ∧ (Item.one t).Fits piece ∧ globToks toks rest = true := by
  rw [globToks_eq_cell h]
  cases ht : t.repeats with
  | true =>
    rw [cell_of_repeats ht]
    refine exists_congr fun run => exists_congr fun rest => and_congr_right fun _ => ?_
    rw [Item.fits_one, if_pos ht, or_iff_left Bool.false_ne_true]
  | false =>
    rw [cell_of_single ht]
    constructor
    · rintro ⟨b, rest, rfl, hb, hrest⟩
      refine ⟨[b], rest, rfl, ?_, hrest⟩
      rw [Item.fits_one, if_neg (Bool.eq_false_iff.mp ht)]
      exact ⟨b, rfl, hb⟩
    · rintro ⟨piece, rest, rfl, hpiece, hrest⟩
      rw [Item.fits_one, if_neg (Bool.eq_false_iff.mp ht)] at hpiece
      obtain ⟨b, rfl, hb⟩ := hpiece
      exact ⟨b, rest, rfl, hb, hrest⟩

lemma globToks_dirs :
    globToks (.doubleStar :: .lit slash :: toks) text = true ↔
      ∃ run rest, text = run ++ rest ∧ globToks toks rest = true := by
  rw [globToks_dirs_eq_cell, cell_of_repeats rfl]
  constructor
  · rintro ⟨run, rest, rfl, -, hrest | hrest⟩
    · obtain ⟨piece, rest, rfl, -, hrest⟩ :=
        (globToks_cons (not_startsDirs_lit slash toks)).mp hrest
      exact ⟨run ++ piece, rest, (append_assoc run piece rest).symm, hrest⟩
    · exact ⟨run, rest, rfl, hrest⟩
  · rintro ⟨run, rest, rfl, hrest⟩
    exact ⟨run, rest, rfl, fun _ _ => rfl, .inr hrest⟩

lemma items_cons (h : ¬StartsDirs (t :: toks)) : items (t :: toks) = .one t :: items toks := by
  rw [items.eq_def]
  split
  · rename_i heq
    cases heq
  · rename_i c rest heq
    cases heq
    exact if_neg fun hc => h ⟨rest, by rw [hc]⟩
  · rename_i heq
    cases heq
    rfl

lemma items_dirs (toks : List Tok) :
    items (.doubleStar :: .lit slash :: toks) = .dirs :: items toks := by
  rw [items, if_pos rfl]

/-- The matcher decides the loosened pattern. -/
theorem globToks_iff_loosened (toks : List Tok) (text : Bytes) :
    globToks toks text = true ↔ Splits Item.Fits (loosened (items toks)) text := by
  induction toks using toks_induction generalizing text with
  | nil => rw [globToks_nil, items, loosened, splits_nil]
  | dirs toks ih =>
    rw [globToks_dirs, items_dirs, loosened, splits_cons]
    simp only [ih, Item.Fits, true_and]
  | cons t toks h ih =>
    rw [globToks_cons h, items_cons h, loosened, splits_cons]
    simp only [ih]

lemma splits_loosened (h : Splits Item.Fits pattern text) :
    Splits Item.Fits (loosened pattern) text := by
  induction pattern generalizing text with
  | nil => exact h
  | cons i pattern ih =>
    obtain ⟨piece, rest, rfl, hpiece, hrest⟩ := splits_cons.mp h
    cases i with
    | one t => exact splits_cons.mpr ⟨piece, rest, rfl, hpiece, ih hrest⟩
    | dirs => exact splits_cons.mpr ⟨piece, rest, rfl, trivial, ih hrest⟩

/-- `*` or `**` comes first, or after some `?`. -/
def absorbs : List Item → Bool
  | [] => false
  | .one t :: rest => t.repeats || t == .any && absorbs rest
  | .dirs :: rest => absorbs rest

/-- After every `**/` comes `*` or `**`, also after some `?`. -/
def guarded : List Item → Bool
  | [] => true
  | .one _ :: rest => guarded rest
  | .dirs :: rest => absorbs rest && guarded rest

/-- What absorbs takes a piece of a name in front of what it matches. -/
theorem splits_base_append {base : Bytes} (hbase : slash ∉ base) (habsorbs : absorbs pattern = true)
    (h : Splits Item.Fits pattern text) : Splits Item.Fits pattern (base ++ text) := by
  induction pattern generalizing base text with
  | nil => cases habsorbs
  | cons i pattern ih =>
    obtain ⟨piece, rest, rfl, hpiece, hrest⟩ := splits_cons.mp h
    cases i with
    | one t =>
      cases hrep : t.repeats with
      | true =>
        rw [← append_assoc]
        refine splits_cons.mpr ⟨base ++ piece, rest, rfl, ?_, hrest⟩
        rw [Item.fits_one, if_pos hrep] at hpiece ⊢
        refine forall_mem_append.mpr ⟨fun b hb => ?_, hpiece⟩
        cases t with
        | star => exact bne_iff_ne.mpr (ne_of_mem_of_not_mem hb hbase)
        | doubleStar => rfl
        | lit | any | cls => cases hrep
      | false =>
        rw [absorbs, hrep, Bool.false_or, Bool.and_eq_true, beq_iff_eq] at habsorbs
        obtain ⟨rfl, habsorbs⟩ := habsorbs
        cases base with
        | nil => exact h
        | cons c base =>
          -- The first byte of the name is the one that `?` takes; the rest moves on.
          obtain ⟨b, rfl, hb⟩ := hpiece
          obtain ⟨hc, hbase⟩ := not_or.mp (mt mem_cons.mpr hbase)
          refine splits_cons.mpr ⟨[c], base ++ [b] ++ rest, by simp, ⟨c, rfl, Ne.symm hc⟩, ?_⟩
          apply ih _ habsorbs hrest
          rw [mem_append, mem_singleton, not_or]
          exact ⟨hbase, Ne.symm hb⟩
    | dirs =>
      -- With no directory taken what follows takes the name.
      rcases hpiece with rfl | hlast
      · exact splits_cons.mpr ⟨[], base ++ rest, rfl, .inl rfl, ih hbase habsorbs hrest⟩
      · rw [← append_assoc]
        refine splits_cons.mpr ⟨base ++ piece, rest, rfl, .inr ?_, hrest⟩
        rw [getLast?_append, hlast, Option.some_or]

lemma splits_of_loosened (hg : guarded pattern = true)
    (h : Splits Item.Fits (loosened pattern) text) : Splits Item.Fits pattern text := by
  induction pattern generalizing text with
  | nil => exact h
  | cons i pattern ih =>
    cases i with
    | one t =>
      obtain ⟨piece, rest, rfl, hpiece, hrest⟩ := splits_cons.mp h
      exact splits_cons.mpr ⟨piece, rest, rfl, hpiece, ih hg hrest⟩
    | dirs =>
      obtain ⟨run, rest, rfl, -, hrest⟩ := splits_cons.mp h
      rw [guarded, Bool.and_eq_true] at hg
      -- The directories end at the last `/` of the run.
      obtain ⟨front, base, rfl, hfront, hbase⟩ := exists_append_of_last slash run
      exact splits_cons.mpr ⟨front, base ++ rest, append_assoc front base rest, hfront,
        splits_base_append hbase hg.1 (ih hg.2 hrest)⟩

/-- The matcher decides the meaning of a pattern for a text exactly if the text matches the pattern
whenever it matches the one with `**` for every `**/`.  That is so for every text where `*` or `**`
follows every `**/`, also after some `?`. -/
theorem glob_segment_exact_iff (pat text : Bytes) :
    ((globSegment pat text = true ↔ PathMatch (tokenize pat) text) ↔
      (Splits Item.Fits (loosened (items (tokenize pat))) text → PathMatch (tokenize pat) text)) ∧
    (guarded (items (tokenize pat)) = true →
      (globSegment pat text = true ↔ PathMatch (tokenize pat) text)) := by
  have hexact : (globSegment pat text = true ↔ PathMatch (tokenize pat) text) ↔
      (Splits Item.Fits (loosened (items (tokenize pat))) text →
        PathMatch (tokenize pat) text) := by
    rw [globSegment, globToks_iff_loosened]
    exact ⟨Iff.mp, fun h => ⟨h, splits_loosened⟩⟩
  exact ⟨hexact, fun hg => hexact.mpr (splits_of_loosened hg)⟩

theorem glob_segment_exact_log :
    guarded (items (tokenize (utf8 "**/?*.log"))) = true ∧
      PathMatch (tokenize (utf8 "**/?*.log")) (utf8 "a/b/x.log") ∧
      ¬PathMatch (tokenize (utf8 "**/?*.log")) (utf8 "a/b/x.txt") := by
  have hg : guarded (items (tokenize (utf8 "**/?*.log"))) = true := by decide +kernel
  refine ⟨hg, ((glob_segment_exact_iff _ _).2 hg).mp (by decide +kernel), fun h => ?_⟩
  have hfalse : globSegment (utf8 "**/?*.log") (utf8 "a/b/x.txt") = false := by decide +kernel
  rw [((glob_segment_exact_iff _ _).2 hg).mpr h] at hfalse
  cases hfalse

/-- `**/name` matches a file whose base name only ends in `name`. -/
theorem dirs_match_inside_name :
    globSegment (utf8 "**/name") (utf8 "xname") = true ∧
      ¬PathMatch (tokenize (utf8 "**/name")) (utf8 "xname") := by
  refine ⟨by decide +kernel, fun h => ?_⟩
  have htoks : tokenize (utf8 "**/name") =
      [.doubleStar, .lit slash, .lit 110, .lit 97, .lit 109, .lit 101] := by decide +kernel
  have htext : utf8 "xname" = [120] ++ [110, 97, 109, 101] := by decide +kernel
  rw [PathMatch, htoks, htext, items_dirs, splits_cons] at h
  obtain ⟨dirs, name, htext, hdirs, hname⟩ := h
  have hname : name = [110, 97, 109, 101] := by
    simpa [items, splits_cons, Item.Fits] using hname
  subst hname
  rw [append_cancel_right htext.symm] at hdirs
  revert hdirs
  simp [Item.Fits, slash]

end Favonius.Client.FsTree
