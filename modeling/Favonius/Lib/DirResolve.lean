import Favonius.Lib.DirTree

/-!
# Resolving a path in parts

A walk of a directory tree that also says how many links may still be followed.  A path is
walked in parts, the later part with the links the earlier one has left; more links change
nothing but a walk that ran out of them.
-/

namespace DirTree

open List

namespace Fs

variable {N μ : Type*} (t : Fs N μ)

/-- `walkWith`, and the number of links left at the end. -/
def countWith (left : ℕ) (next : List N → List (Segment N) → Except Errno (List N × ℕ)) :
    List N → List (Segment N) → Except Errno (List N × ℕ)
  | loc, [] => .ok (loc, left)
  | loc, .cur :: rest => if t.isDirAt loc then countWith left next loc rest else .error .notDir
  | loc, .up :: rest =>
    if t.isDirAt loc then countWith left next loc.dropLast rest else .error .notDir
  | loc, .name n :: rest =>
    if t.isDirAt loc then
      match t.node (loc ++ [n]) with
      | none => .error .notFound
      | some (.link target) => next (if target.absolute then [] else loc) (target.body ++ rest)
      | some _ => countWith left next (loc ++ [n]) rest
    else .error .notDir

def count : ℕ → List N → List (Segment N) → Except Errno (List N × ℕ)
  | 0 => t.countWith 0 fun _ _ => .error .loop
  | links + 1 => t.countWith (links + 1) (count links)

def resume (rest : List (Segment N)) : Except Errno (List N × ℕ) → Except Errno (List N)
  | .error e => .error e
  | .ok (loc, left) => t.walk false left loc rest

variable {t} {links left : ℕ} {loc r : List N} {segs rest : List (Segment N)}
  {next : List N → List (Segment N) → Except Errno (List N)} {start path : List N}

lemma walkWith_append {next' : List N → List (Segment N) → Except Errno (List N × ℕ)}
    (hend : t.walk false left = t.walkWith false next)
    (hnext : ∀ loc segs, next loc (segs ++ rest) = t.resume rest (next' loc segs)) (loc : List N)
    (segs : List (Segment N)) :
    t.walkWith false next loc (segs ++ rest) = t.resume rest (t.countWith left next' loc segs) := by
  induction segs generalizing loc with
  | nil =>
    rw [nil_append, countWith, resume, hend]
  | cons seg segs ih =>
    cases seg with
    | cur =>
      rw [cons_append, walkWith, countWith]
      split
      · exact ih loc
      · rfl
    | up =>
      rw [cons_append, walkWith, countWith]
      split
      · exact ih loc.dropLast
      · rfl
    | name n =>
      rw [cons_append, walkWith, countWith]
      split
      · cases t.node (loc ++ [n]) with
        | none => rfl
        | some x =>
          cases x with
          | link target =>
            dsimp only
            rw [← append_assoc]
            exact hnext _ _
          | dir | file | special => exact ih (loc ++ [n])
      · rfl

lemma walk_append (links : ℕ) (loc : List N) (segs rest : List (Segment N)) :
    t.walk false links loc (segs ++ rest) = t.resume rest (t.count links loc segs) := by
  induction links generalizing loc segs with
  | zero => exact walkWith_append rfl (fun _ _ => rfl) loc segs
  | succ links ih => exact walkWith_append rfl ih loc segs

lemma walk_eq_count (links : ℕ) (loc : List N) (segs : List (Segment N)) :
    t.walk false links loc segs = (t.count links loc segs).map Prod.fst := by
  have happend := t.walk_append links loc segs []
  rw [append_nil] at happend
  rw [happend]
  cases t.count links loc segs with
  | error e => rfl
  | ok p =>
    obtain ⟨next, hnext⟩ := t.exists_walk_eq false p.2
    rw [resume, hnext]
    rfl

variable {e : Errno}

lemma count_error (h : t.walk false links loc segs = .error e) :
    t.count links loc segs = .error e := by
  rw [walk_eq_count] at h
  cases hcount : t.count links loc segs with
  | error e' =>
    rw [hcount] at h
    cases h
    rfl
  | ok p =>
    rw [hcount] at h
    cases h

lemma walk_append_error (h : t.walk false links loc segs = .error e) (rest : List (Segment N)) :
    t.walk false links loc (segs ++ rest) = .error e := by
  rw [walk_append, count_error h, resume]

end Fs

end DirTree
