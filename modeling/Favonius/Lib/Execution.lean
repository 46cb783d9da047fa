import Mathlib.Tactic

/-!
# Executions of guarded step functions

A system is a step function that may refuse an event.  `exec` runs a list of
events, and `Along` says that every event of the list met a condition in the
state in which it was taken.  Invariants are proved for one step and carried
over a whole execution by the rules below.
-/

namespace Execution

variable {σ ε : Type*} {step : σ → ε → Option σ}

lemma guard_eq_some {p : Prop} [Decidable p] {s t : σ}
    (h : (if p then some s else none) = some t) : p ∧ t = s := by
  obtain ⟨hp, heq⟩ := Option.ite_none_right_eq_some.mp h
  exact ⟨hp, (Option.some.inj heq).symm⟩

/-- Take the events in order; `none` when one of them is refused. -/
def exec (step : σ → ε → Option σ) : σ → List ε → Option σ
  | s, [] => some s
  | s, e :: es => (step s e).bind fun t => exec step t es

@[simp] lemma exec_nil (s : σ) : exec step s [] = some s := rfl

variable {e : ε} {es : List ε}

lemma exec_cons_eq_some {s t : σ} :
    exec step s (e :: es) = some t ↔ ∃ u, step s e = some u ∧ exec step u es = some t := by
  simp [exec, Option.bind_eq_some_iff]

lemma exec_append (s : σ) (es fs : List ε) :
    exec step s (es ++ fs) = (exec step s es).bind fun t => exec step t fs := by
  induction es generalizing s with
  | nil => rfl
  | cons e es ih =>
    cases h : step s e with
    | none => simp [exec, h]
    | some t => simpa [exec, h] using ih t

lemma exec_append_of {s t u : σ} {fs : List ε} (hes : exec step s es = some t)
    (hfs : exec step t fs = some u) : exec step s (es ++ fs) = some u := by
  rw [exec_append, hes]
  exact hfs

lemma exec_concat_eq_some {s t : σ} :
    exec step s (es ++ [e]) = some t ↔ ∃ u, exec step s es = some u ∧ step u e = some t := by
  rw [exec_append, Option.bind_eq_some_iff]
  simp [exec]

/-- Every event meets `ok` in the state in which it is taken. -/
def Along (step : σ → ε → Option σ) (ok : σ → ε → Prop) : σ → List ε → Prop
  | _, [] => True
  | s, e :: es => ok s e ∧ ∀ t, step s e = some t → Along step ok t es

variable {ok : σ → ε → Prop}

@[simp] lemma along_nil (s : σ) : Along step ok s [] := trivial

lemma along_cons {s : σ} :
    Along step ok s (e :: es) ↔ ok s e ∧ ∀ t, step s e = some t → Along step ok t es :=
  Iff.rfl

instance decidableAlong [∀ s e, Decidable (ok s e)] :
    ∀ (s : σ) (es : List ε), Decidable (Along step ok s es)
  | _, [] => .isTrue trivial
  | s, e :: es =>
    match hstep : step s e with
    | none => decidable_of_iff (ok s e) ⟨fun h => ⟨h, by simp [hstep]⟩, And.left⟩
    | some t =>
      have := decidableAlong t es
      decidable_of_iff (ok s e ∧ Along step ok t es) <| by
        rw [along_cons, hstep]
        simp

lemma along_true : ∀ (s : σ) (es : List ε), Along step (fun _ _ => True) s es
  | _, [] => trivial
  | _, _ :: es => ⟨trivial, fun t _ => along_true t es⟩

lemma along_append {s : σ} {fs : List ε} :
    Along step ok s (es ++ fs) ↔
      Along step ok s es ∧ ∀ t, exec step s es = some t → Along step ok t fs := by
  induction es generalizing s with
  | nil => simp
  | cons e es ih =>
    simp only [List.cons_append, along_cons, ih, exec_cons_eq_some]
    constructor
    · rintro ⟨he, hrest⟩
      refine ⟨⟨he, fun t ht => (hrest t ht).1⟩, ?_⟩
      rintro t ⟨u, hu, hut⟩
      exact (hrest u hu).2 t hut
    · rintro ⟨⟨he, hes⟩, hfs⟩
      exact ⟨he, fun t ht => ⟨hes t ht, fun u hu => hfs u ⟨t, ht, hu⟩⟩⟩

lemma along_concat {s t : σ} (hes : exec step s es = some t) :
    Along step ok s (es ++ [e]) ↔ Along step ok s es ∧ ok t e := by
  rw [along_append, hes]
  simp [along_cons]

lemma Along.invariant {P : σ → Prop} (hstep : ∀ s e t, P s → ok s e → step s e = some t → P t)
    {s t : σ} (halong : Along step ok s es) (hs : P s) (hrun : exec step s es = some t) : P t := by
  induction es generalizing s with
  | nil =>
    have hst : s = t := by simpa using hrun
    exact hst ▸ hs
  | cons e es ih =>
    obtain ⟨u, hu, hrest⟩ := exec_cons_eq_some.mp hrun
    exact ih (halong.2 u hu) (hstep s e u hs halong.1 hu) hrest

/-- A property of states that one step keeps holds at the end of every
execution from a state that has it. -/
theorem exec_invariant {P : σ → Prop} (hstep : ∀ s e t, P s → step s e = some t → P t) {s t : σ}
    (hs : P s) (hrun : exec step s es = some t) : P t :=
  (along_true s es).invariant (fun s e t hs _ => hstep s e t hs) hs hrun

/-- Some execution whose steps all meet `ok` leads from one state to the other. -/
def Reaches (step : σ → ε → Option σ) (ok : σ → ε → Prop) (s t : σ) : Prop :=
  ∃ es, exec step s es = some t ∧ Along step ok s es

lemma Reaches.refl (s : σ) : Reaches step ok s s := ⟨[], rfl, trivial⟩

lemma Reaches.concat {s t u : σ} (h : Reaches step ok s t) (e : ε) (hok : ok t e)
    (hstep : step t e = some u) : Reaches step ok s u := by
  obtain ⟨es, hes, halong⟩ := h
  exact ⟨es ++ [e], exec_concat_eq_some.mpr ⟨t, hes, hstep⟩, (along_concat hes).mpr ⟨halong, hok⟩⟩

/-- An execution carries over to a system that takes the same steps. -/
theorem Reaches.lift {τ η : Type*} {step' : τ → η → Option τ} {ok' : τ → η → Prop} (f : σ → τ)
    (g : ε → η) (hstep : ∀ s e t, step s e = some t → step' (f s) (g e) = some (f t))
    (hok : ∀ s e, ok s e → ok' (f s) (g e)) {s t : σ} (h : Reaches step ok s t) :
    Reaches step' ok' (f s) (f t) := by
  obtain ⟨es, hes, halong⟩ := h
  induction es using List.reverseRecOn generalizing t with
  | nil =>
    cases hes
    exact .refl (f s)
  | append_singleton es e ih =>
    obtain ⟨u, hu, hut⟩ := exec_concat_eq_some.mp hes
    obtain ⟨halong, hlast⟩ := (along_concat hu).mp halong
    exact (ih hu halong).concat (g e) (hok u e hlast) (hstep u e t hut)

def collect {α : Type*} (step : σ → ε → Option σ) (observe : σ → ε → List α) : σ → List ε → List α
  | _, [] => []
  | s, e :: es =>
    match step s e with
    | none => []
    | some t => observe s e ++ collect step observe t es

/-- What an invariant gives for the observations of one step holds for all of them. -/
theorem Along.forall_mem_collect {α : Type*} {observe : σ → ε → List α} {P : σ → Prop}
    {Q : α → Prop} (hstep : ∀ s e t, P s → ok s e → step s e = some t → P t)
    (hobserve : ∀ s e t, P s → step s e = some t → ∀ x ∈ observe s e, Q x) {s : σ} (hs : P s)
    (halong : Along step ok s es) : ∀ x ∈ collect step observe s es, Q x := by
  induction es generalizing s with
  | nil => simp [collect]
  | cons e es ih =>
    intro x hx
    unfold collect at hx
    split at hx
    · cases hx
    · rename_i t ht
      rcases List.mem_append.mp hx with hx | hx
      · exact hobserve s e t hs ht x hx
      · exact ih (hstep s e t hs halong.1 ht) (halong.2 t ht) x hx

lemma forall_mem_collect {α : Type*} {observe : σ → ε → List α} {P : σ → Prop} {Q : α → Prop}
    (hstep : ∀ s e t, P s → step s e = some t → P t)
    (hobserve : ∀ s e t, P s → step s e = some t → ∀ x ∈ observe s e, Q x)
    {s : σ} (hs : P s) (es : List ε) : ∀ x ∈ collect step observe s es, Q x :=
  (along_true s es).forall_mem_collect (fun s e t hs _ => hstep s e t hs) hobserve hs

/-- What no iteration of a loop changes, the loop does not change. -/
theorem foldl_frame {σ ι α : Type*} {body : σ → ι → σ} (g : σ → α)
    (h : ∀ s i, g (body s i) = g s) (is : List ι) (s : σ) : g (is.foldl body s) = g s := by
  induction is generalizing s with
  | nil => rfl
  | cons i is ih => rw [List.foldl_cons, ih, h]

/-- If each iteration is a sequence of moves, so is the loop. -/
theorem foldl_moves {σ ι τ : Type*} {R : τ → τ → Prop} {body : σ → ι → σ} (g : σ → τ)
    (h : ∀ s i, Relation.ReflTransGen R (g s) (g (body s i))) (is : List ι) (s : σ) :
    Relation.ReflTransGen R (g s) (g (is.foldl body s)) := by
  induction is generalizing s with
  | nil => exact .refl
  | cons i is ih =>
    exact (h s i).trans (ih (body s i))

/-- An invariant of the moves holds wherever they lead. -/
theorem moves_invariant {τ : Type*} {R : τ → τ → Prop} {P : τ → Prop}
    (hmove : ∀ a b, P a → R a b → P b) {a b : τ} (h : Relation.ReflTransGen R a b) (ha : P a) :
    P b := by
  induction h with
  | refl => exact ha
  | tail _ hbc ih => exact hmove _ _ ih hbc

end Execution
