import Mathlib.Logic.Basic

/-!
# Runs of a labelled transition system

A system is a partial step function: `step s e = none` says that the event
`e` cannot happen in the state `s`.  The rules below turn what one step
preserves into what every run preserves, also for runs all of whose steps
meet a condition on the state before the step.
-/

namespace SmartBFT.Foundation

variable {σ ε : Type}

def run (step : σ → ε → Option σ) : σ → List ε → Option σ
  | s, [] => some s
  | s, e :: es =>
    match step s e with
    | none => none
    | some s' => run step s' es

/-- Every step of the run `es` from `s` is taken in a state that meets
`condition`. -/
def StepsMeet (step : σ → ε → Option σ) (condition : σ → ε → Prop) :
    σ → List ε → Prop
  | _, [] => True
  | s, e :: es =>
    condition s e ∧ ∀ s', step s e = some s' → StepsMeet step condition s' es

instance StepsMeet.decidable (step : σ → ε → Option σ) (condition : σ → ε → Prop)
    [∀ s e, Decidable (condition s e)] :
    ∀ s es, Decidable (StepsMeet step condition s es)
  | _, [] => .isTrue trivial
  | s, e :: es =>
    match hstep : step s e with
    | none => decidable_of_iff (condition s e) (by simp [StepsMeet, hstep])
    | some s' =>
      have := StepsMeet.decidable step condition s' es
      decidable_of_iff (condition s e ∧ StepsMeet step condition s' es)
        (by simp [StepsMeet, hstep])

variable {step : σ → ε → Option σ} {condition other : σ → ε → Prop} {inv : σ → Prop}
  {s s' t : σ} {e : ε} {es later : List ε}

theorem run_cons (hrun : run step s (e :: es) = some s') :
    ∃ t, step s e = some t ∧ run step t es = some s' := by
  simp only [run] at hrun
  cases hstep : step s e with
  | none => simp [hstep] at hrun
  | some t =>
    simp only [hstep] at hrun
    exact ⟨t, rfl, hrun⟩

theorem run_step (hstep : step s e = some t)
    (es : List ε) : run step s (e :: es) = run step t es := by
  simp only [run, hstep]

theorem run_one : run step s [e] = step s e := by
  cases hstep : step s e <;> simp [run, hstep]

theorem run_append (hrun : run step s es = some t) (hlater : run step t later = some s') :
    run step s (es ++ later) = some s' := by
  induction es generalizing s with
  | nil =>
    obtain rfl := Option.some.inj hrun
    exact hlater
  | cons e es ih =>
    obtain ⟨u, hstep, hrest⟩ := run_cons hrun
    exact (run_step hstep _).trans (ih hrest)

/-- An outcome with a decidable property of it, both to be evaluated: of a step or of a run. -/
theorem exists_of_any {o : Option σ} {p : σ → Prop} [DecidablePred p]
    (h : o.any (fun t => decide (p t)) = true) : ∃ t, o = some t ∧ p t := by
  obtain ⟨t, ho, ht⟩ := (Option.any_eq_true _ _).mp h
  exact ⟨t, ho, of_decide_eq_true ht⟩

theorem exists_of_isSome {o : Option σ} {p : σ → Prop} (h : o.isSome = true)
    (hp : o = some (o.get h) → p (o.get h)) : ∃ t, o = some t ∧ p t :=
  ⟨o.get h, Option.eq_some_of_isSome h, hp (Option.eq_some_of_isSome h)⟩

theorem exists_ok_of_any {ε α : Type*} {x : Except ε α} {p : α → Prop} [DecidablePred p]
    (h : x.toOption.any (fun a => decide (p a)) = true) : ∃ a, x = .ok a ∧ p a := by
  cases x with
  | error e => simp [Except.toOption] at h
  | ok a => exact ⟨a, rfl, of_decide_eq_true h⟩

theorem run_concat :
    run step s (es ++ [e]) = some s' ↔ ∃ t, run step s es = some t ∧ step t e = some s' := by
  induction es generalizing s with
  | nil => cases hstep : step s e <;> simp [run, hstep]
  | cons first es ih =>
    simp only [List.cons_append, run]
    split
    · simp
    · exact ih

theorem StepsMeet.concat (h : StepsMeet step condition s es) (hrun : run step s es = some t)
    (hlast : condition t e) : StepsMeet step condition s (es ++ [e]) := by
  induction es generalizing s with
  | nil =>
    simp only [run, Option.some.injEq] at hrun
    subst hrun
    exact ⟨hlast, fun _ _ => trivial⟩
  | cons first es ih =>
    refine ⟨h.1, fun u hstep => ih (h.2 u hstep) ?_⟩
    simpa only [run, hstep] using hrun

theorem StepsMeet.of_append (h : StepsMeet step condition s (es ++ later)) :
    StepsMeet step condition s es ∧
      ∀ t, run step s es = some t → StepsMeet step condition t later := by
  induction es generalizing s with
  | nil =>
    refine ⟨trivial, fun t hrun => ?_⟩
    obtain rfl := Option.some.inj hrun
    exact h
  | cons e es ih =>
    refine ⟨⟨h.1, fun t hstep => (ih (h.2 t hstep)).1⟩, fun t hrun => ?_⟩
    obtain ⟨u, hstep, hrest⟩ := run_cons hrun
    exact (ih (h.2 u hstep)).2 t hrest

theorem StepsMeet.and (h : StepsMeet step condition s es) (hother : StepsMeet step other s es) :
    StepsMeet step (fun s e => condition s e ∧ other s e) s es := by
  induction es generalizing s with
  | nil => trivial
  | cons e es ih =>
    exact ⟨⟨h.1, hother.1⟩, fun t hstep => ih (h.2 t hstep) (hother.2 t hstep)⟩

/-- An invariant that every step meeting the condition keeps holds at the end
of every run whose steps all meet the condition. -/
theorem run_invariant_of_steps_meet
    (hpreserved : ∀ s e s', inv s → condition s e → step s e = some s' → inv s')
    {s s' : σ} {es : List ε} (hinit : inv s)
    (hmeets : StepsMeet step condition s es)
    (hrun : run step s es = some s') : inv s' := by
  induction es generalizing s with
  | nil =>
    simp only [run, Option.some.injEq] at hrun
    exact hrun ▸ hinit
  | cons e es ih =>
    obtain ⟨t, hstep, hrest⟩ := run_cons hrun
    exact ih (hpreserved s e t hinit hmeets.1 hstep) (hmeets.2 t hstep) hrest

theorem StepsMeet.mono (h : StepsMeet step condition s es)
    (hmono : ∀ s e, condition s e → other s e) : StepsMeet step other s es := by
  induction es generalizing s with
  | nil => trivial
  | cons e es ih => exact ⟨hmono s e h.1, fun t ht => ih (h.2 t ht)⟩

theorem StepsMeet.of_forall (h : ∀ s e, condition s e) : StepsMeet step condition s es := by
  induction es generalizing s with
  | nil => trivial
  | cons e es ih => exact ⟨h s e, fun _ _ => ih⟩

theorem StepsMeet.map {ε' : Type} {p : σ → ε' → Prop} (f : ε' → ε)
    (hcondition : ∀ s e, p s e → condition s (f e))
    {es : List ε'} (h : StepsMeet (fun s e => step s (f e)) p s es) :
    StepsMeet step condition s (es.map f) := by
  induction es generalizing s with
  | nil => trivial
  | cons e es ih => exact ⟨hcondition s e h.1, fun t hstep => ih (h.2 t hstep)⟩

theorem StepsMeet.and_mem {all : List ε} (h : StepsMeet step condition s es) (hsub : es ⊆ all) :
    StepsMeet step (fun s e => condition s e ∧ e ∈ all) s es := by
  induction es generalizing s with
  | nil => trivial
  | cons e es ih =>
    exact ⟨⟨h.1, hsub List.mem_cons_self⟩, fun t hstep =>
      ih (h.2 t hstep) fun other hother => hsub (List.mem_cons_of_mem _ hother)⟩

/-- An invariant that is kept by some of the events, along a run of such events. -/
theorem run_invariant_of_events {allowed : ε → Prop}
    (hpreserved : ∀ s e s', inv s → allowed e → step s e = some s' → inv s')
    {s s' : σ} {es : List ε} (hinit : inv s) (hallowed : ∀ e ∈ es, allowed e)
    (hrun : run step s es = some s') : inv s' := by
  have hall : StepsMeet step (fun _ _ => True) s es := StepsMeet.of_forall (by simp)
  exact run_invariant_of_steps_meet
    (fun t e t' ht he hstep => hpreserved t e t' ht (hallowed e he.2) hstep) hinit
    (hall.and_mem (List.Subset.refl es)) hrun

theorem run_invariant
    (hpreserved : ∀ s e s', inv s → step s e = some s' → inv s')
    {s s' : σ} {es : List ε} (hinit : inv s)
    (hrun : run step s es = some s') : inv s' := by
  induction es generalizing s with
  | nil =>
    simp only [run, Option.some.injEq] at hrun
    exact hrun ▸ hinit
  | cons e es ih =>
    obtain ⟨t, hstep, hrest⟩ := run_cons hrun
    exact ih (hpreserved s e t hinit hstep) hrest

/-- The events of a run, each with the state in which it happened. -/
def trail (step : σ → ε → Option σ) : σ → List ε → List (σ × ε)
  | _, [] => []
  | s, e :: es =>
    (s, e) :: match step s e with
      | none => []
      | some s' => trail step s' es

/-- What is kept by each step, with the trail so far, holds of the whole run. -/
theorem run_trail_invariant {inv : List (σ × ε) → σ → Prop}
    (hpreserved : ∀ log s e s', inv log s → step s e = some s' → inv (log ++ [(s, e)]) s')
    {s s' : σ} {es : List ε} {log : List (σ × ε)} (hinit : inv log s)
    (hrun : run step s es = some s') : inv (log ++ trail step s es) s' := by
  induction es generalizing s log with
  | nil =>
    obtain rfl := Option.some.inj hrun
    simpa [trail] using hinit
  | cons e es ih =>
    obtain ⟨t, hstep, hrest⟩ := run_cons hrun
    have hlater := ih (hpreserved log s e t hinit hstep) hrest
    simpa [trail, hstep] using hlater

def Reaches (step : σ → ε → Option σ) (s s' : σ) : Prop := ∃ es, run step s es = some s'

theorem Reaches.refl (s : σ) : Reaches step s s := ⟨[], rfl⟩

theorem Reaches.head (hstep : step s e = some t)
    (hrest : Reaches step t s') : Reaches step s s' := by
  obtain ⟨es, hrun⟩ := hrest
  refine ⟨e :: es, ?_⟩
  simp only [run, hstep]
  exact hrun

theorem Reaches.trans (hfirst : Reaches step s t)
    (hsecond : Reaches step t s') : Reaches step s s' := by
  obtain ⟨es, hrun⟩ := hfirst
  induction es generalizing s with
  | nil =>
    simp only [run, Option.some.injEq] at hrun
    exact hrun ▸ hsecond
  | cons e es ih =>
    obtain ⟨mid, hstep, hrest⟩ := run_cons hrun
    exact .head hstep (ih hrest)

end SmartBFT.Foundation
