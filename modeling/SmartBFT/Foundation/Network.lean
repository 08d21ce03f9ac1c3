import Mathlib.Logic.Function.Basic
import SmartBFT.Foundation.Run

/-!
# Networks of components

A network runs one system for each index.  An event moves one component; whether
it may happen is up to a guard that sees all of them, so that a component can be
made to receive only what another one has sent.

What a network does is understood one component at a time: a run of the network
is a run of each component (`network_project`), and whatever the guard has seen on
the way is still true at the end if it is a fact that grows.
-/

namespace SmartBFT.Foundation

variable {ι σ ε : Type} [DecidableEq ι]

def networkStep (step : ι → σ → ε → Option σ) (guard : (ι → σ) → ι → ε → Bool)
    (s : ι → σ) (event : ι × ε) : Option (ι → σ) :=
  if guard s event.1 event.2 then
    (step event.1 (s event.1) event.2).map (Function.update s event.1)
  else none

def eventsOf (i : ι) (events : List (ι × ε)) : List ε :=
  (events.filter fun event => event.1 = i).map Prod.snd

theorem eventsOf_cons_self (i : ι) (e : ε) (events : List (ι × ε)) :
    eventsOf i ((i, e) :: events) = e :: eventsOf i events := by
  simp [eventsOf]

theorem eventsOf_cons_ne {i j : ι} (h : j ≠ i) (e : ε) (events : List (ι × ε)) :
    eventsOf i ((j, e) :: events) = eventsOf i events := by
  simp [eventsOf, h]

variable {step : ι → σ → ε → Option σ} {guard : (ι → σ) → ι → ε → Bool} {s s' : ι → σ}

theorem networkStep_cases {event : ι × ε} (h : networkStep step guard s event = some s') :
    guard s event.1 event.2 = true ∧
      ∃ t, step event.1 (s event.1) event.2 = some t ∧ s' = Function.update s event.1 t := by
  simp only [networkStep, Option.ite_none_right_eq_some, Option.map_eq_some_iff] at h
  obtain ⟨hguard, t, hstep, rfl⟩ := h
  exact ⟨hguard, t, hstep, rfl⟩

/-- What every step of a component can only increase, a run of the network can only
increase. -/
theorem network_grows {r : σ → σ → Prop} (hrefl : ∀ t, r t t)
    (htrans : ∀ {a b c}, r a b → r b c → r a c)
    (hgrows : ∀ i t e t', step i t e = some t' → r t t') {events : List (ι × ε)}
    (hrun : run (networkStep step guard) s events = some s') (i : ι) : r (s i) (s' i) := by
  induction events generalizing s with
  | nil =>
    simp only [run, Option.some.injEq] at hrun
    exact hrun ▸ hrefl (s i)
  | cons event events ih =>
    obtain ⟨mid, hstep, hrest⟩ := run_cons hrun
    obtain ⟨-, t, htaken, rfl⟩ := networkStep_cases hstep
    apply htrans _ (ih hrest)
    by_cases hi : i = event.1
    · subst hi
      rw [Function.update_self]
      exact hgrows _ _ _ _ htaken
    · rw [Function.update_of_ne hi]
      exact hrefl (s i)

/--
A run of the network is a run of each component.  A condition on the steps of the
network becomes one on those of the component, where it may use that every component
has grown since.
-/
theorem network_project {r : σ → σ → Prop} (hrefl : ∀ t, r t t)
    (htrans : ∀ {a b c}, r a b → r b c → r a c)
    (hgrows : ∀ i t e t', step i t e = some t' → r t t')
    {condition : (ι → σ) → ι × ε → Prop} {i : ι} {meets : σ → ε → Prop}
    (hmeets : ∀ mid e, guard mid i e = true → condition mid (i, e) →
      (∀ j, r (mid j) (s' j)) → meets (mid i) e)
    {events : List (ι × ε)} (hsteps : StepsMeet (networkStep step guard) condition s events)
    (hrun : run (networkStep step guard) s events = some s') :
    StepsMeet (step i) meets (s i) (eventsOf i events) ∧
      run (step i) (s i) (eventsOf i events) = some (s' i) := by
  induction events generalizing s with
  | nil =>
    simp only [run, Option.some.injEq] at hrun
    subst hrun
    exact ⟨trivial, rfl⟩
  | cons event events ih =>
    have hgrown := network_grows hrefl htrans hgrows hrun
    obtain ⟨mid, hstep, hrest⟩ := run_cons hrun
    obtain ⟨hguard, t, htaken, rfl⟩ := networkStep_cases hstep
    have hlater := ih (hsteps.2 _ hstep) hrest
    obtain ⟨j, e⟩ := event
    by_cases hj : j = i
    · subst hj
      simp only [Function.update_self] at hlater
      rw [eventsOf_cons_self]
      refine ⟨⟨hmeets s e hguard hsteps.1 hgrown, fun t' ht' => ?_⟩, ?_⟩
      · obtain rfl : t' = t := by simpa [htaken] using ht'.symm
        exact hlater.1
      · simp only [run, htaken]
        exact hlater.2
    · rw [Function.update_of_ne (Ne.symm hj)] at hlater
      rw [eventsOf_cons_ne hj]
      exact hlater

/--
An invariant of every component at once.  The step of one component may use the invariants
of all the others, and that every component has grown since.
-/
theorem network_invariant {r : σ → σ → Prop} (hrefl : ∀ t, r t t)
    (htrans : ∀ {a b c}, r a b → r b c → r a c)
    (hgrows : ∀ i t e t', step i t e = some t' → r t t')
    {condition : (ι → σ) → ι × ε → Prop} {inv : ι → σ → Prop}
    (hpreserved : ∀ mid i e t, (∀ j, inv j (mid j)) → guard mid i e = true →
      condition mid (i, e) → (∀ j, r (mid j) (s' j)) → step i (mid i) e = some t → inv i t)
    {events : List (ι × ε)} (hinit : ∀ j, inv j (s j))
    (hsteps : StepsMeet (networkStep step guard) condition s events)
    (hrun : run (networkStep step guard) s events = some s') : ∀ j, inv j (s' j) := by
  induction events generalizing s with
  | nil =>
    simp only [run, Option.some.injEq] at hrun
    exact hrun ▸ hinit
  | cons event events ih =>
    have hgrown := network_grows hrefl htrans hgrows hrun
    obtain ⟨mid, hstep, hrest⟩ := run_cons hrun
    have hlater := hsteps.2 mid hstep
    obtain ⟨hguard, t, htaken, rfl⟩ := networkStep_cases hstep
    refine ih (fun j => ?_) hlater hrest
    by_cases hj : j = event.1
    · subst hj
      rw [Function.update_self]
      exact hpreserved s event.1 event.2 t hinit hguard hsteps.1 hgrown htaken
    · rw [Function.update_of_ne hj]
      exact hinit j

end SmartBFT.Foundation
