import Mathlib.Data.List.MinMax
import Mathlib.Order.Nat
import SmartBFT.Foundation.Climb
import SmartBFT.Node.NewViewPanics

/-!
# The loop over a new view message

`processNewViewMsg` (`internal/bft/viewchanger.go`) validates the message again as long as the
validation has delivered a decision.  The loop has no counter; a delivery goes through
`MutuallyExclusiveDeliver`, which may sync instead, and other goroutines move the checkpoint as
well.

The loop climbs: a validation reads the sequence of the checkpoint, and what it delivers is the
next sequence, which is one of the last decisions of the message.  So the distance to the
highest of them bounds the number of deliveries, if what the validation after a delivery reads
is not behind the delivered decision (`newView_loop_ends`).
-/

namespace SmartBFT

open SmartBFT.Foundation

theorem le_highestLastSequence {signed : List SignedViewData} {svd : SignedViewData}
    {vd : ViewData} {sequence : Nat} (hmem : svd ∈ signed)
    (hreading : svd.rawViewData.reading = some vd) (hlast : vd.lastSequence = some sequence) :
    sequence ≤ highestLastSequence signed := by
  have hsequence : sequence ∈ signed.filterMap fun svd =>
      svd.rawViewData.reading.bind ViewData.lastSequence :=
    List.mem_filterMap.mpr ⟨svd, hmem, by simp [hreading, hlast]⟩
  exact List.le_max_of_le hsequence le_rfl

def ViewChangerPc.newViewMessage : ViewChangerPc → Option (List SignedViewData × Bool)
  | .validate signed own => some (signed, own)
  | .deliver _ (.newView signed own _ _ _) => some (signed, own)
  | _ => none

namespace Node

inductive InNewView (signed : List SignedViewData) (own : Bool) (nd : Node) : ClimbPhase → Prop
  | validate (hopen : nd.panicked = none) (hpc : nd.viewChanger.pc = .validate signed own) :
      InNewView signed own nd .reading
  | deliver {decision : Decision} {svd : SignedViewData} {vd : ViewData} {sequence : Nat}
      (hopen : nd.panicked = none)
      (hpc : nd.viewChanger.pc = .deliver decision (.newView signed own svd vd sequence)) :
      InNewView signed own nd (.raising decision.sequence)

/-- A validation reads the checkpoint, and a delivery raises it. -/
def newViewStep (step : Node × NodeInput) : Option ClimbStep :=
  match step.2.event, step.1.viewChanger.pc with
  | .viewChanger .validate, .validate _ _ => some (.read step.1.checkpoint.sequence)
  | .viewChanger (.deliver _), .deliver decision _ => some (.raise decision.sequence)
  | _, _ => none

variable {cfg : Config} {verifier : Verifier} {signed : List SignedViewData} {own : Bool}
  {nd nd' : Node} {input : NodeInput} {phase later : ClimbPhase}

theorem InNewView.panicked (h : nd.InNewView signed own phase) : nd.panicked = none := by
  cases h with
  | validate hopen hpc => exact hopen
  | deliver hopen hpc => exact hopen

theorem exists_inNewView_iff :
    (∃ phase, nd.InNewView signed own phase) ↔
      nd.panicked = none ∧ nd.viewChanger.pc.newViewMessage = some (signed, own) := by
  constructor
  · rintro ⟨phase, h⟩
    refine ⟨h.panicked, ?_⟩
    cases h with
    | validate _ hpc => rw [hpc, ViewChangerPc.newViewMessage]
    | deliver _ hpc => rw [hpc, ViewChangerPc.newViewMessage]
  · rintro ⟨hopen, hmessage⟩
    unfold ViewChangerPc.newViewMessage at hmessage
    split at hmessage
    · rename_i hpc
      cases hmessage
      exact ⟨_, .validate hopen hpc⟩
    · rename_i hpc
      cases hmessage
      exact ⟨_, .deliver hopen hpc⟩
    · cases hmessage

instance : Decidable (∃ phase, nd.InNewView signed own phase) :=
  decidable_of_iff _ exists_inNewView_iff.symm

theorem InNewView.unique (h : nd.InNewView signed own phase)
    (h' : nd'.InNewView signed own later) (hpc : nd'.viewChanger.pc = nd.viewChanger.pc) :
    later = phase := by
  cases h with
  | validate _ hnd =>
    cases h' with
    | validate => rfl
    | deliver _ hnd' =>
      rw [hpc, hnd] at hnd'
      cases hnd'
  | deliver _ hnd =>
    cases h' with
    | validate _ hnd' =>
      rw [hpc, hnd] at hnd'
      cases hnd'
    | deliver _ hnd' =>
      rw [hpc, hnd] at hnd'
      cases hnd'
      rfl

theorem not_inNewView_of_select (h : nd.viewChanger.pc = .select) :
    ¬ nd.InNewView signed own phase := by
  intro hphase
  cases hphase with
  | validate _ hpc =>
    rw [h] at hpc
    cases hpc
  | deliver _ hpc =>
    rw [h] at hpc
    cases hpc

theorem finishNewView_pc (nd : Node) (own : Bool) :
    (nd.finishNewView own).viewChanger.pc = .select := by
  unfold finishNewView
  cases own <;> rfl

theorem not_inNewView_saveNewView (nd : Node) :
    ¬ (nd.saveNewView cfg own).InNewView signed own phase := by
  unfold saveNewView
  split
  · exact fun h => by simpa [panic] using h.panicked
  · simp only
    split
    · exact not_inNewView_of_select (finishNewView_pc _ _)
    · intro h
      cases h with
      | validate _ hpc => cases hpc
      | deliver _ hpc => cases hpc

theorem validateStep_inNewView (hpc : nd.viewChanger.pc = .validate signed own)
    (hstep : nd.validateStep cfg verifier = some nd') (h : nd'.InNewView signed own later) :
    later = .raising (nd.checkpoint.sequence + 1) ∧
      nd.checkpoint.sequence < highestLastSequence signed := by
  simp only [validateStep, hpc] at hstep
  split at hstep
  · cases hstep
    exact absurd h.panicked (by simp [panic])
  · cases hstep
    exact absurd h (not_inNewView_of_select (finishNewView_pc _ _))
  · cases hstep
    exact absurd h (not_inNewView_of_select (finishNewView_pc _ _))
  · rename_i decision svd vd sequence hverdict
    cases hstep
    obtain ⟨mySequence, md, hsequence, hmem, hreading, hlast, hmd, hnext⟩ :=
      validateNewViewMsg_deliver_next hverdict
    rw [Node.sequence_of_extract hsequence]
    refine ⟨?_, le_highestLastSequence hmem hreading hlast⟩
    cases h with
    | validate _ hlater => cases hlater
    | deliver _ hlater =>
      cases hlater
      rw [sequence_of_metadata hmd.unmarshal, hnext]
  · split at hstep
    · cases hstep
      exact absurd h (not_inNewView_of_select (finishNewView_pc _ _))
    · cases hstep
      exact absurd h (not_inNewView_of_select (finishNewView_pc _ _))
    · cases hstep
      exact absurd h.panicked (by simp [panic])
    · split at hstep
      · cases hstep
        exact absurd h (not_inNewView_saveNewView nd)
      · cases hstep
        cases h with
        | validate _ hlater => cases hlater
        | deliver _ hlater => cases hlater

theorem deliverStep_inNewView {decision : Decision} {svd : SignedViewData} {vd : ViewData}
    {sequence : Nat} {answer : DeliverAnswer}
    (hpc : nd.viewChanger.pc = .deliver decision (.newView signed own svd vd sequence))
    (hstep : nd.deliverStep cfg verifier answer = some nd') (h : nd'.InNewView signed own later) :
    later = .reading := by
  simp only [deliverStep, hpc, Option.ite_none_left_eq_some] at hstep
  obtain ⟨-, hstep⟩ := hstep
  split at hstep
  · cases hstep
    exact absurd h (not_inNewView_of_select (finishNewView_pc _ _))
  · cases hstep
    cases h with
    | validate => rfl
    | deliver _ hlater => cases hlater

theorem newView_step (h : nd.InNewView signed own phase) (hstep : nd.step cfg input = some nd') :
    (newViewStep (nd, input) = none ∧
      ∀ later, nd'.InNewView signed own later → later = phase) ∨
    (phase = .reading ∧ newViewStep (nd, input) = some (.read nd.checkpoint.sequence) ∧
      ∀ later, nd'.InNewView signed own later →
        later = .raising (nd.checkpoint.sequence + 1) ∧
          nd.checkpoint.sequence < highestLastSequence signed) ∨
    ∃ level, phase = .raising level ∧ newViewStep (nd, input) = some (.raise level) ∧
      ∀ later, nd'.InNewView signed own later → later = .reading := by
  obtain ⟨verifier, event⟩ := input
  by_cases hown : ∃ own, event = .viewChanger own
  · obtain ⟨event, rfl⟩ := hown
    simp only [step, Option.ite_none_left_eq_some, react] at hstep
    obtain ⟨-, -, hstep⟩ := hstep
    cases h with
    | validate hopen hpc =>
      simp only [viewChangerStep, hpc, Option.ite_none_right_eq_some] at hstep
      obtain ⟨rfl, hstep⟩ := hstep
      exact .inr (.inl ⟨rfl, by simp [newViewStep, hpc],
        fun later => validateStep_inNewView hpc hstep⟩)
    | @deliver decision svd vd sequence hopen hpc =>
      simp only [viewChangerStep, hpc] at hstep
      split at hstep
      · exact .inr (.inr ⟨decision.sequence, rfl, by simp [newViewStep, hpc],
          fun later => deliverStep_inNewView hpc hstep⟩)
      · cases hstep
  · have hother : newViewStep (nd, ⟨verifier, event⟩) = none := by
      cases event with
      | viewChanger event => exact absurd ⟨event, rfl⟩ hown
      | _ => rfl
    refine .inl ⟨hother, fun later hlater => ?_⟩
    rcases step_pc hstep with hsame | hselect | ⟨event', hevent, -⟩
    · exact h.unique hlater hsame
    · exact absurd hlater (not_inNewView_of_select hselect)
    · exact absurd ⟨event', hevent⟩ hown

theorem exists_newView_step (h : nd.InNewView signed own phase)
    (hlock : phase = .reading ∨ nd.syncLocked = false) (verifier : Verifier) :
    ∃ event nd', nd.step cfg ⟨verifier, .viewChanger event⟩ = some nd' ∧
      newViewStep (nd, ⟨verifier, .viewChanger event⟩) ≠ none := by
  cases h with
  | validate hopen hpc =>
    have hvalidate : ∃ nd', nd.validateStep cfg verifier = some nd' := by
      simp only [validateStep, hpc]
      split
      · exact ⟨_, rfl⟩
      · exact ⟨_, rfl⟩
      · exact ⟨_, rfl⟩
      · exact ⟨_, rfl⟩
      · split
        · exact ⟨_, rfl⟩
        · exact ⟨_, rfl⟩
        · exact ⟨_, rfl⟩
        · split
          · exact ⟨_, rfl⟩
          · exact ⟨_, rfl⟩
    obtain ⟨nd', hstep⟩ := hvalidate
    refine ⟨.validate, nd', ?_, by simp [newViewStep, hpc]⟩
    simpa [step, react, hopen, NodeEvent.admissible, viewChangerStep, hpc] using hstep
  | deliver hopen hpc =>
    have hfree : nd.syncLocked = false := hlock.resolve_left (by simp)
    have hdeliver : ∃ nd', nd.deliverStep cfg verifier {} = some nd' := by
      simp only [deliverStep, hpc, hfree, Bool.false_eq_true, if_false]
      split
      · exact ⟨_, rfl⟩
      · exact ⟨_, rfl⟩
    obtain ⟨nd', hstep⟩ := hdeliver
    refine ⟨.deliver {}, nd', ?_, by simp [newViewStep, hpc]⟩
    simpa [step, react, hopen, NodeEvent.admissible, viewChangerStep, hpc] using hstep

variable {inputs : List NodeInput}

theorem climbs_of_run (h : nd.InNewView signed own phase)
    (hloop : StepsMeet (Node.step cfg) (fun nd _ => ∃ phase, nd.InNewView signed own phase) nd
      inputs)
    (hrun : run (Node.step cfg) nd inputs = some nd') :
    Climbs (highestLastSequence signed) phase
      ((trail (Node.step cfg) nd inputs).filterMap newViewStep) := by
  induction inputs generalizing nd phase with
  | nil => exact .left phase
  | cons input inputs ih =>
    obtain ⟨next, hstep, hrest⟩ := run_cons hrun
    have hmeets := hloop.2 next hstep
    -- either the run is over, or the loop goes on in the next state
    have hfollows : (trail (Node.step cfg) next inputs).filterMap newViewStep = [] ∨
        ∃ later, next.InNewView signed own later ∧ Climbs (highestLastSequence signed) later
          ((trail (Node.step cfg) next inputs).filterMap newViewStep) := by
      cases inputs with
      | nil => exact .inl rfl
      | cons second inputs =>
        obtain ⟨later, hlater⟩ := hmeets.1
        exact .inr ⟨later, hlater, ih hlater hmeets hrest⟩
    simp only [trail, hstep]
    rcases newView_step h hstep with
      ⟨hnone, hsame⟩ | ⟨rfl, hread, hraising⟩ | ⟨level, rfl, hraise, hreading⟩
    · rw [List.filterMap_cons_none hnone]
      rcases hfollows with hover | ⟨later, hlater, hclimbs⟩
      · rw [hover]
        exact .left phase
      · exact hsame later hlater ▸ hclimbs
    · rw [List.filterMap_cons_some hread]
      rcases hfollows with hover | ⟨later, hlater, hclimbs⟩
      · rw [hover]
        exact .last _
      · obtain ⟨rfl, hbelow⟩ := hraising later hlater
        exact .read hbelow hclimbs
    · rw [List.filterMap_cons_some hraise]
      rcases hfollows with hover | ⟨later, hlater, hclimbs⟩
      · rw [hover]
        exact .raise (.left .reading)
      · obtain rfl := hreading later hlater
        exact .raise hclimbs

end Node

/-- The loop over a new view message, from its first validation on and in any interleaving: if
what a validation reads after a delivery is not behind the delivered decision, then each
validation reads a higher sequence than the one before it, there are at most as many deliveries
as sequences from the first one to the highest last decision of the message, and at most one
validation more.  The loop never waits for anything but the lock of a sync. -/
theorem newView_loop_ends {cfg : Config} {signed : List SignedViewData} {own : Bool}
    {nd nd' : Node} {first : NodeInput} {inputs : List NodeInput}
    (hphase : nd.InNewView signed own .reading) (hfirst : first.event = .viewChanger .validate)
    (hrun : run (Node.step cfg) nd (first :: inputs) = some nd')
    (hloop : StepsMeet (Node.step cfg) (fun nd _ => ∃ phase, nd.InNewView signed own phase) nd
      (first :: inputs))
    (hkept : ((trail (Node.step cfg) nd (first :: inputs)).filterMap Node.newViewStep).IsChain
      ClimbStep.Kept) :
    ClimbBounds nd.checkpoint.sequence
        (highestLastSequence signed - nd.checkpoint.sequence) 1
        ((trail (Node.step cfg) nd (first :: inputs)).filterMap Node.newViewStep) ∧
      ∀ phase, nd'.InNewView signed own phase →
        phase = .reading ∨ nd'.syncLocked = false → ∀ verifier, ∃ event next,
          nd'.step cfg ⟨verifier, .viewChanger event⟩ = some next ∧
            Node.newViewStep (nd', ⟨verifier, .viewChanger event⟩) ≠ none := by
  refine ⟨?_, fun phase h hlock verifier => Node.exists_newView_step h hlock verifier⟩
  have hclimbs := Node.climbs_of_run hphase hloop hrun
  have hread : Node.newViewStep (nd, first) = some (.read nd.checkpoint.sequence) := by
    cases hphase with
    | validate _ hpc => simp [Node.newViewStep, hfirst, hpc]
  rw [trail, List.filterMap_cons_some hread] at hclimbs hkept ⊢
  exact hclimbs.bounds hkept

/-! ## A message that is one decision ahead -/

def aheadViewData : ViewData where
  nextView := 1
  lastDecision := some decisionOne.proposal
  lastDecisionSignatures := [{ signer := 2 }, { signer := 3 }, { signer := 4 }]

def deliverAhead : List NodeInput :=
  accepting [.viewChanger .validate, .viewChanger (.deliver {}), .viewChanger .validate]

theorem newView_loop_ends_ahead :
    ∃ nd nd', run (Node.step (clusterOfFour 3)) (nodeOfFour 3)
        (takeNewView (entriesOf aheadViewData)) = some nd ∧
      run (Node.step (clusterOfFour 3)) nd deliverAhead = some nd' ∧
      (trail (Node.step (clusterOfFour 3)) nd deliverAhead).filterMap Node.newViewStep =
        [.read 0, .raise 1, .read 1] ∧
      ClimbBounds nd.checkpoint.sequence
        (highestLastSequence (entriesOf aheadViewData) - nd.checkpoint.sequence) 1
        [.read 0, .raise 1, .read 1] := by
  have hreached : (run (Node.step (clusterOfFour 3)) (nodeOfFour 3)
      (takeNewView (entriesOf aheadViewData))).any (fun nd => decide (
        nd.panicked = none ∧ nd.viewChanger.pc = .validate (entriesOf aheadViewData) false ∧
        (trail (Node.step (clusterOfFour 3)) nd deliverAhead).filterMap Node.newViewStep =
          [.read 0, .raise 1, .read 1] ∧
        StepsMeet (Node.step (clusterOfFour 3)) (fun nd _ =>
          ∃ phase, nd.InNewView (entriesOf aheadViewData) false phase) nd deliverAhead ∧
        (run (Node.step (clusterOfFour 3)) nd deliverAhead).isSome = true)) = true := by
    decide +kernel
  obtain ⟨nd, hrun, hopen, hpc, hsteps, hloop, hdone⟩ := exists_of_any hreached
  obtain ⟨nd', hrest⟩ := Option.isSome_iff_exists.mp hdone
  have hkept : ((trail (Node.step (clusterOfFour 3)) nd deliverAhead).filterMap
      Node.newViewStep).IsChain ClimbStep.Kept := by
    rw [hsteps]
    decide
  have hbounds := (newView_loop_ends (.validate hopen hpc) rfl hrest hloop hkept).1
  have hclimb : ClimbBounds nd.checkpoint.sequence
      (highestLastSequence (entriesOf aheadViewData) - nd.checkpoint.sequence) 1
      ((trail (Node.step (clusterOfFour 3)) nd deliverAhead).filterMap Node.newViewStep) := hbounds
  rw [hsteps] at hclimb
  exact ⟨nd, nd', hrun, hrest, hsteps, hclimb⟩

end SmartBFT
