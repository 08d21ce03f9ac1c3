import SmartBFT.Node.Sequences
import SmartBFT.Node.Transition

/-!
# The order of deliveries

The controller, the in-flight view and the view changer deliver through
`MutuallyExclusiveDeliver`, which compares the decision with the checkpoint,
delivers it and moves the checkpoint under one lock; a decision that is not ahead
of the checkpoint is replaced by a sync.  `Controller.sync` moves the checkpoint
under the same lock.

At genesis the comparison is skipped.  `CheckInFlight` adds one to the highest last decision
of a new view message, modulo `2 ^ 64`, so that a node at genesis may be made to commit a
proposal of sequence `0` (`synced_delivered_again`).
-/

namespace SmartBFT

open Foundation

/-- The sequence of a decision; the genesis decision has sequence `0`. -/
def Decision.sequence (decision : Decision) : Nat :=
  (decision.proposal.unmarshalMetadata.getD {}).latestSequence

/-- What a step obtains: a decision that it passes to the application, or one that the
synchronizer returns. -/
inductive Outcome where
  | delivered (decision : Decision)
  | synced (decision : Decision)
  deriving DecidableEq, Repr

namespace Outcome

def sequence : Outcome → Nat
  | .delivered decision => decision.sequence
  | .synced decision => decision.sequence

def delivery : Outcome → Option Decision
  | .delivered decision => some decision
  | .synced _ => none

end Outcome

namespace Node

def deliveries (nd : Node) : List Decision :=
  nd.trace.filterMap fun
    | .deliver decision => some decision
    | _ => none

theorem mem_deliveries {nd : Node} {decision : Decision} :
    decision ∈ nd.deliveries ↔ .deliver decision ∈ nd.trace := by
  simp only [deliveries, List.mem_filterMap]
  constructor
  · rintro ⟨action, hmem, haction⟩
    split at haction
    · exact Option.some.inj haction ▸ hmem
    · simp at haction
  · exact fun hmem => ⟨_, hmem, rfl⟩

/-- The decision of a call of `MutuallyExclusiveDeliver.Deliver`, and what the application
and the synchronizer answer. -/
def delivering (nd : Node) : NodeEvent → Option (Decision × DeliverAnswer)
  | .controller (.decide answer) =>
    match nd.currView.pc with
    | .deciding decision _ => some (decision, answer)
    | _ => none
  | .inFlightDeliver answer =>
    match nd.inFlightView.map View.pc with
    | some (.deciding decision _) => some (decision, answer)
    | _ => none
  | .viewChanger (.deliver answer) =>
    match nd.viewChanger.pc with
    | .deliver decision _ => some (decision, answer)
    | _ => none
  | _ => none

def deliverOutcome (nd : Node) (decision : Decision) (answer : DeliverAnswer) :
    Option Outcome :=
  match decision.proposal.unmarshalMetadata, nd.checkpointMetadata with
  | some pending, some latest =>
    if latest.latestSequence ≠ 0 ∧ pending.latestSequence ≤ latest.latestSequence then
      some (.synced answer.synced)
    else some (.delivered decision)
  | _, _ => none

def outcome (nd : Node) : NodeEvent → Option Outcome
  | .controller (.sync response _) => some (.synced response)
  | event => (nd.delivering event).bind fun (decision, answer) =>
    nd.deliverOutcome decision answer

def outcomes (cfg : Config) : Node → List NodeInput → List Outcome
  | _, [] => []
  | nd, input :: inputs =>
    match nd.step cfg input with
    | none => []
    | some nd' => (nd.outcome input.event).toList ++ outcomes cfg nd' inputs

def checkpoints (cfg : Config) : Node → List NodeInput → List Nat
  | nd, [] => [nd.checkpoint.sequence]
  | nd, input :: inputs =>
    nd.checkpoint.sequence ::
      match nd.step cfg input with
      | none => []
      | some nd' => checkpoints cfg nd' inputs

/-- The contract of the synchronizer, where the code relies on it: a sync that replaces a
delivery returns a decision that is not behind the checkpoint. -/
def syncsForward (nd : Node) (input : NodeInput) : Bool :=
  match (nd.delivering input.event).bind fun (decision, answer) =>
      nd.deliverOutcome decision answer with
  | some (.synced decision) => decide (nd.checkpoint.sequence ≤ decision.sequence)
  | _ => true

/-- A message from which an in-flight proposal is committed has no entry, counted or not, whose
last decision has the greatest `uint64` as its sequence. -/
def sequencesFit (nd : Node) (input : NodeInput) : Bool :=
  match input.event, nd.viewChanger.pc with
  | .viewChanger .commitInFlight, .commitInFlight signed _ _ =>
    decide (highestLastSequence signed + 1 < UInt64.size)
  | _, _ => true

end Node

/-! ## What neither delivers nor moves the checkpoint -/

structure KeepsDecisions (nd nd' : Node) : Prop where
  checkpoint : nd'.checkpoint = nd.checkpoint
  deliveries : nd'.deliveries = nd.deliveries

namespace KeepsDecisions

variable {cfg : Config} {a b c : Node}

theorem refl (nd : Node) : KeepsDecisions nd nd := ⟨rfl, rfl⟩

theorem trans (hab : KeepsDecisions a b) (hbc : KeepsDecisions b c) : KeepsDecisions a c :=
  ⟨hbc.checkpoint.trans hab.checkpoint, hbc.deliveries.trans hab.deliveries⟩

theorem after (hbc : KeepsDecisions b c) (hab : KeepsDecisions a b) : KeepsDecisions a c :=
  hab.trans hbc

theorem of_trace (hcheckpoint : b.checkpoint = a.checkpoint) (htrace : b.trace = a.trace) :
    KeepsDecisions a b := by
  refine ⟨hcheckpoint, ?_⟩
  rw [Node.deliveries, htrace]
  rfl

theorem record (nd : Node) {action : Action} (h : ∀ decision, action ≠ .deliver decision) :
    KeepsDecisions nd (nd.record action) := by
  refine ⟨rfl, ?_⟩
  cases action with
  | deliver decision => exact absurd rfl (h decision)
  | _ => rfl

theorem save (nd : Node) (m : SavedMessage) : KeepsDecisions nd (nd.save m) := by
  rcases Node.save_cases nd m with ⟨text, hcase⟩ | ⟨persisted, -, hcase⟩ <;> rw [hcase]
  · exact of_trace rfl rfl
  · have hrecorded : KeepsDecisions nd (nd.record (.save m)) := record nd (by simp)
    exact hrecorded.trans (of_trace rfl rfl)

theorem quiet (h : QuietOp a b) : KeepsDecisions a b := by
  cases h with
  | record haction =>
    apply record
    rintro decision rfl
    nomatch haction
  | saveViewChange => exact save a _
  | saveNewView => exact save a _
  | _ => exact of_trace rfl rfl

theorem quietEffect (h : QuietEffect a b) : KeepsDecisions a b := by
  induction h with
  | refl => exact refl a
  | tail _ hop ih => exact ih.trans (quiet hop)

theorem applyOutputs (nd : Node) (origin : Origin) (outputs : List ViewOutput) :
    KeepsDecisions nd (nd.applyOutputs cfg origin outputs) := by
  refine Node.applyOutputs_keeps cfg origin (fun hop hmid => hmid.trans (quiet hop)) ?_ ?_ ?_
    (refl nd)
  · exact fun m _ mid hmid => hmid.trans (record mid (by simp))
  · exact fun target m _ mid hmid => hmid.trans (record mid (by simp))
  · exact fun m _ mid hmid => hmid.trans (save mid m)

theorem viewChangerEffect {verifier : Verifier} {settled voting : Bool}
    (h : ViewChangerEffect cfg verifier settled voting a b) : KeepsDecisions a b :=
  quietEffect h.quiet

end KeepsDecisions

structure Obtains (nd nd' : Node) (outcome : Option Outcome) : Prop where
  readable : ∃ md, nd'.checkpointMetadata = some md
  checkpoint_le : nd.checkpoint.sequence ≤ nd'.checkpoint.sequence
  obtained_le : ∀ o ∈ outcome, o.sequence ≤ nd'.checkpoint.sequence
  ahead : ∀ decision, outcome = some (.delivered decision) → decision.proposal.Positive →
    nd.checkpoint.sequence < decision.sequence
  deliveries : nd'.deliveries = (outcome.bind Outcome.delivery).toList ++ nd.deliveries

namespace Node

variable {cfg : Config} {verifier : Verifier} {nd nd' : Node}
variable {decision : Decision} {answer : DeliverAnswer} {event : NodeEvent} {input : NodeInput}

theorem obtains_nothing (hreadable : ∃ md, nd.checkpointMetadata = some md)
    (h : KeepsDecisions nd nd') : Obtains nd nd' none where
  readable := by
    rw [checkpointMetadata, h.checkpoint]
    exact hreadable
  checkpoint_le := by rw [h.checkpoint]
  obtained_le := by simp
  ahead := by simp
  deliveries := h.deliveries

theorem obtains_keeps {mid : Node} {outcome : Option Outcome} (h : Obtains nd mid outcome)
    (hkeeps : KeepsDecisions mid nd') : Obtains nd nd' outcome where
  readable := by
    rw [checkpointMetadata, hkeeps.checkpoint]
    exact h.readable
  checkpoint_le := by
    rw [hkeeps.checkpoint]
    exact h.checkpoint_le
  obtained_le := by
    rw [hkeeps.checkpoint]
    exact h.obtained_le
  ahead := h.ahead
  deliveries := hkeeps.deliveries.trans h.deliveries

theorem sequence_of_metadata {md : ViewMetadata}
    (h : decision.proposal.unmarshalMetadata = some md) :
    decision.sequence = md.latestSequence := by
  simp [Decision.sequence, h]

theorem sequence_of_extract {mySequence : Nat}
    (h : extractCurrentSequence decision = .ok mySequence) : decision.sequence = mySequence := by
  unfold extractCurrentSequence at h
  split at h <;> rename_i hraw
  · obtain rfl := Except.ok.inj h
    simp [Decision.sequence, Proposal.unmarshalMetadata, hraw]
  · split at h <;> rename_i hreading
    · simp at h
    · obtain rfl := Except.ok.inj h
      simp [Decision.sequence, Proposal.unmarshalMetadata, hraw, hreading]

theorem readable_of_sequence (h : 0 < decision.sequence) :
    ∃ md, decision.proposal.unmarshalMetadata = some md := by
  cases hmd : decision.proposal.unmarshalMetadata with
  | none => simp [Decision.sequence, hmd] at h
  | some md => exact ⟨md, rfl⟩

theorem deliver_obtains (hreadable : ∃ md, nd.checkpointMetadata = some md)
    (hforward : ∀ synced, nd.deliverOutcome decision answer = some (.synced synced) →
      nd.checkpoint.sequence ≤ synced.sequence) :
    Obtains nd (nd.deliver decision answer) (nd.deliverOutcome decision answer) := by
  obtain ⟨latest, hlatest⟩ := hreadable
  have hcheckpoint : nd.checkpoint.sequence = latest.latestSequence :=
    sequence_of_metadata hlatest
  cases hpending : decision.proposal.unmarshalMetadata with
  | none =>
    simp only [deliverOutcome, deliver, hpending]
    exact obtains_nothing ⟨latest, hlatest⟩ (.of_trace rfl rfl)
  | some pending =>
    have hseq := sequence_of_metadata hpending
    simp only [deliverOutcome, hpending, hlatest] at hforward ⊢
    simp only [deliver, hpending, hlatest]
    split at hforward <;> rename_i hcase
    · have hsynced := hforward answer.synced rfl
      rw [if_pos hcase, if_pos hcase]
      have hread : 0 < answer.synced.sequence := by omega
      refine ⟨readable_of_sequence hread, hsynced, ?_, by simp, rfl⟩
      intro o ho
      obtain rfl := Option.some.inj ho
      exact Nat.le_refl _
    · rw [if_neg hcase, if_neg hcase]
      -- a decision that is delivered is ahead, or the checkpoint is the genesis decision
      have hle : nd.checkpoint.sequence ≤ decision.sequence := by omega
      refine ⟨⟨pending, hpending⟩, hle, ?_, ?_, rfl⟩
      · intro o ho
        obtain rfl := Option.some.inj ho
        exact Nat.le_refl _
      · rintro other hother ⟨md, hmd, hpos⟩
        simp only [Option.some.injEq, Outcome.delivered.injEq] at hother
        rw [← hother, hpending, Option.some.injEq] at hmd
        subst hmd hother
        omega

theorem sequence_of_latestMetadata {response : Decision} {latest : Option ViewMetadata}
    (h : latestMetadata response = some latest) :
    response.sequence = (latest.getD {}).latestSequence := by
  unfold latestMetadata at h
  split at h <;> rename_i hraw
  · obtain rfl := Option.some.inj h
    simp [Decision.sequence, Proposal.unmarshalMetadata, hraw]
  · simp only [Option.map_eq_some_iff] at h
    obtain ⟨md, hmd, rfl⟩ := h
    simp [Decision.sequence, Proposal.unmarshalMetadata, hraw, hmd]

theorem sequence_of_latestMetadata_none {response : Decision}
    (h : latestMetadata response = none) : response.sequence = 0 := by
  unfold latestMetadata at h
  split at h <;> rename_i hraw
  · simp at h
  · simp only [Option.map_eq_none_iff] at h
    simp [Decision.sequence, Proposal.unmarshalMetadata, hraw, h]

theorem beginSync_obtains (hreadable : ∃ md, nd.checkpointMetadata = some md)
    (response : Decision) (reconfig : Bool) :
    Obtains nd (nd.beginSync response reconfig) (some (.synced response)) := by
  -- the checkpoint stays: the response is not ahead of it
  have hstays : ∀ mid : Node, mid.checkpoint = nd.checkpoint → mid.trace = nd.trace →
      response.sequence ≤ nd.checkpoint.sequence →
      Obtains nd mid (some (.synced response)) := by
    intro mid hcheckpoint htrace hle
    have hkeeps := obtains_nothing hreadable (.of_trace hcheckpoint htrace)
    refine ⟨hkeeps.readable, hkeeps.checkpoint_le, ?_, by simp, hkeeps.deliveries⟩
    intro o ho
    obtain rfl := Option.some.inj ho
    rw [hcheckpoint]
    exact hle
  obtain ⟨md, hmd⟩ := hreadable
  have hcheckpoint : nd.checkpoint.sequence = md.latestSequence := sequence_of_metadata hmd
  have hmd' : ∀ mid : Node, mid.checkpoint = nd.checkpoint → mid.checkpointMetadata = some md := by
    intro mid hmid
    rw [checkpointMetadata, hmid]
    exact hmd
  unfold beginSync
  simp only [hmd']
  split
  · rename_i hnone
    have hzero := sequence_of_latestMetadata_none hnone
    exact hstays _ rfl rfl (by omega)
  · rename_i hnone
    simp at hnone
  · rename_i latest other hlatest hother
    obtain rfl := Option.some.inj hother
    have hresponse := sequence_of_latestMetadata hlatest
    split
    · have hahead : nd.checkpoint.sequence < response.sequence := by omega
      have hpos : 0 < response.sequence := by omega
      refine ⟨readable_of_sequence hpos, Nat.le_of_lt hahead, ?_, by simp, rfl⟩
      intro o ho
      obtain rfl := Option.some.inj ho
      exact Nat.le_refl _
    · exact hstays _ rfl rfl (by omega)

theorem viewChangerStep_deliver (h : nd.viewChangerStep cfg verifier (.deliver answer) = some nd') :
    ∃ decision purpose, nd.viewChanger.pc = .deliver decision purpose ∧
      KeepsDecisions (nd.deliver decision answer) nd' := by
  cases hpc : nd.viewChanger.pc with
  | deliver =>
    simp only [viewChangerStep, hpc] at h
    obtain ⟨decision, purpose, hpc', heffect⟩ := effect_deliverStep h
    exact ⟨decision, purpose, hpc.symm.trans hpc', .viewChangerEffect heffect⟩
  | _ => simp [viewChangerStep, hpc, viewChangerSelect, waitInFlightStep] at h

theorem delivering_positive (h : Positive nd) (hreadable : nd.viewChanger.pc.Readable)
    (hdelivering : nd.delivering event = some (decision, answer)) : decision.proposal.Positive := by
  unfold delivering at hdelivering
  split at hdelivering
  · split at hdelivering <;>
      simp only [Option.some.injEq, Prod.mk.injEq, reduceCtorEq] at hdelivering
    rename_i hpc
    exact hdelivering.1 ▸ h.view.deciding _ _ hpc
  · split at hdelivering <;>
      simp only [Option.some.injEq, Prod.mk.injEq, reduceCtorEq] at hdelivering
    rename_i hpc
    obtain ⟨view, hview, hpc⟩ := Option.map_eq_some_iff.mp hpc
    exact hdelivering.1 ▸ (h.inFlightView view hview).deciding _ _ hpc
  · split at hdelivering <;>
      simp only [Option.some.injEq, Prod.mk.injEq, reduceCtorEq] at hdelivering
    rename_i hpc
    rw [hpc] at hreadable
    exact hdelivering.1 ▸ hreadable
  · simp at hdelivering

theorem delivered_positive (h : Positive nd) (hreadable : nd.viewChanger.pc.Readable)
    (hdelivered : nd.outcome event = some (.delivered decision)) : decision.proposal.Positive := by
  unfold outcome at hdelivered
  split at hdelivered
  · simp at hdelivered
  · obtain ⟨⟨own, answer⟩, hdelivering, houtcome⟩ := Option.bind_eq_some_iff.mp hdelivered
    obtain rfl : own = decision := by
      change nd.deliverOutcome own answer = _ at houtcome
      unfold deliverOutcome at houtcome
      split at houtcome
      · split at houtcome <;> simp_all
      · simp at houtcome
    exact delivering_positive h hreadable hdelivering

theorem react_delivers (h : nd.react cfg verifier event = some nd')
    (hevent : (∃ answer, event = .controller (.decide answer)) ∨
      (∃ answer, event = .inFlightDeliver answer) ∨
      ∃ answer, event = .viewChanger (.deliver answer)) :
    ∃ decision answer, nd.delivering event = some (decision, answer) ∧
      KeepsDecisions (nd.deliver decision answer) nd' := by
  rcases hevent with ⟨answer, rfl⟩ | ⟨answer, rfl⟩ | ⟨answer, rfl⟩
  · have hstep : nd.controllerStep cfg verifier (.decide answer) = some nd' := h
    cases controllerStep_steps hstep with
    | @decide decision _ _ _ hpc =>
      exact ⟨decision, answer, by simp [delivering, hpc], .of_trace rfl rfl⟩
  · cases react_steps h with
    | @inFlightDeliver view decision _ _ hview hpc =>
      exact ⟨decision, answer, by simp [delivering, hview, hpc], .of_trace rfl rfl⟩
  · obtain ⟨decision, purpose, hpc, hkeeps⟩ := viewChangerStep_deliver h
    exact ⟨decision, answer, by simp [delivering, hpc], hkeeps⟩

theorem transition_keepsDecisions (h : NodeTransition cfg nd input nd')
    (hdecide : ∀ answer, input.event ≠ .controller (.decide answer))
    (hinFlight : ∀ answer, input.event ≠ .inFlightDeliver answer)
    (hdeliver : ∀ answer, input.event ≠ .viewChanger (.deliver answer))
    (hsync : ∀ response reconfig, input.event ≠ .controller (.sync response reconfig)) :
    KeepsDecisions nd nd' := by
  cases h with
  | quiet _ heffect => exact .quietEffect heffect
  | view => exact (KeepsDecisions.applyOutputs _ _ _).after (.of_trace rfl rfl)
  | inFlightView => exact (KeepsDecisions.applyOutputs _ _ _).after (.of_trace rfl rfl)
  | inFlightDeliver _ answer => exact absurd rfl (hinFlight answer)
  | decide _ answer => exact absurd rfl (hdecide answer)
  | proposed => exact .of_trace rfl rfl
  | sync _ response reconfig => exact absurd rfl (hsync response reconfig)
  | restarted _ _ heffect =>
    exact (KeepsDecisions.quietEffect heffect).after (.of_trace rfl rfl)
  | viewData _ _ heffect =>
    exact KeepsDecisions.trans (.record _ (by simp)) (.quietEffect heffect)
  | delivered _ answer => exact absurd rfl (hdeliver answer)
  | startInFlight => exact .of_trace rfl rfl
  | crash _ hboot =>
    obtain ⟨md, start, leader, v, inFlight, -, -, -, -, rfl⟩ := boot_ok hboot
    exact .of_trace rfl rfl

inductive DecisionStep (nd : Node) (event : NodeEvent) (nd' : Node) : Prop where
  | delivers {decision : Decision} {answer : DeliverAnswer}
      (hdelivering : nd.delivering event = some (decision, answer))
      (houtcome : nd.outcome event = nd.deliverOutcome decision answer)
      (hkeeps : KeepsDecisions (nd.deliver decision answer) nd')
  | syncs {response : Decision} {reconfig : Bool}
      (houtcome : nd.outcome event = some (.synced response))
      (hsynced : nd' = nd.beginSync response reconfig)
  | keeps (houtcome : nd.outcome event = none) (hkeeps : KeepsDecisions nd nd')

theorem step_decisions (hstep : nd.step cfg input = some nd') :
    DecisionStep nd input.event nd' := by
  obtain ⟨-, -, htransition⟩ := step_transition hstep
  have hreact := react_of_step hstep
  obtain ⟨verifier, event⟩ := input
  have hdelivers : (∃ answer, event = .controller (.decide answer)) ∨
      (∃ answer, event = .inFlightDeliver answer) ∨
      (∃ answer, event = .viewChanger (.deliver answer)) → DecisionStep nd event nd' := by
    intro hevent
    obtain ⟨decision, answer, hdelivering, hkeeps⟩ := react_delivers hreact hevent
    refine .delivers hdelivering ?_ hkeeps
    rcases hevent with ⟨_, rfl⟩ | ⟨_, rfl⟩ | ⟨_, rfl⟩ <;> simp [outcome, hdelivering]
  by_cases hdecide : ∃ answer, event = .controller (.decide answer)
  · exact hdelivers (.inl hdecide)
  by_cases hinFlight : ∃ answer, event = .inFlightDeliver answer
  · exact hdelivers (.inr (.inl hinFlight))
  by_cases hdeliver : ∃ answer, event = .viewChanger (.deliver answer)
  · exact hdelivers (.inr (.inr hdeliver))
  by_cases hsync : ∃ response reconfig, event = .controller (.sync response reconfig)
  · obtain ⟨response, reconfig, rfl⟩ := hsync
    have hsynced : nd.controllerStep cfg verifier (.sync response reconfig) = some nd' := hreact
    cases controllerStep_steps hsynced with
    | sync => exact .syncs rfl rfl
  · refine .keeps ?_ (transition_keepsDecisions htransition
      (fun answer h => hdecide ⟨answer, h⟩) (fun answer h => hinFlight ⟨answer, h⟩)
      (fun answer h => hdeliver ⟨answer, h⟩) fun response reconfig h => hsync ⟨_, _, h⟩)
    change nd.outcome event = none
    unfold outcome
    split
    · exact absurd ⟨_, _, rfl⟩ hsync
    · unfold delivering
      split <;> grind

theorem startsPositive_of_sequencesFit (hpc : nd.viewChanger.pc.Readable)
    (h : nd.sequencesFit input = true) : nd.startsPositive input := by
  intro signed proposal own _ hevent hcommit _
  simp only [sequencesFit, hevent, hcommit, decide_eq_true_eq] at h
  simp only [hcommit, ViewChangerPc.Readable, Option.mem_def, Option.some.injEq,
    exists_eq_left'] at hpc
  obtain ⟨md, hmd, hsequence⟩ := hpc
  rw [nextSequence_of_lt h] at hsequence
  exact ⟨md, hmd, by omega⟩

theorem step_obtains (hreadable : ∃ md, nd.checkpointMetadata = some md)
    (hforward : nd.syncsForward input = true) (hstep : nd.step cfg input = some nd') :
    Obtains nd nd' (nd.outcome input.event) := by
  cases step_decisions hstep with
  | delivers hdelivering houtcome hkeeps =>
    rw [houtcome]
    refine obtains_keeps (deliver_obtains hreadable ?_) hkeeps
    intro synced hsynced
    simp only [syncsForward, hdelivering, Option.bind_some, hsynced] at hforward
    exact of_decide_eq_true hforward
  | syncs houtcome hsynced =>
    rw [houtcome, hsynced]
    exact beginSync_obtains hreadable _ _
  | keeps houtcome hkeeps =>
    rw [houtcome]
    exact obtains_nothing hreadable hkeeps

theorem deliver_checkpoint (nd : Node) (decision : Decision) (answer : DeliverAnswer) :
    (nd.deliver decision answer).checkpoint = nd.checkpoint ∨
      nd.deliverOutcome decision answer = some (.synced (nd.deliver decision answer).checkpoint) ∨
      nd.deliverOutcome decision answer =
        some (.delivered (nd.deliver decision answer).checkpoint) := by
  unfold deliver deliverOutcome
  cases decision.proposal.unmarshalMetadata with
  | none => exact .inl rfl
  | some pending =>
    cases nd.checkpointMetadata with
    | none => exact .inl rfl
    | some latest =>
      simp only
      split
      · exact .inr (.inl rfl)
      · exact .inr (.inr rfl)

theorem step_checkpoint (hstep : nd.step cfg input = some nd') :
    nd'.checkpoint = nd.checkpoint ∨
      nd.outcome input.event = some (.synced nd'.checkpoint) ∨
      nd.outcome input.event = some (.delivered nd'.checkpoint) := by
  cases step_decisions hstep with
  | delivers _ houtcome hkeeps =>
    rw [houtcome, hkeeps.checkpoint]
    exact deliver_checkpoint nd _ _
  | syncs houtcome hsynced =>
    rw [houtcome, hsynced]
    unfold beginSync
    simp only
    split
    · exact .inl rfl
    · exact .inl rfl
    · split
      · exact .inr (.inl rfl)
      · exact .inl rfl
  | keeps _ hkeeps => exact .inl hkeeps.checkpoint

theorem boot_checkpoint {entries : List SavedMessage} {checkpoint : Decision}
    (h : boot cfg entries checkpoint = .ok nd) :
    (∃ md, nd.checkpointMetadata = some md) ∧ nd.deliveries = [] := by
  obtain ⟨md, start, leader, v, inFlight, hmd, -, -, -, rfl⟩ := boot_ok h
  exact ⟨⟨md, hmd⟩, rfl⟩

def Increasing (outcomes : List Outcome) : Prop :=
  outcomes.Pairwise fun earlier later => ∀ decision, later = .delivered decision →
    earlier.sequence < decision.sequence

theorem run_obtains {inputs : List NodeInput} (hreadable : ∃ md, nd.checkpointMetadata = some md)
    (hpositive : Positive nd) (hpc : nd.viewChanger.pc.Readable)
    (hmeets : StepsMeet (Node.step cfg)
      (fun nd input => nd.syncsForward input = true ∧ nd.sequencesFit input = true) nd inputs) :
    (Increasing (outcomes cfg nd inputs) ∧
      ∀ decision, .delivered decision ∈ outcomes cfg nd inputs →
        nd.checkpoint.sequence < decision.sequence) ∧
    (checkpoints cfg nd inputs).Pairwise (· ≤ ·) ∧
      ∀ sequence ∈ checkpoints cfg nd inputs, nd.checkpoint.sequence ≤ sequence := by
  induction inputs generalizing nd with
  | nil => simp [outcomes, checkpoints, Increasing]
  | cons input inputs ih =>
    rw [outcomes, checkpoints]
    cases hstep : nd.step cfg input with
    | none => simp [Increasing]
    | some next =>
      have hobtains := step_obtains hreadable hmeets.1.1 hstep
      have hpositive' := hpositive.step hpc (startsPositive_of_sequencesFit hpc hmeets.1.2) hstep
      obtain ⟨⟨hincreasing, hahead⟩, hcheckpoints, hlater⟩ :=
        ih hobtains.readable hpositive' (step_readable hpc hstep) (hmeets.2 next hstep)
      have hle := hobtains.checkpoint_le
      simp only
      refine ⟨⟨?_, ?_⟩, ?_, ?_⟩
      · rw [Increasing, List.pairwise_append]
        refine ⟨?_, hincreasing, ?_⟩
        · cases nd.outcome input.event <;> simp
        · intro earlier hearlier later hlater' decision hdecision
          subst hdecision
          have hobtained := hobtains.obtained_le earlier (by simpa using hearlier)
          have := hahead decision hlater'
          omega
      · intro decision hdecision
        rcases List.mem_append.mp hdecision with hnow | hthen
        · have hdelivered : nd.outcome input.event = some (.delivered decision) := by
            simpa using hnow
          exact hobtains.ahead decision hdelivered
            (delivered_positive hpositive hpc hdelivered)
        · exact Nat.lt_of_le_of_lt hle (hahead decision hthen)
      · refine List.pairwise_cons.mpr ⟨?_, hcheckpoints⟩
        exact fun sequence hsequence => Nat.le_trans hle (hlater sequence hsequence)
      · intro sequence hsequence
        rcases List.mem_cons.mp hsequence with rfl | hsequence
        · exact Nat.le_refl _
        · exact Nat.le_trans hle (hlater sequence hsequence)

theorem run_deliveries {inputs : List NodeInput} {last : Node}
    (hreadable : ∃ md, nd.checkpointMetadata = some md)
    (hmeets : StepsMeet (Node.step cfg)
      (fun nd input => nd.syncsForward input = true ∧ nd.sequencesFit input = true) nd inputs)
    (hrun : run (Node.step cfg) nd inputs = some last) :
    last.deliveries =
      ((outcomes cfg nd inputs).filterMap Outcome.delivery).reverse ++ nd.deliveries := by
  induction inputs generalizing nd with
  | nil =>
    simp only [run, Option.some.injEq] at hrun
    subst hrun
    simp [outcomes]
  | cons input inputs ih =>
    obtain ⟨next, hstep, hrest⟩ := run_cons hrun
    have hobtains := step_obtains hreadable hmeets.1.1 hstep
    rw [ih hobtains.readable (hmeets.2 next hstep) hrest, hobtains.deliveries, outcomes, hstep]
    cases hdelivery : nd.outcome input.event with
    | none => simp
    | some o => cases ho : o.delivery <;> simp [ho]

end Node

/--
In every run of a node, restarts included, in which a sync that replaces a delivery is not
behind the checkpoint and no in-flight proposal is committed from a message that has the
greatest sequence in it: what is passed to the application has a higher sequence than all that
was delivered or synced before, and the sequence of the checkpoint never decreases.
-/
theorem deliveries_increase {cfg : Config} {checkpoint : Decision} {start nd : Node}
    {inputs : List NodeInput} (hboot : Node.boot cfg [] checkpoint = .ok start)
    (hmeets : StepsMeet (Node.step cfg)
      (fun nd input => nd.syncsForward input = true ∧ nd.sequencesFit input = true) start inputs)
    (hrun : run (Node.step cfg) start inputs = some nd) :
    Node.Increasing (Node.outcomes cfg start inputs) ∧
      nd.deliveries = ((Node.outcomes cfg start inputs).filterMap Outcome.delivery).reverse ∧
      (Node.checkpoints cfg start inputs).Pairwise (· ≤ ·) := by
  have hpositive : start.Positive := .boot (by simp) hboot
  obtain ⟨hreadable, hfirst⟩ := Node.boot_checkpoint hboot
  have hpc := Node.boot_readable hboot
  obtain ⟨⟨hincreasing, -⟩, hcheckpoints, -⟩ := Node.run_obtains hreadable hpositive hpc hmeets
  have hdeliveries := Node.run_deliveries hreadable hmeets hrun
  rw [hfirst, List.append_nil] at hdeliveries
  exact ⟨hincreasing, hdeliveries, hcheckpoints⟩

def decisionSix : Decision where
  proposal := { metadata := some (.marshal { latestSequence := 6 }) }

def deliverAndSync : List NodeInput :=
  accepting (decideFirst ++ deliverNext ++ [.requestSync,
    .controller (.sync decisionSix false)])

theorem deliveries_increase_after_sync :
    ∃ nd, run (Node.step (clusterOfFour 2)) (nodeOfFour 2) deliverAndSync = some nd ∧
      (Node.outcomes (clusterOfFour 2) (nodeOfFour 2) deliverAndSync).map Outcome.sequence =
        [1, 6] ∧
      Node.Increasing (Node.outcomes (clusterOfFour 2) (nodeOfFour 2) deliverAndSync) ∧
      (Node.checkpoints (clusterOfFour 2) (nodeOfFour 2) deliverAndSync).Pairwise (· ≤ ·) := by
  refine exists_of_isSome (by decide +kernel) fun hrun => ⟨by decide +kernel, ?_⟩
  obtain ⟨hincreasing, -, hcheckpoints⟩ :=
    deliveries_increase (boot_nodeOfFour 2) (by decide +kernel) hrun
  exact ⟨hincreasing, hcheckpoints⟩

def zeroProposal : Proposal where
  payload := [7]
  metadata := some (.marshal { decisionsInView := 1 })

/-- The nodes `2`, `3` and `4` are at genesis.  Two more entries of node `2`, which are not
looked at, claim that the greatest sequence is decided: the next one is `0`. -/
def wrappingNewView : List SignedViewData :=
  let genesis (signer : Nat) : SignedViewData :=
    ⟨.marshal { nextView := 1, lastDecision := some {} }, signer, []⟩
  let repeated : SignedViewData := ⟨.marshal {
    nextView := 1
    lastDecision := some { metadata := some (.marshal { latestSequence := UInt64.size - 1 }) }
    inFlightProposal := some zeroProposal
    inFlightPrepared := true }, 2, []⟩
  [genesis 2, genesis 3, genesis 4, repeated, repeated]

/-- Node `3` syncs, and commits what it has obtained in the view change. -/
def deliverZero : List NodeInput :=
  let receive (signer : Nat) : List NodeEvent :=
    [.inFlightView (.handleMessage signer (.commit {
      view := 0, seq := 0, digest := "seven", signature := some { signer := signer } })),
      .inFlightView .recv, .inFlightView (.commitVote 0)]
  accepting ([.requestSync, .controller (.sync { proposal := zeroProposal } false),
    .controller (.fetched none)] ++ joinViewOne ++
    [.viewChanger (.msg 2 (.newView wrappingNewView)), .viewChanger .validate,
      .viewChanger .commitInFlight, .inFlightView .default, .inFlightView .doPhase] ++
    receive 1 ++ receive 2 ++ [.inFlightView .finish, .inFlightDeliver {}])

/-- A proposal of sequence `0` is passed to the application after the sync has returned it. -/
theorem synced_delivered_again :
    Node.boot (clusterOfFour 3) [] {} = .ok (nodeOfFour 3) ∧
    StepsMeet (Node.step (clusterOfFour 3)) (fun nd input => nd.syncsForward input = true)
      (nodeOfFour 3) deliverZero ∧
    (run (Node.step (clusterOfFour 3)) (nodeOfFour 3) deliverZero).isSome = true ∧
    ∃ decision, Node.outcomes (clusterOfFour 3) (nodeOfFour 3) deliverZero =
        [.synced { proposal := zeroProposal }, .delivered decision] ∧
      decision.proposal = zeroProposal ∧
      ¬ Node.Increasing (Node.outcomes (clusterOfFour 3) (nodeOfFour 3) deliverZero) := by
  have houtcomes : Node.outcomes (clusterOfFour 3) (nodeOfFour 3) deliverZero =
      [.synced { proposal := zeroProposal }, .delivered {
        proposal := zeroProposal, signatures := [⟨1, [], []⟩, ⟨2, [], []⟩, ⟨3, [7], []⟩] }] := by
    decide +kernel
  refine ⟨rfl, by decide +kernel, by decide +kernel, _, houtcomes, rfl, ?_⟩
  rw [houtcomes]
  intro hincreasing
  have hlater := (List.pairwise_cons.mp hincreasing).1 _ List.mem_cons_self _ rfl
  simp [Outcome.sequence, Decision.sequence] at hlater

end SmartBFT
