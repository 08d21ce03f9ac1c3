import SmartBFT.Node.PruneInFlight

/-!
# What a step does to the in-flight record

`RecordStep` lists the steps that change the in-flight record or that save a vote, which is
the record of a proposal or a commit: the view accepts a proposal, the view is prepared, a
sync clears the record of a proposal that is not ahead of what it has returned, and a restart
reads the record back from the log.
-/

namespace SmartBFT

def ControllerPc.synced : ControllerPc → Option ViewMetadata
  | .fetching latest _ _ _ _ => latest
  | _ => none

namespace Node

variable {cfg : Config} {verifier : Verifier} {nd nd' : Node}

theorem changeView_synced (nd : Node) (view seq dec : Nat) (rotation : Bool) :
    (nd.changeView cfg view seq dec rotation).controller.pc.synced = none := by
  let waits : Node → Prop := fun last => last.controller.pc.synced = none
  exact changeView_cases (motive := waits)
    (fun _ => afterChangeView_cases (motive := waits) fun _ _ => rfl) rfl

theorem endSync_synced (nd : Node) (view seq dec : Nat) :
    (nd.endSync cfg view seq dec).controller.pc.synced = none := by
  unfold endSync
  simp only
  split <;> exact changeView_synced _ _ _ _ _

theorem informOrEnd_synced (nd : Node) (controllerViewNum newViewNum seq dec : Nat) :
    (nd.informOrEnd cfg controllerViewNum newViewNum seq dec).controller.pc.synced = none := by
  unfold informOrEnd
  split
  · rfl
  · exact endSync_synced _ _ _ _

theorem fetched_synced (nd : Node) (latest : Option ViewMetadata)
    (controllerViewNum newViewNum seq dec : Nat) (response : Option ViewAndSeq) :
    (nd.fetched cfg latest controllerViewNum newViewNum seq dec
      response).controller.pc.synced = none := by
  exact fetched_cases (motive := fun mid => mid.controller.pc.synced = none)
    (endSync_synced _ _ _ _) (informOrEnd_synced _ _ _ _ _)
    (fun _ _ _ => informOrEnd_synced _ _ _ _ _)

theorem ControllerSteps.synced {event : ControllerEvent}
    (h : ControllerSteps cfg verifier nd event nd') :
    nd'.controller.pc.synced = none ∨ ∃ response reconfig, event = .sync response reconfig ∧
      latestMetadata response = some nd'.controller.pc.synced := by
  let waits : Node → Prop := fun last => last.controller.pc.synced = none
  cases h with
  | rotate hpc =>
    refine .inl (rotateOrFinish_cases (motive := waits) (fun _ => ?_)
      (fun _ _ _ => changeView_synced _ _ _ _ _)
      (fun _ _ _ => finishDecide_cases (motive := waits) fun _ _ => rfl))
    simp [waits, panic, hpc, ControllerPc.synced]
  | fetched response hpc => exact .inl (fetched_synced _ _ _ _ _ _ _)
  | informed hpc => exact .inl (endSync_synced _ _ _ _)
  | informedStopped hpc => exact .inl (endSync_synced _ _ _ _)
  | restarted hended hpc =>
    exact .inl (restartView_cases (motive := waits) (fun _ _ _ => rfl) (fun _ _ _ _ _ => rfl))
  | viewChange hpc hinfo => exact .inl (changeView_synced _ _ _ _ _)
  | abortView hpc =>
    left
    unfold Node.abortView
    split
    · simp [hpc, ControllerPc.synced]
    · rfl
  | propose batch hpc =>
    have hselect : nd.controller.pc.synced = none := by simp [hpc, ControllerPc.synced]
    exact .inl (propose_cases (motive := waits) (fun _ => hselect) (fun _ => hselect)
      (fun _ => hselect) (fun _ _ => rfl))
  | sync response reconfig hpc =>
    refine beginSync_cases (motive := fun last => last.controller.pc.synced = none ∨
      ∃ response' reconfig', ControllerEvent.sync response reconfig = .sync response' reconfig' ∧
        latestMetadata response' = some last.controller.pc.synced)
      (fun _ => .inl ?_) (fun _ _ hlatest _ _ => .inr ?_) (fun _ _ hlatest _ _ => .inr ?_)
    · simp [panic, enterSync, hpc, ControllerPc.synced]
    · exact ⟨response, reconfig, rfl, hlatest⟩
    · exact ⟨response, reconfig, rfl, hlatest⟩
  | _ => exact .inl rfl

theorem step_synced {input : NodeInput} (h : nd.step cfg input = some nd') {md : ViewMetadata}
    (hmd : nd'.controller.pc.synced = some md) :
    nd.controller.pc.synced = some md ∨ ∃ response reconfig,
      input.event = .controller (.sync response reconfig) ∧
        latestMetadata response = some (some md) := by
  obtain ⟨verifier, event⟩ := input
  obtain ⟨-, -, hsteps⟩ := step_steps h
  have hkept := hsteps.keepsRunLoop
  cases hsteps with
  | view hview =>
    rw [(applyOutputs_keepsRunLoop cfg _ _ _).pc] at hmd
    exact .inl hmd
  | controller hsteps =>
    rcases hsteps.synced with hnone | ⟨response, reconfig, rfl, hlatest⟩
    · simp [hnone] at hmd
    · exact .inr ⟨response, reconfig, rfl, hmd ▸ hlatest⟩
  | viewStopped => exact .inl hmd
  | stop => exact .inl hmd
  | down => exact .inl hmd
  | restarted hboot =>
    obtain ⟨_, start, leader, v, inFlight, -, -, -, -, rfl⟩ := boot_ok hboot
    simp [started, ControllerPc.synced] at hmd
  | _ => exact .inl ((hkept rfl).pc ▸ hmd)

def PrunedBy (latest : Option ViewMetadata) (nd nd' : Node) : Prop :=
  nd'.persisted.inFlight = nd.persisted.inFlight ∨
    ∃ synced data md, latest = some synced ∧ nd.persisted.inFlight = some data ∧
      data.proposal.unmarshalMetadata = some md ∧
      md.latestSequence ≤ synced.latestSequence ∧ nd'.persisted.inFlight = none

theorem maybePruneInFlight_prunedBy (nd : Node) (latest : ViewMetadata) :
    PrunedBy (some latest) nd (nd.maybePruneInFlight latest) := by
  unfold maybePruneInFlight
  split
  · exact .inl rfl
  · rename_i data hdata
    split
    · exact .inl rfl
    · rename_i md hmd
      split
      · exact .inl rfl
      · rename_i hle
        exact .inr ⟨latest, data, md, rfl, hdata, hmd, by omega, rfl⟩

theorem fetched_prunedBy (cfg : Config) (nd : Node) (latest : Option ViewMetadata)
    (controllerViewNum newViewNum seq dec : Nat) (response : Option ViewAndSeq) :
    PrunedBy latest nd
      (nd.fetched cfg latest controllerViewNum newViewNum seq dec response) := by
  have hprune : ∀ mid : Node, mid.persisted.inFlight = nd.persisted.inFlight →
      ∀ newViewNum dec : Nat, PrunedBy latest nd
        ((latest.elim mid mid.maybePruneInFlight).informOrEnd cfg controllerViewNum newViewNum
          seq dec) := by
    intro mid hmid newViewNum dec
    simp only [PrunedBy, informOrEnd_persisted, ← hmid]
    cases latest with
    | none => exact .inl rfl
    | some synced => exact maybePruneInFlight_prunedBy mid synced
  exact fetched_cases (motive := PrunedBy latest nd) (.inl (by rw [endSync_persisted]))
    (hprune nd rfl _ _) (fun _ _ _ => hprune _ (save_inFlight nd rfl) _ _)

end Node

/-! ## The votes of a step -/

def Node.SavesOnly (nd nd' : Node) (p : SavedMessage → Prop) : Prop :=
  ∀ m, m.ofViewChange = false → .save m ∈ nd'.trace → .save m ∈ nd.trace ∨ p m

theorem QuietAction.ofViewChange {m : SavedMessage} (h : QuietAction (.save m)) :
    m.ofViewChange = true := by
  cases h with
  | viewChanger h => nomatch h
  | saveViewChange view => rfl
  | saveNewView md => rfl

theorem QuietEffect.savesOnly {nd nd' : Node} (h : QuietEffect nd nd') (p : SavedMessage → Prop) :
    nd.SavesOnly nd' p := by
  intro m hm hmem
  rcases h.mem_trace hmem with hold | hquiet
  · exact .inl hold
  · simp [hquiet.ofViewChange] at hm

theorem Node.applyOutputs_savesOnly (cfg : Config) (origin : Origin) (nd : Node)
    {outputs : List ViewOutput} {p : SavedMessage → Prop} (hp : ∀ m, .save m ∈ outputs → p m) :
    nd.SavesOnly (nd.applyOutputs cfg origin outputs) p := by
  intro m _ hmem
  rcases mem_trace_applyOutputs hmem with hold | houtput
  · exact .inl hold
  · cases houtput with
    | save hsave => exact .inr (hp m hsave)

theorem Node.deliver_savesOnly (nd : Node) (decision : Decision) (answer : DeliverAnswer)
    (p : SavedMessage → Prop) : nd.SavesOnly (nd.deliver decision answer) p := by
  intro m _ hmem
  rcases mem_trace_deliver hmem with hold | hnew
  · exact .inl hold
  · simp at hnew

theorem NodeTransition.savesOnly {cfg : Config} {nd nd' : Node} {input : NodeInput}
    (h : NodeTransition cfg nd input nd') (hview : ∀ event, input.event ≠ .view event)
    (hshape : ∀ v ∈ nd.inFlightView, InFlightShape v) (p : SavedMessage → Prop) :
    nd.SavesOnly nd' p := by
  cases h with
  | quiet _ heffect => exact heffect.savesOnly p
  | @view _ event => exact absurd rfl (hview event)
  | @inFlightView verifier event view view' outputs hinFlight htransition =>
    have hnone := (hshape view hinFlight).saves_nothing htransition
    have hsaves := Node.applyOutputs_savesOnly cfg .inFlightView
      { nd with inFlightView := some (Node.awaitSync view' outputs) }
      (p := p) fun m hm => absurd hm (hnone m)
    exact hsaves
  | inFlightDeliver _ answer => exact Node.deliver_savesOnly nd _ answer p
  | decide _ answer => exact Node.deliver_savesOnly nd _ answer p
  | sync _ _ _ _ heffect => exact heffect.savesOnly p
  | restarted _ _ heffect => exact heffect.savesOnly p
  | viewData _ _ heffect =>
    intro m hm hmem
    rcases heffect.savesOnly p m hm hmem with hold | hp
    · exact .inl (by simpa [Node.record] using hold)
    · exact .inr hp
  | delivered _ answer _ heffect =>
    intro m hm hmem
    rcases heffect.savesOnly p m hm hmem with hold | hp
    · exact Node.deliver_savesOnly nd _ answer p m hm hold
    · exact .inr hp
  | _ => exact fun _ _ hmem => .inl hmem

def Node.takesUp (nd : Node) (event : NodeEvent) : Option PrePrepare :=
  match event, nd.currView.pc with
  | .view .prePrepare, .select .processProposal => nd.currView.prePrepare
  | _, _ => none

theorem View.Transition.saves_proposed {cfg : Config} {verifier : Verifier}
    {checkpoint : Decision} {v v' : View} {event : ViewEvent} {outputs : List ViewOutput}
    (h : View.Transition cfg verifier checkpoint v event v' outputs) {pp : PrePrepare}
    {prepare : Prepare} (hsave : .save (.proposedRecord pp prepare) ∈ outputs) :
    event = .prePrepare := by
  cases h with
  | received => exact nomatch processMsg_reaction cfg _ _ _ _ hsave
  | accepted => rfl
  | _ => simp [View.rejectProposal, View.decide, View.finishPrepares] at hsave

inductive RecordStep (cfg : Config) (nd : Node) (event : NodeEvent) (nd' : Node) : Prop where
  | kept (hinFlight : nd'.persisted.inFlight = nd.persisted.inFlight)
      (hsaves : nd.SavesOnly nd' fun _ => False)
  | proposed {pp : PrePrepare} {prepare : Prepare} {proposal : Proposal}
      (hlive : nd.panicked = none) (hrecord : RecordOf cfg proposal pp prepare)
      (hphase : nd.currView.phase = .committed) (hview : pp.view = nd.currView.number)
      (hseq : pp.seq = nd.currView.proposalSequence)
      (hsaved : .save (.proposedRecord pp prepare) ∈ nd'.trace)
      (hsaves : nd.SavesOnly nd' fun m => m = .proposedRecord pp prepare)
      (htakes : nd.takesUp event = some pp)
      (hinFlight : nd'.persisted.inFlight = some { proposal := proposal })
  | prepared {commit : Commit} {proposal : Proposal}
      (hbefore : nd.persisted.inFlight = some { proposal := proposal })
      (hafter : nd'.persisted.inFlight = some { proposal := proposal, prepared := true })
      (hdigest : commit.digest = cfg.digest proposal)
      (hsaves : nd.SavesOnly nd' fun m => m = .commit commit)
  | pruned {synced md : ViewMetadata} {data : InFlightProposalData}
      (hsynced : nd.controller.pc.synced = some synced)
      (hdata : nd.persisted.inFlight = some data)
      (hmd : data.proposal.unmarshalMetadata = some md)
      (hle : md.latestSequence ≤ synced.latestSequence)
      (hinFlight : nd'.persisted.inFlight = none)
      (hsaves : nd.SavesOnly nd' fun _ => False)
  | restarted {started : Node} (hevent : event = .crash)
      (hboot : Node.boot cfg nd.persisted.wal nd.checkpoint = .ok started)
      (hinFlight : nd'.persisted.inFlight = started.persisted.inFlight)
      (hsaves : nd.SavesOnly nd' fun _ => False)

namespace Node

variable {cfg : Config} {verifier : Verifier} {nd nd' : Node}

theorem saveCommit_record {commit : Commit} {proposal : Proposal}
    (hrecord : nd.persisted.inFlight = some { proposal := proposal })
    (hdigest : commit.digest = cfg.digest proposal) (view : View) (event : NodeEvent) :
    RecordStep cfg nd event ({ nd with currView := view }.save (.commit commit)) := by
  rw [save_commit_stored hrecord]
  refine .prepared hrecord rfl hdigest fun m _ hmem => ?_
  rcases List.mem_cons.mp hmem with hnew | hold
  · exact .inr (by simpa using hnew)
  · exact .inl hold

theorem viewStep_record (hlog : LogInvariant cfg nd) (hlive : nd.panicked = none)
    {event : ViewEvent} (h : nd.viewStep cfg verifier event = some nd') :
    RecordStep cfg nd (.view event) nd' := by
  obtain ⟨view, outputs, hview, rfl⟩ := viewStep_cases h
  have htransition := View.transition_of_step hview
  have hlogged := hlog.view hlive
  rcases htransition.saves with hnone | hsaves
  · have hsaves := applyOutputs_savesOnly cfg (.view view.number) { nd with currView := view }
      (p := fun _ => False) fun m hm => absurd hm (hnone m)
    exact .kept (applyOutputs_inFlight _ _ hnone) hsaves
  · cases hsaves with
    | @proposed _ pp proposal prepare md rest hpc hpp hproposal hmd hnumber hseq hprepare
        haccepted hrest =>
        obtain ⟨hppView, hppSeq⟩ := hlogged.prePrepares.current pp hpp
        have hphase := hlogged.loop .committed (by simp [hpc, ViewPc.loopPhase])
        have hrecord : RecordOf cfg proposal pp prepare := by
          refine ⟨hproposal, ⟨md, hmd, hnumber.trans hppView.symm, hseq.trans hppSeq.symm⟩, ?_⟩
          rw [hprepare, hppView, hppSeq]
          rfl
        have hsaves := @applyOutputs_savesOnly cfg (.view view.number)
          { nd with currView := view } (.save (.proposedRecord pp prepare) :: rest)
          (fun m => m = .proposedRecord pp prepare) fun m hm => by
            rcases List.mem_cons.mp hm with hfirst | hlater
            · simpa using hfirst
            · simpa using hrest _ hlater
        have htakes : nd.takesUp (.view event) = some pp := by
          rw [htransition.saves_proposed List.mem_cons_self]
          simpa [takesUp, hpc] using hpp
        have hstored : { nd with currView := view }.applyOutput cfg (.view view.number)
            (.save (.proposedRecord pp prepare)) = { nd with
              currView := view
              persisted := {
                inFlight := some { proposal := proposal }
                wal := [.proposedRecord pp prepare] }
              trace := .save (.proposedRecord pp prepare) :: nd.trace } := by
          simp [applyOutput, save, PersistedState.save, PersistedState.storeProposal, hproposal,
            InFlightData.storeProposal, PersistedState.append, Except.map, record]
        have hnone : ∀ m, .save m ∉ rest := fun m hm => by simpa using hrest _ hm
        have hafter : .save (.proposedRecord pp prepare) ∈ ({ nd with currView := view
              }.applyOutputs cfg (.view view.number)
                (.save (.proposedRecord pp prepare) :: rest)).trace ∧
            ({ nd with currView := view }.applyOutputs cfg (.view view.number)
              (.save (.proposedRecord pp prepare) :: rest)).persisted.inFlight =
                some { proposal := proposal } := by
          refine applyOutputs_cons (motive := fun last => .save (.proposedRecord pp prepare) ∈
            last.trace ∧ last.persisted.inFlight = some { proposal := proposal }) ?_ fun _ => ?_
          · rw [hstored]
            exact ⟨List.mem_cons_self, rfl⟩
          · rw [applyOutputs_inFlight _ _ hnone, hstored]
            exact ⟨applyOutputs_trace_subset cfg _ rest _ List.mem_cons_self, rfl⟩
        exact .proposed hlive hrecord hphase hppView hppSeq hafter.1 hsaves htakes hafter.2
    | @prepared voterIDs proposal hpc hproposal henough =>
      have hphase := hlogged.loop .proposed (by simp [hpc, ViewPc.loopPhase])
      rw [View.finishPrepares, applyOutputs_save]
      rcases hlog.record hlive hphase hproposal with hpruned | hrecord
      · rw [save_commit_empty hpruned]
        exact .kept rfl fun _ _ hmem => .inl hmem
      · exact saveCommit_record hrecord rfl _ _

theorem step_record (hlog : LogInvariant cfg nd) {input : NodeInput}
    (hstep : nd.step cfg input = some nd') : RecordStep cfg nd input.event nd' := by
  obtain ⟨hstarted, -, htransition⟩ := step_transition hstep
  obtain ⟨verifier, event⟩ := input
  simp only [step, Option.ite_none_left_eq_some] at hstep
  obtain ⟨-, -, hreact⟩ := hstep
  by_cases hview : ∃ event', event = .view event'
  · obtain ⟨event, rfl⟩ := hview
    exact viewStep_record hlog (hstarted.resolve_right (by simp)) hreact
  have hview : ∀ event', event ≠ .view event' := fun event' heq => hview ⟨event', heq⟩
  have hsaves := htransition.savesOnly hview hlog.inFlight fun _ => False
  have hsteps := react_steps hreact
  by_cases hcrash : event = .crash
  · subst hcrash
    cases hsteps with
    | down text => exact .kept rfl hsaves
    | restarted hboot => exact .restarted rfl hboot rfl hsaves
  by_cases hfetched : ∃ response, event = .controller (.fetched response)
  · obtain ⟨response, rfl⟩ := hfetched
    have hstep : nd.controllerStep cfg verifier (.fetched response) = some nd' := hreact
    cases controllerStep_steps hstep with
    | @fetched latest controllerViewNum newViewNum seq dec _ hpc =>
      rcases fetched_prunedBy cfg nd latest controllerViewNum newViewNum seq dec response with
        hsame | ⟨synced, data, md, rfl, hdata, hmd, hle, hnone⟩
      · exact .kept hsame hsaves
      · exact .pruned (by simp [hpc, ControllerPc.synced]) hdata hmd hle hnone hsaves
  · exact .kept (hsteps.inFlight hlog hview hcrash fun response heq =>
      hfetched ⟨response, heq⟩) hsaves

end Node

end SmartBFT
