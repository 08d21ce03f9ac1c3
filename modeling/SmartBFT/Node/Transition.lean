import SmartBFT.Node.RunLoop
import SmartBFT.ViewTransition

/-!
# What a step of a node can do

`NodeTransition` lists the steps of a node that concern the views, the
checkpoint, the view data or a restart.  All the others are sequences of
`QuietOp`s: what is private to the run loop and to the view changer is left
open there, so that an invariant of the views, of the log or of the history has
one case for all of it.
-/

namespace SmartBFT

open Relation

inductive InFlightMove : View → View → Prop where
  | stop (view : View) : InFlightMove view view.stop
  | decided {view : View} (hpc : view.pc = .delivering) : InFlightMove view view.decided
  | synced {view : View} {loop : ViewLoop} (hpc : view.pc = .syncing loop) :
      InFlightMove view { view with pc := .select loop }

inductive QuietOp : Node → Node → Prop where
  | loops (nd : Node) (c : Controller) (vc : ViewChanger) :
      QuietOp nd { nd with controller := c, viewChanger := vc }
  | sequence (nd : Node) (vs : ViewSequence) : QuietOp nd { nd with viewSequences := vs }
  | stopView (nd : Node) : QuietOp nd { nd with currView := nd.currView.stop }
  | viewDecided (nd : Node) (hpc : nd.currView.pc.inDecide = true) :
      QuietOp nd { nd with currView := nd.currView.decided }
  | moveInFlight (nd : Node) {view view' : View} (hview : nd.inFlightView = some view)
      (hmove : InFlightMove view view') : QuietOp nd { nd with inFlightView := some view' }
  | record (nd : Node) {action : Action} (h : ViewChangerAction action) :
      QuietOp nd (nd.record action)
  | saveViewChange (nd : Node) (view : Nat) : QuietOp nd (nd.save (.viewChange view))
  | saveNewView (nd : Node) (md : ViewMetadata) : QuietOp nd (nd.save (.newView md))
  | prune (nd : Node) :
      QuietOp nd { nd with persisted := { nd.persisted with inFlight := none } }
  | panic (nd : Node) (text : String) : QuietOp nd (nd.panic text)

abbrev QuietEffect := ReflTransGen QuietOp

theorem QuietEffect.keeps {motive : Node → Prop}
    (hop : ∀ {a b}, QuietOp a b → motive a → motive b) {nd nd' : Node}
    (h : QuietEffect nd nd') (hmotive : motive nd) : motive nd' := by
  induction h with
  | refl => exact hmotive
  | tail _ hlast ih => exact hop hlast ih

inductive QuietAction : Action → Prop where
  | viewChanger {action : Action} (h : ViewChangerAction action) : QuietAction action
  | saveViewChange (view : Nat) : QuietAction (.save (.viewChange view))
  | saveNewView (md : ViewMetadata) : QuietAction (.save (.newView md))

variable {cfg : Config} {verifier : Verifier} {settled voting : Bool} {nd nd' : Node}
  {input : NodeInput} {action : Action}

theorem QuietAction.ne_viewData (h : QuietAction action)
    (purpose : ViewDataFor) (vd : ViewData) : action ≠ .viewData purpose vd := by
  rintro rfl
  cases h with
  | viewChanger h => nomatch h

theorem mem_trace_save {m : SavedMessage}
    (h : action ∈ (nd.save m).trace) : action ∈ nd.trace ∨ action = .save m := by
  rcases Node.save_cases nd m with ⟨text, hcase⟩ | ⟨persisted, -, hcase⟩ <;> rw [hcase] at h
  · exact .inl h
  · exact (List.mem_cons.mp h).symm

theorem trace_subset_save (nd : Node) (m : SavedMessage) : nd.trace ⊆ (nd.save m).trace := by
  rcases Node.save_cases nd m with ⟨text, hcase⟩ | ⟨persisted, -, hcase⟩ <;> rw [hcase]
  · exact List.Subset.refl _
  · exact List.subset_cons_self _ _

theorem QuietOp.trace_subset (h : QuietOp nd nd') : nd.trace ⊆ nd'.trace := by
  cases h with
  | record => exact List.subset_cons_self _ _
  | saveViewChange => exact trace_subset_save nd _
  | saveNewView => exact trace_subset_save nd _
  | _ => exact List.Subset.refl _

theorem QuietOp.mem_trace (h : QuietOp nd nd')
    (hmem : action ∈ nd'.trace) : action ∈ nd.trace ∨ QuietAction action := by
  cases h with
  | record haction =>
    rcases List.mem_cons.mp hmem with rfl | hold
    · exact .inr (.viewChanger haction)
    · exact .inl hold
  | saveViewChange view =>
    rcases mem_trace_save hmem with hold | rfl
    · exact .inl hold
    · exact .inr (.saveViewChange view)
  | saveNewView md =>
    rcases mem_trace_save hmem with hold | rfl
    · exact .inl hold
    · exact .inr (.saveNewView md)
  | _ => exact .inl hmem

theorem QuietEffect.mem_trace (h : QuietEffect nd nd')
    (hmem : action ∈ nd'.trace) : action ∈ nd.trace ∨ QuietAction action := by
  induction h with
  | refl => exact .inl hmem
  | tail _ hop ih => exact (hop.mem_trace hmem).elim ih .inr

inductive NodeTransition (cfg : Config) : Node → NodeInput → Node → Prop where
  | quiet {nd nd' : Node} (input : NodeInput) (h : QuietEffect nd nd') :
      NodeTransition cfg nd input nd'
  | view {nd : Node} {verifier : Verifier} {event : ViewEvent} {view : View}
      {outputs : List ViewOutput}
      (h : View.Transition cfg verifier nd.checkpoint nd.currView event view outputs) :
      NodeTransition cfg nd ⟨verifier, .view event⟩
        ({ nd with currView := view }.applyOutputs cfg (.view view.number) outputs)
  | inFlightView {nd : Node} {verifier : Verifier} {event : ViewEvent} {view view' : View}
      {outputs : List ViewOutput} (hview : nd.inFlightView = some view)
      (h : View.Transition cfg verifier nd.checkpoint view event view' outputs) :
      NodeTransition cfg nd ⟨verifier, .inFlightView event⟩
        ({ nd with inFlightView := some (Node.awaitSync view' outputs) }.applyOutputs cfg
          .inFlightView outputs)
  | inFlightDeliver {nd : Node} {view : View} {decision : Decision}
      {requests : List RequestInfo} (verifier : Verifier) (answer : DeliverAnswer)
      (vc : ViewChanger) (hview : nd.inFlightView = some view)
      (hpc : view.pc = .deciding decision requests) :
      NodeTransition cfg nd ⟨verifier, .inFlightDeliver answer⟩
        { nd.deliver decision answer with
          inFlightView := some { view.stop with pc := .delivering }
          viewChanger := vc }
  | decide {nd : Node} {decision : Decision} {requests : List RequestInfo}
      (verifier : Verifier) (answer : DeliverAnswer) (c : Controller)
      (hview : nd.currView.pc = .deciding decision requests) :
      NodeTransition cfg nd ⟨verifier, .controller (.decide answer)⟩
        { nd.deliver decision answer with
          currView := { nd.currView with pc := .delivering }
          controller := c }
  | proposed {nd : Node} {proposal : Proposal} (verifier : Verifier) (c : Controller) :
      NodeTransition cfg nd ⟨verifier, .controller .proposed⟩
        { nd with
          currView := { nd.currView with incMsgs := nd.currView.incMsgs ++
            [(nd.currView.leaderID, nd.currView.proposeMessage cfg nd.checkpoint proposal)] }
          controller := c }
  | sync {nd nd' : Node} (verifier : Verifier) (response : Decision) (reconfig : Bool)
      {checkpoint : Decision}
      (hcheckpoint : checkpoint = nd.checkpoint ∨ checkpoint = response)
      (h : QuietEffect { nd with checkpoint := checkpoint } nd') :
      NodeTransition cfg nd ⟨verifier, .controller (.sync response reconfig)⟩ nd'
  | restarted {nd nd' : Node} {view seq dec leader : Nat} {rotation : Bool}
      (verifier : Verifier)
      (hpc : nd.controller.pc = .aborting (.start view seq dec rotation))
      (h : QuietEffect { nd with currView := .fresh leader seq view dec } nd') :
      NodeTransition cfg nd ⟨verifier, .controller .viewEnded⟩ nd'
  | viewData {nd nd' : Node} {lastDecision : Decision} {inFlight : Option Proposal}
      {purpose : ViewDataFor} (verifier : Verifier)
      (hpc : nd.viewChanger.pc = .readPrepared lastDecision inFlight purpose)
      (h : QuietEffect
        (nd.record (.viewData purpose (nd.viewDataOf lastDecision inFlight))) nd') :
      NodeTransition cfg nd ⟨verifier, .viewChanger .readPrepared⟩ nd'
  | delivered {nd nd' : Node} {decision : Decision} {purpose : DeliverFor}
      (verifier : Verifier) (answer : DeliverAnswer)
      (hpc : nd.viewChanger.pc = .deliver decision purpose)
      (h : QuietEffect (nd.deliver decision answer) nd') :
      NodeTransition cfg nd ⟨verifier, .viewChanger (.deliver answer)⟩ nd'
  | startInFlight {nd : Node} {signed : List SignedViewData} {proposal : Proposal} {own : Bool}
      {md : ViewMetadata} (verifier : Verifier) (vc : ViewChanger)
      (hpc : nd.viewChanger.pc = .commitInFlight signed (some proposal) own)
      (hplan : Node.planInFlight nd.checkpoint proposal = .commit md) :
      NodeTransition cfg nd ⟨verifier, .viewChanger .commitInFlight⟩
        { nd with
          inFlightView := some (Node.newInFlightView cfg proposal md)
          viewChanger := vc }
  | crash {nd restarted : Node} (verifier : Verifier)
      (h : Node.boot cfg nd.persisted.wal nd.checkpoint = .ok restarted) :
      NodeTransition cfg nd ⟨verifier, .crash⟩ { restarted with trace := nd.trace }

/-! ## The operations of the two loops are quiet -/

theorem ViewChangerOp.quiet (h : ViewChangerOp cfg verifier settled voting nd nd') :
    QuietOp nd nd' := by
  cases h with
  | record h => exact .record nd h
  | saveViewChange _ view => exact .saveViewChange nd view
  | saveNewView => exact .saveNewView nd _
  | panic text => exact .panic nd text
  | _ => exact .loops nd _ _

theorem RunLoopOp.quiet (h : RunLoopOp nd nd') : QuietOp nd nd' := by
  cases h with
  | own c => exact .loops nd c nd.viewChanger
  | stopView => exact .stopView nd
  | saveNewView md => exact .saveNewView nd md
  | prune => exact .prune nd
  | inform => exact .loops nd nd.controller _
  | panic text => exact .panic nd text

theorem ViewChangerEffect.quiet
    (h : ViewChangerEffect cfg verifier settled voting nd nd') : QuietEffect nd nd' :=
  ReflTransGen.mono (fun _ _ => ViewChangerOp.quiet) _ _ h

theorem RunLoopEffect.quiet (h : RunLoopEffect nd nd') :
    QuietEffect nd nd' :=
  ReflTransGen.mono (fun _ _ => RunLoopOp.quiet) _ _ h

namespace Node

theorem quiet_sync (cfg : Config) (nd : Node) : QuietEffect nd (nd.sync cfg) := by
  unfold sync
  split <;> exact ReflTransGen.single (.loops nd _ nd.viewChanger)

theorem quiet_startViewChange (nd : Node) (view : Nat) (stopView : Bool) :
    QuietEffect nd (nd.startViewChange view stopView) := by
  unfold startViewChange
  split
  · exact ReflTransGen.single (.loops nd nd.controller _)
  · exact .refl

theorem applyOutputs_keeps {motive : Node → Prop} (cfg : Config) (origin : Origin)
    {outputs : List ViewOutput} (hquiet : ∀ {a b}, QuietOp a b → motive a → motive b)
    (hbroadcast : ∀ m, .broadcast m ∈ outputs →
      ∀ nd, motive nd → motive (nd.record (.broadcast origin m)))
    (hsend : ∀ target m, .send target m ∈ outputs →
      ∀ nd, motive nd → motive (nd.record (.send target m)))
    (hsave : ∀ m, .save m ∈ outputs → ∀ nd, motive nd → motive (nd.save m))
    (h : motive nd) : motive (nd.applyOutputs cfg origin outputs) := by
  refine applyOutputs_induction cfg origin (fun output houtput mid hmid => ?_) h
  cases output with
  | broadcast m => exact hbroadcast m houtput mid hmid
  | send target m => exact hsend target m houtput mid hmid
  | save m => exact hsave m houtput mid hmid
  | complain viewNum stopView =>
    simp only [applyOutput, complain]
    split
    · exact hquiet (.panic mid _) hmid
    · exact (quiet_startViewChange mid viewNum stopView).keeps hquiet hmid
  | sync => exact (quiet_sync cfg mid).keeps hquiet hmid
  | storeSequence vs => exact hquiet (.sequence mid vs) hmid
  | panic text => exact hquiet (.panic mid text) hmid

theorem quiet_leaveInFlight (nd : Node) (success own : Bool) :
    QuietEffect nd (nd.leaveInFlight success own) := by
  unfold leaveInFlight
  cases hview : nd.inFlightView with
  | none =>
    have hsame : nd = { nd with inFlightView := none } := by rw [← hview]
    rw [Option.map_none, ← hsame]
    exact ReflTransGen.single (.loops nd nd.controller _)
  | some view =>
    exact (ReflTransGen.single (.moveInFlight nd hview (.stop view))).tail
      (.loops _ nd.controller _)

theorem quiet_timedOut (cfg : Config) (nd : Node) : QuietEffect nd (nd.timedOut cfg) :=
  ((ReflTransGen.single (.loops nd nd.controller _)).trans (quiet_sync cfg _)).trans
    (quiet_startViewChange _ _ _)

end Node

/-! ## The list is complete -/

namespace Node

theorem transition_of_viewChangerStep {event : ViewChangerEvent}
    (h : nd.viewChangerStep cfg verifier event = some nd') :
    NodeTransition cfg nd ⟨verifier, .viewChanger event⟩ nd' := by
  cases viewChangerStep_transition h with
  | effect _ h => exact .quiet _ h.quiet
  | newView hsettled own => exact .quiet _ (hsettled.effect own).quiet
  | viewData hpc h => exact .viewData verifier hpc h.quiet
  | delivered answer hpc h => exact .delivered verifier answer hpc h.quiet
  | read | beginCommit => exact .quiet _ (ReflTransGen.single (.loops nd nd.controller _))
  | startInFlight hpc hplan => exact .startInFlight verifier _ hpc hplan
  | decided hpc hview hdelivering =>
    exact .quiet _ ((ReflTransGen.single (.moveInFlight nd hview (.decided hdelivering))).trans
      (quiet_leaveInFlight _ _ _))
  | synced hpc hview hsyncing =>
    exact .quiet _ ((ReflTransGen.single (.moveInFlight nd hview (.synced hsyncing))).trans
      (quiet_leaveInFlight _ _ _))
  | timeout => exact .quiet _ ((quiet_timedOut cfg nd).trans (quiet_leaveInFlight _ _ _))
  | stop => exact .quiet _ (quiet_leaveInFlight nd _ _)

theorem transition_of_controllerSteps {event : ControllerEvent}
    (h : ControllerSteps cfg verifier nd event nd') :
    NodeTransition cfg nd ⟨verifier, .controller event⟩ nd' := by
  cases h.transition with
  | effect _ h => exact .quiet _ h.quiet
  | decide answer c hview => exact .decide verifier answer c hview
  | ack hview h =>
    have hdecided : QuietOp nd { nd with currView := nd.currView.decided } :=
      .viewDecided nd (by simp [hview, ViewPc.inDecide])
    exact .quiet _ ((ReflTransGen.single hdecided).trans h.quiet)
  | proposed c hpc hview =>
    simp only [View.handleMessage, Option.ite_none_left_eq_some, Option.some.injEq] at hview
    obtain ⟨-, rfl⟩ := hview
    exact .proposed verifier c
  | sync response reconfig hcheckpoint h =>
    exact .sync verifier response reconfig hcheckpoint
      ((ReflTransGen.single (.loops _ nd.controller _)).trans h.quiet)
  | restarted hpc _ h =>
    exact .restarted verifier hpc ((ReflTransGen.single (.sequence _ _)).trans h.quiet)

theorem transition_of_steps {event : NodeEvent} (h : Steps cfg verifier nd event nd') :
    NodeTransition cfg nd ⟨verifier, event⟩ nd' := by
  cases h with
  | view hview => exact .view (View.transition_of_step hview)
  | viewStopped hstopped hpc =>
    have hin : nd.currView.pc.inDecide = true := by
      rcases hpc with ⟨decision, requests, hpc⟩ | hpc <;> rw [hpc] <;> rfl
    exact .quiet _ (ReflTransGen.single (.viewDecided nd hin))
  | inFlightView hview hmoved => exact .inFlightView hview (View.transition_of_step hmoved)
  | inFlightDeliver answer hview hpc =>
    exact .inFlightDeliver verifier answer _ hview hpc
  | inFlightStopped hstopped hview hpc =>
    exact .quiet _ (ReflTransGen.single (.moveInFlight nd hview (.decided hpc)))
  | controller hsteps => exact transition_of_controllerSteps hsteps
  | viewChanger hmoved => exact transition_of_viewChangerStep hmoved
  | requestSync => exact .quiet _ (quiet_sync cfg nd)
  | complain viewNum stopView => exact .quiet _ (quiet_startViewChange nd viewNum stopView)
  | stop => exact .quiet _ (ReflTransGen.single (.loops nd _ _))
  | down text => exact .quiet _ (ReflTransGen.single (.panic nd text))
  | restarted hboot => exact .crash verifier hboot

theorem step_transition (h : nd.step cfg input = some nd') :
    (nd.panicked = none ∨ input.event = .crash) ∧ input.event.admissible cfg = true ∧
      NodeTransition cfg nd input nd' := by
  obtain ⟨hlive, hadmissible, hsteps⟩ := step_steps h
  exact ⟨hlive, hadmissible, transition_of_steps hsteps⟩

/-! ## The history grows -/

theorem applyOutputs_trace_subset (cfg : Config) (origin : Origin) (outputs : List ViewOutput)
    (nd : Node) : nd.trace ⊆ (nd.applyOutputs cfg origin outputs).trace := by
  refine applyOutputs_keeps (motive := fun mid => nd.trace ⊆ mid.trace) cfg origin ?_ ?_ ?_ ?_
    (List.Subset.refl _)
  · exact fun hop hsub => List.Subset.trans hsub hop.trace_subset
  · exact fun m _ mid hsub => List.Subset.trans hsub (List.subset_cons_self _ _)
  · exact fun target m _ mid hsub => List.Subset.trans hsub (List.subset_cons_self _ _)
  · exact fun m _ mid hsub => List.Subset.trans hsub (trace_subset_save mid m)

theorem deliver_trace_subset (nd : Node) (decision : Decision) (answer : DeliverAnswer) :
    nd.trace ⊆ (nd.deliver decision answer).trace := by
  rcases deliver_cases nd decision answer with ⟨text, hcase⟩ | hcase | hcase <;> rw [hcase]
  · exact List.Subset.refl _
  · exact List.Subset.refl _
  · exact List.subset_cons_self _ _

end Node

theorem QuietEffect.trace_subset (h : QuietEffect nd nd') :
    nd.trace ⊆ nd'.trace := by
  induction h with
  | refl => exact List.Subset.refl _
  | tail _ hop ih => exact List.Subset.trans ih hop.trace_subset

theorem NodeTransition.trace_subset
    (h : NodeTransition cfg nd input nd') : nd.trace ⊆ nd'.trace := by
  cases h with
  | quiet _ heffect => exact heffect.trace_subset
  | @view verifier event view outputs =>
    exact Node.applyOutputs_trace_subset cfg _ outputs { nd with currView := view }
  | @inFlightView verifier event view view' outputs =>
    exact Node.applyOutputs_trace_subset cfg .inFlightView outputs
      { nd with inFlightView := some (Node.awaitSync view' outputs) }
  | inFlightDeliver _ answer => exact Node.deliver_trace_subset nd _ answer
  | decide _ answer => exact Node.deliver_trace_subset nd _ answer
  | sync _ _ _ _ heffect => exact heffect.trace_subset
  | restarted _ _ heffect => exact heffect.trace_subset
  | viewData _ _ heffect =>
    exact List.Subset.trans (List.subset_cons_self _ _) heffect.trace_subset
  | delivered _ answer _ heffect =>
    exact List.Subset.trans (Node.deliver_trace_subset nd _ answer) heffect.trace_subset
  | _ => exact List.Subset.refl _

/-! ## What a step adds to the history -/

inductive OutputAction (origin : Origin) (outputs : List ViewOutput) : Action → Prop where
  | broadcast {m : Message} (h : .broadcast m ∈ outputs) :
      OutputAction origin outputs (.broadcast origin m)
  | send {target : Nat} {m : Message} (h : .send target m ∈ outputs) :
      OutputAction origin outputs (.send target m)
  | save {m : SavedMessage} (h : .save m ∈ outputs) : OutputAction origin outputs (.save m)

theorem Node.mem_trace_applyOutputs {origin : Origin} {outputs : List ViewOutput}
    (h : action ∈ (nd.applyOutputs cfg origin outputs).trace) :
    action ∈ nd.trace ∨ OutputAction origin outputs action := by
  refine applyOutputs_induction (motive := fun mid => action ∈ mid.trace → action ∈ nd.trace ∨
    OutputAction origin outputs action) cfg origin (fun output houtput mid ih hmem => ?_) .inl h
  cases output with
  | broadcast m =>
    rcases List.mem_cons.mp hmem with rfl | hold
    · exact .inr (.broadcast houtput)
    · exact ih hold
  | send target m =>
    rcases List.mem_cons.mp hmem with rfl | hold
    · exact .inr (.send houtput)
    · exact ih hold
  | save m =>
    rcases mem_trace_save hmem with hold | rfl
    · exact ih hold
    · exact .inr (.save houtput)
  | complain viewNum stopView =>
    simp only [applyOutput, complain, startViewChange] at hmem
    split at hmem
    · exact ih hmem
    · split at hmem <;> exact ih hmem
  | sync =>
    simp only [applyOutput, sync] at hmem
    split at hmem <;> exact ih hmem
  | _ => exact ih hmem

theorem Node.mem_trace_deliver {decision : Decision} {answer : DeliverAnswer}
    (h : action ∈ (nd.deliver decision answer).trace) :
    action ∈ nd.trace ∨ action = .deliver decision := by
  rcases deliver_cases nd decision answer with ⟨text, hcase⟩ | hcase | hcase <;> rw [hcase] at h
  · exact .inl h
  · exact .inl h
  · exact (List.mem_cons.mp h).symm

inductive StepAction (cfg : Config) (nd : Node) (input : NodeInput) : Action → Prop where
  | quiet {action : Action} (h : QuietAction action) : StepAction cfg nd input action
  | view {event : ViewEvent} {view : View} {outputs : List ViewOutput} {action : Action}
      (h : View.Transition cfg input.verifier nd.checkpoint nd.currView event view outputs)
      (haction : OutputAction (.view view.number) outputs action) :
      StepAction cfg nd input action
  | inFlightView {event : ViewEvent} {view view' : View} {outputs : List ViewOutput}
      {action : Action} (hview : nd.inFlightView = some view)
      (h : View.Transition cfg input.verifier nd.checkpoint view event view' outputs)
      (haction : OutputAction .inFlightView outputs action) : StepAction cfg nd input action
  | decided {decision : Decision} {requests : List RequestInfo}
      (hview : nd.currView.pc = .deciding decision requests) :
      StepAction cfg nd input (.deliver decision)
  | inFlightDecided {view : View} {decision : Decision} {requests : List RequestInfo}
      (hview : nd.inFlightView = some view) (hpc : view.pc = .deciding decision requests) :
      StepAction cfg nd input (.deliver decision)
  | delivered {decision : Decision} {purpose : DeliverFor}
      (hpc : nd.viewChanger.pc = .deliver decision purpose) :
      StepAction cfg nd input (.deliver decision)
  | viewData {lastDecision : Decision} {inFlight : Option Proposal} {purpose : ViewDataFor}
      (hevent : input.event = .viewChanger .readPrepared)
      (hpc : nd.viewChanger.pc = .readPrepared lastDecision inFlight purpose) :
      StepAction cfg nd input (.viewData purpose (nd.viewDataOf lastDecision inFlight))

theorem NodeTransition.mem_trace (h : NodeTransition cfg nd input nd') (hmem : action ∈ nd'.trace) :
    action ∈ nd.trace ∨ StepAction cfg nd input action := by
  cases h with
  | quiet _ heffect => exact (heffect.mem_trace hmem).imp id .quiet
  | view htransition =>
    rcases Node.mem_trace_applyOutputs hmem with hold | houtput
    · exact .inl hold
    · exact .inr (.view htransition houtput)
  | inFlightView hview htransition =>
    rcases Node.mem_trace_applyOutputs hmem with hold | houtput
    · exact .inl hold
    · exact .inr (.inFlightView hview htransition houtput)
  | inFlightDeliver _ answer _ hview hpc =>
    rcases Node.mem_trace_deliver hmem with hold | rfl
    · exact .inl hold
    · exact .inr (.inFlightDecided hview hpc)
  | decide _ answer _ hview =>
    rcases Node.mem_trace_deliver hmem with hold | rfl
    · exact .inl hold
    · exact .inr (.decided hview)
  | sync _ _ _ _ heffect => exact (heffect.mem_trace hmem).imp id .quiet
  | restarted _ _ heffect => exact (heffect.mem_trace hmem).imp id .quiet
  | viewData _ hpc heffect =>
    rcases heffect.mem_trace hmem with hmid | hquiet
    · rcases List.mem_cons.mp hmid with rfl | hold
      · exact .inr (.viewData rfl hpc)
      · exact .inl hold
    · exact .inr (.quiet hquiet)
  | delivered _ answer hpc heffect =>
    rcases heffect.mem_trace hmem with hmid | hquiet
    · rcases Node.mem_trace_deliver hmid with hold | rfl
      · exact .inl hold
      · exact .inr (.delivered hpc)
    · exact .inr (.quiet hquiet)
  | _ => exact .inl hmem

inductive Delivers (nd : Node) (input : NodeInput) (decision : Decision) : Prop where
  | decided {requests : List RequestInfo} (hview : nd.currView.pc = .deciding decision requests)
  | inFlight {view : View} {requests : List RequestInfo} (hview : nd.inFlightView = some view)
      (hpc : view.pc = .deciding decision requests)
  | viewChanger {answer : DeliverAnswer} {purpose : DeliverFor}
      (hevent : input.event = .viewChanger (.deliver answer))
      (hpc : nd.viewChanger.pc = .deliver decision purpose)

theorem QuietEffect.mem_deliver (h : QuietEffect nd nd') {decision : Decision}
    (hmem : .deliver decision ∈ nd'.trace) : .deliver decision ∈ nd.trace := by
  rcases h.mem_trace hmem with hold | hquiet
  · exact hold
  · cases hquiet with
    | viewChanger h => nomatch h

theorem Node.mem_deliver_applyOutputs {origin : Origin}
    {outputs : List ViewOutput} {decision : Decision}
    (hmem : .deliver decision ∈ (nd.applyOutputs cfg origin outputs).trace) :
    .deliver decision ∈ nd.trace := by
  rcases mem_trace_applyOutputs hmem with hold | houtput
  · exact hold
  · nomatch houtput

theorem NodeTransition.delivers (h : NodeTransition cfg nd input nd') {decision : Decision}
    (hmem : .deliver decision ∈ nd'.trace) :
    .deliver decision ∈ nd.trace ∨ Delivers nd input decision := by
  cases h with
  | quiet _ heffect => exact .inl (heffect.mem_deliver hmem)
  | view =>
    have hold := Node.mem_deliver_applyOutputs hmem
    exact .inl hold
  | inFlightView =>
    have hold := Node.mem_deliver_applyOutputs hmem
    exact .inl hold
  | inFlightDeliver _ answer _ hview hpc =>
    rcases Node.mem_trace_deliver hmem with hold | hnew
    · exact .inl hold
    · obtain rfl : decision = _ := by simpa using hnew
      exact .inr (.inFlight hview hpc)
  | decide _ answer _ hview =>
    rcases Node.mem_trace_deliver hmem with hold | hnew
    · exact .inl hold
    · obtain rfl : decision = _ := by simpa using hnew
      exact .inr (.decided hview)
  | sync _ _ _ _ heffect => exact .inl (heffect.mem_deliver hmem)
  | restarted _ _ heffect => exact .inl (heffect.mem_deliver hmem)
  | viewData _ _ heffect => exact .inl (by simpa [Node.record] using heffect.mem_deliver hmem)
  | delivered _ answer hpc heffect =>
    rcases Node.mem_trace_deliver (heffect.mem_deliver hmem) with hold | hnew
    · exact .inl hold
    · obtain rfl : decision = _ := by simpa using hnew
      exact .inr (.viewChanger rfl hpc)
  | _ => exact .inl hmem

theorem Node.step_trace_subset (h : nd.step cfg input = some nd') : nd.trace ⊆ nd'.trace :=
  (step_transition h).2.2.trace_subset

end SmartBFT
