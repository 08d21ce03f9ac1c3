import SmartBFT.Node.Step

/-!
# The cases of a step

What the functions of the run loop and the steps of a node can do, as case
distinctions.  The invariants of a node are proved from these cases.
-/

namespace SmartBFT

namespace Node

section ChangeView

variable {motive : Node → Prop} {cfg : Config} {verifier : Verifier} {nd : Node}

def toSelect (nd : Node) (leaderToken : Bool) : Node :=
  { nd with controller := { nd.controller with leaderToken := leaderToken, pc := .select } }

theorem finishDecide_cases
    (h : ∀ token, (nd.controller.leaderToken = true → token = true) →
      motive (nd.toSelect token)) : motive (nd.finishDecide cfg) := by
  unfold finishDecide
  split
  · exact h true fun _ => rfl
  · exact h nd.controller.leaderToken id

theorem afterChangeView_cases {rotation : Bool}
    (h : ∀ token, (nd.controller.leaderToken = true → token = true) →
      motive (nd.toSelect token)) : motive (nd.afterChangeView cfg rotation) := by
  unfold afterChangeView
  split
  · exact finishDecide_cases h
  · exact h nd.controller.leaderToken id

theorem changeView_cases {view seq dec : Nat} {rotation : Bool}
    (hkept : view < nd.controller.currViewNumber ∨ nd.alreadyRunning cfg view dec = true →
      motive (nd.afterChangeView cfg rotation))
    (hstopped : motive (nd.relinquishLeaderToken.abortCurrView (.start view seq dec rotation))) :
    motive (nd.changeView cfg view seq dec rotation) := by
  unfold changeView
  split <;> rename_i hbehind
  · exact hkept (.inl hbehind)
  · split <;> rename_i hrunning
    · exact hkept (.inr hrunning)
    · exact hstopped

theorem startView_cases {seq : Nat} (hpanic : ∀ text, motive (nd.panic text))
    (hstarted : ∀ leader token, nd.leaderID cfg = some leader →
      (leader = cfg.selfID → token = true) →
      motive { nd with
        currView := .fresh leader seq nd.controller.currViewNumber
          nd.controller.currDecisionsInView
        viewSequences := ⟨true, seq⟩
        controller := { nd.controller with leaderToken := token } }) :
    motive (nd.startView cfg seq) := by
  unfold startView
  split <;> rename_i hleader
  · exact hpanic _
  · simp only
    split <;> rename_i hself
    · exact hstarted _ true hleader fun _ => rfl
    · exact hstarted _ nd.controller.leaderToken hleader fun h => absurd h hself

def restartedController (nd : Node) (view dec : Nat) (leaderToken batcherClosed : Bool) :
    Controller :=
  { nd.controller with
    currViewNumber := view
    currDecisionsInView := dec
    leaderToken := leaderToken
    batcherClosed := batcherClosed
    pc := .select }

theorem restartView_cases {view seq dec : Nat} {rotation : Bool}
    (hpanic : ∀ text token closed, motive { nd.panic text with
      controller := nd.restartedController view dec token closed })
    (hstarted : ∀ leader token closed,
      leaderID cfg { nd with controller := nd.restartedController view dec token closed } =
        some leader →
      (leader = cfg.selfID → token = true ∧ closed = false) →
      motive { nd with
        currView := .fresh leader seq view dec
        viewSequences := ⟨true, seq⟩
        controller := nd.restartedController view dec token closed }) :
    motive (nd.restartView cfg view seq dec rotation) := by
  unfold restartView
  simp only
  refine startView_cases (motive := fun mid => motive (afterChangeView cfg
    (if mid.iAmTheLeader cfg then
      { mid with controller := { mid.controller with batcherClosed := false } } else mid)
    rotation)) ?_ ?_
  · intro text
    split
    · exact afterChangeView_cases fun token _ => hpanic text token false
    · exact afterChangeView_cases fun token _ => hpanic text token nd.controller.batcherClosed
  · intro leader started hleader hself
    split <;> rename_i hme
    · refine afterChangeView_cases fun token htoken => hstarted leader token false hleader ?_
      exact fun heq => ⟨htoken (hself heq), rfl⟩
    · refine afterChangeView_cases fun token _ =>
        hstarted leader token nd.controller.batcherClosed hleader fun heq => absurd ?_ hme
      exact decide_eq_true (hleader.trans (congrArg some heq))

end ChangeView

/-! ## Deciding, proposing and synchronizing -/

section RunLoop

variable {motive : Node → Prop} {cfg : Config} {verifier : Verifier} {nd : Node}

theorem rotateOrFinish_cases {decision : Decision}
    (hpanic : ∀ text, motive (nd.panic text))
    (hrotates : ∀ md, decision.proposal.unmarshalMetadata = some md →
      nd.checkIfRotate cfg md.blackList = some true →
      motive (nd.changeView cfg nd.controller.currViewNumber (md.latestSequence + 1)
        nd.controller.currDecisionsInView true))
    (hstays : ∀ md, decision.proposal.unmarshalMetadata = some md →
      nd.checkIfRotate cfg md.blackList = some false → motive (nd.finishDecide cfg)) :
    motive (nd.rotateOrFinish cfg decision) := by
  unfold rotateOrFinish
  split <;> rename_i hmd
  · exact hpanic _
  · split <;> rename_i hrotate
    · exact hpanic _
    · exact hrotates _ hmd hrotate
    · exact hstays _ hmd hrotate

theorem propose_cases {batch : Option Batch}
    (hdropped : (nd.controller.stopped || nd.controller.batcherClosed) = true →
      motive nd.relinquishLeaderToken)
    (hempty : (nd.controller.stopped || nd.controller.batcherClosed) = false →
      motive nd.relinquishLeaderToken.acquireLeaderToken)
    (hpanic : ∀ text, motive (nd.relinquishLeaderToken.panic text))
    (hproposes : (nd.controller.stopped || nd.controller.batcherClosed) = false →
      ∀ proposal, motive (nd.relinquishLeaderToken.setController (.proposing proposal))) :
    motive (nd.propose cfg verifier batch) := by
  unfold propose
  simp only
  split <;> rename_i hopen
  · exact hdropped hopen
  · have hopen := eq_false_of_ne_true hopen
    split
    · exact hempty hopen
    · split
      · exact hpanic _
      · exact hproposes hopen _

def enterSync (nd : Node) (reconfig : Bool) : Node :=
  { nd with
    controller := { nd.controller with
      syncChan := true, stopped := nd.controller.stopped || reconfig }
    viewChanger := { nd.viewChanger with
      stopped := nd.viewChanger.stopped || reconfig } }

theorem beginSync_cases {response : Decision} {reconfig : Bool}
    (hpanic : ∀ text, motive ((nd.enterSync reconfig).panic text))
    (hahead : ∀ latest md, latestMetadata response = some latest →
      nd.checkpointMetadata = some md → md.latestSequence < (latest.getD {}).latestSequence →
      motive (setController { nd.enterSync reconfig with checkpoint := response }
        (.fetching latest nd.controller.currViewNumber
          (max nd.controller.currViewNumber (latest.getD {}).viewId)
          ((latest.getD {}).latestSequence + 1) ((latest.getD {}).decisionsInView + 1))))
    (hbehind : ∀ latest md, latestMetadata response = some latest →
      nd.checkpointMetadata = some md → ¬md.latestSequence < (latest.getD {}).latestSequence →
      motive ((nd.enterSync reconfig).setController
        (.fetching latest nd.controller.currViewNumber
          (max nd.controller.currViewNumber (latest.getD {}).viewId)
          (md.latestSequence + 1) 0))) :
    motive (nd.beginSync response reconfig) := by
  unfold beginSync
  simp only
  split
  · exact hpanic _
  · exact hpanic _
  · rename_i hlatest hmd
    split <;> rename_i hcase
    · exact hahead _ _ hlatest hmd hcase
    · exact hbehind _ _ hlatest hmd hcase

end RunLoop

/-! ## The steps -/

inductive ControllerSteps (cfg : Config) (verifier : Verifier) (nd : Node) :
    ControllerEvent → Node → Prop where
  | decide {decision : Decision} {requests : List RequestInfo} (answer : DeliverAnswer)
      (hpc : nd.controller.pc = .select) (hview : nd.currView.pc = .deciding decision requests) :
      ControllerSteps cfg verifier nd (.decide answer) { nd.deliver decision answer with
        currView := { (nd.deliver decision answer).currView with pc := .delivering }
        controller := { (nd.deliver decision answer).controller with
          stopped := (nd.deliver decision answer).controller.stopped || answer.reconfig
          pc := .acking decision } }
  | ack {decision : Decision} (hpc : nd.controller.pc = .acking decision)
      (hview : nd.currView.pc = .delivering) :
      ControllerSteps cfg verifier nd .ack
        ({ nd with currView := nd.currView.decided }.setController (.acked decision))
  | count {decision : Decision} (hpc : nd.controller.pc = .acked decision) :
      ControllerSteps cfg verifier nd .count { nd with controller := { nd.controller with
        currDecisionsInView := nd.controller.currDecisionsInView + 1
        pc := .counted decision } }
  | rotate {decision : Decision} (hpc : nd.controller.pc = .counted decision) :
      ControllerSteps cfg verifier nd .rotate (nd.rotateOrFinish cfg decision)
  | ackStopped {decision : Decision} (hpc : nd.controller.pc = .acking decision)
      (hstopped : nd.controller.stopped = true) :
      ControllerSteps cfg verifier nd .ackStopped (nd.setController .select)
  | dropped {proposal : Proposal} (hpc : nd.controller.pc = .proposing proposal)
      (haborted : nd.currView.aborted = true) :
      ControllerSteps cfg verifier nd .proposed (nd.setController .select)
  | proposed {proposal : Proposal} (hpc : nd.controller.pc = .proposing proposal)
      (haborted : nd.currView.aborted = false) {view : View}
      (hview : nd.currView.handleMessage cfg nd.currView.leaderID
        (nd.currView.proposeMessage cfg nd.checkpoint proposal) = some view) :
      ControllerSteps cfg verifier nd .proposed
        ({ nd with currView := view }.setController .select)
  | fetched {latest : Option ViewMetadata} {controllerViewNum newViewNum seq dec : Nat}
      (response : Option ViewAndSeq)
      (hpc : nd.controller.pc = .fetching latest controllerViewNum newViewNum seq dec) :
      ControllerSteps cfg verifier nd (.fetched response)
        (nd.fetched cfg latest controllerViewNum newViewNum seq dec response)
  | informed {view seq dec : Nat} (hpc : nd.controller.pc = .informing view seq dec) :
      ControllerSteps cfg verifier nd .informed ({ nd with viewChanger := { nd.viewChanger with
        informChan := some view } }.endSync cfg view seq dec)
  | informedStopped {view seq dec : Nat} (hpc : nd.controller.pc = .informing view seq dec) :
      ControllerSteps cfg verifier nd .informed (nd.endSync cfg view seq dec)
  | aborted (hended : nd.currView.pc = .ended) (hpc : nd.controller.pc = .aborting .stay) :
      ControllerSteps cfg verifier nd .viewEnded (nd.setController .select)
  | restarted {view seq dec : Nat} {rotation : Bool} (hended : nd.currView.pc = .ended)
      (hpc : nd.controller.pc = .aborting (.start view seq dec rotation)) :
      ControllerSteps cfg verifier nd .viewEnded (nd.restartView cfg view seq dec rotation)
  | exited (hended : nd.currView.pc = .ended) (hpc : nd.controller.pc = .aborting .exit) :
      ControllerSteps cfg verifier nd .viewEnded (nd.setController .exited)
  | viewChange {info : ViewAndSeq} (hpc : nd.controller.pc = .select)
      (hinfo : nd.controller.viewChange = some info) :
      ControllerSteps cfg verifier nd .viewChange
        ({ nd with controller := { nd.controller with viewChange := none } }.changeView cfg
          info.view info.seq 0 false)
  | abortView {view : Nat} (hpc : nd.controller.pc = .select)
      (hchan : nd.controller.abortViewChan = some view) :
      ControllerSteps cfg verifier nd .abortView
        ({ nd with controller := { nd.controller with abortViewChan := none } }.abortView view)
  | stop (hpc : nd.controller.pc = .select) (hstopped : nd.controller.stopped = true) :
      ControllerSteps cfg verifier nd .stop (nd.abortCurrView .exit)
  | propose (batch : Option Batch) (hpc : nd.controller.pc = .select) :
      ControllerSteps cfg verifier nd (.propose batch) (nd.propose cfg verifier batch)
  | sync (response : Decision) (reconfig : Bool) (hpc : nd.controller.pc = .select) :
      ControllerSteps cfg verifier nd (.sync response reconfig) (nd.beginSync response reconfig)

inductive Steps (cfg : Config) (verifier : Verifier) (nd : Node) : NodeEvent → Node → Prop where
  | view {event : ViewEvent} {view : View} {outputs : List ViewOutput}
      (hview : nd.currView.step cfg verifier nd.checkpoint event = some (view, outputs)) :
      Steps cfg verifier nd (.view event)
        ({ nd with currView := view }.applyOutputs cfg (.view view.number) outputs)
  | viewStopped (hstopped : nd.controller.stopped = true)
      (hpc : (∃ decision requests, nd.currView.pc = .deciding decision requests) ∨
        nd.currView.pc = .delivering) :
      Steps cfg verifier nd .viewStopped { nd with currView := nd.currView.decided }
  | inFlightView {event : ViewEvent} {view view' : View} {outputs : List ViewOutput}
      (hview : nd.inFlightView = some view)
      (hstep : view.step cfg verifier nd.checkpoint event = some (view', outputs)) :
      Steps cfg verifier nd (.inFlightView event)
        ({ nd with inFlightView := some (awaitSync view' outputs) }.applyOutputs cfg
          .inFlightView outputs)
  | inFlightDeliver {view : View} {decision : Decision} {requests : List RequestInfo}
      (answer : DeliverAnswer) (hview : nd.inFlightView = some view)
      (hpc : view.pc = .deciding decision requests) (hlocked : nd.syncLocked = false) :
      Steps cfg verifier nd (.inFlightDeliver answer) { nd.deliver decision answer with
        inFlightView := some { view.stop with pc := .delivering }
        viewChanger := { (nd.deliver decision answer).viewChanger with
          stopped := (nd.deliver decision answer).viewChanger.stopped || answer.reconfig } }
  | inFlightStopped {view : View} (hstopped : nd.viewChanger.stopped = true)
      (hview : nd.inFlightView = some view) (hpc : view.pc = .delivering) :
      Steps cfg verifier nd .inFlightStopped { nd with inFlightView := some view.decided }
  | controller {event : ControllerEvent} {nd' : Node}
      (h : ControllerSteps cfg verifier nd event nd') :
      Steps cfg verifier nd (.controller event) nd'
  | viewChanger {event : ViewChangerEvent} {nd' : Node}
      (h : nd.viewChangerStep cfg verifier event = some nd') :
      Steps cfg verifier nd (.viewChanger event) nd'
  | requestSync : Steps cfg verifier nd .requestSync (nd.sync cfg)
  | complain (viewNum : Nat) (stopView : Bool) :
      Steps cfg verifier nd (.complain viewNum stopView) (nd.startViewChange viewNum stopView)
  | stop : Steps cfg verifier nd .stop { nd with
      controller := { nd.controller with stopped := true }
      viewChanger := { nd.viewChanger with stopped := true } }
  | down (text : String) : Steps cfg verifier nd .crash (nd.panic text)
  | restarted {nd' : Node} (hboot : boot cfg nd.persisted.wal nd.checkpoint = .ok nd') :
      Steps cfg verifier nd .crash { nd' with trace := nd.trace }

variable {cfg : Config} {verifier : Verifier} {nd nd' : Node}

theorem selectStep_steps {event : ControllerEvent} (hpc : nd.controller.pc = .select)
    (h : nd.selectStep cfg verifier event = some nd') :
    ControllerSteps cfg verifier nd event nd' := by
  cases event with
  | viewChange =>
    simp only [selectStep, Option.map_eq_some_iff] at h
    obtain ⟨info, hinfo, rfl⟩ := h
    exact .viewChange hpc hinfo
  | abortView =>
    simp only [selectStep, Option.map_eq_some_iff] at h
    obtain ⟨view, hchan, rfl⟩ := h
    exact .abortView hpc hchan
  | stop =>
    simp only [selectStep, Option.ite_none_right_eq_some, Option.some.injEq] at h
    exact h.2 ▸ .stop hpc h.1
  | propose batch =>
    simp only [selectStep, Option.ite_none_right_eq_some, Option.some.injEq] at h
    exact h.2 ▸ .propose batch hpc
  | sync response reconfig =>
    simp only [selectStep, Option.ite_none_right_eq_some, Option.some.injEq] at h
    exact h.2 ▸ .sync response reconfig hpc
  | _ => simp [selectStep] at h

theorem controllerStep_steps {event : ControllerEvent}
    (h : nd.controllerStep cfg verifier event = some nd') :
    ControllerSteps cfg verifier nd event nd' := by
  cases event with
  | decide answer =>
    simp only [controllerStep, decideStep] at h
    split at h
    · rename_i hpc hview
      exact Option.some.inj h ▸ .decide answer hpc hview
    · simp at h
  | ack =>
    simp only [controllerStep, ackStep] at h
    split at h
    · rename_i hpc hview
      exact Option.some.inj h ▸ .ack hpc hview
    · simp at h
  | count =>
    simp only [controllerStep, countStep] at h
    split at h
    · rename_i hpc
      exact Option.some.inj h ▸ .count hpc
    · simp at h
  | rotate =>
    simp only [controllerStep, rotateStep] at h
    split at h
    · rename_i hpc
      exact Option.some.inj h ▸ .rotate hpc
    · simp at h
  | ackStopped =>
    simp only [controllerStep, ackStopped] at h
    split at h
    · rename_i hpc
      simp only [Option.ite_none_right_eq_some, Option.some.injEq] at h
      exact h.2 ▸ .ackStopped hpc h.1
    · simp at h
  | proposed =>
    simp only [controllerStep, proposedStep] at h
    split at h
    · rename_i hpc
      split at h <;> rename_i haborted
      · exact Option.some.inj h ▸ .dropped hpc haborted
      · simp only [Option.map_eq_some_iff] at h
        obtain ⟨view, hview, rfl⟩ := h
        exact .proposed hpc (eq_false_of_ne_true haborted) hview
    · simp at h
  | fetched response =>
    simp only [controllerStep] at h
    split at h
    · rename_i hpc
      exact Option.some.inj h ▸ .fetched response hpc
    · simp at h
  | informed =>
    simp only [controllerStep, informedStep] at h
    split at h
    · rename_i hpc
      split at h
      · exact Option.some.inj h ▸ .informed hpc
      · simp only [Option.ite_none_right_eq_some, Option.some.injEq] at h
        exact h.2 ▸ .informedStopped hpc
    · simp at h
  | viewEnded =>
    simp only [controllerStep, viewEnded] at h
    split at h
    · simp at h
    · rename_i hended
      have hended := not_not.mp hended
      split at h <;> rename_i hpc <;> simp only [Option.some.injEq, reduceCtorEq] at h <;>
        subst h
      · exact .aborted hended hpc
      · exact .restarted hended hpc
      · exact .exited hended hpc
  | _ =>
    simp only [controllerStep, Option.ite_none_right_eq_some] at h
    exact selectStep_steps h.1 h.2

theorem viewStep_cases {event : ViewEvent} (h : nd.viewStep cfg verifier event = some nd') :
    ∃ view outputs,
      nd.currView.step cfg verifier nd.checkpoint event = some (view, outputs) ∧
      nd' = { nd with currView := view }.applyOutputs cfg (.view view.number) outputs := by
  simp only [viewStep, Option.map_eq_some_iff] at h
  obtain ⟨⟨view, outputs⟩, hstep, rfl⟩ := h
  exact ⟨view, outputs, hstep, rfl⟩

theorem react_steps {event : NodeEvent} (h : nd.react cfg verifier event = some nd') :
    Steps cfg verifier nd event nd' := by
  cases event with
  | view event =>
    obtain ⟨view, outputs, hview, rfl⟩ := viewStep_cases h
    exact .view hview
  | viewStopped =>
    simp only [react, viewStopped, Option.ite_none_right_eq_some] at h
    obtain ⟨hstopped, h⟩ := h
    split at h <;> rename_i hpc <;> simp only [Option.some.injEq, reduceCtorEq] at h <;> subst h
    · exact .viewStopped hstopped (.inl ⟨_, _, hpc⟩)
    · exact .viewStopped hstopped (.inr hpc)
  | inFlightView event =>
    simp only [react, inFlightViewStep, Option.bind_eq_some_iff, Option.map_eq_some_iff] at h
    obtain ⟨view, hview, ⟨view', outputs⟩, hstep, rfl⟩ := h
    exact .inFlightView hview hstep
  | inFlightDeliver answer =>
    simp only [react, inFlightDeliver] at h
    split at h
    · simp at h
    · rename_i hview
      split at h
      · rename_i hpc
        simp only [Option.ite_none_left_eq_some, Option.some.injEq] at h
        exact h.2 ▸ .inFlightDeliver answer hview hpc (eq_false_of_ne_true h.1)
      · simp at h
  | inFlightStopped =>
    simp only [react, inFlightStopped, Option.ite_none_right_eq_some] at h
    obtain ⟨hstopped, h⟩ := h
    split at h
    · simp at h
    · rename_i hview
      simp only [Option.ite_none_right_eq_some, Option.some.injEq] at h
      exact h.2 ▸ .inFlightStopped hstopped hview h.1
  | controller event => exact .controller (controllerStep_steps h)
  | viewChanger event => exact .viewChanger h
  | requestSync => exact Option.some.inj h ▸ .requestSync
  | complain viewNum stopView => exact Option.some.inj h ▸ .complain viewNum stopView
  | stop => exact Option.some.inj h ▸ .stop
  | crash =>
    simp only [react, crash, Option.some.injEq] at h
    subst h
    split
    · exact .down _
    · rename_i hboot
      exact .restarted hboot

theorem react_of_step {input : NodeInput} (h : nd.step cfg input = some nd') :
    nd.react cfg input.verifier input.event = some nd' := by
  simp only [step, Option.ite_none_left_eq_some] at h
  exact h.2.2

theorem step_steps {input : NodeInput} (h : nd.step cfg input = some nd') :
    (nd.panicked = none ∨ input.event = .crash) ∧ input.event.admissible cfg = true ∧
      Steps cfg input.verifier nd input.event nd' := by
  simp only [step, Option.ite_none_left_eq_some] at h
  obtain ⟨hlive, hadmissible, hreact⟩ := h
  refine ⟨?_, by simpa using hadmissible, react_steps hreact⟩
  cases hpanicked : nd.panicked with
  | none => exact .inl rfl
  | some text => exact .inr (by simpa [hpanicked] using hlive)

end Node

end SmartBFT
