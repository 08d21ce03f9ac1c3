import SmartBFT.Node.State
import SmartBFT.ViewChanger.ViewData

/-!
# The run loop of the view changer

`internal/bft/viewchanger.go`.  A step goes from one point where the view changer
may block, or reads what other goroutines write, to the next one: the sends to
the controller, the three reads of `prepareViewDataMsg`, a delivery, a validation
of a new view message, and the wait for the in-flight view.

Messages are taken as they come, without a queue in between: the network may
delay, reorder and lose them anyway.  Time is an input: a tick says whether the
resend and the view change timeouts have passed.
-/

namespace SmartBFT

/-- The cases of `ViewChanger.run` and of `commitInFlightProposal`, and the
returns of the blocking calls. -/
inductive ViewChangerEvent where
  | stop
  | startChange
  | msg (sender : Nat) (m : Message)
  | tick (resend timeout : Bool)
  | inform
  | restore
  | abortSent
  | readInFlight
  | readPrepared
  | deliver (answer : DeliverAnswer)
  | validate
  | commitInFlight
  | inFlightDecided
  | inFlightSynced
  | inFlightTimeout
  | inFlightStop
  | inFlightEnded
  | viewChangedSent
  deriving DecidableEq, Repr

namespace Node

variable (cfg : Config) (verifier : Verifier) (nd : Node)

def setViewChanger (pc : ViewChangerPc) : Node :=
  { nd with viewChanger := { nd.viewChanger with pc := pc } }

def broadcastByViewChanger (m : Message) : Node :=
  nd.record (.broadcast .viewChanger m)

/-! ## View change messages -/

/-- `Controller.AbortView` up to the send. -/
def askAbortView (next : AbortViewThen) : Node :=
  nd.closeBatcher.setViewChanger (.sendAbort nd.viewChanger.currView next)

def watchTimeout : Node :=
  { nd with viewChanger := { nd.viewChanger with checkTimeout := true } }

/-- `startViewChange`; `next` is where it goes on if it has to wait, and `cont`
what follows if it has not. -/
def joinViewChange (change : Change) (next : AbortViewThen) (cont : Node → Node) : Node :=
  if change.view < nd.viewChanger.currView then cont nd
  else if nd.viewChanger.nextView = nd.viewChanger.currView + 1 then cont nd.watchTimeout
  else
    let nd := { nd with viewChanger := { nd.viewChanger with
      nextView := nd.viewChanger.currView + 1 } }
    let nd := nd.broadcastByViewChanger (.viewChange nd.viewChanger.nextView)
    if change.stopView then nd.askAbortView next else cont nd.watchTimeout

/-- `prepareViewDataMsg` reads the checkpoint. -/
def beginViewData (purpose : ViewDataFor) : Node :=
  nd.setViewChanger (.readInFlight nd.checkpoint purpose)

/-- `processViewChangeMsg` after the current view was told to abort. -/
def enterNextView : Node :=
  { nd with viewChanger := { nd.viewChanger with
      currView := nd.viewChanger.nextView
      viewChangeMsgs := {}
      viewDataMsgs := {} } }.beginViewData .leader

def saveViewChange (restore : Bool) : Node :=
  let nd := if restore then nd else nd.save (.viewChange nd.viewChanger.currView)
  nd.askAbortView .prepare

/-- `processViewChangeMsg` after the first chance to join. -/
def joinedViewChange (restore : Bool) : Node :=
  if nd.viewChanger.viewChangeMsgs.voted.length < cfg.quorum - 1 ∧ restore = false then
    nd.setViewChanger .select
  else if cfg.speedUpViewChange then nd.saveViewChange restore
  else
    nd.joinViewChange ⟨nd.viewChanger.currView, true⟩ (.save restore)
      (·.saveViewChange restore)

def processViewChangeMsg (restore : Bool) : Node :=
  if (nd.viewChanger.viewChangeMsgs.voted.length = cfg.f + 1 ∧
      cfg.speedUpViewChange = true) ∨ restore = true then
    nd.joinViewChange ⟨nd.viewChanger.currView, true⟩ (.joined restore)
      (·.joinedViewChange cfg restore)
  else nd.joinedViewChange cfg restore

def afterAbortView : AbortViewThen → Node
  | .select => nd.watchTimeout.setViewChanger .select
  | .joined restore => nd.watchTimeout.joinedViewChange cfg restore
  | .save restore => nd.watchTimeout.saveViewChange restore
  | .prepare => nd.enterNextView

def abortSent : Option Node :=
  match nd.viewChanger.pc, nd.controller.abortViewChan with
  | .sendAbort view next, none =>
    some ({ nd with controller := { nd.controller with
      abortViewChan := some view } }.afterAbortView cfg next)
  | _, _ => none

def processNextView (sender nextView : Nat) : Node :=
  let vc := nd.viewChanger
  let nvs := vc.nvs.registerNext nextView sender
  let nd := { nd with viewChanger := { vc with nvs := nvs } }
  if nextView = vc.currView + 1 then
    { nd with viewChanger := { nd.viewChanger with
        viewChangeMsgs :=
          vc.viewChangeMsgs.registerVote (fun _ _ => true) sender () } }.processViewChangeMsg
      cfg false
  else if vc.nextView = vc.currView + 1 ∧ vc.realView < nextView ∧
      nextView < vc.currView + 1 ∧ nvs.sendRecv nextView sender = true then
    nd.broadcastByViewChanger (.viewChange nextView)
  else nd

/-! ## View data -/

def readInFlight : Option Node :=
  match nd.viewChanger.pc with
  | .readInFlight lastDecision purpose =>
    match getInFlight nd.persisted.inFlight lastDecision.proposal
        nd.viewChanger.committedDuringViewChange with
    | .error (.panic text) => some (nd.panic text)
    | .error (.error text) => some (nd.panic text)
    | .ok inFlight => some (nd.setViewChanger (.readPrepared lastDecision inFlight purpose))
  | _ => none

/-- The end of `processNewViewMsg`; the leader then clears the view data. -/
def finishNewView (own : Bool) : Node :=
  let nd :=
    if own then { nd with viewChanger := { nd.viewChanger with viewDataMsgs := {} } }
    else nd
  nd.setViewChanger .select

/-- A node that is the next leader keeps its view data, any other sends it. -/
def sendViewData (svd : SignedViewData) : Node :=
  match nd.nextLeader cfg with
  | none => nd.panic "all nodes are blacklisted"
  | some leader =>
    if leader = cfg.selfID then
      { nd with viewChanger := { nd.viewChanger with
          viewDataMsgs := nd.viewChanger.viewDataMsgs.registerVote (fun _ _ => true)
            cfg.selfID svd } }.setViewChanger .select
    else (nd.record (.send leader (.viewData svd))).setViewChanger .select

/-- The new view message of the leader, which it then processes itself. -/
def sendNewView (svd : SignedViewData) : Node :=
  let others := nd.viewChanger.viewDataMsgs.votes.filter fun vote => vote.1 ≠ cfg.selfID
  let signed := svd :: others.map Prod.snd
  let nd := nd.broadcastByViewChanger (.newView signed)
  match nd.nextLeader cfg with
  | none => nd.panic "all nodes are blacklisted"
  | some leader =>
    if leader = cfg.selfID then nd.setViewChanger (.validate signed true)
    else nd.finishNewView true

/-- What `prepareViewDataMsg` builds from what it has read. -/
def viewDataOf (lastDecision : Decision) (inFlight : Option Proposal) : ViewData where
  nextView := nd.viewChanger.currView
  lastDecision := some lastDecision.proposal
  lastDecisionSignatures := lastDecision.signatures
  inFlightProposal := inFlight
  inFlightPrepared := nd.persisted.inFlight.isInFlightPrepared

/-- The flag is read, and the view data is built and signed. -/
def readPrepared : Option Node :=
  match nd.viewChanger.pc with
  | .readPrepared lastDecision inFlight purpose =>
    let vd := nd.viewDataOf lastDecision inFlight
    let svd : SignedViewData := ⟨.marshal vd, cfg.selfID, cfg.sign (.marshal vd)⟩
    let nd := nd.record (.viewData purpose vd)
    match purpose with
    | .leader => some (nd.sendViewData cfg svd)
    | .newView => some (nd.sendNewView cfg svd)
  | _ => none

/-- `processViewDataMsg` up to the view data of the leader itself. -/
def processViewDataMsg : Node :=
  if nd.viewChanger.viewDataMsgs.voted.length < cfg.quorum then nd.setViewChanger .select
  else
    match extractViewDataMessages (nd.viewChanger.viewDataMsgs.votes.map Prod.snd) with
    | none => nd.panic "unable to unmarshal viewData message"
    | some messages =>
      match checkInFlight messages cfg.f cfg.quorum with
      | .error (.panic text) => nd.panic text
      | .error (.error text) => nd.panic text
      | .ok result =>
        if result.ok then nd.beginViewData .newView else nd.setViewChanger .select

def registerViewData (sender : Nat) (svd : SignedViewData) : Node :=
  { nd with viewChanger := { nd.viewChanger with
      viewDataMsgs := nd.viewChanger.viewDataMsgs.registerVote (fun _ _ => true)
        sender svd } }.processViewDataMsg cfg

def processViewData (sender : Nat) (svd : SignedViewData) : Node :=
  match nd.nextLeader cfg with
  | none => nd.panic "all nodes are blacklisted"
  | some leader =>
    if leader ≠ cfg.selfID then nd
    else
      match validateViewDataMsg verifier nd.viewChanger.currView cfg.quorum
          nd.checkpoint svd sender, svd.rawViewData.reading with
      | .valid _, _ => nd.registerViewData cfg sender svd
      | .deliver decision sequence, some vd =>
        nd.setViewChanger (.deliver decision (.viewData sender svd vd sequence))
      | .panic (.panic text), _ => nd.panic text
      | .panic (.error text), _ => nd.panic text
      | _, _ => nd

/-! ## New view messages -/

def processNewView (sender : Nat) (signed : List SignedViewData) : Node :=
  match nd.nextLeader cfg with
  | none => nd.panic "all nodes are blacklisted"
  | some leader =>
    if sender ≠ leader then nd else nd.setViewChanger (.validate signed false)

/-- `processNewViewMsg` once the in-flight proposal is settled. -/
def saveNewView (own : Bool) : Node :=
  match extractCurrentSequence nd.checkpoint with
  | .error _ => nd.panic "unable to unmarshal its own last decision metadata from checkpoint"
  | .ok mySequence =>
    let view := nd.viewChanger.currView
    let nd := nd.save (.newView { viewId := view, latestSequence := mySequence })
    if nd.viewChanger.stopped then nd.finishNewView own
    else
      let nd := { nd with viewChanger := { nd.viewChanger with
        realView := view, nvs := {} } }
      let nd := if nd.iAmTheLeader cfg then nd.closeBatcher else nd
      nd.setViewChanger (.sendViewChanged view (mySequence + 1) own)

/-- One validation of the message, and the use of `CheckInFlight` if it is valid. -/
def validateStep : Option Node :=
  match nd.viewChanger.pc with
  | .validate signed own =>
    match validateNewViewMsg verifier nd.viewChanger.currView cfg.quorum nd.checkpoint
        signed with
    | .error _ =>
      some (nd.panic "unable to unmarshal its own last decision metadata from checkpoint")
    | .ok .invalid => some (nd.finishNewView own)
    | .ok .sync => some ((nd.sync cfg).finishNewView own)
    | .ok (.deliver decision svd vd sequence) =>
      some (nd.setViewChanger (.deliver decision (.newView signed own svd vd sequence)))
    | .ok .valid =>
      match checkNewView cfg.f cfg.quorum nd.checkpoint signed with
      | .drop | .sync => some (nd.finishNewView own)
      | .panic _ => some (nd.panic "the check of the in flight proposal failed")
      | .act _ _ result =>
        if result.noInFlight then some (nd.saveNewView cfg own)
        else some (nd.setViewChanger (.commitInFlight signed result.inFlightProposal own))
  | _ => none

/-! ## Deliveries -/

/-- `sync` holds the lock that a delivery needs until it returns. -/
def syncLocked : Bool :=
  match nd.controller.pc with
  | .fetching _ _ _ _ _ => true
  | .informing _ _ _ => true
  | _ => false

/-- `deliverDecision`, and the checks that follow it. -/
def deliverStep (answer : DeliverAnswer) : Option Node :=
  match nd.viewChanger.pc with
  | .deliver decision purpose =>
    if nd.syncLocked then none
    else
      let nd := nd.deliver decision answer
      let nd := { nd with viewChanger := { nd.viewChanger with
        stopped := nd.viewChanger.stopped || answer.reconfig } }
      match purpose with
      | .viewData sender svd vd sequence =>
        let nd := { nd with viewChanger := { nd.viewChanger with
          committedDuringViewChange := decision.proposal.unmarshalMetadata } }
        if nd.viewChanger.stopped || !checkedAfterDelivery verifier svd sender ||
            !(validateInFlight vd.inFlightProposal sequence).isOk then
          some (nd.setViewChanger .select)
        else some (nd.registerViewData cfg sender svd)
      | .newView signed own svd vd sequence =>
        if nd.viewChanger.stopped || !validAfterDelivery verifier svd vd sequence then
          some (nd.finishNewView own)
        else some (nd.setViewChanger (.validate signed own))
  | _ => none

/-! ## The in-flight view -/

/-- What `commitInFlightProposal` does with the proposal: it is decided already,
it cannot be, or it is to be committed in a view of its own. -/
inductive InFlightPlan where
  | decided
  | conflict
  | commit (md : ViewMetadata)
  | panic (text : String)
  deriving DecidableEq, Repr

def planInFlight (checkpoint : Decision) (proposal : Proposal) : InFlightPlan :=
  match proposal.unmarshalMetadata, checkpoint.proposal.metadata with
  | none, _ => .panic "unable to unmarshal the in flight proposal metadata"
  | some proposalMD, none => .commit proposalMD
  | some proposalMD, some raw =>
    match raw.reading with
    | none => .panic "unable to unmarshal its own last decision metadata from checkpoint"
    | some lastDecisionMD =>
      if lastDecisionMD.latestSequence = proposalMD.latestSequence then
        if checkpoint.proposal = proposal then .decided else .conflict
      else if nextSequence lastDecisionMD.latestSequence = proposalMD.latestSequence then
        .commit proposalMD
      else .panic "got an in flight proposal with a sequence that is not the next one"

/-- The view in which an in-flight proposal is committed; the node is its own
leader there, so that no leader can make it complain. -/
def newInFlightView (proposal : Proposal) (md : ViewMetadata) : View :=
  let signature := cfg.signProposal proposal none
  { number := md.viewId
    leaderID := cfg.selfID
    proposalSequence := md.latestSequence
    phase := .prepared
    inFlightProposal := some proposal
    myProposalSig := some signature
    lastBroadcastSent := some (.commit {
      view := md.viewId
      digest := cfg.digest proposal
      seq := md.latestSequence
      signature := some signature }) }

def commitInFlight : Option Node :=
  match nd.viewChanger.pc with
  | .commitInFlight _ none _ => some (nd.panic "The in flight proposal is nil")
  | .commitInFlight _ (some proposal) own =>
    match planInFlight nd.checkpoint proposal with
    | .decided => some (nd.saveNewView cfg own)
    | .conflict => some (nd.finishNewView own)
    | .panic text => some (nd.panic text)
    | .commit md =>
      some ({ nd with inFlightView := some (newInFlightView cfg proposal md) }.setViewChanger
        (.waitInFlight own))
  | _ => none

/-- The deferred `inFlightView.Abort`: stop the view, then wait for it to end. -/
def leaveInFlight (success own : Bool) : Node :=
  { nd with inFlightView := nd.inFlightView.map View.stop }.setViewChanger
    (.abortInFlight success own)

/-- `checkIfTimeout` when the time has passed. -/
def timedOut : Node :=
  let nd := { nd with viewChanger := { nd.viewChanger with checkTimeout := false } }
  (nd.sync cfg).startViewChange nd.viewChanger.currView false

/-- The cases of the loop of `commitInFlightProposal`. -/
def waitInFlightStep (own : Bool) : ViewChangerEvent → Option Node
  | .inFlightDecided =>
    match nd.inFlightView with
    | some view =>
      if view.pc = .delivering then
        some ({ nd with inFlightView := some view.decided }.leaveInFlight true own)
      else none
    | none => none
  | .inFlightSynced =>
    match nd.inFlightView with
    | some view =>
      match view.pc with
      | .syncing loop =>
        some ({ nd with inFlightView := some { view with pc := .select loop }
          }.leaveInFlight false own)
      | _ => none
    | none => none
  | .inFlightTimeout =>
    if nd.viewChanger.checkTimeout then some ((nd.timedOut cfg).leaveInFlight false own)
    else none
  | .inFlightStop =>
    if nd.viewChanger.stopped then some (nd.leaveInFlight false own) else none
  | _ => none

def inFlightEnded : Option Node :=
  match nd.viewChanger.pc, nd.inFlightView with
  | .abortInFlight success own, some view =>
    if view.pc = .ended then
      some (if success then nd.saveNewView cfg own else nd.finishNewView own)
    else none
  | _, _ => none

/-- `Controller.ViewChanged` sends, and `processNewViewMsg` ends. -/
def viewChangedSent : Option Node :=
  match nd.viewChanger.pc, nd.controller.viewChange with
  | .sendViewChanged view seq own, none =>
    some ({ nd with
      controller := { nd.controller with viewChange := some ⟨view, seq⟩ }
      viewChanger := { nd.viewChanger with checkTimeout := false } }.finishNewView own)
  | _, _ => none

/-! ## One step of the run loop -/

def informNewView (view : Nat) : Node :=
  if view < nd.viewChanger.currView then nd
  else { nd with viewChanger := { nd.viewChanger with
    currView := view
    realView := view
    nextView := view
    nvs := {}
    viewChangeMsgs := {}
    viewDataMsgs := {}
    checkTimeout := false } }

def tick (resend timeout : Bool) : Node :=
  let nd :=
    if resend && nd.viewChanger.checkTimeout then
      nd.broadcastByViewChanger (.viewChange nd.viewChanger.nextView)
    else nd
  if timeout && nd.viewChanger.checkTimeout then nd.timedOut cfg else nd

/-- The cases of the `select` of `ViewChanger.run`. -/
def viewChangerSelect : ViewChangerEvent → Option Node
  | .stop => if nd.viewChanger.stopped then some (nd.setViewChanger .exited) else none
  | .startChange =>
    match nd.viewChanger.startChangeChan with
    | [] => none
    | change :: rest =>
      some ({ nd with viewChanger := { nd.viewChanger with
        startChangeChan := rest } }.joinViewChange change .select id)
  | .msg sender (.viewChange nextView) => some (nd.processNextView cfg sender nextView)
  | .msg sender (.viewData svd) => some (nd.processViewData cfg verifier sender svd)
  | .msg sender (.newView signed) => some (nd.processNewView cfg sender signed)
  | .tick resend timeout => some (nd.tick cfg resend timeout)
  | .inform =>
    nd.viewChanger.informChan.map fun view =>
      { nd with viewChanger := { nd.viewChanger with informChan := none } }.informNewView
        view
  | .restore =>
    if nd.viewChanger.restore then
      some ({ nd with viewChanger := { nd.viewChanger with
        restore := false } }.processViewChangeMsg cfg true)
    else none
  | _ => none

def viewChangerStep (event : ViewChangerEvent) : Option Node :=
  match nd.viewChanger.pc with
  | .select => nd.viewChangerSelect cfg verifier event
  | .waitInFlight own => nd.waitInFlightStep cfg own event
  | .sendAbort _ _ => if event = .abortSent then nd.abortSent cfg else none
  | .readInFlight _ _ => if event = .readInFlight then nd.readInFlight else none
  | .readPrepared _ _ _ => if event = .readPrepared then nd.readPrepared cfg else none
  | .deliver _ _ =>
    match event with
    | .deliver answer => nd.deliverStep cfg verifier answer
    | _ => none
  | .validate _ _ => if event = .validate then nd.validateStep cfg verifier else none
  | .commitInFlight _ _ _ => if event = .commitInFlight then nd.commitInFlight cfg else none
  | .abortInFlight _ _ => if event = .inFlightEnded then nd.inFlightEnded cfg else none
  | .sendViewChanged _ _ _ => if event = .viewChangedSent then nd.viewChangedSent else none
  | .exited => none

end Node

end SmartBFT
