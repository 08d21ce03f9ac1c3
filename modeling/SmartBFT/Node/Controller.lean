import SmartBFT.Node.State

/-!
# The run loop of the controller

`internal/bft/controller.go`.  A step is one case of the `select` of
`Controller.run` up to the first call that may block, or what follows such a
call.  The request pool, the heartbeat monitor and the state collector are
outside the model: a batch, a sync response and the collected state are inputs.
-/

namespace SmartBFT

/-- What the assembler makes of a batch, apart from the metadata. -/
structure Batch where
  header : Bytes := []
  payload : Bytes := []
  verificationSequence : Nat := 0
  deriving DecidableEq, Repr

/-- The cases of `Controller.run`, and the returns of the blocking calls. -/
inductive ControllerEvent where
  | decide (answer : DeliverAnswer)
  | ack
  | count
  | rotate
  | ackStopped
  | viewChange
  | abortView
  | stop
  | propose (batch : Option Batch)
  | proposed
  | sync (response : Decision) (reconfig : Bool)
  | fetched (response : Option ViewAndSeq)
  | informed
  | viewEnded
  deriving DecidableEq, Repr

namespace Node

variable (cfg : Config) (verifier : Verifier) (nd : Node)

def setController (pc : ControllerPc) : Node :=
  { nd with controller := { nd.controller with pc := pc } }

def acquireLeaderToken : Node :=
  { nd with controller := { nd.controller with leaderToken := true } }

def relinquishLeaderToken : Node :=
  { nd with controller := { nd.controller with leaderToken := false } }

/-! ## Changing the view -/

/-- `CurrView.Abort`: stop the view, then wait for it to end. -/
def abortCurrView (next : AbortThen) : Node :=
  { nd with
    currView := nd.currView.stop
    controller := { nd.controller with pc := .aborting next } }

/-- `startView` for every view but the first one: nothing is restored from the
log. -/
def startView (proposalSequence : Nat) : Node :=
  match nd.leaderID cfg with
  | none => nd.panic "all nodes are blacklisted"
  | some leader =>
    let nd := { nd with
      currView := .fresh leader proposalSequence nd.controller.currViewNumber
        nd.controller.currDecisionsInView
      viewSequences := ⟨true, proposalSequence⟩ }
    if leader = cfg.selfID then nd.acquireLeaderToken else nd

def finishDecide : Node :=
  let nd := if nd.iAmTheLeader cfg then nd.acquireLeaderToken else nd
  nd.setController .select

def afterChangeView (rotation : Bool) : Node :=
  if rotation then nd.finishDecide cfg else nd.setController .select

/-- The view that `changeView` would start is the one that runs. -/
def alreadyRunning (newViewNumber newDecisionsInView : Nat) : Bool :=
  !nd.currView.aborted && decide (nd.controller.currViewNumber = newViewNumber) &&
    decide (nd.leaderID cfg = some nd.currView.leaderID) &&
    decide (nd.controller.currDecisionsInView = newDecisionsInView)

def changeView (newViewNumber newProposalSequence newDecisionsInView : Nat) (rotation : Bool) :
    Node :=
  if newViewNumber < nd.controller.currViewNumber then nd.afterChangeView cfg rotation
  else if nd.alreadyRunning cfg newViewNumber newDecisionsInView then
    nd.afterChangeView cfg rotation
  else
    nd.relinquishLeaderToken.abortCurrView
      (.start newViewNumber newProposalSequence newDecisionsInView rotation)

/-- `changeView` after `CurrView.Abort` has returned. -/
def restartView (newViewNumber newProposalSequence newDecisionsInView : Nat) (rotation : Bool) :
    Node :=
  let nd := { nd with controller := { nd.controller with
    currViewNumber := newViewNumber, currDecisionsInView := newDecisionsInView } }
  let nd := nd.startView cfg newProposalSequence
  let nd :=
    if nd.iAmTheLeader cfg then
      { nd with controller := { nd.controller with batcherClosed := false } }
    else nd
  nd.afterChangeView cfg rotation

def viewEnded : Option Node :=
  if nd.currView.pc ≠ .ended then none
  else
    match nd.controller.pc with
    | .aborting .stay => some (nd.setController .select)
    | .aborting (.start view seq dec rotation) =>
      some (nd.restartView cfg view seq dec rotation)
    | .aborting .exit => some (nd.setController .exited)
    | _ => none

def abortView (view : Nat) : Node :=
  if view < nd.controller.currViewNumber then nd
  else nd.relinquishLeaderToken.abortCurrView .stay

/-- `case d := <-c.decisionChan`: the decision is taken from the view and
delivered. -/
def decideStep (answer : DeliverAnswer) : Option Node :=
  match nd.controller.pc, nd.currView.pc with
  | .select, .deciding decision _ =>
    let nd := nd.deliver decision answer
    some { nd with
      currView := { nd.currView with pc := .delivering }
      controller := { nd.controller with
        stopped := nd.controller.stopped || answer.reconfig
        pc := .acking decision } }
  | _, _ => none

/-- `checkIfRotate`; `none` is a panic. -/
def checkIfRotate (blacklist : List Nat) : Option Bool :=
  let leader (decisionsInView : Nat) :=
    getLeaderID nd.controller.currViewNumber cfg.n cfg.nodes cfg.leaderRotation
      decisionsInView cfg.decisionsPerLeader blacklist
  match leader (nd.controller.currDecisionsInView - 1),
      leader nd.controller.currDecisionsInView with
  | some currLeader, some nextLeader => some (decide (currLeader ≠ nextLeader))
  | _, _ => none

/-- `decide` after the decision was counted. -/
def rotateOrFinish (decision : Decision) : Node :=
  match decision.proposal.unmarshalMetadata with
  | none => nd.panic "Failed to unmarshal proposal metadata"
  | some md =>
    match nd.checkIfRotate cfg md.blackList with
    | none => nd.panic "all nodes are blacklisted"
    | some true =>
      nd.changeView cfg nd.controller.currViewNumber (md.latestSequence + 1)
        nd.controller.currDecisionsInView true
    | some false => nd.finishDecide cfg

/-- The send on `deliverChan` lets the view go on with its next sequence. -/
def ackStep : Option Node :=
  match nd.controller.pc, nd.currView.pc with
  | .acking decision, .delivering =>
    some ({ nd with currView := nd.currView.decided }.setController (.acked decision))
  | _, _ => none

def countStep : Option Node :=
  match nd.controller.pc with
  | .acked decision => some { nd with controller := { nd.controller with
      currDecisionsInView := nd.controller.currDecisionsInView + 1
      pc := .counted decision } }
  | _ => none

def rotateStep : Option Node :=
  match nd.controller.pc with
  | .counted decision => some (nd.rotateOrFinish cfg decision)
  | _ => none

def ackStopped : Option Node :=
  match nd.controller.pc with
  | .acking _ => if nd.controller.stopped then some (nd.setController .select) else none
  | _ => none

/-! ## Proposing -/

/-- `propose` up to the assembled proposal. -/
def propose (batch : Option Batch) : Node :=
  let nd := nd.relinquishLeaderToken
  if nd.controller.stopped || nd.controller.batcherClosed then nd
  else
    match batch with
    | none => nd.acquireLeaderToken
    | some batch =>
      match nd.currView.getMetadata cfg verifier nd.checkpoint with
      | none => nd.panic "Attempted to propose with invalid previous metadata"
      | some metadata =>
        nd.setController (.proposing {
          header := batch.header
          payload := batch.payload
          metadata := some (.marshal metadata)
          verificationSequence := batch.verificationSequence })

/-- `CurrView.Propose`: the message goes into the queue of the view, as one of
its leader. -/
def proposedStep : Option Node :=
  match nd.controller.pc with
  | .proposing proposal =>
    if nd.currView.aborted then some (nd.setController .select)
    else
      (nd.currView.handleMessage cfg nd.currView.leaderID
        (nd.currView.proposeMessage cfg nd.checkpoint proposal)).map fun view =>
          { nd with currView := view }.setController .select
  | _ => none

/-! ## Synchronizing -/

/-- What `sync` reads from the metadata of a sync response. -/
def latestMetadata (response : Decision) : Option (Option ViewMetadata) :=
  match response.proposal.metadata with
  | none => some none
  | some raw => raw.reading.map some

/-- `sync` up to the request for the state of the other nodes.  A sync token
that others grab meanwhile is dropped with this one. -/
def beginSync (response : Decision) (reconfig : Bool) : Node :=
  let nd := { nd with
    controller := { nd.controller with
      syncChan := true, stopped := nd.controller.stopped || reconfig }
    viewChanger := { nd.viewChanger with
      stopped := nd.viewChanger.stopped || reconfig } }
  match latestMetadata response, nd.checkpointMetadata with
  | none, _ =>
    nd.panic "Controller was unable to unmarshal the proposal metadata returned by the Synchronizer"
  | some _, none => nd.panic "Failed unmarshalling metadata"
  | some latest, some md =>
    let controllerViewNum := nd.controller.currViewNumber
    let latestDecision := latest.getD {}
    let newViewNum := max controllerViewNum latestDecision.viewId
    if md.latestSequence < latestDecision.latestSequence then
      { nd with checkpoint := response }.setController
        (.fetching latest controllerViewNum newViewNum
          (latestDecision.latestSequence + 1) (latestDecision.decisionsInView + 1))
    else
      nd.setController
        (.fetching latest controllerViewNum newViewNum (md.latestSequence + 1) 0)

def maybePruneInFlight (syncResult : ViewMetadata) : Node :=
  match nd.persisted.inFlight with
  | none => nd
  | some data =>
    match data.proposal.unmarshalMetadata with
    | none => nd.panic "In-flight proposal was malformed"
    | some inFlightMD =>
      if syncResult.latestSequence < inFlightMD.latestSequence then nd
      else { nd with persisted := { nd.persisted with inFlight := none } }

/-- `relinquishSyncToken`, and what the run loop does with the result of `sync`. -/
def endSync (view seq dec : Nat) : Node :=
  let nd := { nd with controller := { nd.controller with syncChan := false } }
  if 0 < view ∨ 0 < seq then nd.changeView cfg view seq dec false
  else
    nd.changeView cfg nd.controller.currViewNumber nd.viewSequences.proposalSeq
      nd.controller.currDecisionsInView false

/-- `sync` from the point where it has pruned. -/
def informOrEnd (controllerViewNum newViewNum seq dec : Nat) : Node :=
  if controllerViewNum < newViewNum then nd.setController (.informing newViewNum seq dec)
  else nd.endSync cfg newViewNum seq dec

def fetched (latest : Option ViewMetadata) (controllerViewNum newViewNum seq dec : Nat)
    (response : Option ViewAndSeq) : Node :=
  let latestDecision := latest.getD {}
  let prune (nd : Node) := match latest with
    | none => nd
    | some md => nd.maybePruneInFlight md
  match response with
  | none =>
    if latest = none ∨ latestDecision.viewId < controllerViewNum then nd.endSync cfg 0 0 0
    else (prune nd).informOrEnd cfg controllerViewNum newViewNum seq dec
  | some response =>
    if response.view ≤ controllerViewNum ∧ latestDecision.viewId < controllerViewNum then
      nd.endSync cfg 0 0 0
    else if newViewNum < response.view ∧
        response.seq = latestDecision.latestSequence + 1 then
      (prune (nd.save (.newView {
        viewId := response.view
        latestSequence := latestDecision.latestSequence }))).informOrEnd cfg
          controllerViewNum response.view seq 0
    else (prune nd).informOrEnd cfg controllerViewNum newViewNum seq dec

def informedStep : Option Node :=
  match nd.controller.pc with
  | .informing view seq dec =>
    if nd.viewChanger.informChan = none then
      some ({ nd with viewChanger := { nd.viewChanger with
        informChan := some view } }.endSync cfg view seq dec)
    else if nd.viewChanger.stopped then some (nd.endSync cfg view seq dec)
    else none
  | _ => none

/-! ## One step of the run loop -/

/-- The case of the `select` that takes an element from a channel. -/
def selectStep : ControllerEvent → Option Node
  | .viewChange =>
    nd.controller.viewChange.map fun info =>
      { nd with controller := { nd.controller with viewChange := none } }.changeView cfg
        info.view info.seq 0 false
  | .abortView =>
    nd.controller.abortViewChan.map fun view =>
      { nd with controller := { nd.controller with abortViewChan := none } }.abortView view
  | .stop => if nd.controller.stopped then some (nd.abortCurrView .exit) else none
  | .propose batch =>
    if nd.controller.leaderToken then some (nd.propose cfg verifier batch) else none
  | .sync response reconfig =>
    if nd.controller.syncChan then some (nd.beginSync response reconfig) else none
  | _ => none

def controllerStep : ControllerEvent → Option Node
  | .decide answer => nd.decideStep answer
  | .ack => nd.ackStep
  | .count => nd.countStep
  | .rotate => nd.rotateStep cfg
  | .ackStopped => nd.ackStopped
  | .proposed => nd.proposedStep cfg
  | .fetched response =>
    match nd.controller.pc with
    | .fetching latest controllerViewNum newViewNum seq dec =>
      some (nd.fetched cfg latest controllerViewNum newViewNum seq dec response)
    | _ => none
  | .informed => nd.informedStep cfg
  | .viewEnded => nd.viewEnded cfg
  | event => if nd.controller.pc = .select then nd.selectStep cfg verifier event else none

end Node

end SmartBFT
