import SmartBFT.State

/-!
# The state of a node

A node is its controller, the view that the controller runs, the view changer
and the view for an in-flight proposal that the view changer may run, together
with what these share: the checkpoint, the in-flight record and the write-ahead
log.  Each of the four is a goroutine, and its program counter says at which
`select` or in which blocking call it stands.

`trace` records what the node has done, newest first.  Nothing in the node
reads it.
-/

namespace SmartBFT

/-- What the controller does when `CurrView.Abort` has returned. -/
inductive AbortThen where
  /-- nothing: `abortView` was called by the run loop itself -/
  | stay
  /-- `changeView` goes on; `rotation` says that `decide` called it -/
  | start (view seq dec : Nat) (rotation : Bool)
  /-- the run loop exits -/
  | exit
  deriving DecidableEq, Repr

inductive ControllerPc where
  | select
  /-- in `decide`, sending on `deliverChan` -/
  | acking (decision : Decision)
  /-- in `decide`, the view was released and the decision is not counted yet -/
  | acked (decision : Decision)
  /-- in `decide`, before `checkIfRotate` -/
  | counted (decision : Decision)
  /-- in `View.Abort`, waiting for the view to end -/
  | aborting (next : AbortThen)
  /-- in `propose`, after the proposal was assembled -/
  | proposing (proposal : Proposal)
  /-- in `sync`, after the synchronizer has returned -/
  | fetching (latest : Option ViewMetadata) (controllerViewNum newViewNum : Nat)
      (newProposalSequence newDecisionsInView : Nat)
  /-- in `sync`, sending on the `informChan` of the view changer -/
  | informing (newViewNum newProposalSequence newDecisionsInView : Nat)
  | exited
  deriving DecidableEq, Repr

structure Controller where
  currViewNumber : Nat
  currDecisionsInView : Nat
  leaderToken : Bool := false
  batcherClosed : Bool := false
  viewChange : Option ViewAndSeq := none
  abortViewChan : Option Nat := none
  syncChan : Bool := false
  /-- `stopChan` is closed -/
  stopped : Bool := false
  pc : ControllerPc := .select
  deriving DecidableEq, Repr

structure Change where
  view : Nat
  stopView : Bool
  deriving DecidableEq, Repr

/-- Where the view changer goes on after `Controller.AbortView`. -/
inductive AbortViewThen where
  /-- after a `startViewChange` of the run loop -/
  | select
  /-- in `processViewChangeMsg`, after it has joined the view change -/
  | joined (restore : Bool)
  /-- in `processViewChangeMsg`, before it saves -/
  | save (restore : Bool)
  /-- in `processViewChangeMsg`, before it prepares the view data -/
  | prepare
  deriving DecidableEq, Repr

/-- Who called `prepareViewDataMsg`: `processViewChangeMsg`, or
`processViewDataMsg` of the new leader. -/
inductive ViewDataFor where
  | leader
  | newView
  deriving DecidableEq, Repr

/-- Who called `deliverDecision`: `checkLastDecision` or `validateNewViewMsg`.
`own` says that the new view message is this node's own. -/
inductive DeliverFor where
  | viewData (sender : Nat) (svd : SignedViewData) (vd : ViewData) (sequence : Nat)
  | newView (signed : List SignedViewData) (own : Bool) (svd : SignedViewData)
      (vd : ViewData) (sequence : Nat)
  deriving DecidableEq, Repr

inductive ViewChangerPc where
  | select
  /-- in `Controller.AbortView`, sending on `abortViewChan` -/
  | sendAbort (view : Nat) (next : AbortViewThen)
  /-- in `prepareViewDataMsg`, after it has read the checkpoint -/
  | readInFlight (lastDecision : Decision) (purpose : ViewDataFor)
  /-- in `prepareViewDataMsg`, after it has read the in-flight proposal -/
  | readPrepared (lastDecision : Decision) (inFlight : Option Proposal)
      (purpose : ViewDataFor)
  /-- in `deliverDecision` -/
  | deliver (decision : Decision) (purpose : DeliverFor)
  /-- in `processNewViewMsg`, before `validateNewViewMsg` -/
  | validate (signed : List SignedViewData) (own : Bool)
  /-- at the start of `commitInFlightProposal` -/
  | commitInFlight (signed : List SignedViewData) (proposal : Option Proposal) (own : Bool)
  /-- in the loop of `commitInFlightProposal` -/
  | waitInFlight (own : Bool)
  /-- in the deferred `inFlightView.Abort` -/
  | abortInFlight (success own : Bool)
  /-- in `Controller.ViewChanged`, sending on `viewChange` -/
  | sendViewChanged (view seq : Nat) (own : Bool)
  | exited
  deriving DecidableEq, Repr

structure ViewChanger where
  realView : Nat
  currView : Nat
  nextView : Nat
  viewChangeMsgs : VoteSet Unit := {}
  viewDataMsgs : VoteSet SignedViewData := {}
  nvs : NextViews := {}
  checkTimeout : Bool := false
  startChangeChan : List Change := []
  informChan : Option Nat := none
  committedDuringViewChange : Option ViewMetadata := none
  /-- the token in the channel `Restore` -/
  restore : Bool := false
  /-- `stopChan` is closed -/
  stopped : Bool := false
  pc : ViewChangerPc := .select
  deriving DecidableEq, Repr

/-- Who broadcasts: the view of the controller, with its number, the view for an
in-flight proposal, or the view changer. -/
inductive Origin where
  | view (number : Nat)
  | inFlightView
  | viewChanger
  deriving DecidableEq, Repr

inductive Action where
  | broadcast (origin : Origin) (m : Message)
  | send (target : Nat) (m : Message)
  | save (m : SavedMessage)
  | deliver (decision : Decision)
  | viewData (purpose : ViewDataFor) (vd : ViewData)
  deriving DecidableEq, Repr

structure Node where
  checkpoint : Decision
  persisted : PersistedState
  viewSequences : ViewSequence
  controller : Controller
  currView : View
  viewChanger : ViewChanger
  inFlightView : Option View := none
  trace : List Action := []
  panicked : Option String := none
  deriving DecidableEq, Repr

namespace Node

variable (cfg : Config) (nd : Node)

def record (action : Action) : Node :=
  { nd with trace := action :: nd.trace }

def panic (text : String) : Node := { nd with panicked := some text }

/-- `latestSeq`, `blacklist`: the metadata of the checkpoint; `none` is a panic. -/
def checkpointMetadata : Option ViewMetadata :=
  nd.checkpoint.proposal.unmarshalMetadata

/-- `Controller.leaderID`; `none` is a panic. -/
def leaderID : Option Nat :=
  nd.checkpointMetadata.bind fun md =>
    getLeaderID nd.controller.currViewNumber cfg.n cfg.nodes cfg.leaderRotation
      nd.controller.currDecisionsInView cfg.decisionsPerLeader md.blackList

def iAmTheLeader : Bool :=
  decide (nd.leaderID cfg = some cfg.selfID)

/-- `ViewChanger.getLeader`; `none` is a panic. -/
def nextLeader : Option Nat :=
  nd.checkpointMetadata.bind fun md =>
    getLeaderID nd.viewChanger.currView cfg.n cfg.nodes cfg.leaderRotation 0
      cfg.decisionsPerLeader md.blackList

def closeBatcher : Node :=
  { nd with controller := { nd.controller with batcherClosed := true } }

def sync : Node :=
  let nd := if nd.iAmTheLeader cfg then nd.closeBatcher else nd
  { nd with controller := { nd.controller with syncChan := true } }

/-- `StartViewChange`: the request is dropped when the channel is full. -/
def startViewChange (view : Nat) (stopView : Bool) : Node :=
  if nd.viewChanger.startChangeChan.length < 2 then
    { nd with viewChanger := { nd.viewChanger with
        startChangeChan := nd.viewChanger.startChangeChan ++ [⟨view, stopView⟩] } }
  else nd

def save (m : SavedMessage) : Node :=
  match nd.persisted.save m with
  | .error (.panic text) => nd.panic text
  | .error (.error text) => nd.panic text
  | .ok persisted => { nd.record (.save m) with persisted := persisted }

theorem save_cases (nd : Node) (m : SavedMessage) :
    (∃ text, nd.save m = nd.panic text) ∨
      ∃ persisted, nd.persisted.save m = .ok persisted ∧
        nd.save m = { nd.record (.save m) with persisted := persisted } := by
  unfold save
  split
  · exact .inl ⟨_, rfl⟩
  · exact .inl ⟨_, rfl⟩
  · rename_i persisted hsaved
    exact .inr ⟨persisted, hsaved, rfl⟩

end Node

/-- What the application and the synchronizer answer to a delivery: whether there
is a reconfiguration, and the decision that a sync returns. -/
structure DeliverAnswer where
  reconfig : Bool := false
  synced : Decision := {}
  deriving DecidableEq, Repr

/-- `MutuallyExclusiveDeliver.Deliver`: a decision that is not ahead of the
checkpoint is not delivered but replaced by the result of a sync. -/
def Node.deliver (nd : Node) (decision : Decision) (answer : DeliverAnswer) : Node :=
  match decision.proposal.unmarshalMetadata, nd.checkpointMetadata with
  | none, _ => nd.panic "Failed unmarshalling metadata of pending proposal"
  | some _, none => nd.panic "Failed unmarshalling metadata"
  | some pending, some latest =>
    if latest.latestSequence ≠ 0 ∧ pending.latestSequence ≤ latest.latestSequence then
      { nd with checkpoint := answer.synced }
    else { nd.record (.deliver decision) with checkpoint := decision }

theorem Node.deliver_cases (nd : Node) (decision : Decision) (answer : DeliverAnswer) :
    (∃ text, nd.deliver decision answer = nd.panic text) ∨
      nd.deliver decision answer = { nd with checkpoint := answer.synced } ∨
      nd.deliver decision answer =
        { nd.record (.deliver decision) with checkpoint := decision } := by
  unfold deliver
  split
  · exact .inl ⟨_, rfl⟩
  · exact .inl ⟨_, rfl⟩
  · split
    · exact .inr (.inl rfl)
    · exact .inr (.inr rfl)

end SmartBFT
