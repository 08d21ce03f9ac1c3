import SmartBFT.Foundation.Run
import SmartBFT.Node.Controller
import SmartBFT.Node.ViewChanger

/-!
# Runs of a node

The goroutines of a node take turns in any order: an event names the goroutine
that takes the next step and the case it takes.  The application's verifier is
consulted anew at each step, and may change between two of them.

A crash loses everything but the write-ahead log and the last decision, which
the application keeps; `boot` is `Consensus.Start` on these two, with
`SyncOnStart` off.
-/

namespace SmartBFT

open SmartBFT.Foundation

namespace Node

/-! ## The effects of a view on its node -/

/-- Complaining while an in-flight proposal is committed is a panic. -/
def complain (nd : Node) (origin : Origin) (viewNum : Nat) (stopView : Bool) : Node :=
  if origin = .inFlightView then
    nd.panic "complained while in the view for the in flight proposal"
  else nd.startViewChange viewNum stopView

def applyOutput (cfg : Config) (origin : Origin) (nd : Node) : ViewOutput → Node
  | .broadcast m => nd.record (.broadcast origin m)
  | .send target m => nd.record (.send target m)
  | .save m => nd.save m
  | .complain viewNum stopView => nd.complain origin viewNum stopView
  | .sync => nd.sync cfg
  | .storeSequence vs => { nd with viewSequences := vs }
  | .panic text => nd.panic text

def applyOutputs (cfg : Config) (origin : Origin) : Node → List ViewOutput → Node
  | nd, [] => nd
  | nd, output :: outputs =>
    let nd := nd.applyOutput cfg origin output
    if nd.panicked.isSome then nd else nd.applyOutputs cfg origin outputs

def viewStep (cfg : Config) (verifier : Verifier) (nd : Node) (event : ViewEvent) :
    Option Node :=
  (nd.currView.step cfg verifier nd.checkpoint event).map fun (view, outputs) =>
    { nd with currView := view }.applyOutputs cfg (.view view.number) outputs

/-- `Controller.Decide` returns because the controller was stopped. -/
def viewStopped (nd : Node) : Option Node :=
  if nd.controller.stopped then
    match nd.currView.pc with
    | .deciding _ _ => some { nd with currView := nd.currView.decided }
    | .delivering => some { nd with currView := nd.currView.decided }
    | _ => none
  else none

/-! ## The in-flight view -/

/-- `ViewChanger.Sync` waits for the view changer after it has asked for a sync. -/
def awaitSync (view : View) (outputs : List ViewOutput) : View :=
  match view.pc with
  | .select loop => if .sync ∈ outputs then { view with pc := .syncing loop } else view
  | _ => view

def inFlightViewStep (cfg : Config) (verifier : Verifier) (nd : Node)
    (event : ViewEvent) : Option Node :=
  nd.inFlightView.bind fun view =>
    (view.step cfg verifier nd.checkpoint event).map fun (view, outputs) =>
      { nd with inFlightView := some (awaitSync view outputs) }.applyOutputs cfg
        .inFlightView outputs

/-- `ViewChanger.Decide` up to the send on `inFlightDecideChan`. -/
def inFlightDeliver (nd : Node) (answer : DeliverAnswer) : Option Node :=
  match nd.inFlightView with
  | none => none
  | some view =>
    match view.pc with
    | .deciding decision _ =>
      if nd.syncLocked then none
      else
        let nd := nd.deliver decision answer
        some { nd with
          inFlightView := some { view.stop with pc := .delivering }
          viewChanger := { nd.viewChanger with
            stopped := nd.viewChanger.stopped || answer.reconfig } }
    | _ => none

/-- `ViewChanger.Decide` returns because the view changer was stopped. -/
def inFlightStopped (nd : Node) : Option Node :=
  if nd.viewChanger.stopped then
    match nd.inFlightView with
    | none => none
    | some view =>
      if view.pc = .delivering then
        some { nd with inFlightView := some view.decided }
      else none
  else none

/-! ## Starting -/

/-- The controller, the view and the view changer that `Consensus.Start` creates. -/
def started (cfg : Config) (entries : List SavedMessage) (checkpoint : Decision)
    (start : StartPoint) (leader : Nat) (view : View) (inFlight : InFlightData) : Node where
  checkpoint := checkpoint
  persisted := { inFlight := inFlight, wal := entries }
  viewSequences := ⟨true, start.seq + 1⟩
  controller := {
    currViewNumber := start.view
    currDecisionsInView := start.dec
    leaderToken := decide (leader = cfg.selfID) && decide (view.phase = .committed) }
  currView := view
  viewChanger := {
    realView := start.view
    currView := start.view
    nextView := start.view
    restore := start.restoreViewChange }

def boot (cfg : Config) (entries : List SavedMessage) (checkpoint : Decision) :
    Except Failure Node :=
  match checkpoint.proposal.unmarshalMetadata with
  | none => .error (.panic "Failed unmarshalling metadata")
  | some md =>
    let start := setViewAndSeq entries md.viewId md.latestSequence md.decisionsInView
    match getLeaderID start.view cfg.n cfg.nodes cfg.leaderRotation start.dec
        cfg.decisionsPerLeader md.blackList with
    | none => .error (.panic "all nodes are blacklisted")
    | some leader =>
      (newProposer entries leader (start.seq + 1) start.view start.dec).map
        fun (view, inFlight) => started cfg entries checkpoint start leader view inFlight

theorem boot_ok {cfg : Config} {entries : List SavedMessage} {checkpoint : Decision}
    {nd : Node} (h : boot cfg entries checkpoint = .ok nd) :
    ∃ md start leader v inFlight, checkpoint.proposal.unmarshalMetadata = some md ∧
      start = setViewAndSeq entries md.viewId md.latestSequence md.decisionsInView ∧
      getLeaderID start.view cfg.n cfg.nodes cfg.leaderRotation start.dec
        cfg.decisionsPerLeader md.blackList = some leader ∧
      Restored entries (.fresh leader (start.seq + 1) start.view start.dec) v inFlight ∧
      nd = started cfg entries checkpoint start leader
        (v.catchUp (start.seq + 1) start.view start.dec) inFlight := by
  unfold boot at h
  split at h
  · simp at h
  · rename_i md hmd
    simp only at h
    split at h
    · simp at h
    · rename_i leader hleader
      obtain ⟨⟨view, inFlight⟩, hnew, rfl⟩ := except_map_ok h
      obtain ⟨v, hrestored, rfl⟩ := newProposer_restored hnew
      exact ⟨md, _, leader, v, inFlight, hmd, rfl, hleader, hrestored, rfl⟩

/-- The node starts again on what has survived; a node that cannot stays down. -/
def crash (cfg : Config) (nd : Node) : Node :=
  match boot cfg nd.persisted.wal nd.checkpoint with
  | .error _ => nd.panic "Failed restoring view from WAL"
  | .ok restarted => { restarted with trace := nd.trace }

end Node

inductive NodeEvent where
  | view (event : ViewEvent)
  | viewStopped
  | inFlightView (event : ViewEvent)
  | inFlightDeliver (answer : DeliverAnswer)
  | inFlightStopped
  | controller (event : ControllerEvent)
  | viewChanger (event : ViewChangerEvent)
  /-- the heartbeat monitor asks for a sync -/
  | requestSync
  /-- the heartbeat monitor or the request pool complains -/
  | complain (viewNum : Nat) (stopView : Bool)
  | stop
  | crash
  deriving DecidableEq, Repr

/-- Messages come from other nodes only, and `ProcessMessages` hands those of a
view to the views. -/
def NodeEvent.admissible (cfg : Config) : NodeEvent → Bool
  | .view (.handleMessage sender m) => sender ≠ cfg.selfID && m.viewNumber.isSome
  | .inFlightView (.handleMessage sender m) => sender ≠ cfg.selfID && m.viewNumber.isSome
  | .viewChanger (.msg sender _) => sender ≠ cfg.selfID
  | _ => true

/-- An event, and what the verifier answers during it. -/
structure NodeInput where
  verifier : Verifier
  event : NodeEvent

namespace Node

def react (cfg : Config) (verifier : Verifier) (nd : Node) : NodeEvent → Option Node
  | .view event => nd.viewStep cfg verifier event
  | .viewStopped => nd.viewStopped
  | .inFlightView event => nd.inFlightViewStep cfg verifier event
  | .inFlightDeliver answer => nd.inFlightDeliver answer
  | .inFlightStopped => nd.inFlightStopped
  | .controller event => nd.controllerStep cfg verifier event
  | .viewChanger event => nd.viewChangerStep cfg verifier event
  | .requestSync => some (nd.sync cfg)
  | .complain viewNum stopView => some (nd.startViewChange viewNum stopView)
  | .stop => some { nd with
      controller := { nd.controller with stopped := true }
      viewChanger := { nd.viewChanger with stopped := true } }
  | .crash => some (nd.crash cfg)

/-- After a panic the node can only be started again. -/
def step (cfg : Config) (nd : Node) (input : NodeInput) : Option Node :=
  if nd.panicked.isSome && decide (input.event ≠ .crash) then none
  else if !input.event.admissible cfg then none
  else nd.react cfg input.verifier input.event

end Node

/-! ## A cluster of four -/

/-- Nodes `1` to `4`, without leader rotation: node `1` leads view `0`. -/
def clusterOfFour (selfID : Nat) : Config where
  selfID := selfID
  nodes := [1, 2, 3, 4]
  digest proposal :=
    match proposal.payload with
    | [] => "empty"
    | [7] => "seven"
    | _ => "other"
  commitSignaturesDigest _ := []
  signProposal proposal _ := { signer := selfID, value := proposal.payload }
  sign _ := []

def acceptingVerifier : Verifier where
  verifyProposal _ := some []
  verifyConsenterSig _ _ := some none
  verifySignature _ := true
  verificationSequence := 0
  auxiliaryData _ := none
  membershipChange := false

/-- All commits attest prepares of the given nodes. -/
def attesting (ids : List Nat) : Verifier :=
  { acceptingVerifier with
    verifyConsenterSig := fun _ _ => some (PreparesFrom.marshal { ids := ids })
    auxiliaryData := fun _ => PreparesFrom.marshal { ids := ids } }

/-- Events during which every proposal and signature is accepted. -/
def accepting (events : List NodeEvent) : List NodeInput :=
  events.map fun event => ⟨acceptingVerifier, event⟩

def firstProposal (payload : Bytes) : Proposal where
  payload := payload
  metadata := some (.marshal { latestSequence := 1 })

/-- The view receives the message and processes it. -/
def viewReceives (sender : Nat) (m : Message) : List NodeEvent :=
  [.view (.handleMessage sender m), .view .recv]

/-- A follower in view `0` accepts the first proposal and broadcasts its
prepare. -/
def acceptFirst (payload : Bytes) : List NodeEvent :=
  [.view .default, .view .doPhase] ++
    viewReceives 1 (.prePrepare
      { view := 0, seq := 1, proposal := some (firstProposal payload) }) ++
    [.view .prePrepare, .view .default, .view .doPhase]

/-- It counts prepares of the two given nodes and broadcasts its commit. -/
def prepareFirst (digest : String) (a b : Nat) : List NodeEvent :=
  let prepare : Message := .prepare { view := 0, seq := 1, digest := digest }
  viewReceives a prepare ++ [.view .prepareVote] ++ viewReceives b prepare ++
    [.view .prepareVote, .view .finish, .view .default, .view .doPhase]

/-- It counts commits of the two given nodes and calls the decider. -/
def commitFirst (digest : String) (value : Bytes) (a b : Nat) : List NodeEvent :=
  let commit (signer : Nat) : Message := .commit {
    view := 0, seq := 1, digest := digest,
    signature := some { signer := signer, value := value } }
  viewReceives a (commit a) ++ [.view (.commitVote 0)] ++ viewReceives b (commit b) ++
    [.view (.commitVote 0), .view .finish]

def decideFirst : List NodeEvent :=
  acceptFirst [7] ++ prepareFirst "seven" 1 3 ++ commitFirst "seven" [7] 1 3

/-- `decide` from the decision of the view to its end. -/
def deliverNext : List NodeEvent :=
  [.controller (.decide {}), .controller .ack, .controller .count, .controller .rotate]

/-- The two given nodes ask for the view, and the node stops its own and joins them. -/
def joinView (view a b : Nat) : List NodeEvent :=
  [.viewChanger (.msg a (.viewChange view)), .viewChanger (.msg b (.viewChange view)),
    .viewChanger .abortSent, .controller .abortView, .view .abort, .controller .viewEnded,
    .viewChanger .abortSent, .viewChanger .readInFlight, .viewChanger .readPrepared]

def joinViewOne : List NodeEvent := joinView 1 1 4

def nodeOfFour (selfID : Nat) : Node :=
  .started (clusterOfFour selfID) [] {} { view := 0, seq := 0, dec := 0 } 1
    (.fresh 1 1 0 0) none

theorem boot_nodeOfFour (selfID : Nat) :
    Node.boot (clusterOfFour selfID) [] {} = .ok (nodeOfFour selfID) := rfl

end SmartBFT
