import SmartBFT.Node.Delivery
import SmartBFT.Node.Views
import SmartBFT.RequestPool.Invariant

/-!
# A node with its request pool

A decision reaches the application with the list of its requests, which are then removed
from the pool.  The list travels beside the proposal: `processProposal` fills it when it
accepts a proposal, and neither a proposal that is restored from the log nor one that is
committed during a view change has it.  `delivered_requests_leave_iff` says of every
delivery that its requests leave the pool exactly if the list was not lost, or if the pool
has removed them before.
-/

namespace SmartBFT

open Foundation

structure ReplicaConfig where
  node : Config
  pool : PoolConfig
  /-- `RequestsFromProposal` of the verifier -/
  requestsFromProposal : Proposal → List RequestInfo
  requestMaxBytes : Nat := 0

structure Replica where
  node : Node
  pool : Pool

inductive ReplicaEvent where
  | node (input : NodeInput)
  | pool (event : PoolEvent)

namespace Node

def deliveredRequests (requestsFromProposal : Proposal → List RequestInfo) (nd : Node) :
    NodeEvent → List RequestInfo
  | .controller (.decide _) =>
    match nd.currView.pc with
    | .deciding _ requests => requests
    | _ => []
  | .inFlightDeliver _ =>
    match nd.inFlightView.map View.pc with
    | some (.deciding _ requests) => requests
    | _ => []
  | .viewChanger (.deliver _) =>
    match nd.viewChanger.pc with
    | .deliver decision _ => requestsFromProposal decision.proposal
    | _ => []
  | _ => []

end Node

namespace Replica

/-- A crash loses the pool. -/
def stepNode (cfg : ReplicaConfig) (r : Replica) (input : NodeInput) : Option Replica :=
  if r.pool.panicked.isSome && decide (input.event ≠ .crash) then none
  else
    (r.node.step cfg.node input).map fun nd =>
      { node := nd
        pool :=
          if input.event = .crash then newPool cfg.requestMaxBytes
          else (r.node.deliveredRequests cfg.requestsFromProposal input.event).foldl
            Pool.removeRequest r.pool }

def step (cfg : ReplicaConfig) (r : Replica) : ReplicaEvent → Option Replica
  | .node input => r.stepNode cfg input
  | .pool event =>
    if r.node.panicked.isSome then none
    else (r.pool.step cfg.pool event).map fun pool => { r with pool := pool }

end Replica

/-- `VerifyProposal` returns the requests of the proposal. -/
def ReplicaEvent.Agrees (requestsFromProposal : Proposal → List RequestInfo) :
    ReplicaEvent → Prop
  | .node input => ∀ proposal requests, input.verifier.verifyProposal proposal = some requests →
      requests = requestsFromProposal proposal
  | .pool _ => True

/-! ## The list of requests -/

variable {cfg : Config} {verifier : Verifier} {checkpoint : Decision}
  {requestsFromProposal : Proposal → List RequestInfo}

structure View.CarriesAllOrNone (requestsFromProposal : Proposal → List RequestInfo)
    (v : View) : Prop where
  inFlight : v.inFlightRequests ≠ [] →
    v.inFlightProposal.map requestsFromProposal = some v.inFlightRequests
  deciding : ∀ decision requests, v.pc = .deciding decision requests → requests ≠ [] →
    requests = requestsFromProposal decision.proposal

theorem View.verifyProposal_requests {v : View} {proposal : Proposal}
    {prevCommits : List Signature} {requests : List RequestInfo} {supported : Bool}
    (h : v.verifyProposal cfg verifier checkpoint proposal prevCommits =
      (.ok requests, supported)) : verifier.verifyProposal proposal = some requests := by
  unfold verifyProposal at h
  simp only at h
  split at h
  · simp at h
  · rename_i found hfound
    rw [hfound]
    repeat' split at h
    all_goals simp_all

namespace View.CarriesAllOrNone

variable {v v' : View}

theorem of_empty (hrequests : v.inFlightRequests = [])
    (hpc : ∀ decision requests, v.pc ≠ .deciding decision requests) :
    CarriesAllOrNone requestsFromProposal v where
  inFlight h := absurd hrequests h
  deciding decision requests h := absurd h (hpc decision requests)

theorem of_same (h : CarriesAllOrNone requestsFromProposal v)
    (hproposal : v'.inFlightProposal = v.inFlightProposal)
    (hrequests : v'.inFlightRequests = v.inFlightRequests)
    (hpc : v'.pc = v.pc ∨ ∀ decision requests, v'.pc ≠ .deciding decision requests) :
    CarriesAllOrNone requestsFromProposal v' where
  inFlight := by
    rw [hproposal, hrequests]
    exact h.inFlight
  deciding decision requests hdeciding := by
    rcases hpc with hsame | hother
    · exact h.deciding decision requests (hsame ▸ hdeciding)
    · exact absurd hdeciding (hother decision requests)

theorem transition (h : CarriesAllOrNone requestsFromProposal v) {event : ViewEvent}
    {outputs : List ViewOutput}
    (hagrees : ∀ proposal requests, verifier.verifyProposal proposal = some requests →
      requests = requestsFromProposal proposal)
    (htransition : View.Transition cfg verifier checkpoint v event v' outputs) :
    CarriesAllOrNone requestsFromProposal v' := by
  cases htransition with
  | @received loop sender m rest hpc _ =>
    have hsame := processMsg_sameProgress cfg { v with incMsgs := rest } sender m
    exact h.of_same hsame.inFlightProposal hsame.inFlightRequests (.inl hsame.pc)
  | beginProposal => exact of_empty rfl (by simp [View.beginProposal])
  | panicked => exact h.of_same rfl rfl (.inl rfl)
  | rejected => exact h.of_same rfl rfl (.inr (by simp [View.rejectProposal]))
  | @accepted pp proposal _ _ _ _ _ hverified =>
    refine ⟨fun _ => ?_, by simp [View.acceptProposal]⟩
    have hrequests := hagrees proposal _ (View.verifyProposal_requests hverified)
    simp [View.acceptProposal, hrequests]
  | @decided signatures proposal mine hpc hproposal =>
    refine ⟨h.inFlight, fun decision requests hdeciding hsome => ?_⟩
    simp only [View.decide, ViewPc.deciding.injEq] at hdeciding
    obtain ⟨rfl, rfl⟩ := hdeciding
    have hcarried := h.inFlight hsome
    rw [hproposal] at hcarried
    exact (Option.some.inj hcarried).symm
  | queued => exact h.of_same rfl rfl (.inl rfl)
  | nothingToSend => exact h
  | otherPrepare => exact h.of_same rfl rfl (.inl rfl)
  | otherCommit => exact h.of_same rfl rfl (.inl rfl)
  | prepared => exact h.of_same rfl rfl (.inr (by simp [View.finishPrepares]))
  | _ => exact h.of_same rfl rfl (.inr (by simp))

theorem rule (hagrees : ∀ proposal requests, verifier.verifyProposal proposal = some requests →
      requests = requestsFromProposal proposal) :
    ViewRule cfg verifier (CarriesAllOrNone requestsFromProposal) where
  move hmove h := by
    cases hmove with
    | step htransition => exact h.transition hagrees htransition
    | queued => exact h.of_same rfl rfl (.inl rfl)
    | stop => exact h.of_same rfl rfl (.inl rfl)
    | decided => exact h.of_same rfl rfl (.inr (by simp [View.decided]))
    | _ => exact h.of_same rfl rfl (.inr (by simp))
  fresh _ _ _ _ := .of_empty rfl (by simp [View.fresh])
  inFlight _ _ := .of_empty rfl (by simp [Node.newInFlightView])

theorem of_boot {entries : List SavedMessage} {nd : Node}
    (h : Node.boot cfg entries checkpoint = .ok nd) :
    ViewRule.Holds (CarriesAllOrNone requestsFromProposal) nd := by
  obtain ⟨md, start, leader, v, inFlight, -, -, -, hrestored, rfl⟩ := Node.boot_ok h
  obtain ⟨hrequests, hpc⟩ : v.inFlightRequests = [] ∧ v.pc = .select .run := by
    cases hrestored <;> exact ⟨rfl, rfl⟩
  obtain ⟨_, _, _, hcaught⟩ := v.catchUp_eq (start.seq + 1) start.view start.dec
  rintro w (rfl | hw)
  · simp only [Node.started, hcaught]
    exact of_empty hrequests (by simp [hpc])
  · cases hw

end View.CarriesAllOrNone

/-! ## The pool -/

namespace Pool

def Rejects (p : Pool) (info : RequestInfo) : Prop :=
  info ∉ p.existMap ∧ p.known info = some .alreadyProcessed

variable {cfg : PoolConfig} {p : Pool}

namespace Consistent

theorem rejects_iff (h : Consistent cfg p) (info : RequestInfo) :
    p.Rejects info ↔ info ∈ p.delMap := by
  unfold Rejects known
  by_cases hexist : info ∈ p.existMap
  · simp [hexist, h.apart info hexist]
  · simp [hexist]

theorem delMap_removeRequest (h : Consistent cfg p) (info : RequestInfo) :
    (p.removeRequest info).delMap = insert info p.delMap := by
  unfold Pool.removeRequest
  split
  · unfold Pool.moveToDelSlice
    split <;> rename_i hmem
    · exact (Finset.insert_eq_of_mem hmem).symm
    · rfl
  · rename_i hlookup
    simp only [h.deleteRequest_eq hlookup]

theorem removeRequests (h : Consistent cfg p) (requests : List RequestInfo) :
    Consistent cfg (requests.foldl Pool.removeRequest p) ∧
      (requests.foldl Pool.removeRequest p).delMap = requests.toFinset ∪ p.delMap := by
  induction requests generalizing p with
  | nil => exact ⟨h, by simp⟩
  | cons info rest ih =>
    obtain ⟨hconsistent, hdelMap⟩ := ih (h.removeRequest info)
    refine ⟨hconsistent, ?_⟩
    rw [List.foldl_cons, hdelMap, h.delMap_removeRequest, List.toFinset_cons,
      Finset.union_insert, Finset.insert_union]

end Consistent

end Pool

namespace Replica

structure Sound (cfg : ReplicaConfig) (r : Replica) : Prop where
  views : ViewRule.Holds (View.CarriesAllOrNone cfg.requestsFromProposal) r.node
  pool : r.pool.Consistent cfg.pool

variable {cfg : ReplicaConfig} {r r' : Replica}

theorem stepNode_some {input : NodeInput} (h : r.stepNode cfg input = some r') :
    r.node.step cfg.node input = some r'.node ∧
      r'.pool = if input.event = .crash then newPool cfg.requestMaxBytes
        else (r.node.deliveredRequests cfg.requestsFromProposal input.event).foldl
          Pool.removeRequest r.pool := by
  unfold stepNode at h
  split at h
  · simp at h
  · obtain ⟨nd, hnode, rfl⟩ := Option.map_eq_some_iff.mp h
    exact ⟨hnode, rfl⟩

theorem consistent_step (h : r.pool.Consistent cfg.pool) {event : ReplicaEvent}
    (hstep : r.step cfg event = some r') : r'.pool.Consistent cfg.pool := by
  cases event with
  | node input =>
    rw [(stepNode_some hstep).2]
    split
    · exact Pool.consistent_newPool cfg.pool _
    · exact (h.removeRequests _).1
  | pool event =>
    simp only [step, Option.ite_none_left_eq_some] at hstep
    obtain ⟨pool, hpool, rfl⟩ := Option.map_eq_some_iff.mp hstep.2
    exact h.step hpool

theorem Sound.step (h : Sound cfg r) {event : ReplicaEvent}
    (hagrees : event.Agrees cfg.requestsFromProposal) (hstep : r.step cfg event = some r') :
    Sound cfg r' := by
  refine ⟨?_, consistent_step h.pool hstep⟩
  cases event with
  | node input =>
    obtain ⟨-, -, htransition⟩ := Node.step_transition (stepNode_some hstep).1
    exact (View.CarriesAllOrNone.rule hagrees).transition (fun _ hboot => .of_boot hboot)
      htransition h.views
  | pool event =>
    simp only [Replica.step, Option.ite_none_left_eq_some] at hstep
    obtain ⟨pool, -, rfl⟩ := Option.map_eq_some_iff.mp hstep.2
    exact h.views

theorem Sound.deliveredRequests (h : Sound cfg r) {event : NodeEvent} {decision : Decision}
    {answer : DeliverAnswer} (hdelivering : r.node.delivering event = some (decision, answer)) :
    r.node.deliveredRequests cfg.requestsFromProposal event = [] ∨
      r.node.deliveredRequests cfg.requestsFromProposal event =
        cfg.requestsFromProposal decision.proposal := by
  unfold Node.delivering at hdelivering
  split at hdelivering
  · split at hdelivering <;> simp only [Option.some.injEq, Prod.mk.injEq,
      reduceCtorEq] at hdelivering
    obtain ⟨rfl, -⟩ := hdelivering
    rename_i requests hpc
    simp only [Node.deliveredRequests, hpc]
    exact Classical.or_iff_not_imp_left.mpr ((h.views _ (.inl rfl)).deciding _ requests hpc)
  · split at hdelivering <;> simp only [Option.some.injEq, Prod.mk.injEq,
      reduceCtorEq] at hdelivering
    obtain ⟨rfl, -⟩ := hdelivering
    rename_i requests hpc
    simp only [Node.deliveredRequests, hpc]
    obtain ⟨view, hview, hpc⟩ := Option.map_eq_some_iff.mp hpc
    exact Classical.or_iff_not_imp_left.mpr
      ((h.views view (.inr hview)).deciding _ requests hpc)
  · split at hdelivering <;> simp only [Option.some.injEq, Prod.mk.injEq,
      reduceCtorEq] at hdelivering
    obtain ⟨rfl, -⟩ := hdelivering
    rename_i hpc
    right
    simp only [Node.deliveredRequests, hpc]
  · simp at hdelivering

end Replica

/--
In every run, whatever the goroutines and the clients do: after a delivery the requests of
the proposal are gone from the pool, and are rejected as already processed as long as the
pool remembers them, exactly if the list of requests was not lost on the way, or the pool
remembers them from an earlier removal.
-/
theorem delivered_requests_leave_iff {cfg : ReplicaConfig} {entries : List SavedMessage}
    {checkpoint : Decision} {nd : Node} {events : List ReplicaEvent} {r r' : Replica}
    {input : NodeInput} {decision : Decision} {answer : DeliverAnswer}
    (hboot : Node.boot cfg.node entries checkpoint = .ok nd)
    (hagrees : ∀ event ∈ events, event.Agrees cfg.requestsFromProposal)
    (hrun : run (Replica.step cfg) ⟨nd, newPool cfg.requestMaxBytes⟩ events = some r)
    (hdelivering : r.node.delivering input.event = some (decision, answer))
    (hstep : r.step cfg (.node input) = some r') :
    (∀ info ∈ cfg.requestsFromProposal decision.proposal, r'.pool.Rejects info ∧
      ∀ later final, run (Replica.step cfg) r' later = some final →
        info ∈ final.pool.delMap → final.pool.Rejects info) ↔
    r.node.deliveredRequests cfg.requestsFromProposal input.event ≠ [] ∨
      ∀ info ∈ cfg.requestsFromProposal decision.proposal, info ∈ r.pool.delMap := by
  have hstart : Replica.Sound cfg ⟨nd, newPool cfg.requestMaxBytes⟩ :=
    ⟨.of_boot hboot, Pool.consistent_newPool cfg.pool _⟩
  have hsound : r.Sound cfg := by
    have hmeets : StepsMeet (Replica.step cfg) (fun _ event => True ∧ event ∈ events)
        ⟨nd, newPool cfg.requestMaxBytes⟩ events :=
      (StepsMeet.of_forall fun _ _ => trivial).and_mem (List.Subset.refl events)
    exact run_invariant_of_steps_meet
      (fun _ _ _ h hcond hstep => h.step (hagrees _ hcond.2) hstep) hstart hmeets hrun
  have hconsistent := Replica.consistent_step hsound.pool hstep
  have hpool := (Replica.stepNode_some hstep).2
  have hlater : ∀ later final, run (Replica.step cfg) r' later = some final →
      final.pool.Consistent cfg.pool := fun later final hlater =>
    @run_invariant _ _ (Replica.step cfg) (fun r => r.pool.Consistent cfg.pool)
      (fun _ _ _ h hstep => Replica.consistent_step h hstep) _ _ _ hconsistent hlater
  have hcrash : input.event ≠ .crash := by
    intro hevent
    simp [hevent, Node.delivering] at hdelivering
  rw [if_neg hcrash] at hpool
  -- the pool rejects what it remembers, now and later
  have hgone : (∀ info ∈ cfg.requestsFromProposal decision.proposal, r'.pool.Rejects info ∧
      ∀ later final, run (Replica.step cfg) r' later = some final →
        info ∈ final.pool.delMap → final.pool.Rejects info) ↔
      ∀ info ∈ cfg.requestsFromProposal decision.proposal, info ∈ r'.pool.delMap := by
    refine forall₂_congr fun info _ => ?_
    rw [hconsistent.rejects_iff]
    exact and_iff_left fun later final hrun hmem =>
      ((hlater later final hrun).rejects_iff info).mpr hmem
  rw [hgone, hpool, (hsound.pool.removeRequests _).2]
  rcases hsound.deliveredRequests hdelivering with hlost | hcarried
  · simp [hlost]
  · rw [hcarried]
    refine iff_of_true (fun info hmem => ?_) ?_
    · exact Finset.mem_union_left _ (List.mem_toFinset.mpr hmem)
    · by_cases hempty : cfg.requestsFromProposal decision.proposal = []
      · exact .inr (by simp [hempty])
      · exact .inl hempty

/-! ## One request -/

def sevenRequest : RequestInfo where
  clientID := "client"
  id := "seven"

def replicaOfFour : ReplicaConfig where
  node := clusterOfFour 2
  pool := {
    requestID := fun request =>
      { clientID := "client", id := if request = [7] then "seven" else "" }
    queueSize := 10 }
  requestsFromProposal proposal := if proposal.payload = [7] then [sevenRequest] else []

def replicaVerifier : Verifier :=
  { acceptingVerifier with
    verifyProposal := fun proposal => some (replicaOfFour.requestsFromProposal proposal) }

def replicaEvents (events : List NodeEvent) : List ReplicaEvent :=
  events.map fun event => .node ⟨replicaVerifier, event⟩

def submitSeven : List ReplicaEvent :=
  [.pool (.submit [7]), .pool (.check 0), .pool (.acquire 0), .pool (.insert 0)]

theorem agrees_replicaEvents (events : List NodeEvent) :
    ∀ event ∈ submitSeven ++ replicaEvents events,
      event.Agrees replicaOfFour.requestsFromProposal := by
  intro event hevent
  rcases List.mem_append.mp hevent with hpool | hnode
  · simp only [submitSeven, List.mem_cons, List.not_mem_nil, or_false] at hpool
    rcases hpool with rfl | rfl | rfl | rfl <;> trivial
  · obtain ⟨nodeEvent, -, rfl⟩ := List.mem_map.mp hnode
    intro proposal requests hverified
    exact (Option.some.inj hverified).symm

/-- A request that is submitted, and then ordered by a proposal that the node has accepted. -/
theorem delivered_request_leaves :
    ∃ r r', run (Replica.step replicaOfFour) ⟨nodeOfFour 2, newPool 0⟩
        (submitSeven ++ replicaEvents decideFirst) = some r ∧ sevenRequest ∈ r.pool.existMap ∧
      r.step replicaOfFour (.node ⟨replicaVerifier, .controller (.decide {})⟩) = some r' ∧
      r'.pool.Rejects sevenRequest :=
  ⟨_, _, Option.eq_some_of_isSome (by decide +kernel), by decide +kernel,
    Option.eq_some_of_isSome (by decide +kernel),
    ((delivered_requests_leave_iff (boot_nodeOfFour 2) (agrees_replicaEvents decideFirst)
      (Option.eq_some_of_isSome _) (Option.eq_some_of_isSome (by decide +kernel))
      (Option.eq_some_of_isSome _)).mpr (.inl (by decide +kernel)) sevenRequest
        (by decide +kernel)).1⟩

def decideRestored : List ReplicaEvent :=
  replicaEvents (acceptFirst [7] ++ [.crash]) ++ submitSeven ++
    replicaEvents ([.view .default, .view .doPhase] ++ prepareFirst "seven" 1 3 ++
      commitFirst "seven" [7] 1 3 ++ deliverNext)

/-- The proposal is delivered, and its request stays in the pool. -/
theorem restored_request_stays :
    ∃ r, run (Replica.step replicaOfFour) ⟨nodeOfFour 2, newPool 0⟩ decideRestored = some r ∧
      r.node.panicked = none ∧ r.pool.panicked = none ∧
      r.node.checkpoint.proposal = firstProposal [7] ∧
      replicaOfFour.requestsFromProposal (firstProposal [7]) = [sevenRequest] ∧
      sevenRequest ∈ r.pool.existMap ∧ r.pool.nextRequests 10 1000 false = ([[7]], false) :=
  exists_of_any (by decide +kernel)

end SmartBFT
