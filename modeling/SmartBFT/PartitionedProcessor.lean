import Mathlib.Logic.Function.Basic
import SmartBFT.Foundation.Run
import SmartBFT.Types

/-!
# The partitioned queue of client requests

`PartitionedProcessor` of `internal/bft/util.go`.  Every node has a channel of its own.
`Add` puts a payload into the channel of its sender and then tries to wake the poller; the
send on `activitySignal` succeeds only if the poller waits for it at this moment.  A signal
starts a round: one worker for each channel takes at most one payload and hands it to the
handler, and the round ends when all workers have finished.

A step is one operation on a channel or one call of the handler.  The channels are made
before the poller starts and are never closed while it runs.
-/

namespace SmartBFT

open SmartBFT.Foundation

structure RequestData where
  payload : Bytes
  sender : Nat
  deriving DecidableEq, Repr

structure PartitionConfig where
  nodesList : List Nat
  /-- of every channel -/
  capacity : Nat
  deriving DecidableEq, Repr

inductive WorkerPc where
  /-- launched, before it looks into its channel -/
  | pending
  /-- it has taken a payload, and has not called the handler -/
  | holding (payload : Bytes)
  | handling
  | finished
  deriving DecidableEq, Repr

def WorkerPc.held : WorkerPc → List Bytes
  | .holding payload => [payload]
  | _ => []

/-- The payloads that the worker has still to take in this round, if there is one. -/
def WorkerPc.toTake : WorkerPc → Nat
  | .pending => 1
  | _ => 0

/-- The payloads that the worker has still to hand over in this round, if there is one. -/
def WorkerPc.toHandle : WorkerPc → Nat
  | .pending | .holding _ => 1
  | .handling | .finished => 0

inductive PollerPc where
  /-- on the way to the `select` -/
  | idle
  /-- in the `select` -/
  | waiting
  /-- in a round, up to the end of `wg.Wait` -/
  | polling
  | exited
  deriving DecidableEq, Repr

inductive AddError where
  | notFound
  | full
  deriving DecidableEq, Repr

/-- `rounds`, `accepted` and `handled` record what has happened, oldest first.  Nothing in
the processor reads them. -/
structure PartitionedProcessor where
  channels : Nat → List Bytes := fun _ => []
  workers : Nat → WorkerPc := fun _ => .finished
  poller : PollerPc := .idle
  /-- the channels of the calls of `Add` that have not yet tried to send the signal -/
  signalling : List Nat := []
  rounds : Nat := 0
  accepted : List RequestData := []
  handled : List RequestData := []

inductive PartitionEvent where
  /-- `Add`, up to the signal -/
  | add (sender : Nat) (payload : Bytes)
  /-- the call of `Add` at this position tries to send the signal, and returns -/
  | signal (call : Nat)
  /-- the poller comes to its `select` -/
  | wait
  | poll (channel : Nat)
  | handle (channel : Nat)
  | finish (channel : Nat)
  | endRound
  deriving DecidableEq, Repr

/-- The loop of `Add` over the node list: the last position of the sender. -/
def senderIndex (sender : Nat) : List Nat → Nat → Option Nat → Option Nat
  | [], _, index => index
  | node :: nodes, i, index =>
    senderIndex sender nodes (i + 1) (if node = sender then some i else index)

namespace PartitionedProcessor

variable (cfg : PartitionConfig)

def accept (p : PartitionedProcessor) (i : Nat) (data : RequestData) : PartitionedProcessor :=
  { p with
    channels := Function.update p.channels i (p.channels i ++ [data.payload])
    signalling := p.signalling ++ [i]
    accepted := p.accepted ++ [data] }

/-- `Add`, up to the signal. -/
def add (p : PartitionedProcessor) (sender : Nat) (payload : Bytes) :
    Except AddError PartitionedProcessor :=
  match senderIndex sender cfg.nodesList 0 none with
  | none => .error .notFound
  | some i =>
    if (p.channels i).length < cfg.capacity then .ok (p.accept i ⟨payload, sender⟩)
    else .error .full

/-- `Start` receives the signal and launches the workers. -/
def startRound (p : PartitionedProcessor) : PartitionedProcessor :=
  { p with
    workers := fun i => if i < cfg.nodesList.length then .pending else .finished
    poller := .polling
    rounds := p.rounds + 1 }

def setWorker (p : PartitionedProcessor) (i : Nat) (pc : WorkerPc) : PartitionedProcessor :=
  { p with workers := Function.update p.workers i pc }

def poll (p : PartitionedProcessor) (i : Nat) : PartitionedProcessor :=
  match p.channels i with
  | [] => p.setWorker i .finished
  | payload :: rest =>
    { p.setWorker i (.holding payload) with channels := Function.update p.channels i rest }

def step (p : PartitionedProcessor) : PartitionEvent → Option PartitionedProcessor
  | .add sender payload =>
    match p.add cfg sender payload with
    | .ok p' => some p'
    | .error _ => some p
  | .signal call =>
    match p.signalling[call]? with
    | none => none
    | some _ =>
      let returned := { p with signalling := p.signalling.eraseIdx call }
      some (if p.poller = .waiting then returned.startRound cfg else returned)
  | .wait =>
    if p.poller = .idle then
      some { p with poller := if cfg.nodesList = [] then .exited else .waiting }
    else none
  | .poll i => if p.workers i = .pending then some (p.poll i) else none
  | .handle i =>
    match p.workers i, cfg.nodesList[i]? with
    | .holding payload, some sender =>
      some { p.setWorker i .handling with handled := p.handled ++ [⟨payload, sender⟩] }
    | _, _ => none
  | .finish i => if p.workers i = .handling then some (p.setWorker i .finished) else none
  | .endRound =>
    if p.poller = .polling ∧ ∀ i < cfg.nodesList.length, p.workers i = .finished then
      some { p with poller := .idle }
    else none

/-! ## What a step can do -/

inductive Transition (p : PartitionedProcessor) :
    PartitionEvent → PartitionedProcessor → Prop where
  | rejected {sender : Nat} {payload : Bytes} : Transition p (.add sender payload) p
  | added {i : Nat} {data : RequestData} (hnode : cfg.nodesList[i]? = some data.sender) :
      Transition p (.add data.sender data.payload) (p.accept i data)
  | woken {call i : Nat} (hcall : p.signalling[call]? = some i) (hwaiting : p.poller = .waiting) :
      Transition p (.signal call)
        ({ p with signalling := p.signalling.eraseIdx call }.startRound cfg)
  | lost {call i : Nat} (hcall : p.signalling[call]? = some i) (hbusy : p.poller ≠ .waiting) :
      Transition p (.signal call) { p with signalling := p.signalling.eraseIdx call }
  | waits {pc : PollerPc} (hidle : p.poller = .idle) (hpc : pc ≠ .polling) :
      Transition p .wait { p with poller := pc }
  | empty {i : Nat} (hpending : p.workers i = .pending) (hempty : p.channels i = []) :
      Transition p (.poll i) (p.setWorker i .finished)
  | takes {i : Nat} {payload : Bytes} {rest : List Bytes} (hpending : p.workers i = .pending)
      (hchannel : p.channels i = payload :: rest) :
      Transition p (.poll i) { p.setWorker i (.holding payload) with
        channels := Function.update p.channels i rest }
  | hands {i : Nat} {data : RequestData} (hholding : p.workers i = .holding data.payload)
      (hnode : cfg.nodesList[i]? = some data.sender) :
      Transition p (.handle i) { p.setWorker i .handling with handled := p.handled ++ [data] }
  | finishes {i : Nat} (hhandling : p.workers i = .handling) :
      Transition p (.finish i) (p.setWorker i .finished)
  | ends (hpolling : p.poller = .polling)
      (hfinished : ∀ i < cfg.nodesList.length, p.workers i = .finished) :
      Transition p .endRound { p with poller := .idle }

variable {cfg} {p p' : PartitionedProcessor}

theorem senderIndex_some {sender : Nat} {nodes : List Nat} {k i : Nat} {index : Option Nat}
    (h : senderIndex sender nodes k index = some i) :
    index = some i ∨ ∃ j, nodes[j]? = some sender ∧ i = k + j := by
  induction nodes generalizing k index with
  | nil => exact .inl h
  | cons node nodes ih =>
    rcases ih h with hindex | ⟨j, hj, rfl⟩
    · split at hindex
      · rename_i hnode
        refine .inr ⟨0, by simp [hnode], ?_⟩
        simpa using hindex.symm
      · exact .inl hindex
    · exact .inr ⟨j + 1, by simpa using hj, by omega⟩

theorem senderIndex_none {sender : Nat} {nodes : List Nat} {k : Nat} {index : Option Nat}
    (h : senderIndex sender nodes k index = none) : index = none ∧ sender ∉ nodes := by
  induction nodes generalizing k index with
  | nil => exact ⟨h, by simp⟩
  | cons node nodes ih =>
    obtain ⟨hindex, hnodes⟩ := ih h
    split at hindex
    · simp at hindex
    · rename_i hnode
      exact ⟨hindex, by simpa [hnodes] using fun heq => hnode heq.symm⟩

theorem add_ok {sender : Nat} {payload : Bytes} (h : p.add cfg sender payload = .ok p') :
    ∃ i, cfg.nodesList[i]? = some sender ∧ p' = p.accept i ⟨payload, sender⟩ := by
  unfold add at h
  split at h
  · simp at h
  · rename_i i hindex
    split at h
    · rcases senderIndex_some hindex with hnone | ⟨j, hj, rfl⟩
      · simp at hnone
      · simp only [Nat.zero_add] at h
        exact ⟨j, hj, (Except.ok.inj h).symm⟩
    · simp at h

theorem add_error {sender : Nat} {payload : Bytes} {error : AddError}
    (hsender : sender ∈ cfg.nodesList) (h : p.add cfg sender payload = .error error) :
    ∃ i, cfg.nodesList[i]? = some sender ∧ cfg.capacity ≤ (p.channels i).length := by
  unfold add at h
  split at h
  · rename_i hindex
    exact absurd hsender (senderIndex_none hindex).2
  · rename_i i hindex
    split at h
    · simp at h
    · rename_i hfull
      rcases senderIndex_some hindex with hnone | ⟨j, hj, rfl⟩
      · simp at hnone
      · simp only [Nat.zero_add] at hfull
        exact ⟨j, hj, Nat.not_lt.mp hfull⟩

theorem transition_of_step {event : PartitionEvent} (h : p.step cfg event = some p') :
    Transition cfg p event p' := by
  cases event with
  | add sender payload =>
    simp only [step] at h
    split at h
    · rename_i hadd
      obtain ⟨i, hnode, rfl⟩ := add_ok hadd
      exact Option.some.inj h ▸ @Transition.added cfg p i ⟨payload, sender⟩ hnode
    · exact Option.some.inj h ▸ .rejected
  | signal call =>
    simp only [step] at h
    split at h
    · simp at h
    · rename_i i hcall
      obtain rfl := Option.some.inj h
      split
      · rename_i hwaiting
        exact .woken hcall hwaiting
      · rename_i hbusy
        exact .lost hcall hbusy
  | wait =>
    simp only [step, Option.ite_none_right_eq_some, Option.some.injEq] at h
    obtain ⟨hidle, rfl⟩ := h
    exact .waits hidle (by split <;> simp)
  | poll i =>
    simp only [step, Option.ite_none_right_eq_some, Option.some.injEq] at h
    obtain ⟨hpending, rfl⟩ := h
    unfold poll
    split
    · rename_i hempty
      exact .empty hpending hempty
    · rename_i hchannel
      exact .takes hpending hchannel
  | handle i =>
    simp only [step] at h
    split at h
    · rename_i payload sender hholding hnode
      exact Option.some.inj h ▸ @Transition.hands cfg p i ⟨payload, sender⟩ hholding hnode
    · simp at h
  | finish i =>
    simp only [step, Option.ite_none_right_eq_some, Option.some.injEq] at h
    exact h.2 ▸ .finishes h.1
  | endRound =>
    simp only [step, Option.ite_none_right_eq_some, Option.some.injEq] at h
    obtain ⟨⟨hpolling, hfinished⟩, rfl⟩ := h
    exact .ends hpolling hfinished

end PartitionedProcessor

end SmartBFT
