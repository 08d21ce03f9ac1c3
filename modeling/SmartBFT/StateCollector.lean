import SmartBFT.Foundation.Tally
import SmartBFT.ViewVotes

/-!
# The state collector

During a sync a node asks the others for their view and sequence and waits for a pair that
`f + 1` of them report (`internal/bft/statecollector.go`).  The first response of each node in a
collection is its vote; after each response the votes are counted, by draining and refilling
the channel that holds them, into a map that is then ranged over in any order.

`collects_first_vouched` says what a collection returns: the first pair in the order of arrival
that `f + 1` nodes vouch for, whatever the order of the map.
-/

namespace SmartBFT

open SmartBFT.Foundation

structure StateTransferResponse where
  viewNum : Nat
  sequence : Nat
  deriving DecidableEq, Repr

def StateTransferResponse.viewAndSeq (response : StateTransferResponse) : ViewAndSeq :=
  ⟨response.viewNum, response.sequence⟩

/-- A sender and the `GetStateTransferResponse` of its message, which is `none` for a message of
another kind. -/
abbrev CollectorMessage := Nat × Option StateTransferResponse

def CollectorMessage.reported (message : CollectorMessage) : Option ViewAndSeq :=
  message.2.map StateTransferResponse.viewAndSeq

inductive CollectorPc where
  | idle
  | collecting
  /-- in `registerVote`, which waits for room in the channel of the votes -/
  | blocked
  | returned (result : Option ViewAndSeq)
  deriving DecidableEq, Repr

structure StateCollector where
  n : Nat
  f : Nat
  incMsgs : List CollectorMessage := []
  responses : VoteSet (Option StateTransferResponse) := {}
  /-- `stopChan` is closed -/
  stopped : Bool := false
  pc : CollectorPc := .idle
  deriving DecidableEq, Repr

inductive CollectorEvent where
  /-- `HandleMessage`; `stop` takes the case of the closed `stopChan` -/
  | handleMessage (sender : Nat) (m : Option StateTransferResponse) (stop : Bool)
  | clearCollected
  | collectStateResponses
  /-- a message is collected, and the votes are ranged over in the given order -/
  | receive (order : List ViewAndSeq)
  | timeout
  | stop
  | close
  deriving DecidableEq, Repr

def acceptResponse (_ : Nat) (m : Option StateTransferResponse) : Bool := m.isSome

/-- The loop of `collectedEnoughEqualVotes` that takes each vote from the channel, puts it back
and counts it; `none` is the panic on a message that is not a response. -/
def recount : Nat → List CollectorMessage → Counts ViewAndSeq →
    Option (List CollectorMessage × Counts ViewAndSeq)
  | 0, votes, votesMap => some (votes, votesMap)
  | rounds + 1, (sender, some response) :: votes, votesMap =>
    recount rounds (votes ++ [(sender, some response)])
      (countUp votesMap response.viewAndSeq)
  | _ + 1, _, _ => none

def collectedEnoughEqualVotes (f : Nat) (responses : VoteSet (Option StateTransferResponse))
    (order : List ViewAndSeq) :
    Option (VoteSet (Option StateTransferResponse) × Option ViewAndSeq) :=
  if responses.voted.length ≤ f then some (responses, none)
  else
    match recount responses.votes.length responses.votes ∅ with
    | none => none
    | some (votes, votesMap) =>
      if order.Perm votesMap.keys then
        some ({ responses with votes },
          rangeFind (fun _ count => decide (f < count)) votesMap order)
      else none

namespace StateCollector

def start (n : Nat) : StateCollector where
  n := n
  f := (computeQuorum n).2

/-- The channel of the votes is full when a vote is to be put into it. -/
def waitsForRoom (s : StateCollector) (sender : Nat) (m : Option StateTransferResponse) : Bool :=
  acceptResponse sender m && decide (sender ∉ s.responses.voted) &&
    decide (s.n ≤ s.responses.votes.length)

def collect (s : StateCollector) (sender : Nat) (m : Option StateTransferResponse)
    (order : List ViewAndSeq) : Option StateCollector :=
  if s.waitsForRoom sender m then
    some { s with
      responses := { s.responses with voted := sender :: s.responses.voted }
      pc := .blocked }
  else
    match collectedEnoughEqualVotes s.f (s.responses.registerVote acceptResponse sender m)
        order with
    | none => none
    | some (responses, none) => some { s with responses }
    | some (responses, some viewAndSeq) =>
      some { s with responses, pc := .returned (some viewAndSeq) }

/-- A step of the collector; `none` says that the event cannot happen, or that the process
panics. -/
def step (s : StateCollector) : CollectorEvent → Option StateCollector
  | .handleMessage sender m stop =>
    if m = none then none
    else if stop then if s.stopped then some s else none
    else if s.incMsgs.length < s.n then
      some { s with incMsgs := s.incMsgs ++ [(sender, m)] }
    else some s
  | .clearCollected => some { s with incMsgs := [] }
  | .collectStateResponses =>
    match s.pc with
    | .idle | .returned _ => some { s with responses := {}, pc := .collecting }
    | _ => none
  | .receive order =>
    match s.pc, s.incMsgs with
    | .collecting, (sender, m) :: incMsgs => { s with incMsgs }.collect sender m order
    | _, _ => none
  | .timeout => if s.pc = .collecting then some { s with pc := .returned none } else none
  | .stop =>
    if s.pc = .collecting ∧ s.stopped = true then some { s with pc := .returned none }
    else none
  | .close => some { s with stopped := true }

end StateCollector

/-! ## What is vouched for -/

def arrive (arrived : List CollectorMessage) :
    StateCollector × CollectorEvent → List CollectorMessage
  | (_, .collectStateResponses) => []
  | (s, .receive _) => arrived ++ s.incMsgs.head?.toList
  | _ => arrived

/-- The messages of the current collection, or of the last one, in the order of arrival. -/
def arrivals (steps : List (StateCollector × CollectorEvent)) : List CollectorMessage :=
  steps.foldl arrive []

abbrev Vouched (f : Nat) (arrived : List CollectorMessage) (viewAndSeq : ViewAndSeq) : Prop :=
  Carried Prod.fst CollectorMessage.reported f arrived viewAndSeq

/-- Where a collection stands after the messages have arrived. -/
def StateCollector.Outcome (s : StateCollector) (arrived : List CollectorMessage) : Prop :=
  match s.pc with
  | .idle => arrived = []
  | .collecting => ∀ other, ¬ Vouched s.f arrived other
  | .blocked => False
  | .returned none => ∀ other, ¬ Vouched s.f arrived other
  | .returned (some viewAndSeq) => (∀ other, Vouched s.f arrived other ↔ other = viewAndSeq) ∧
      ∃ before last, arrived = before ++ [last] ∧ ∀ other, ¬ Vouched s.f before other

theorem firstChoice_of_vouched_concat {f : Nat} {before : List CollectorMessage}
    {last : CollectorMessage} {viewAndSeq : ViewAndSeq} (hbefore : ¬ Vouched f before viewAndSeq)
    (h : Vouched f (before ++ [last]) viewAndSeq) :
    firstChoice Prod.fst CollectorMessage.reported (before ++ [last]) last.1 =
      some viewAndSeq := by
  obtain ⟨nodes, hlarge, hnodes⟩ := h
  by_contra hlast
  refine hbefore ⟨nodes, hlarge, fun node hnode => ?_⟩
  have hother : last.1 ≠ node := by
    rintro rfl
    exact hlast (hnodes _ hnode)
  have hreport := hnodes node hnode
  simpa [firstChoice, List.find?_append, hother] using hreport

theorem vouched_concat_iff {f : Nat} {before : List CollectorMessage} {last : CollectorMessage}
    {viewAndSeq : ViewAndSeq} (hbefore : ∀ other, ¬ Vouched f before other)
    (h : Vouched f (before ++ [last]) viewAndSeq) (other : ViewAndSeq) :
    Vouched f (before ++ [last]) other ↔ other = viewAndSeq := by
  constructor
  · intro hother
    have hreport := firstChoice_of_vouched_concat (hbefore viewAndSeq) h
    have hreported := firstChoice_of_vouched_concat (hbefore other) hother
    exact Option.some.inj (hreported.symm.trans hreport)
  · rintro rfl
    exact h

/-! ## Counting the votes -/

theorem recount_append (front back : List CollectorMessage) (votesMap : Counts ViewAndSeq)
    (h : ∀ message ∈ front, message.2.isSome = true) :
    recount front.length (front ++ back) votesMap =
      some (back ++ front, (front.filterMap CollectorMessage.reported).foldl countUp votesMap) := by
  induction front generalizing back votesMap with
  | nil => simp [recount]
  | cons message front ih =>
    obtain ⟨sender, m⟩ := message
    obtain ⟨response, rfl⟩ := Option.isSome_iff_exists.mp (h (sender, m) List.mem_cons_self)
    have hlater := ih (back ++ [(sender, some response)])
      (countUp votesMap response.viewAndSeq) fun other hother =>
        h other (List.mem_cons_of_mem _ hother)
    simp only [List.length_cons, List.cons_append, recount]
    rw [List.append_assoc, hlater]
    simp [CollectorMessage.reported]

abbrev Votes (responses : VoteSet (Option StateTransferResponse))
    (arrived : List CollectorMessage) : Prop :=
  (VoteKind.ballot responses).Holds Prod.fst arrived []

section Votes

variable {f : Nat} {responses responses' : VoteSet (Option StateTransferResponse)}
  {arrived : List CollectorMessage} {order : List ViewAndSeq} {result : Option ViewAndSeq}

theorem Votes.lt_of_vouched (h : Votes responses arrived) {viewAndSeq : ViewAndSeq}
    (hvouched : Vouched f arrived viewAndSeq) : f < responses.voted.length := by
  obtain ⟨nodes, hlarge, hnodes⟩ := hvouched
  have hsubset : nodes ⊆ responses.voted.toFinset := by
    intro node hnode
    obtain ⟨message, hmem, rfl, -⟩ := firstChoice_eq_some.mp (hnodes node hnode)
    have harrived := (firstBy_sublist Prod.fst arrived []).subset hmem
    exact List.mem_toFinset.mpr ((h.voted _).mpr (List.mem_map_of_mem harrived))
  have hcard := Finset.card_le_card hsubset
  have hlength := List.toFinset_card_le responses.voted
  omega

theorem Votes.isSome (h : Votes responses arrived)
    (harrived : ∀ message ∈ arrived, message.2.isSome = true) :
    ∀ message ∈ responses.votes, message.2.isSome = true := by
  intro message hmem
  have hfirst : message ∈ firstBy Prod.fst arrived [] := h.counted.subset hmem
  exact harrived message ((firstBy_sublist Prod.fst arrived []).subset hfirst)

theorem Votes.collectedEnoughEqualVotes (h : Votes responses arrived)
    (harrived : ∀ message ∈ arrived, message.2.isSome = true)
    (hcall : collectedEnoughEqualVotes f responses order = some (responses', result)) :
    responses' = responses ∧
      (result = none → ∀ other, ¬ Vouched f arrived other) ∧
      ∀ viewAndSeq, result = some viewAndSeq → Vouched f arrived viewAndSeq := by
  simp only [SmartBFT.collectedEnoughEqualVotes] at hcall
  split at hcall
  · rename_i hfew
    cases hcall
    exact ⟨rfl, fun _ other hvouched => by have := h.lt_of_vouched hvouched; omega, by simp⟩
  · have hrecount := recount_append responses.votes [] ∅ (h.isSome harrived)
    rw [List.append_nil, List.nil_append] at hrecount
    simp only [hrecount, Option.ite_none_right_eq_some, Option.some.injEq, Prod.mk.injEq] at hcall
    obtain ⟨horder, rfl, rfl⟩ := hcall
    have hcounted : responses.votes.Perm (firstBy Prod.fst arrived []) := h.counted
    have hwanted : ∀ (_ : ViewAndSeq) (count : Nat),
        decide (f < count) = true ↔ f < count ∧ True := by simp
    exact ⟨rfl, fun hnone other => not_carried_of_rangeFind hcounted hwanted horder hnone trivial,
      fun viewAndSeq hsome => (hit_of_rangeFind_carried hcounted hwanted hsome).1⟩

theorem Votes.exists_collectedEnoughEqualVotes (h : Votes responses arrived)
    (harrived : ∀ message ∈ arrived, message.2.isSome = true) :
    ∃ order result, SmartBFT.collectedEnoughEqualVotes f responses order = some result := by
  have hrecount := recount_append responses.votes [] ∅ (h.isSome harrived)
  rw [List.append_nil, List.nil_append] at hrecount
  refine ⟨((responses.votes.filterMap CollectorMessage.reported).foldl countUp ∅).keys, ?_⟩
  simp only [SmartBFT.collectedEnoughEqualVotes, hrecount, List.Perm.refl, if_true]
  split
  · exact ⟨_, rfl⟩
  · exact ⟨_, rfl⟩

end Votes

def CollectorEvent.SentBy (nodes : Finset Nat) : CollectorEvent → Prop
  | .handleMessage sender _ _ => sender ∈ nodes
  | _ => True

/-- The event without the order in which a map is ranged over. -/
def CollectorEvent.unordered : CollectorEvent → CollectorEvent
  | .receive _ => .receive []
  | event => event

namespace StateCollector

structure Collects (nodes : Finset Nat) (arrived : List CollectorMessage) (s : StateCollector) :
    Prop where
  size : s.n = nodes.card
  faults : s.f = (computeQuorum nodes.card).2
  queued : ∀ message ∈ s.incMsgs, message.1 ∈ nodes ∧ message.2.isSome = true
  known : ∀ message ∈ arrived, message.1 ∈ nodes ∧ message.2.isSome = true
  votes : Votes s.responses arrived
  outcome : s.Outcome arrived

variable {nodes : Finset Nat} {arrived : List CollectorMessage} {s s' s'' : StateCollector}
  {event : CollectorEvent} {order order' : List ViewAndSeq}

theorem collects_start : (start nodes.card).Collects nodes [] where
  size := rfl
  faults := rfl
  queued := by simp [start]
  known := by simp
  votes := Ballot.Holds.empty
  outcome := rfl

theorem Collects.votes_registerVote (h : s.Collects nodes arrived) (sender : Nat)
    (response : StateTransferResponse) :
    Votes (s.responses.registerVote acceptResponse sender (some response))
      (arrived ++ [(sender, some response)]) := by
  unfold Votes
  rw [VoteKind.ballot_registerVote (show acceptResponse sender (some response) = true from rfl)]
  exact h.votes.cast

theorem Collects.known_concat (h : s.Collects nodes arrived) {sender : Nat}
    (hsender : sender ∈ nodes) (response : StateTransferResponse) :
    ∀ message ∈ arrived ++ [(sender, some response)],
      message.1 ∈ nodes ∧ message.2.isSome = true := by
  intro message hmem
  rcases List.mem_append.mp hmem with hmem | hmem
  · exact h.known message hmem
  · obtain rfl := List.mem_singleton.mp hmem
    exact ⟨hsender, rfl⟩

theorem Collects.not_waitsForRoom (h : s.Collects nodes arrived) {sender : Nat}
    (hsender : sender ∈ nodes) (m : Option StateTransferResponse) :
    s.waitsForRoom sender m = false := by
  by_cases hvoted : sender ∈ s.responses.voted
  · simp [waitsForRoom, hvoted]
  · have hroom : s.responses.votes.length < nodes.toList.length :=
      h.votes.room (fun message hmem => Finset.mem_toList.mpr (h.known message hmem).1)
        (Finset.mem_toList.mpr hsender) hvoted
    rw [Finset.length_toList, ← h.size] at hroom
    simp [waitsForRoom, hroom]

theorem Collects.dequeue (h : s.Collects nodes arrived) {incMsgs : List CollectorMessage}
    (hincMsgs : incMsgs ⊆ s.incMsgs) : { s with incMsgs }.Collects nodes arrived where
  size := h.size
  faults := h.faults
  queued := fun message hmem => h.queued message (hincMsgs hmem)
  known := h.known
  votes := h.votes
  outcome := h.outcome

theorem Collects.collect (h : s.Collects nodes arrived) (hpc : s.pc = .collecting) {sender : Nat}
    (hsender : sender ∈ nodes) {response : StateTransferResponse}
    (hcall : s.collect sender (some response) order = some s') :
    s'.Collects nodes (arrived ++ [(sender, some response)]) ∧
      ∃ pc ≠ .returned none, s' = { s with
        responses := s.responses.registerVote acceptResponse sender (some response)
        pc } := by
  have hvotes := h.votes_registerVote sender response
  have hknown := h.known_concat hsender response
  have hbefore : ∀ other, ¬ Vouched s.f arrived other := by
    have houtcome := h.outcome
    simpa only [Outcome, hpc] using houtcome
  simp only [StateCollector.collect, h.not_waitsForRoom hsender, Bool.false_eq_true, if_false]
    at hcall
  split at hcall
  · cases hcall
  · rename_i responses hcount
    cases hcall
    obtain ⟨rfl, hnone, -⟩ :=
      hvotes.collectedEnoughEqualVotes (fun message hmem => (hknown message hmem).2) hcount
    refine ⟨⟨h.size, h.faults, h.queued, hknown, hvotes, ?_⟩, s.pc, by simp [hpc], rfl⟩
    simpa only [Outcome, hpc] using hnone rfl
  · rename_i responses viewAndSeq hcount
    cases hcall
    obtain ⟨rfl, -, hsome⟩ :=
      hvotes.collectedEnoughEqualVotes (fun message hmem => (hknown message hmem).2) hcount
    refine ⟨⟨h.size, h.faults, h.queued, hknown, hvotes, ?_⟩, .returned (some viewAndSeq), by simp,
      rfl⟩
    exact ⟨vouched_concat_iff hbefore (hsome viewAndSeq rfl), arrived, _, rfl, hbefore⟩

theorem Collects.exists_collect (h : s.Collects nodes arrived) {sender : Nat}
    (hsender : sender ∈ nodes) (response : StateTransferResponse) :
    ∃ order s', s.collect sender (some response) order = some s' := by
  have hvotes := h.votes_registerVote sender response
  have hknown := h.known_concat hsender response
  obtain ⟨order, ⟨responses, result⟩, hcount⟩ :=
    hvotes.exists_collectedEnoughEqualVotes (f := s.f) fun message hmem => (hknown message hmem).2
  refine ⟨order, ?_⟩
  simp only [StateCollector.collect, h.not_waitsForRoom hsender, Bool.false_eq_true, if_false,
    hcount]
  cases result with
  | none => exact ⟨_, rfl⟩
  | some viewAndSeq => exact ⟨_, rfl⟩

theorem Collects.receive_cases (h : s.Collects nodes arrived)
    (hstep : s.step (.receive order) = some s') :
    ∃ sender response incMsgs, s.pc = .collecting ∧ sender ∈ nodes ∧
      s.incMsgs = (sender, some response) :: incMsgs ∧
      { s with incMsgs }.Collects nodes arrived ∧
      { s with incMsgs }.collect sender (some response) order = some s' := by
  simp only [StateCollector.step] at hstep
  split at hstep
  · rename_i sender m incMsgs hpc hincMsgs
    have hqueued := h.queued (sender, m) (by simp [hincMsgs])
    obtain ⟨response, rfl⟩ := Option.isSome_iff_exists.mp hqueued.2
    exact ⟨sender, response, incMsgs, hpc, hqueued.1, hincMsgs,
      h.dequeue (by simp [hincMsgs]), hstep⟩
  · cases hstep

theorem Collects.giveUp (h : s.Collects nodes arrived) (hpc : s.pc = .collecting) :
    { s with pc := .returned none }.Collects nodes arrived where
  size := h.size
  faults := h.faults
  queued := h.queued
  known := h.known
  votes := h.votes
  outcome := by
    have houtcome := h.outcome
    simp only [Outcome, hpc] at houtcome
    exact houtcome

theorem Collects.step (h : s.Collects nodes arrived) (hsent : event.SentBy nodes)
    (hstep : s.step event = some s') : s'.Collects nodes (arrive arrived (s, event)) := by
  cases event with
  | handleMessage sender m stop =>
    simp only [StateCollector.step, Option.ite_none_left_eq_some] at hstep
    obtain ⟨hresponse, hstep⟩ := hstep
    split at hstep
    · obtain ⟨-, hstep⟩ := Option.ite_none_right_eq_some.mp hstep
      cases hstep
      exact h
    · split at hstep
      · cases hstep
        refine ⟨h.size, h.faults, fun message hmem => ?_, h.known, h.votes, h.outcome⟩
        rcases List.mem_append.mp hmem with hmem | hmem
        · exact h.queued message hmem
        · obtain rfl := List.mem_singleton.mp hmem
          exact ⟨hsent, Option.isSome_iff_ne_none.mpr hresponse⟩
      · cases hstep
        exact h
  | clearCollected =>
    cases hstep
    exact h.dequeue (by simp)
  | collectStateResponses =>
    have hstarted : { s with responses := {}, pc := .collecting }.Collects nodes [] :=
      ⟨h.size, h.faults, h.queued, by simp, Ballot.Holds.empty, fun _ => not_carried_nil⟩
    simp only [StateCollector.step] at hstep
    split at hstep
    · cases hstep
      exact hstarted
    · cases hstep
      exact hstarted
    · cases hstep
  | receive order =>
    obtain ⟨sender, response, incMsgs, hpc, hsender, hincMsgs, hcollects, hcall⟩ :=
      h.receive_cases hstep
    have hlater := (hcollects.collect hpc hsender hcall).1
    simpa only [arrive, hincMsgs, List.head?_cons, Option.toList_some] using hlater
  | timeout =>
    obtain ⟨hpc, hstep⟩ := Option.ite_none_right_eq_some.mp hstep
    cases hstep
    exact h.giveUp hpc
  | stop =>
    obtain ⟨hpc, hstep⟩ := Option.ite_none_right_eq_some.mp hstep
    cases hstep
    exact h.giveUp hpc.1
  | close =>
    cases hstep
    exact { h with }

theorem Outcome.pc_eq {pc pc' : CollectorPc} (h : { s with pc }.Outcome arrived)
    (h' : { s with pc := pc' }.Outcome arrived) (harrived : arrived ≠ [])
    (hpc : pc ≠ .returned none) (hpc' : pc' ≠ .returned none) : pc = pc' := by
  have hreturned : ∀ {pc : CollectorPc}, { s with pc }.Outcome arrived → pc ≠ .returned none →
      (pc = .collecting ∧ ∀ other, ¬ Vouched s.f arrived other) ∨
        ∃ viewAndSeq, pc = .returned (some viewAndSeq) ∧
          ∀ other, Vouched s.f arrived other ↔ other = viewAndSeq := by
    intro pc h hpc
    cases pc with
    | idle => exact absurd h harrived
    | collecting => exact .inl ⟨rfl, h⟩
    | blocked => exact h.elim
    | returned result =>
      cases result with
      | none => exact absurd rfl hpc
      | some viewAndSeq => exact .inr ⟨viewAndSeq, rfl, h.1⟩
  rcases hreturned h hpc with ⟨rfl, hnone⟩ | ⟨viewAndSeq, rfl, hone⟩ <;>
    rcases hreturned h' hpc' with ⟨rfl, hnone'⟩ | ⟨viewAndSeq', rfl, hone'⟩
  · rfl
  · exact absurd ((hone' viewAndSeq').mpr rfl) (hnone viewAndSeq')
  · exact absurd ((hone viewAndSeq).mpr rfl) (hnone' viewAndSeq)
  · rw [(hone' viewAndSeq).mp ((hone viewAndSeq).mpr rfl)]

theorem Collects.receive_unique (h : s.Collects nodes arrived)
    (hstep : s.step (.receive order) = some s') (hstep' : s.step (.receive order') = some s'') :
    s' = s'' := by
  obtain ⟨sender, response, incMsgs, hpc, hsender, hincMsgs, hcollects, hcall⟩ :=
    h.receive_cases hstep
  obtain ⟨_, _, _, -, -, hincMsgs', -, hcall'⟩ := h.receive_cases hstep'
  rw [hincMsgs] at hincMsgs'
  cases hincMsgs'
  obtain ⟨hlater, pc, hne, rfl⟩ := hcollects.collect hpc hsender hcall
  obtain ⟨hlater', pc', hne', rfl⟩ := hcollects.collect hpc hsender hcall'
  obtain rfl := Outcome.pc_eq hlater.outcome hlater'.outcome (by simp) hne hne'
  rfl

theorem Collects.exists_receive (h : s.Collects nodes arrived) (hpc : s.pc = .collecting)
    (hincMsgs : s.incMsgs ≠ []) : ∃ order s', s.step (.receive order) = some s' := by
  obtain ⟨⟨sender, m⟩, incMsgs, hincMsgs⟩ := List.exists_cons_of_ne_nil hincMsgs
  have hqueued := h.queued (sender, m) (by simp [hincMsgs])
  obtain ⟨response, rfl⟩ := Option.isSome_iff_exists.mp hqueued.2
  have hcollects : { s with incMsgs }.Collects nodes arrived := h.dequeue (by simp [hincMsgs])
  obtain ⟨order, s', hcall⟩ := hcollects.exists_collect hqueued.1 response
  refine ⟨order, s', ?_⟩
  simpa only [StateCollector.step, hpc, hincMsgs] using hcall

theorem Collects.step_unique {event' : CollectorEvent} (h : s.Collects nodes arrived)
    (hunordered : event'.unordered = event.unordered) (hstep : s.step event = some s')
    (hstep' : s.step event' = some s'') : s'' = s' := by
  have hsame : event' = event ∨ ∃ order order', event = .receive order ∧
      event' = .receive order' := by
    cases event <;> cases event' <;> simp_all [CollectorEvent.unordered]
  rcases hsame with rfl | ⟨order, order', rfl, rfl⟩
  · exact Option.some.inj (hstep'.symm.trans hstep)
  · exact h.receive_unique hstep' hstep

variable {events events' : List CollectorEvent}

theorem Collects.run (h : s.Collects nodes arrived)
    (hsent : ∀ event ∈ events, event.SentBy nodes)
    (hrun : Foundation.run StateCollector.step s events = some s') :
    s'.Collects nodes ((trail StateCollector.step s events).foldl arrive arrived) := by
  induction events generalizing s arrived with
  | nil =>
    obtain rfl := Option.some.inj hrun
    exact h
  | cons event events ih =>
    obtain ⟨t, hstep, hrest⟩ := run_cons hrun
    have ht := h.step (hsent event List.mem_cons_self) hstep
    have hlater := ih ht (fun other hmem => hsent other (List.mem_cons_of_mem _ hmem)) hrest
    simpa only [trail, hstep, List.foldl_cons] using hlater

theorem Collects.run_unique (h : s.Collects nodes arrived)
    (hsent : ∀ event ∈ events, event.SentBy nodes)
    (hrun : Foundation.run StateCollector.step s events = some s')
    (hunordered : events'.map CollectorEvent.unordered = events.map CollectorEvent.unordered)
    (hrun' : Foundation.run StateCollector.step s events' = some s'') : s'' = s' := by
  induction events generalizing s arrived events' with
  | nil =>
    obtain rfl := List.map_eq_nil_iff.mp hunordered
    exact Option.some.inj (hrun'.symm.trans hrun)
  | cons event events ih =>
    obtain ⟨event', rest, rfl, hevent, hrest⟩ := List.map_eq_cons_iff.mp hunordered
    obtain ⟨t, hstep, hlater⟩ := run_cons hrun
    obtain ⟨t', hstep', hlater'⟩ := run_cons hrun'
    obtain rfl := h.step_unique hevent hstep hstep'
    have ht := h.step (hsent event List.mem_cons_self) hstep
    exact ih ht (fun other hmem => hsent other (List.mem_cons_of_mem _ hmem)) hlater hrest hlater'

/-- Among responses of the known nodes a collection returns a pair exactly when it is the first
that `f + 1` of them vouch for; the orders of the maps do not matter, and no message is ever
stuck. -/
theorem collects_first_vouched (hsent : ∀ event ∈ events, event.SentBy nodes)
    (hrun : Foundation.run StateCollector.step (start nodes.card) events = some s) :
    s.f = (computeQuorum nodes.card).2 ∧
      s.Outcome (arrivals (trail StateCollector.step (start nodes.card) events)) ∧
      (∀ events' s', events'.map CollectorEvent.unordered = events.map CollectorEvent.unordered →
        Foundation.run StateCollector.step (start nodes.card) events' = some s' → s' = s) ∧
      (s.pc = .collecting → s.incMsgs ≠ [] →
        ∃ order s', s.step (.receive order) = some s') := by
  have hcollects := collects_start.run hsent hrun
  refine ⟨hcollects.faults, hcollects.outcome, fun events' s' hunordered hrun' => ?_,
    hcollects.exists_receive⟩
  exact collects_start.run_unique hsent hrun hunordered hrun'

/-- Node 0 changes its mind and node 1 supports what it says then, but node 2 reports what node 0
reported first. -/
theorem collects_first_vouched_of_conflict :
    let events : List CollectorEvent :=
      [.collectStateResponses,
        .handleMessage 0 (some ⟨2, 3⟩) false, .handleMessage 0 (some ⟨4, 5⟩) false,
        .handleMessage 1 (some ⟨4, 5⟩) false, .handleMessage 2 (some ⟨2, 3⟩) false,
        .receive [], .receive [], .receive [⟨4, 5⟩, ⟨2, 3⟩], .receive [⟨4, 5⟩, ⟨2, 3⟩]]
    ∃ s, Foundation.run StateCollector.step (start (Finset.range 4).card) events = some s ∧
      s.pc = .returned (some ⟨2, 3⟩) ∧
      s.Outcome (arrivals (trail StateCollector.step (start (Finset.range 4).card) events)) := by
  intro events
  have hsent : ∀ event ∈ events, event.SentBy (Finset.range 4) := by
    simp [events, CollectorEvent.SentBy]
  exact exists_of_isSome (by decide +kernel) fun hrun =>
    ⟨by decide +kernel, (collects_first_vouched hsent hrun).2.1⟩

end StateCollector

end SmartBFT
