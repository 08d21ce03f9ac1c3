import Mathlib.Data.List.Perm.Basic
import SmartBFT.PartitionedProcessor

/-!
# Order, fairness and lost wake-ups of the partitioned queue

What is accepted for a sender is handled in this order, and no load of the other senders
delays it: each round takes one payload from every channel that is not empty
(`requests_fifo_fair`).

Rounds have to be started, though.  A signal that finds the poller in a round is lost, and
the payload stays in its channel until the next call of `Add` (`request_stranded`).  If every
lost signal is that of a payload which a worker of this round or another call of `Add`
accounts for, then no payload is left behind (`requests_never_stranded`).
-/

namespace SmartBFT

open SmartBFT.Foundation

def payloadsOf (sender : Nat) (log : List RequestData) : List Bytes :=
  (log.filter fun data => data.sender = sender).map RequestData.payload

@[simp] theorem payloadsOf_append (sender : Nat) (log log' : List RequestData) :
    payloadsOf sender (log ++ log') = payloadsOf sender log ++ payloadsOf sender log' := by
  simp [payloadsOf]

@[simp] theorem payloadsOf_self (data : RequestData) :
    payloadsOf data.sender [data] = [data.payload] := by
  simp [payloadsOf]

theorem payloadsOf_ne {sender : Nat} {data : RequestData} (h : data.sender ≠ sender) :
    payloadsOf sender [data] = [] := by
  simp [payloadsOf, h]

namespace PartitionedProcessor

variable {cfg : PartitionConfig} {p p' q : PartitionedProcessor} {event : PartitionEvent}

theorem index_unique (hdistinct : cfg.nodesList.Nodup) {i j sender : Nat}
    (hi : cfg.nodesList[i]? = some sender) (hj : cfg.nodesList[j]? = some sender) : i = j := by
  obtain ⟨hlt, -⟩ := List.getElem?_eq_some_iff.mp hi
  exact (List.getElem?_inj hlt hdistinct).mp (hi.trans hj.symm)

/-! ## Workers -/

def Resting (cfg : PartitionConfig) (p : PartitionedProcessor) : Prop :=
  ∀ i, p.poller ≠ .polling ∨ cfg.nodesList.length ≤ i → p.workers i = .finished

theorem Resting.setWorker (h : Resting cfg p) {i : Nat} (pc : WorkerPc)
    (hworker : p.workers i ≠ .finished) : Resting cfg (p.setWorker i pc) := by
  intro j hj
  have hij : j ≠ i := by
    rintro rfl
    exact hworker (h j hj)
  simpa [PartitionedProcessor.setWorker, Function.update_of_ne hij] using h j hj

theorem Resting.transition (h : Resting cfg p) (htransition : Transition cfg p event p') :
    Resting cfg p' := by
  cases htransition with
  | rejected => exact h
  | added => exact h
  | woken =>
    intro j hj
    have hout : ¬ j < cfg.nodesList.length := by simpa [startRound] using hj
    simp [startRound, hout]
  | lost => exact h
  | waits hidle => exact fun j _ => h j (.inl (by simp [hidle]))
  | empty hpending => exact h.setWorker _ (by simp [hpending])
  | takes hpending => exact h.setWorker _ (by simp [hpending])
  | hands hholding => exact h.setWorker _ (by simp [hholding])
  | finishes hhandling => exact h.setWorker _ (by simp [hhandling])
  | ends _ hfinished =>
    intro j _
    by_cases hj : j < cfg.nodesList.length
    · exact hfinished j hj
    · exact h j (.inr (Nat.not_lt.mp hj))

/-! ## Order -/

structure Ordered (cfg : PartitionConfig) (p : PartitionedProcessor) : Prop where
  order : ∀ i sender, cfg.nodesList[i]? = some sender →
    payloadsOf sender p.accepted =
      payloadsOf sender p.handled ++ ((p.workers i).held ++ p.channels i)
  resting : Resting cfg p
  listed : ∀ data ∈ p.handled, data.sender ∈ cfg.nodesList

theorem ordered_start : Ordered cfg {} :=
  ⟨fun _ _ _ => rfl, fun _ _ => rfl, by simp⟩

theorem setWorker_eq (p : PartitionedProcessor) (i : Nat) (pc : WorkerPc) :
    p.setWorker i pc =
      { p.setWorker i pc with channels := Function.update p.channels i (p.channels i) } := by
  rw [Function.update_eq_self]
  rfl

theorem Ordered.moveWorker (h : Ordered cfg p) {i : Nat} {pc : WorkerPc} {channel : List Bytes}
    (hworker : p.workers i ≠ .finished)
    (hsame : pc.held ++ channel = (p.workers i).held ++ p.channels i) :
    Ordered cfg { p.setWorker i pc with channels := Function.update p.channels i channel } := by
  refine ⟨fun j sender hj => ?_, h.resting.setWorker pc hworker, h.listed⟩
  have horder := h.order j sender hj
  by_cases hij : j = i
  · subst hij
    simpa [setWorker, hsame] using horder
  · simpa [setWorker, Function.update_of_ne hij] using horder

theorem Ordered.transition (hdistinct : cfg.nodesList.Nodup) (h : Ordered cfg p)
    (htransition : Transition cfg p event p') : Ordered cfg p' := by
  have hresting := h.resting.transition htransition
  cases htransition with
  | rejected => exact h
  | @added i data hnode =>
    refine ⟨fun j sender hj => ?_, hresting, h.listed⟩
    have horder := h.order j sender hj
    by_cases hij : j = i
    · subst hij
      obtain rfl : data.sender = sender := Option.some.inj (hnode.symm.trans hj)
      simp [accept, horder]
    · have hne : data.sender ≠ sender := fun heq =>
        hij (index_unique hdistinct hj (heq ▸ hnode))
      simp [accept, horder, payloadsOf_ne hne, Function.update_of_ne hij]
  | @woken call i hcall hwaiting =>
    refine ⟨fun j sender hj => ?_, hresting, h.listed⟩
    have horder := h.order j sender hj
    have hfinished := h.resting j (.inl (by simp [hwaiting]))
    obtain ⟨hlt, -⟩ := List.getElem?_eq_some_iff.mp hj
    simpa [startRound, hlt, hfinished, WorkerPc.held] using horder
  | lost => exact ⟨h.order, hresting, h.listed⟩
  | waits => exact ⟨h.order, hresting, h.listed⟩
  | @empty i hpending hempty =>
    rw [setWorker_eq]
    apply h.moveWorker
    · simp [hpending]
    · simp [hpending, WorkerPc.held]
  | @takes i payload rest hpending hchannel =>
    apply h.moveWorker
    · simp [hpending]
    · simp [hpending, hchannel, WorkerPc.held]
  | @hands i data hholding hnode =>
    refine ⟨fun j sender hj => ?_, hresting, fun other hother => ?_⟩
    · have horder := h.order j sender hj
      by_cases hij : j = i
      · subst hij
        obtain rfl : data.sender = sender := Option.some.inj (hnode.symm.trans hj)
        simpa [setWorker, hholding, WorkerPc.held] using horder
      · have hne : data.sender ≠ sender := fun heq =>
          hij (index_unique hdistinct hj (heq ▸ hnode))
        simpa [setWorker, payloadsOf_ne hne, Function.update_of_ne hij] using horder
    · rcases List.mem_append.mp hother with hold | hlast
      · exact h.listed other hold
      · obtain rfl := List.mem_singleton.mp hlast
        exact List.mem_of_getElem? hnode
  | @finishes i hhandling =>
    rw [setWorker_eq]
    apply h.moveWorker
    · simp [hhandling]
    · simp [hhandling, WorkerPc.held]
  | ends => exact ⟨h.order, hresting, h.listed⟩

theorem Ordered.handled_of_accepted (h : Ordered cfg p) {i sender : Nat}
    (hi : cfg.nodesList[i]? = some sender) :
    payloadsOf sender p.handled <+: payloadsOf sender p.accepted := by
  rw [h.order i sender hi]
  exact List.prefix_append _ _

theorem Transition.accepted_grows (h : Transition cfg p event p') : p.accepted <+: p'.accepted := by
  cases h with
  | added => exact List.prefix_append _ _
  | _ => exact List.prefix_refl _

theorem run_accepted_grows {events : List PartitionEvent}
    (hrun : run (step cfg) p events = some q) : p.accepted <+: q.accepted :=
  @run_invariant _ _ (step cfg) (fun s => p.accepted <+: s.accepted)
    (fun _ _ _ h hstep => h.trans (transition_of_step hstep).accepted_grows) _ _ _
    (List.prefix_refl _) hrun

/-! ## Rounds -/

def Over (p : PartitionedProcessor) (round : Nat) : Prop :=
  round < p.rounds ∨ round = p.rounds ∧ p.poller ≠ .polling

/-- What rounds have done for a sender since a point at which `handled` of its payloads were
handled or about to be handed over: one payload each, as long as there were any. -/
structure Served (n handled since i sender : Nat) (p : PartitionedProcessor) : Prop where
  accepted : n ≤ (payloadsOf sender p.accepted).length
  rounds : since ≤ p.rounds
  served : min n (handled + (p.rounds - since) - (p.workers i).toHandle) ≤
    (payloadsOf sender p.handled).length
  paced : (payloadsOf sender p.handled).length + (p.workers i).toHandle ≤
    handled + (p.rounds - since)

theorem Served.transition (hdistinct : cfg.nodesList.Nodup) {n handled since i sender : Nat}
    (hi : cfg.nodesList[i]? = some sender) (hordered : Ordered cfg p)
    (h : Served n handled since i sender p) (htransition : Transition cfg p event p') :
    Served n handled since i sender p' := by
  obtain ⟨haccepted, hrounds, hserved, hpaced⟩ := h
  -- a step of another worker changes neither the worker nor the payloads of this sender
  have hother : ∀ {j : Nat} {pc : WorkerPc}, j ≠ i →
      ((p.setWorker j pc).workers i).toHandle = (p.workers i).toHandle := fun hne => by
    simp [setWorker, Function.update_of_ne hne.symm]
  cases htransition with
  | rejected => exact ⟨haccepted, hrounds, hserved, hpaced⟩
  | @added j data hnode =>
    refine ⟨?_, hrounds, hserved, hpaced⟩
    rw [accept, payloadsOf_append, List.length_append]
    omega
  | woken _ hwaiting =>
    have hfinished := hordered.resting i (.inl (by simp [hwaiting]))
    obtain ⟨hlt, -⟩ := List.getElem?_eq_some_iff.mp hi
    simp only [hfinished, WorkerPc.toHandle] at hserved hpaced
    refine ⟨haccepted, Nat.le_succ_of_le hrounds, ?_, ?_⟩ <;>
      simp only [startRound, hlt, if_true, WorkerPc.toHandle] <;> omega
  | lost => exact ⟨haccepted, hrounds, hserved, hpaced⟩
  | waits => exact ⟨haccepted, hrounds, hserved, hpaced⟩
  | @empty j hpending hempty =>
    by_cases hij : j = i
    · -- the channel is empty: all that was accepted is handled
      subst hij
      have horder := hordered.order j sender hi
      rw [hpending, hempty] at horder
      simp only [WorkerPc.held, List.append_nil] at horder
      refine ⟨haccepted, hrounds, ?_, ?_⟩
      · rw [horder] at haccepted
        simp only [setWorker]
        omega
      · simp only [setWorker, Function.update_self, WorkerPc.toHandle]
        omega
    · exact ⟨haccepted, hrounds, by rw [hother hij]; exact hserved,
        by rw [hother hij]; exact hpaced⟩
  | @takes j payload rest hpending hchannel =>
    have hsame : ((p.setWorker j (.holding payload)).workers i).toHandle =
        (p.workers i).toHandle := by
      by_cases hij : j = i
      · subst hij
        simp [setWorker, hpending, WorkerPc.toHandle]
      · exact hother hij
    exact ⟨haccepted, hrounds, hsame ▸ hserved, hsame ▸ hpaced⟩
  | @hands j data hholding hnode =>
    by_cases hij : j = i
    · subst hij
      obtain rfl : data.sender = sender := Option.some.inj (hnode.symm.trans hi)
      simp only [hholding, WorkerPc.toHandle] at hserved hpaced
      refine ⟨haccepted, hrounds, ?_, ?_⟩ <;>
        simp only [setWorker, WorkerPc.toHandle, Function.update_self, payloadsOf_append,
          payloadsOf_self, List.length_append, List.length_singleton] <;> omega
    · have hne : data.sender ≠ sender := fun heq =>
        hij (index_unique hdistinct (heq ▸ hnode) hi)
      refine ⟨haccepted, hrounds, ?_, ?_⟩
      · simpa [setWorker, Function.update_of_ne (Ne.symm hij), payloadsOf_ne hne] using hserved
      · simpa [setWorker, Function.update_of_ne (Ne.symm hij), payloadsOf_ne hne] using hpaced
  | @finishes j hhandling =>
    have hsame : ((p.setWorker j .finished).workers i).toHandle = (p.workers i).toHandle := by
      by_cases hij : j = i
      · subst hij
        simp [setWorker, hhandling, WorkerPc.toHandle]
      · exact hother hij
    exact ⟨haccepted, hrounds, hsame ▸ hserved, hsame ▸ hpaced⟩
  | ends => exact ⟨haccepted, hrounds, hserved, hpaced⟩

theorem toHandle_le_one (pc : WorkerPc) : pc.toHandle ≤ 1 := by
  cases pc <;> simp [WorkerPc.toHandle]

theorem Served.over {n handled since i sender rounds : Nat} (hordered : Ordered cfg p)
    (h : Served n handled since i sender p) (hover : p.Over (since + rounds))
    (hrounds : n ≤ handled + rounds) : n ≤ (payloadsOf sender p.handled).length := by
  have hserved := h.served
  rcases hover with hlater | ⟨heq, hresting⟩
  · have hdue := toHandle_le_one (p.workers i)
    omega
  · rw [hordered.resting i (.inl hresting), WorkerPc.toHandle] at hserved
    omega

def unhandled (p : PartitionedProcessor) (sender : Nat) : Nat :=
  (payloadsOf sender p.accepted).length - (payloadsOf sender p.handled).length

/-- The round in which the payload that is accepted next for the sender is handled: with `k - 1`
unhandled payloads before it, the `k`-th round from now on, or the one before if the worker of a
round that is under way has still to hand over a payload. -/
def turn (p : PartitionedProcessor) (i sender : Nat) : Nat :=
  p.rounds + (p.unhandled sender + 1) - (p.workers i).toHandle

theorem handled_at_turn (hdistinct : cfg.nodesList.Nodup) (hordered : Ordered cfg p)
    {i sender : Nat} (hi : cfg.nodesList[i]? = some sender) {payload : Bytes}
    {events : List PartitionEvent} (hadd : p.add cfg sender payload = .ok p')
    (hrun : run (step cfg) p' events = some q) :
    (q.Over (p.turn i sender) →
      (payloadsOf sender q.handled)[(payloadsOf sender p.accepted).length]? = some payload) ∧
    ((payloadsOf sender p.accepted).length < (payloadsOf sender q.handled).length →
      p.turn i sender ≤ q.rounds) := by
  obtain ⟨j, hj, rfl⟩ := add_ok hadd
  obtain rfl := index_unique hdistinct hi hj
  have hinit : Ordered cfg (p.accept i ⟨payload, sender⟩) :=
    hordered.transition hdistinct (.added hi)
  have hlog : payloadsOf sender (p.accept i ⟨payload, sender⟩).accepted =
      payloadsOf sender p.accepted ++ [payload] := by
    simp [accept, payloadsOf]
  have hhandled : (payloadsOf sender p.handled).length ≤ (payloadsOf sender p.accepted).length :=
    (hordered.handled_of_accepted hi).length_le
  have hdue := toHandle_le_one (p.workers i)
  have hstart : Served ((payloadsOf sender p.accepted).length + 1)
      ((payloadsOf sender p.handled).length + (p.workers i).toHandle) p.rounds i sender
      (p.accept i ⟨payload, sender⟩) := by
    refine ⟨by simp [hlog], Nat.le_refl _, ?_, ?_⟩ <;> simp only [accept] <;> omega
  have hfinal : Ordered cfg q ∧ Served ((payloadsOf sender p.accepted).length + 1)
      ((payloadsOf sender p.handled).length + (p.workers i).toHandle) p.rounds i sender q :=
    @run_invariant _ _ (step cfg) (fun s => Ordered cfg s ∧ Served _ _ p.rounds i sender s)
      (fun _ _ _ h hstep => ⟨h.1.transition hdistinct (transition_of_step hstep),
        h.2.transition hdistinct hi h.1 (transition_of_step hstep)⟩) _ _ _ ⟨hinit, hstart⟩ hrun
  constructor
  · intro hover
    have hturn : p.turn i sender =
        p.rounds + (p.unhandled sender + 1 - (p.workers i).toHandle) := by
      unfold turn
      omega
    have hcount := hfinal.2.over hfinal.1 (hturn ▸ hover) (by unfold unhandled; omega)
    obtain ⟨later, hlater⟩ := run_accepted_grows hrun
    obtain ⟨rest, hrest⟩ := hfinal.1.handled_of_accepted hi
    have hplace : (payloadsOf sender q.accepted)[(payloadsOf sender p.accepted).length]? =
        some payload := by
      rw [← hlater, payloadsOf_append, hlog]
      simp
    rw [← hrest, List.getElem?_append_left (by omega)] at hplace
    exact hplace
  · intro hcount
    have hpaced := hfinal.2.paced
    have hrounds := hfinal.2.rounds
    unfold turn unhandled
    omega

end PartitionedProcessor

open PartitionedProcessor in
/--
The node ids are distinct.  At every point of every run:

* what the handler was given for a sender is a prefix of what `Add` accepted for it, and
  everything it was given is of a listed sender;
* a payload that is accepted next is handled at its place in the round `turn`, neither later
  nor earlier, whatever else is added;
* `Add` refuses a payload of a listed sender only if the channel of this sender is full.
-/
theorem requests_fifo_fair {cfg : PartitionConfig} {events : List PartitionEvent}
    {p : PartitionedProcessor} (hdistinct : cfg.nodesList.Nodup)
    (hrun : run (step cfg) {} events = some p) :
    (∀ sender ∈ cfg.nodesList, payloadsOf sender p.handled <+: payloadsOf sender p.accepted) ∧
    (∀ data ∈ p.handled, data.sender ∈ cfg.nodesList) ∧
    (∀ i sender payload p' later q, cfg.nodesList[i]? = some sender →
      p.add cfg sender payload = .ok p' → run (step cfg) p' later = some q →
      (q.Over (p.turn i sender) →
        (payloadsOf sender q.handled)[(payloadsOf sender p.accepted).length]? = some payload) ∧
      ((payloadsOf sender p.accepted).length < (payloadsOf sender q.handled).length →
        p.turn i sender ≤ q.rounds)) ∧
    (∀ sender ∈ cfg.nodesList, ∀ payload error, p.add cfg sender payload = .error error →
      ∃ i, cfg.nodesList[i]? = some sender ∧ cfg.capacity ≤ (p.channels i).length) := by
  have hordered : Ordered cfg p := run_invariant
    (fun _ _ _ h hstep => h.transition hdistinct (transition_of_step hstep)) ordered_start hrun
  refine ⟨fun sender hsender => ?_, hordered.listed, ?_, ?_⟩
  · obtain ⟨i, hi⟩ := List.mem_iff_getElem?.mp hsender
    exact hordered.handled_of_accepted hi
  · intro i sender payload p' later q hi hadd hlater
    exact handled_at_turn hdistinct hordered hi hadd hlater
  · intro sender hsender payload error herror
    exact add_error hsender herror

def twoSenders : PartitionConfig where
  nodesList := [1, 2]
  capacity := 2

/-- A worker goes through its round with a payload. -/
def workerRound (i : Nat) : List PartitionEvent := [.poll i, .handle i, .finish i]

def serveFirst : List PartitionEvent :=
  [.signal 0] ++ workerRound 0 ++ [.poll 1, .endRound]

/-- The second payload of a sender is handled in the second round, and not before. -/
theorem requests_fifo_fair_second :
    ∃ p p' q q', run (PartitionedProcessor.step twoSenders) {} [.wait, .add 1 [7]] = some p ∧
      p.add twoSenders 1 [8] = .ok p' ∧ p.turn 0 1 = 2 ∧
      run (PartitionedProcessor.step twoSenders) p' serveFirst = some q ∧ q.rounds = 1 ∧
      (payloadsOf 1 q.handled).length ≤ 1 ∧
      run (PartitionedProcessor.step twoSenders) p' (serveFirst ++ [.wait] ++ serveFirst) =
        some q' ∧ q'.rounds = 2 ∧ (payloadsOf 1 q'.handled)[1]? = some [8] := by
  have hfair := fun p hrun => (@requests_fifo_fair twoSenders [.wait, .add 1 [7]] p (by decide)
    hrun).2.2.1 0 1 [8]
  refine ⟨_, _, _, _, rfl, rfl, by decide, rfl, rfl, ?_, rfl, rfl, ?_⟩
  · by_contra hmany
    have hturn := (hfair _ rfl _ serveFirst _ rfl rfl rfl).2 (Nat.not_le.mp hmany)
    exact absurd hturn (by decide)
  · exact (hfair _ rfl _ (serveFirst ++ [.wait] ++ serveFirst) _ rfl rfl rfl).1
      (.inr ⟨rfl, by decide⟩)

/-- A payload is accepted while the worker of its channel has not looked yet, and is handled
in the round that is under way: no round has started since. -/
theorem handled_in_current_round :
    ∃ p p' q, run (PartitionedProcessor.step twoSenders) {} [.wait, .add 1 [7], .signal 0] =
        some p ∧
      p.add twoSenders 2 [9] = .ok p' ∧ p.unhandled 2 = 0 ∧
      run (PartitionedProcessor.step twoSenders) p' (workerRound 1) = some q ∧
      payloadsOf 2 q.handled = [[9]] ∧ q.rounds = p'.rounds := by
  refine ⟨_, _, _, rfl, rfl, by decide, rfl, by decide, rfl⟩

/-! ## Lost signals -/

namespace PartitionedProcessor

variable {cfg : PartitionConfig} {p p' : PartitionedProcessor} {event : PartitionEvent}

/-- The payloads in the channel `i` that a worker of this round and the calls of `Add` with
a signal to send account for. -/
def accounted (p : PartitionedProcessor) (i : Nat) : Nat :=
  p.signalling.count i + (p.workers i).toTake

/-- A signal is lost only if its payload is accounted for without it. -/
def losesNoPayload (p : PartitionedProcessor) (event : PartitionEvent) : Bool :=
  match event with
  | .signal call =>
    p.signalling[call]?.all fun i =>
      decide (p.poller = .waiting ∨ (p.channels i).length < p.accounted i)
  | _ => true

structure Covered (cfg : PartitionConfig) (p : PartitionedProcessor) : Prop where
  covered : ∀ i, (p.channels i).length ≤ p.accounted i
  listed : ∀ i ∈ p.signalling, i < cfg.nodesList.length
  resting : Resting cfg p

theorem count_eraseIdx {calls : List Nat} {call i : Nat} (hcall : calls[call]? = some i)
    (j : Nat) : calls.count j = (calls.eraseIdx call).count j + if i = j then 1 else 0 := by
  obtain ⟨hlt, hget⟩ := List.getElem?_eq_some_iff.mp hcall
  have hperm := (List.getElem_cons_eraseIdx_perm hlt).count_eq j
  rw [hget, List.count_cons] at hperm
  simpa using hperm.symm

theorem Covered.transition (h : Covered cfg p) (hmeets : p.losesNoPayload event = true)
    (htransition : Transition cfg p event p') : Covered cfg p' := by
  have hresting := h.resting.transition htransition
  have hlisted := fun call j hj => h.listed j (List.mem_of_mem_eraseIdx (i := call) hj)
  cases htransition with
  | rejected => exact h
  | @added i data hnode =>
    refine ⟨fun j => ?_, fun j hj => ?_, hresting⟩
    · have hcovered := h.covered j
      by_cases hij : j = i
      · subst hij
        simp only [accounted, accept, Function.update_self, List.length_append,
          List.length_singleton, List.count_append, List.count_singleton_self]
          at hcovered ⊢
        omega
      · simpa [accounted, accept, Function.update_of_ne hij, Ne.symm hij] using hcovered
    · rcases List.mem_append.mp hj with hold | hlast
      · exact h.listed j hold
      · obtain rfl := List.mem_singleton.mp hlast
        exact (List.getElem?_eq_some_iff.mp hnode).1
  | @woken call i hcall hwaiting =>
    refine ⟨fun j => ?_, hlisted call, hresting⟩
    have hcovered := h.covered j
    have hcount := count_eraseIdx hcall j
    have hfinished := h.resting j (.inl (by simp [hwaiting]))
    have hi := h.listed i (List.mem_of_getElem? hcall)
    simp only [accounted, hfinished, WorkerPc.toTake, startRound] at hcovered ⊢
    by_cases hij : i = j
    · subst hij
      simp only [hi, if_true] at hcount ⊢
      omega
    · simp only [hij, if_false] at hcount
      omega
  | @lost call i hcall hbusy =>
    refine ⟨fun j => ?_, hlisted call, hresting⟩
    have hcovered := h.covered j
    have hcount := count_eraseIdx hcall j
    have haccounted : (p.channels i).length < p.accounted i := by
      simpa [losesNoPayload, hcall, hbusy] using hmeets
    simp only [accounted] at hcovered haccounted ⊢
    by_cases hij : i = j
    · subst hij
      simp only [if_true] at hcount
      omega
    · simp only [hij, if_false] at hcount
      omega
  | waits => exact ⟨h.covered, h.listed, hresting⟩
  | @empty i hpending hempty =>
    refine ⟨fun j => ?_, h.listed, hresting⟩
    by_cases hij : j = i
    · subst hij
      simp [setWorker, hempty]
    · simpa [accounted, setWorker, Function.update_of_ne hij] using h.covered j
  | @takes i payload rest hpending hchannel =>
    refine ⟨fun j => ?_, h.listed, hresting⟩
    have hcovered := h.covered j
    by_cases hij : j = i
    · subst hij
      simp only [accounted, hchannel, hpending, List.length_cons, WorkerPc.toTake, setWorker,
        Function.update_self] at hcovered ⊢
      omega
    · simpa [accounted, setWorker, Function.update_of_ne hij] using hcovered
  | @hands i data hholding _ =>
    refine ⟨fun j => ?_, h.listed, hresting⟩
    have hcovered := h.covered j
    by_cases hij : j = i
    · subst hij
      simpa [accounted, setWorker, hholding, WorkerPc.toTake] using hcovered
    · simpa [accounted, setWorker, Function.update_of_ne hij] using hcovered
  | @finishes i hhandling =>
    refine ⟨fun j => ?_, h.listed, hresting⟩
    have hcovered := h.covered j
    by_cases hij : j = i
    · subst hij
      simpa [accounted, setWorker, hhandling, WorkerPc.toTake] using hcovered
    · simpa [accounted, setWorker, Function.update_of_ne hij] using hcovered
  | ends => exact ⟨h.covered, h.listed, hresting⟩

end PartitionedProcessor

open PartitionedProcessor in
/--
In a run in which a signal is lost only if its payload is accounted for without it, all
channels are empty whenever the poller waits and no call of `Add` is under way; if the node ids
are distinct, then every payload that was accepted was handed to the handler.
-/
theorem requests_never_stranded {cfg : PartitionConfig} {events : List PartitionEvent}
    {p : PartitionedProcessor}
    (hmeets : StepsMeet (step cfg) (fun p event => p.losesNoPayload event = true) {} events)
    (hrun : run (step cfg) {} events = some p) (hwaiting : p.poller = .waiting)
    (hquiet : p.signalling = []) :
    (∀ i, p.channels i = []) ∧ (cfg.nodesList.Nodup →
      ∀ sender ∈ cfg.nodesList, payloadsOf sender p.handled = payloadsOf sender p.accepted) := by
  have hinit : Covered cfg {} := ⟨by simp, by simp, fun _ _ => rfl⟩
  have hcovered : Covered cfg p := run_invariant_of_steps_meet
    (fun _ _ _ h hmeets hstep => h.transition hmeets (transition_of_step hstep)) hinit hmeets hrun
  have hfinished := fun i => hcovered.resting i (.inl (by simp [hwaiting]))
  have hempty : ∀ i, p.channels i = [] := by
    intro i
    have hlength := hcovered.covered i
    simp only [accounted, hquiet, hfinished i, WorkerPc.toTake, List.count_nil] at hlength
    exact List.eq_nil_of_length_eq_zero (Nat.le_zero.mp hlength)
  refine ⟨hempty, fun hdistinct sender hsender => ?_⟩
  have hordered : Ordered cfg p := run_invariant
    (fun _ _ _ h hstep => h.transition hdistinct (transition_of_step hstep)) ordered_start hrun
  obtain ⟨i, hi⟩ := List.mem_iff_getElem?.mp hsender
  rw [hordered.order i sender hi, hfinished i, hempty i]
  simp [WorkerPc.held]

/-- The signal of the second payload comes when the first round is over. -/
theorem requests_never_stranded_two :
    ∃ p, run (PartitionedProcessor.step twoSenders) {} ([.wait, .add 1 [7], .add 1 [8]] ++
        serveFirst ++ [.wait] ++ serveFirst ++ [.wait]) = some p ∧
      p.poller = .waiting ∧ p.signalling = [] ∧ payloadsOf 1 p.accepted = [[7], [8]] ∧
      (∀ i, p.channels i = []) ∧ payloadsOf 1 p.handled = [[7], [8]] := by
  refine exists_of_isSome (by decide +kernel) fun hrun =>
    ⟨by decide +kernel, by decide +kernel, by decide +kernel, ?_⟩
  obtain ⟨hempty, hhandled⟩ := requests_never_stranded (by decide +kernel) hrun
    (by decide +kernel) (by decide +kernel)
  exact ⟨hempty, (hhandled (by decide) 1 (by decide)).trans (by decide +kernel)⟩

/-- The signal of the second payload comes during the first round, and is lost. -/
theorem request_stranded :
    ∃ p, run (PartitionedProcessor.step twoSenders) {} ([.wait, .add 1 [7], .signal 0, .poll 0,
        .add 1 [8], .signal 0, .handle 0, .finish 0, .poll 1, .endRound, .wait]) = some p ∧
      p.poller = .waiting ∧ p.signalling = [] ∧ p.channels 0 = [[8]] ∧
      payloadsOf 1 p.handled = [[7]] ∧ payloadsOf 1 p.accepted = [[7], [8]] := by
  refine ⟨_, rfl, ?_⟩
  decide

end SmartBFT
