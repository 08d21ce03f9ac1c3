import SmartBFT.Node.AbortDeadlock
import SmartBFT.Node.Delivery

/-!
# The leader of the running view

A view keeps the leader it was started with, while `Controller.leaderID` computes
one anew from the counters of the controller and the blacklist of the checkpoint.
`changeView` compares the two.  `checkIfRotate` does not: it compares what
`leaderID` gives for two counters under the new blacklist.
-/

namespace SmartBFT

open Foundation

def ControllerPc.delivered : ControllerPc → Option Decision
  | .acking decision | .acked decision | .counted decision => some decision
  | _ => none

namespace Node

def leaderAt (cfg : Config) (nd : Node) (decisionsInView : Nat) : Option Nat :=
  nd.checkpointMetadata.bind fun md =>
    getLeaderID nd.controller.currViewNumber cfg.n cfg.nodes cfg.leaderRotation
      decisionsInView cfg.decisionsPerLeader md.blackList

def rotates (cfg : Config) (nd : Node) (decisionsInView : Nat) (decision : Decision) : Bool :=
  match decision.proposal.unmarshalMetadata with
  | none => true
  | some md =>
    let nd := { nd with controller := { nd.controller with
      currDecisionsInView := decisionsInView } }
    decide (nd.checkIfRotate cfg md.blackList ≠ some false)

def decisionsWithNext (nd : Node) : Nat :=
  match nd.controller.pc with
  | .acking _ | .acked _ => nd.controller.currDecisionsInView + 1
  | _ => nd.controller.currDecisionsInView

def neededLeader (cfg : Config) (nd : Node) : Option Nat :=
  nd.leaderAt cfg nd.decisionsWithNext

def runsOn (nd : Node) : Bool :=
  !nd.currView.aborted &&
    match nd.controller.pc with
    | .select => true
    | .proposing _ => true
    | pc => pc.delivered.isSome

/-- What must not change the leader behind the back of a running view: a decision after
which it is not rotated, and a delivery of the view changer.  A controller that is stopped
in the middle of a decision does not count it. -/
def leaderKept (cfg : Config) (nd : Node) (input : NodeInput) : Bool :=
  !nd.runsOn ||
    match input.event with
    | .controller (.decide answer) =>
      match nd.currView.pc with
      | .deciding decision _ =>
        nd.rotates cfg (nd.controller.currDecisionsInView + 1) decision ||
          decide ((nd.deliver decision answer).leaderAt cfg
            (nd.controller.currDecisionsInView + 1) = nd.leaderID cfg)
      | _ => true
    | .controller .ackStopped => false
    | event =>
      match nd.delivering event with
      | some (decision, answer) =>
        decide ((nd.deliver decision answer).neededLeader cfg = nd.neededLeader cfg)
      | none => true

structure LeaderInvariant (cfg : Config) (nd : Node) : Prop where
  leader : nd.runsOn = true → nd.neededLeader cfg = some nd.currView.leaderID ∨
    ∃ decision, nd.controller.pc.delivered = some decision ∧
      nd.rotates cfg nd.decisionsWithNext decision = true
  told : nd.controller.pc.inAbort = true → nd.currView.aborted = true
  fetching : ∀ latest controllerViewNum newViewNum seq dec,
    nd.controller.pc = .fetching latest controllerViewNum newViewNum seq dec →
      controllerViewNum = nd.controller.currViewNumber ∧ controllerViewNum ≤ newViewNum
  informing : ∀ view seq dec, nd.controller.pc = .informing view seq dec →
    nd.controller.currViewNumber ≤ view

variable {cfg : Config} {verifier : Verifier} {nd nd' : Node}
variable {view seq dec : Nat} {decision : Decision}

theorem leaderAt_current : nd.leaderAt cfg nd.controller.currDecisionsInView = nd.leaderID cfg :=
  rfl

theorem runsOn_iff : nd.runsOn = true ↔ nd.currView.aborted = false ∧
    (nd.controller.pc = .select ∨ (∃ proposal, nd.controller.pc = .proposing proposal) ∨
      ∃ decision, nd.controller.pc.delivered = some decision) := by
  unfold runsOn
  cases nd.controller.pc <;> simp [ControllerPc.delivered]

namespace LeaderInvariant

theorem of_select (hpc : nd.controller.pc = .select)
    (hleader : nd.currView.aborted = false → nd.leaderID cfg = some nd.currView.leaderID) :
    LeaderInvariant cfg nd where
  leader hruns := by
    left
    simp only [neededLeader, decisionsWithNext, hpc]
    exact hleader (runsOn_iff.mp hruns).1
  told := by simp [hpc, ControllerPc.inAbort]
  fetching := by simp [hpc]
  informing := by simp [hpc]

theorem of_aborted {next : AbortThen} (hpc : nd.controller.pc = .aborting next)
    (haborted : nd.currView.aborted = true) : LeaderInvariant cfg nd where
  leader hruns := absurd (runsOn_iff.mp hruns).1 (by simp [haborted])
  told _ := haborted
  fetching := by simp [hpc]
  informing := by simp [hpc]

theorem of_same (h : LeaderInvariant cfg nd)
    (hpc : nd'.controller.pc = nd.controller.pc)
    (hview : nd'.controller.currViewNumber = nd.controller.currViewNumber)
    (hdecisions : nd'.controller.currDecisionsInView = nd.controller.currDecisionsInView)
    (hleader : nd'.currView.leaderID = nd.currView.leaderID)
    (haborted : nd.currView.aborted = true → nd'.currView.aborted = true)
    (hneeded : nd.runsOn = true → nd'.neededLeader cfg = nd.neededLeader cfg) :
    LeaderInvariant cfg nd' where
  leader hruns := by
    have hruns' : nd.runsOn = true := by
      rw [runsOn_iff] at hruns ⊢
      rw [hpc] at hruns
      refine ⟨?_, hruns.2⟩
      cases hnd : nd.currView.aborted with
      | false => rfl
      | true => exact absurd (haborted hnd) (by simp [hruns.1])
    rcases h.leader hruns' with hsame | ⟨decision, hdelivered, hrotates⟩
    · left
      rw [hneeded hruns', hleader, hsame]
    · refine .inr ⟨decision, hpc ▸ hdelivered, ?_⟩
      simp only [rotates, checkIfRotate, decisionsWithNext, hpc, hview, hdecisions] at hrotates ⊢
      exact hrotates
  told habort := haborted (h.told (hpc ▸ habort))
  fetching latest controllerViewNum newViewNum seq dec hfetching := by
    rw [hview]
    exact h.fetching latest controllerViewNum newViewNum seq dec (hpc ▸ hfetching)
  informing view seq dec hinforming := by
    rw [hview]
    exact h.informing view seq dec (hpc ▸ hinforming)

end LeaderInvariant

theorem neededLeader_congr (hpc : nd'.controller.pc = nd.controller.pc)
    (hview : nd'.controller.currViewNumber = nd.controller.currViewNumber)
    (hdecisions : nd'.controller.currDecisionsInView = nd.controller.currDecisionsInView)
    (hcheckpoint : nd'.checkpoint = nd.checkpoint) :
    nd'.neededLeader cfg = nd.neededLeader cfg := by
  simp only [neededLeader, decisionsWithNext, leaderAt, checkpointMetadata, hpc, hview,
    hdecisions, hcheckpoint]

theorem LeaderInvariant.of_keeps (h : LeaderInvariant cfg nd) (hkeeps : KeepsRunLoop nd nd')
    (hcheckpoint : nd'.checkpoint = nd.checkpoint) : LeaderInvariant cfg nd' := by
  apply h.of_same hkeeps.pc hkeeps.currViewNumber hkeeps.currDecisionsInView
  · rw [hkeeps.currView]
  · rw [hkeeps.currView]
    exact id
  · intro _
    exact neededLeader_congr hkeeps.pc hkeeps.currViewNumber hkeeps.currDecisionsInView hcheckpoint

theorem toSelect_leader (token : Bool)
    (hleader : nd.currView.aborted = false → nd.leaderID cfg = some nd.currView.leaderID) :
    LeaderInvariant cfg (nd.toSelect token) :=
  .of_select rfl hleader

theorem changeView_leader {rotation : Bool}
    (hview : view < nd.controller.currViewNumber → nd.currView.aborted = false →
      nd.leaderID cfg = some nd.currView.leaderID) :
    LeaderInvariant cfg (nd.changeView cfg view seq dec rotation) := by
  refine changeView_cases (fun hkept => afterChangeView_cases fun token _ =>
    toSelect_leader token ?_) (.of_aborted rfl rfl)
  rcases hkept with hbehind | hrunning
  · exact hview hbehind
  · simp only [alreadyRunning, Bool.and_eq_true, decide_eq_true_eq] at hrunning
    exact fun _ => hrunning.1.2

theorem restartView_leader {rotation : Bool} :
    (nd.restartView cfg view seq dec rotation).panicked = none →
      LeaderInvariant cfg (nd.restartView cfg view seq dec rotation) := by
  refine restartView_cases (motive := fun last => last.panicked = none →
    LeaderInvariant cfg last) ?_ ?_
  · intro text _ _ hlive
    simp [panic] at hlive
  · intro leader _ _ hleader _ _
    exact .of_select rfl fun _ => hleader

theorem abortView_leader (h : LeaderInvariant cfg nd) (view : Nat) :
    LeaderInvariant cfg (nd.abortView view) := by
  unfold abortView
  split
  · exact h
  · exact .of_aborted rfl rfl

theorem rotateOrFinish_leader
    (h : nd.currView.aborted = false → nd.leaderID cfg = some nd.currView.leaderID ∨
      nd.rotates cfg nd.controller.currDecisionsInView decision = true) :
    (nd.rotateOrFinish cfg decision).panicked = none →
      LeaderInvariant cfg (nd.rotateOrFinish cfg decision) := by
  refine rotateOrFinish_cases (motive := fun last => last.panicked = none →
    LeaderInvariant cfg last) ?_ ?_ ?_
  · intro text hlive
    simp [panic] at hlive
  · intro _ _ _ _
    exact changeView_leader fun hbehind => absurd hbehind (Nat.lt_irrefl _)
  · intro md hmd hstays _
    refine finishDecide_cases fun token _ => toSelect_leader token ?_
    intro haborted
    rcases h haborted with hleader | hrotates
    · exact hleader
    · simp [rotates, hmd, hstays] at hrotates

/-- `decide` goes on to count its decision, and the leader that is needed stays the same. -/
theorem LeaderInvariant.goes_on (h : LeaderInvariant cfg nd)
    (hpc : nd.controller.pc.delivered = some decision)
    (hpc' : nd'.controller.pc.delivered = some decision)
    (hview : nd'.controller.currViewNumber = nd.controller.currViewNumber)
    (hdecisions : nd'.decisionsWithNext = nd.decisionsWithNext)
    (hleader : nd'.currView.leaderID = nd.currView.leaderID)
    (haborted : nd'.currView.aborted = nd.currView.aborted)
    (hcheckpoint : nd'.checkpoint = nd.checkpoint) : LeaderInvariant cfg nd' := by
  refine ⟨fun hruns => ?_, ?_, ?_, ?_⟩
  · have hruns' : nd.runsOn = true :=
      runsOn_iff.mpr ⟨haborted ▸ (runsOn_iff.mp hruns).1, .inr (.inr ⟨decision, hpc⟩)⟩
    rcases h.leader hruns' with hsame | ⟨other, hother, hrotates⟩
    · left
      rw [hleader, ← hsame]
      simp only [neededLeader, leaderAt, checkpointMetadata, hdecisions, hview, hcheckpoint]
    · obtain rfl : decision = other := Option.some.inj (hpc.symm.trans hother)
      refine .inr ⟨decision, hpc', ?_⟩
      simp only [rotates, checkIfRotate, hdecisions, hview] at hrotates ⊢
      exact hrotates
  all_goals
    cases hcase : nd'.controller.pc <;> simp_all [ControllerPc.delivered, ControllerPc.inAbort]

theorem LeaderInvariant.decides (h : LeaderInvariant cfg nd) {answer : DeliverAnswer}
    {requests : List RequestInfo}
    (hmeets : nd.leaderKept cfg ⟨verifier, .controller (.decide answer)⟩ = true)
    (hpc : nd.controller.pc = .select) (hview : nd.currView.pc = .deciding decision requests)
    {c : Controller}
    (hc : c = { (nd.deliver decision answer).controller with
      stopped := c.stopped, pc := .acking decision }) :
    LeaderInvariant cfg { nd.deliver decision answer with
      currView := { (nd.deliver decision answer).currView with pc := .delivering }
      controller := c } := by
  have hkeeps := deliver_keepsRunLoop nd decision answer
  rw [hc]
  refine ⟨?_, by simp [ControllerPc.inAbort], by simp, by simp⟩
  intro hruns
  have haborted : nd.currView.aborted = false := by
    have := (runsOn_iff.mp hruns).1
    simpa [hkeeps.currView] using this
  have hruns' : nd.runsOn = true := runsOn_iff.mpr ⟨haborted, .inl hpc⟩
  have hleader : nd.leaderID cfg = some nd.currView.leaderID := by
    rcases h.leader hruns' with hleader | ⟨other, hother, -⟩
    · simpa only [neededLeader, decisionsWithNext, hpc, leaderAt_current] using hleader
    · simp [hpc, ControllerPc.delivered] at hother
  simp only [leaderKept, hruns', hview, Bool.not_true, Bool.false_or, Bool.or_eq_true,
    decide_eq_true_eq] at hmeets
  rcases hmeets with hrotates | hsame
  · refine .inr ⟨decision, rfl, ?_⟩
    simp only [rotates, checkIfRotate, decisionsWithNext, hkeeps.currViewNumber,
      hkeeps.currDecisionsInView] at hrotates ⊢
    exact hrotates
  · left
    simp only [neededLeader, decisionsWithNext, hkeeps.currView, hkeeps.currDecisionsInView]
    rw [hleader] at hsame
    exact hsame

theorem endSync_leader (hview : 0 < view ∨ 0 < seq → nd.controller.currViewNumber ≤ view) :
    LeaderInvariant cfg (nd.endSync cfg view seq dec) := by
  unfold endSync
  simp only
  split
  · rename_i hreported
    apply changeView_leader
    intro hbehind
    have := hview hreported
    simp only at hbehind
    omega
  · exact changeView_leader fun hbehind => absurd hbehind (Nat.lt_irrefl _)

theorem informOrEnd_leader (hview : nd.controller.currViewNumber ≤ view) :
    LeaderInvariant cfg (nd.informOrEnd cfg nd.controller.currViewNumber view seq dec) := by
  unfold informOrEnd
  split
  · refine ⟨?_, by simp [setController, ControllerPc.inAbort], by simp [setController], ?_⟩
    · intro hruns
      simp [runsOn, setController, ControllerPc.delivered] at hruns
    · intro view' seq' dec' hinforming
      simp only [setController, ControllerPc.informing.injEq] at hinforming
      exact hinforming.1 ▸ hview
  · exact endSync_leader fun _ => hview

theorem fetched_leader {latest : Option ViewMetadata} {newViewNum : Nat}
    (hview : nd.controller.currViewNumber ≤ newViewNum) (response : Option ViewAndSeq) :
    LeaderInvariant cfg (nd.fetched cfg latest nd.controller.currViewNumber newViewNum seq dec
      response) := by
  have hreport : ∀ mid : Node, ∀ view dec, KeepsRunLoop nd mid →
      nd.controller.currViewNumber ≤ view → LeaderInvariant cfg
        (mid.informOrEnd cfg nd.controller.currViewNumber view seq dec) := by
    intro mid view dec hkeeps hle
    rw [← hkeeps.currViewNumber] at hle ⊢
    exact informOrEnd_leader hle
  refine fetched_cases (motive := LeaderInvariant cfg) (endSync_leader (by simp)) ?_ ?_
  · exact hreport _ newViewNum dec (prune_keepsRunLoop nd latest) hview
  · intro md view hview'
    exact hreport _ view 0 ((save_keepsRunLoop nd _).trans (prune_keepsRunLoop _ latest))
      (by omega)

theorem beginSync_leader {response : Decision} {reconfig : Bool} :
    (nd.beginSync response reconfig).panicked = none →
      LeaderInvariant cfg (nd.beginSync response reconfig) := by
  have hfetching : ∀ mid : Node, ∀ latest newViewNum seq dec,
      mid.controller.currViewNumber ≤ newViewNum → LeaderInvariant cfg (mid.setController
        (.fetching latest mid.controller.currViewNumber newViewNum seq dec)) := by
    intro mid latest newViewNum seq dec hle
    refine ⟨?_, by simp [setController, ControllerPc.inAbort], ?_, by simp [setController]⟩
    · intro hruns
      simp [runsOn, setController, ControllerPc.delivered] at hruns
    · intro latest' controllerViewNum newViewNum' seq' dec' heq
      simp only [setController, ControllerPc.fetching.injEq] at heq
      obtain ⟨-, rfl, rfl, -, -⟩ := heq
      exact ⟨rfl, hle⟩
  refine beginSync_cases (motive := fun last => last.panicked = none →
    LeaderInvariant cfg last) ?_ ?_ ?_
  · intro text hlive
    simp [panic] at hlive
  · intro latest md _ _ _ _
    exact hfetching _ _ _ _ _ (Nat.le_max_left _ _)
  · intro latest md _ _ _ _
    exact hfetching _ _ _ _ _ (Nat.le_max_left _ _)

theorem propose_leader (hpc : nd.controller.pc = .select)
    (hleader : nd.currView.aborted = false → nd.leaderID cfg = some nd.currView.leaderID)
    {batch : Option Batch} : (nd.propose cfg verifier batch).panicked = none →
      LeaderInvariant cfg (nd.propose cfg verifier batch) := by
  refine propose_cases (motive := fun last => last.panicked = none → LeaderInvariant cfg last)
    (fun _ _ => .of_select hpc hleader) (fun _ _ => .of_select hpc hleader) ?_ ?_
  · intro text hlive
    simp [panic] at hlive
  · intro _ proposal _
    refine ⟨?_, by simp [setController, ControllerPc.inAbort], by simp [setController],
      by simp [setController]⟩
    intro hruns
    exact .inl (hleader (runsOn_iff.mp hruns).1)

theorem controllerSteps_leader (h : LeaderInvariant cfg nd) {event : ControllerEvent}
    (hmeets : nd.leaderKept cfg ⟨verifier, .controller event⟩ = true)
    (hsteps : ControllerSteps cfg verifier nd event nd') (hlive : nd'.panicked = none) :
    LeaderInvariant cfg nd' := by
  -- the leader of a view that runs while the run loop can take messages or proposes
  have hleader : nd.controller.pc = .select ∨ (∃ proposal, nd.controller.pc = .proposing proposal) →
      nd.currView.aborted = false → nd.leaderID cfg = some nd.currView.leaderID := by
    intro hpc haborted
    rcases h.leader (runsOn_iff.mpr ⟨haborted, hpc.imp_right .inl⟩) with
      hleader | ⟨decision, hdelivered, -⟩
    · rcases hpc with hpc | ⟨proposal, hpc⟩ <;>
        simpa only [neededLeader, decisionsWithNext, hpc, leaderAt_current] using hleader
    · rcases hpc with hpc | ⟨proposal, hpc⟩ <;>
        simp [hpc, ControllerPc.delivered] at hdelivered
  cases hsteps with
  | decide answer hpc hview => exact h.decides hmeets hpc hview rfl
  | ack hpc hview =>
    refine h.goes_on (by rw [hpc]; rfl) rfl rfl ?_ rfl rfl rfl
    simp [decisionsWithNext, setController, hpc]
  | count hpc =>
    refine h.goes_on (by rw [hpc]; rfl) rfl rfl ?_ rfl rfl rfl
    simp [decisionsWithNext, hpc]
  | @rotate decision hpc =>
    refine rotateOrFinish_leader (fun haborted => ?_) hlive
    have hdelivered : nd.controller.pc.delivered = some decision := by rw [hpc]; rfl
    rcases h.leader (runsOn_iff.mpr ⟨haborted, .inr (.inr ⟨_, hdelivered⟩)⟩) with
      hleader | ⟨other, hother, hrotates⟩
    · simp only [neededLeader, decisionsWithNext, hpc] at hleader
      exact .inl hleader
    · obtain rfl : decision = other := Option.some.inj (hdelivered.symm.trans hother)
      simp only [decisionsWithNext, hpc] at hrotates
      exact .inr hrotates
  | @ackStopped decision hpc hstopped =>
    apply LeaderInvariant.of_select rfl
    intro haborted
    have hruns : nd.runsOn = true :=
      runsOn_iff.mpr ⟨haborted, .inr (.inr ⟨decision, by rw [hpc]; rfl⟩)⟩
    simp [leaderKept, hruns] at hmeets
  | dropped hpc haborted => exact .of_select rfl (hleader (.inr ⟨_, hpc⟩))
  | proposed hpc haborted hview =>
    simp only [View.handleMessage, Option.ite_none_left_eq_some, Option.some.injEq] at hview
    obtain ⟨-, rfl⟩ := hview
    exact .of_select rfl (hleader (.inr ⟨_, hpc⟩))
  | fetched response hpc =>
    obtain ⟨rfl, hle⟩ := h.fetching _ _ _ _ _ hpc
    exact fetched_leader hle response
  | informed hpc => exact endSync_leader fun _ => h.informing _ _ _ hpc
  | informedStopped hpc => exact endSync_leader fun _ => h.informing _ _ _ hpc
  | aborted hended hpc =>
    have haborted := h.told (by rw [hpc]; rfl)
    exact .of_select rfl fun hruns => absurd haborted (by simpa [setController] using hruns)
  | restarted hended hpc => exact restartView_leader hlive
  | exited hended hpc =>
    refine ⟨?_, by simp [setController, ControllerPc.inAbort], by simp [setController],
      by simp [setController]⟩
    intro hruns
    simp [runsOn, setController, ControllerPc.delivered] at hruns
  | viewChange hpc hinfo => exact changeView_leader fun _ => hleader (.inl hpc)
  | abortView hpc =>
    apply abortView_leader
    exact .of_select hpc (hleader (.inl hpc))
  | stop hpc hstopped => exact .of_aborted rfl rfl
  | propose batch hpc => exact propose_leader hpc (hleader (.inl hpc)) hlive
  | sync response reconfig hpc => exact beginSync_leader hlive

end Node

theorem View.Transition.leaderID {cfg : Config} {verifier : Verifier} {checkpoint : Decision}
    {v v' : View} {event : ViewEvent} {outputs : List ViewOutput}
    (h : View.Transition cfg verifier checkpoint v event v' outputs) :
    v'.leaderID = v.leaderID := by
  cases h with
  | received hpc hqueue => exact (View.processMsg_sameProgress cfg _ _ _).leaderID
  | _ => rfl

namespace Node

variable {cfg : Config} {verifier : Verifier} {nd nd' : Node}

theorem delivered_leader (h : LeaderInvariant cfg nd) {event : NodeEvent}
    (hevent : (∃ answer, event = .inFlightDeliver answer) ∨
      ∃ answer, event = .viewChanger (.deliver answer))
    (hmeets : nd.leaderKept cfg ⟨verifier, event⟩ = true)
    (hkeeps : KeepsRunLoop nd nd') (hreact : nd.react cfg verifier event = some nd') :
    LeaderInvariant cfg nd' := by
  obtain ⟨decision, answer, hdelivering, hcheckpoint⟩ := react_delivers hreact (.inr hevent)
  have hdeliver := deliver_keepsRunLoop nd decision answer
  apply h.of_same hkeeps.pc hkeeps.currViewNumber hkeeps.currDecisionsInView
  · rw [hkeeps.currView]
  · rw [hkeeps.currView]
    exact id
  · intro hruns
    have hneeded : (nd.deliver decision answer).neededLeader cfg = nd.neededLeader cfg := by
      rcases hevent with ⟨_, rfl⟩ | ⟨_, rfl⟩ <;>
        simpa [leaderKept, hruns, hdelivering] using hmeets
    rw [← hneeded]
    exact neededLeader_congr (hkeeps.pc.trans hdeliver.pc.symm)
      (hkeeps.currViewNumber.trans hdeliver.currViewNumber.symm)
      (hkeeps.currDecisionsInView.trans hdeliver.currDecisionsInView.symm)
      hcheckpoint.checkpoint

theorem boot_leader {entries : List SavedMessage} {checkpoint : Decision}
    (h : boot cfg entries checkpoint = .ok nd) : LeaderInvariant cfg nd := by
  obtain ⟨md, start, leader, v, inFlight, hmd, -, hleader, hrestored, rfl⟩ := boot_ok h
  apply LeaderInvariant.of_select rfl
  intro _
  have hview : (v.catchUp (start.seq + 1) start.view start.dec).leaderID = leader := by
    rw [View.catchUp_leaderID]
    cases hrestored <;> rfl
  simp only [leaderID, checkpointMetadata, started, hmd, Option.bind_some, hleader, hview]

theorem step_leader {input : NodeInput} (h : nd.panicked = none → LeaderInvariant cfg nd)
    (hmeets : nd.leaderKept cfg input = true) (hstep : nd.step cfg input = some nd')
    (hlive : nd'.panicked = none) : LeaderInvariant cfg nd' := by
  obtain ⟨-, -, htransition⟩ := step_transition hstep
  have hreact := react_of_step hstep
  obtain ⟨verifier, event⟩ := input
  obtain ⟨hstarted, -, hsteps⟩ := step_steps hstep
  by_cases hcrash : event = .crash
  · subst hcrash
    cases hsteps with
    | down text => simp [panic] at hlive
    | restarted hboot => exact (boot_leader hboot).of_keeps ⟨rfl, rfl, rfl, rfl, rfl⟩ rfl
  have hinv := h (hstarted.resolve_right hcrash)
  have hdelivered := fun hevent hkeeps => delivered_leader hinv hevent hmeets hkeeps hreact
  -- what neither delivers nor is a step of the run loop leaves the checkpoint alone
  have hkept : event.ofRunLoop = false → (∀ answer, event ≠ .inFlightDeliver answer) →
      (∀ answer, event ≠ .viewChanger (.deliver answer)) → LeaderInvariant cfg nd' := by
    intro hevent hinFlight hdeliver
    have hcontroller : ∀ event', event ≠ .controller event' := by
      rintro event' rfl
      simp [NodeEvent.ofRunLoop] at hevent
    have hdecisions := transition_keepsDecisions htransition (fun _ => hcontroller _) hinFlight
      hdeliver fun _ _ => hcontroller _
    exact hinv.of_keeps (hsteps.keepsRunLoop hevent) hdecisions.checkpoint
  have hkeeps := hsteps.keepsRunLoop
  cases hsteps with
  | @view _ view outputs hview =>
    have htransition := View.transition_of_step hview
    have hmid : LeaderInvariant cfg { nd with currView := view } :=
      hinv.of_same rfl rfl rfl htransition.leaderID htransition.aborted fun _ => rfl
    exact hmid.of_keeps (applyOutputs_keepsRunLoop cfg _ _ outputs)
      (KeepsDecisions.applyOutputs _ _ _).checkpoint
  | viewStopped => exact hinv.of_same rfl rfl rfl rfl id fun _ => rfl
  | inFlightDeliver answer => exact hdelivered (.inl ⟨answer, rfl⟩) (hkeeps rfl)
  | controller hsteps => exact controllerSteps_leader hinv hmeets hsteps hlive
  | @viewChanger event _ hmoved =>
    by_cases hdeliver : ∃ answer, event = .deliver answer
    · obtain ⟨answer, rfl⟩ := hdeliver
      exact hdelivered (.inr ⟨answer, rfl⟩) (hkeeps rfl)
    · refine hkept rfl (by simp) ?_
      intro answer heq
      exact hdeliver ⟨answer, NodeEvent.viewChanger.inj heq⟩
  | stop => exact hinv.of_same rfl rfl rfl rfl id fun _ => rfl
  | down => exact absurd rfl hcrash
  | restarted => exact absurd rfl hcrash
  | _ => exact hkept rfl (by simp) (by simp)

end Node

/-- Leaders rotate after two decisions. -/
def rotatingPairs (selfID : Nat) : Config :=
  { clusterOfFour selfID with leaderRotation := true, decisionsPerLeader := 2 }

def sixthDecision : Decision where
  proposal := { metadata := some (.marshal {
    viewId := 1, latestSequence := 6, decisionsInView := 5, blackList := [1] }) }
  signatures := [{ signer := 2 }, { signer := 3 }, { signer := 4 }]

def seventhProposal (blackList : List Nat) : Proposal where
  payload := [7]
  metadata := some (.marshal {
    viewId := 1, latestSequence := 7, decisionsInView := 6, blackList := blackList })

/-- Node `3` decides the proposal of leader `2` with the votes of nodes `2` and `4`. -/
def decideSeventh (blackList : List Nat) : List NodeEvent :=
  let prepare : Message := .prepare { view := 1, seq := 7, digest := "seven" }
  let commit (signer : Nat) : Message := .commit {
    view := 1, seq := 7, digest := "seven", signature := some { signer := signer } }
  [.view .default, .view .doPhase] ++
    viewReceives 2 (.prePrepare {
      view := 1, seq := 7, proposal := some (seventhProposal blackList),
      prevCommitSignatures := sixthDecision.signatures }) ++
    [.view .prePrepare, .view .default, .view .doPhase] ++
    viewReceives 2 prepare ++ [.view .prepareVote] ++ viewReceives 4 prepare ++
    [.view .prepareVote, .view .finish, .view .default, .view .doPhase] ++
    viewReceives 2 (commit 2) ++ [.view (.commitVote 0)] ++ viewReceives 4 (commit 4) ++
    [.view (.commitVote 0), .view .finish] ++ deliverNext

def afterSixth : Node :=
  .started (rotatingPairs 3) [] sixthDecision { view := 1, seq := 6, dec := 6 } 2
    (.fresh 2 7 1 6) none

theorem boot_afterSixth : Node.boot (rotatingPairs 3) [] sixthDecision = .ok afterSixth := rfl

/-- Events during which prepares of the given nodes are attested. -/
def attested (ids : List Nat) (events : List NodeEvent) : List NodeInput :=
  events.map fun event => ⟨attesting ids, event⟩

/-- What the blacklist of view `1` becomes after the given decision. -/
def viewOneBlacklist (prevMD : ViewMetadata) (acks : List (Nat × PreparesFrom)) : Blacklist where
  currentLeader := 2
  leaderRotation := true
  prevMD := prevMD
  n := 4
  nodes := [1, 2, 3, 4]
  currView := 1
  preparesFrom := acks
  f := 1
  decisionsPerLeader := 2

end SmartBFT
