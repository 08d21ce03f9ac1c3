import SmartBFT.Node.Effects
import SmartBFT.ViewTransition

/-!
# The controller and its view wait for each other

`View.Abort` waits for the goroutine of the view to end, and `Controller.Decide`
makes this goroutine wait for the run loop to take its decision and to
acknowledge it.  If the run loop takes a view change, an abort or a sync while
the view is in `Decide`, neither ever goes on (`abortDeadlock_reachable`,
`abortDeadlock_lasts`).

The deadlock needs one of two things: the run loop starts to abort a view that
is in `Decide`, or a view that was told to stop completes its commits instead of
leaving.  A run without both never reaches it (`abort_never_deadlocks`).
-/

namespace SmartBFT

open SmartBFT.Foundation

def ControllerPc.inAbort : ControllerPc → Bool
  | .aborting _ => true
  | _ => false

/-- The run loop waits in `View.Abort` while the view waits in `Decide`. -/
def Node.AbortDeadlock (nd : Node) : Prop :=
  nd.controller.pc.inAbort = true ∧ nd.currView.pc.inDecide = true ∧
    nd.controller.stopped = false

instance (nd : Node) : Decidable nd.AbortDeadlock :=
  inferInstanceAs (Decidable (_ ∧ _ ∧ _))

/-- What `checkIfRotate` says of the decision that was counted last. -/
def Node.rotation (cfg : Config) (nd : Node) : Option Bool :=
  match nd.controller.pc with
  | .counted decision => decision.proposal.unmarshalMetadata.bind fun md =>
    nd.checkIfRotate cfg md.blackList
  | _ => none

/-- A view that was told to stop does not complete its commits, and the run loop
takes a view change or an abort, ends a sync, or rotates the leader, only while the
view is not in `Decide`. -/
def abortsIdleView (cfg : Config) (nd : Node) (input : NodeInput) : Bool :=
  match input.event with
  | .view .finish => !nd.currView.aborted
  | .controller .viewChange => !nd.currView.pc.inDecide
  | .controller .abortView => !nd.currView.pc.inDecide
  | .controller (.fetched _) => !nd.currView.pc.inDecide
  | .controller .informed => !nd.currView.pc.inDecide
  | .controller .rotate => decide (nd.rotation cfg ≠ some true) || !nd.currView.pc.inDecide
  | _ => true

namespace View

variable {cfg : Config} {verifier : Verifier} {checkpoint : Decision} {v v' : View}
  {event : ViewEvent} {outputs : List ViewOutput}

theorem Transition.aborted (h : Transition cfg verifier checkpoint v event v' outputs)
    (haborted : v.aborted = true) : v'.aborted = true := by
  cases h with
  | received hpc hqueue => exact (processMsg_sameProgress cfg _ _ _).aborted haborted
  | rejected => rfl
  | _ => exact haborted

theorem Transition.inDecide (h : Transition cfg verifier checkpoint v event v' outputs)
    (hin : v'.pc.inDecide = true) :
    v'.pc = v.pc ∨ (event = .finish ∧ ∃ decision requests,
      v'.pc = .deciding decision requests) := by
  cases h with
  | queued => exact .inl rfl
  | received hpc hqueue => exact .inl (processMsg_sameProgress cfg _ _ _).pc
  | panicked => exact .inl rfl
  | nothingToSend => exact .inl rfl
  | otherPrepare => exact .inl rfl
  | otherCommit => exact .inl rfl
  | decided => exact .inr ⟨rfl, _, _, rfl⟩
  | _ => simp [ViewPc.inDecide, View.beginProposal, rejectProposal, acceptProposal,
      finishPrepares] at hin

end View

structure AbortInvariant (nd : Node) : Prop where
  told : nd.controller.pc.inAbort = true → nd.currView.aborted = true
  idle : nd.controller.stopped = false → nd.controller.pc.inAbort = true →
    nd.currView.pc.inDecide = false
  acknowledged : nd.controller.stopped = false → nd.currView.pc = .delivering →
    ∃ decision, nd.controller.pc = .acking decision

namespace AbortInvariant

theorem of_keepsRunLoop {nd nd' : Node} (h : AbortInvariant nd)
    (hkeeps : KeepsRunLoop nd nd') : AbortInvariant nd' := by
  constructor
  · rw [hkeeps.pc, hkeeps.currView]
    exact h.told
  · rw [hkeeps.pc, hkeeps.currView, hkeeps.stopped]
    exact h.idle
  · rw [hkeeps.pc, hkeeps.currView, hkeeps.stopped]
    exact h.acknowledged

theorem of_apart {nd : Node} (hpc : nd.controller.pc.inAbort = false)
    (hview : nd.controller.stopped = false → nd.currView.pc ≠ .delivering) :
    AbortInvariant nd where
  told h := by simp [hpc] at h
  idle _ h := by simp [hpc] at h
  acknowledged hstopped h := absurd h (hview hstopped)

theorem not_delivering {nd : Node} (h : AbortInvariant nd)
    (hpc : ∀ decision, nd.controller.pc ≠ .acking decision)
    (hstopped : nd.controller.stopped = false) : nd.currView.pc ≠ .delivering := by
  intro hview
  obtain ⟨decision, hacking⟩ := h.acknowledged hstopped hview
  exact hpc decision hacking

end AbortInvariant

namespace Node

variable {cfg : Config} {verifier : Verifier} {nd nd' : Node}

structure ViewKeptOrAborted (nd nd' : Node) : Prop where
  stopped : nd'.controller.stopped = nd.controller.stopped
  cases : (nd'.controller.pc.inAbort = false ∧ nd'.currView = nd.currView) ∨
    (nd'.controller.pc.inAbort = true ∧ nd'.currView = nd.currView.stop)

theorem toSelect_kept (nd : Node) (token : Bool) : ViewKeptOrAborted nd (nd.toSelect token) :=
  ⟨rfl, .inl ⟨rfl, rfl⟩⟩

theorem changeView_keptOrAborted (cfg : Config) (nd : Node) (view seq dec : Nat)
    (rotation : Bool) : ViewKeptOrAborted nd (nd.changeView cfg view seq dec rotation) :=
  changeView_cases (fun _ => afterChangeView_cases fun token _ => toSelect_kept nd token)
    ⟨rfl, .inr ⟨rfl, rfl⟩⟩

theorem endSync_keptOrAborted (cfg : Config) (nd : Node) (view seq dec : Nat) :
    ViewKeptOrAborted nd (nd.endSync cfg view seq dec) := by
  unfold endSync
  simp only
  split <;> exact { changeView_keptOrAborted cfg _ _ _ _ _ with }

theorem ViewKeptOrAborted.after {mid : Node} (hkeeps : KeepsRunLoop nd mid)
    (h : ViewKeptOrAborted mid nd') : ViewKeptOrAborted nd nd' where
  stopped := h.stopped.trans hkeeps.stopped
  cases := by
    have := h.cases
    rwa [hkeeps.currView] at this

theorem maybePruneInFlight_keepsRunLoop (nd : Node) (md : ViewMetadata) :
    KeepsRunLoop nd (nd.maybePruneInFlight md) := by
  unfold maybePruneInFlight
  split
  · exact .refl nd
  · split
    · exact ⟨rfl, rfl, rfl, rfl, rfl⟩
    · split
      · exact .refl nd
      · exact ⟨rfl, rfl, rfl, rfl, rfl⟩

theorem informOrEnd_keptOrAborted (cfg : Config) (nd : Node)
    (controllerViewNum newViewNum seq dec : Nat) :
    ViewKeptOrAborted nd (nd.informOrEnd cfg controllerViewNum newViewNum seq dec) := by
  unfold informOrEnd
  split
  · exact ⟨rfl, .inl ⟨rfl, rfl⟩⟩
  · exact endSync_keptOrAborted cfg nd _ _ _

theorem prune_keepsRunLoop (nd : Node) (latest : Option ViewMetadata) :
    KeepsRunLoop nd (latest.elim nd nd.maybePruneInFlight) := by
  cases latest with
  | none => exact .refl nd
  | some md => exact maybePruneInFlight_keepsRunLoop nd md

theorem fetched_keptOrAborted (cfg : Config) (nd : Node) (latest : Option ViewMetadata)
    (controllerViewNum newViewNum seq dec : Nat) (response : Option ViewAndSeq) :
    ViewKeptOrAborted nd
      (nd.fetched cfg latest controllerViewNum newViewNum seq dec response) := by
  refine fetched_cases (motive := ViewKeptOrAborted nd) (endSync_keptOrAborted cfg nd 0 0 0) ?_ ?_
  · exact .after (prune_keepsRunLoop nd latest) (informOrEnd_keptOrAborted cfg _ _ _ _ _)
  · intro md view _
    exact .after ((save_keepsRunLoop nd _).trans (prune_keepsRunLoop _ latest))
      (informOrEnd_keptOrAborted cfg _ _ _ _ _)

theorem ViewKeptOrAborted.invariant (h : ViewKeptOrAborted nd nd')
    (hidle : nd.currView.pc.inDecide = false) : AbortInvariant nd' := by
  have hdelivering : nd.currView.pc ≠ .delivering := by
    intro hpc
    simp [hpc, ViewPc.inDecide] at hidle
  rcases h.cases with ⟨hpc, hview⟩ | ⟨-, hview⟩
  · exact .of_apart hpc fun _ => hview ▸ hdelivering
  · exact ⟨fun _ => by rw [hview]; rfl, fun _ _ => by rw [hview]; exact hidle,
      fun _ hpc => absurd (by rw [hview] at hpc; exact hpc) hdelivering⟩

theorem rotateOrFinish_invariant (h : AbortInvariant nd) {decision : Decision}
    (hpc : nd.controller.pc = .counted decision)
    (hidle : nd.rotation cfg = some true → nd.currView.pc.inDecide = false) :
    AbortInvariant (nd.rotateOrFinish cfg decision) := by
  have hview := h.not_delivering fun decision hacking => by simp [hacking] at hpc
  refine rotateOrFinish_cases (fun _ => .of_apart (by simp [panic, hpc, ControllerPc.inAbort])
    hview) ?_ ?_
  · intro md hmd hrotates
    exact (changeView_keptOrAborted cfg _ _ _ _ _).invariant
      (hidle (by simp [rotation, hpc, hmd, hrotates]))
  · intro _ _ _
    exact finishDecide_cases fun _ _ => .of_apart rfl hview

theorem propose_invariant (h : AbortInvariant nd) (hpc : nd.controller.pc = .select)
    (batch : Option Batch) : AbortInvariant (nd.propose cfg verifier batch) := by
  have hview := h.not_delivering fun decision hacking => by simp [hacking] at hpc
  have hselect : nd.controller.pc.inAbort = false := by rw [hpc]; rfl
  exact propose_cases (fun _ => .of_apart hselect hview) (fun _ => .of_apart hselect hview)
    (fun _ => .of_apart hselect hview) (fun _ _ => .of_apart rfl hview)

theorem beginSync_invariant (h : AbortInvariant nd) (hpc : nd.controller.pc = .select)
    (response : Decision) (reconfig : Bool) :
    AbortInvariant (nd.beginSync response reconfig) := by
  have hview := h.not_delivering fun decision hacking => by simp [hacking] at hpc
  have hselect : nd.controller.pc.inAbort = false := by rw [hpc]; rfl
  have hstopped : (nd.controller.stopped || reconfig) = false →
      nd.currView.pc ≠ .delivering := fun h => hview (Bool.or_eq_false_iff.mp h).1
  exact beginSync_cases (fun _ => .of_apart hselect hstopped)
    (fun _ _ _ _ _ => .of_apart rfl hstopped) (fun _ _ _ _ _ => .of_apart rfl hstopped)

theorem abortView_keptOrAborted (nd : Node) (view : Nat)
    (hpc : nd.controller.pc = .select) : ViewKeptOrAborted nd (nd.abortView view) := by
  unfold abortView
  split
  · exact ⟨rfl, .inl ⟨by rw [hpc]; rfl, rfl⟩⟩
  · exact ⟨rfl, .inr ⟨rfl, rfl⟩⟩

theorem controllerSteps_invariant (h : AbortInvariant nd) {event : ControllerEvent}
    (hmeets : abortsIdleView cfg nd ⟨verifier, .controller event⟩ = true)
    (hsteps : ControllerSteps cfg verifier nd event nd') : AbortInvariant nd' := by
  cases hsteps with
  | decide answer hpc hview =>
    exact ⟨fun h => by simp [ControllerPc.inAbort] at h,
      fun _ h => by simp [ControllerPc.inAbort] at h, fun _ _ => ⟨_, rfl⟩⟩
  | ack hpc hview => exact .of_apart rfl fun _ => by simp [setController, View.decided]
  | count hpc =>
    exact .of_apart rfl (h.not_delivering fun decision hacking => by simp [hacking] at hpc)
  | rotate hpc =>
    refine rotateOrFinish_invariant h hpc fun hrotates => ?_
    simpa [abortsIdleView, hrotates] using hmeets
  | ackStopped hpc hstopped =>
    refine .of_apart rfl fun hopen => ?_
    exact absurd (hstopped.symm.trans hopen) (by simp)
  | dropped hpc haborted =>
    exact .of_apart rfl (h.not_delivering fun decision hacking => by simp [hacking] at hpc)
  | proposed hpc haborted hview =>
    simp only [View.handleMessage, Option.ite_none_left_eq_some, Option.some.injEq] at hview
    obtain ⟨-, rfl⟩ := hview
    exact .of_apart rfl (h.not_delivering fun decision hacking => by simp [hacking] at hpc)
  | fetched response hpc =>
    exact (fetched_keptOrAborted cfg nd _ _ _ _ _ response).invariant
      (by simpa [abortsIdleView] using hmeets)
  | informed hpc =>
    exact (endSync_keptOrAborted cfg _ _ _ _).invariant (by simpa [abortsIdleView] using hmeets)
  | informedStopped hpc =>
    exact (endSync_keptOrAborted cfg _ _ _ _).invariant (by simpa [abortsIdleView] using hmeets)
  | restarted hended hpc =>
    refine restartView_cases (fun _ _ _ => .of_apart rfl fun _ => ?_)
      (fun _ _ _ _ _ => .of_apart rfl fun _ => ?_)
    · simp [panic, hended]
    · simp [View.fresh]
  | aborted hended hpc => exact .of_apart rfl fun _ => by simp [setController, hended]
  | exited hended hpc => exact .of_apart rfl fun _ => by simp [setController, hended]
  | viewChange hpc hinfo =>
    exact (changeView_keptOrAborted cfg _ _ _ _ _).invariant
      (by simpa [abortsIdleView] using hmeets)
  | @abortView view hpc =>
    refine (abortView_keptOrAborted _ view ?_).invariant ?_
    · exact hpc
    · simpa [abortsIdleView] using hmeets
  | stop hpc hstopped =>
    exact ⟨fun _ => rfl, fun hopen => by simp [abortCurrView, hstopped] at hopen,
      fun hopen => by simp [abortCurrView, hstopped] at hopen⟩
  | propose batch hpc => exact propose_invariant h hpc batch
  | sync response reconfig hpc => exact beginSync_invariant h hpc response reconfig

theorem viewSteps_invariant (h : AbortInvariant nd) {event : ViewEvent} {view : View}
    {outputs : List ViewOutput} (hmeets : abortsIdleView cfg nd ⟨verifier, .view event⟩ = true)
    (htransition : View.Transition cfg verifier nd.checkpoint nd.currView event view outputs) :
    AbortInvariant { nd with currView := view } := by
  refine ⟨fun habort => htransition.aborted (h.told habort), ?_, ?_⟩
  · intro hopen habort
    by_contra hin
    have hin : view.pc.inDecide = true := by simpa using hin
    rcases htransition.inDecide hin with hsame | ⟨rfl, -⟩
    · have := h.idle hopen habort
      rw [hsame] at hin
      simp [this] at hin
    · have := h.told habort
      simp [abortsIdleView, this] at hmeets
  · intro hopen hdelivering
    have hin : view.pc.inDecide = true := by rw [hdelivering]; rfl
    rcases htransition.inDecide hin with hsame | ⟨-, decision, requests, hdeciding⟩
    · exact h.acknowledged hopen (hsame ▸ hdelivering)
    · exact absurd (hdelivering.symm.trans hdeciding) (by simp)

theorem boot_idle {entries : List SavedMessage} {checkpoint : Decision}
    (h : boot cfg entries checkpoint = .ok nd) :
    nd.controller.pc = .select ∧ nd.currView.pc = .select .run := by
  obtain ⟨md, start, leader, v, inFlight, -, -, -, hrestored, rfl⟩ := boot_ok h
  refine ⟨rfl, (v.catchUp_pc _ _ _).trans ?_⟩
  cases hrestored <;> rfl

theorem boot_invariant {entries : List SavedMessage} {checkpoint : Decision}
    (h : boot cfg entries checkpoint = .ok nd) : AbortInvariant nd := by
  obtain ⟨hpc, hview⟩ := boot_idle h
  exact .of_apart (by rw [hpc]; rfl) fun _ => by simp [hview]

theorem step_abortInvariant {input : NodeInput} (h : AbortInvariant nd)
    (hmeets : abortsIdleView cfg nd input = true) (hstep : nd.step cfg input = some nd') :
    AbortInvariant nd' := by
  obtain ⟨verifier, event⟩ := input
  obtain ⟨-, -, hsteps⟩ := step_steps hstep
  have hkept := fun hevent => h.of_keepsRunLoop (hsteps.keepsRunLoop hevent)
  cases hsteps with
  | view hview =>
    exact (viewSteps_invariant h hmeets (View.transition_of_step hview)).of_keepsRunLoop
      (applyOutputs_keepsRunLoop cfg _ _ _)
  | viewStopped hstopped =>
    have hclosed : nd.controller.stopped ≠ false := by simp [hstopped]
    exact ⟨h.told, fun hopen => absurd hopen hclosed, fun hopen => absurd hopen hclosed⟩
  | controller hsteps => exact controllerSteps_invariant h hmeets hsteps
  | stop => exact ⟨h.told, fun hopen => by simp at hopen, fun hopen => by simp at hopen⟩
  | down text => exact h.of_keepsRunLoop ⟨rfl, rfl, rfl, rfl, rfl⟩
  | restarted hboot => exact (boot_invariant hboot).of_keepsRunLoop ⟨rfl, rfl, rfl, rfl, rfl⟩
  | _ => exact hkept rfl

end Node

/--
A run in which the run loop aborts only views that are not in `Decide`, and in
which a view that was told to stop does not complete its commits, never reaches
a state where the run loop and the view wait for each other.
-/
theorem abort_never_deadlocks {cfg : Config} {entries : List SavedMessage}
    {checkpoint : Decision} {start nd : Node} {inputs : List NodeInput}
    (hboot : Node.boot cfg entries checkpoint = .ok start)
    (hmeets : StepsMeet (Node.step cfg) (fun nd input => abortsIdleView cfg nd input = true)
      start inputs)
    (hrun : run (Node.step cfg) start inputs = some nd) : ¬ nd.AbortDeadlock := by
  have hinv : AbortInvariant nd := run_invariant_of_steps_meet
    (fun _ _ _ => Node.step_abortInvariant) (Node.boot_invariant hboot) hmeets hrun
  rintro ⟨habort, hdecide, hopen⟩
  simp [hinv.idle hopen habort] at hdecide

def askToAbort : List NodeEvent :=
  [.complain 0 true, .viewChanger .startChange, .viewChanger .abortSent,
    .controller .abortView]

theorem abort_never_deadlocks_after_delivery :
    ∃ nd, run (Node.step (clusterOfFour 2)) (nodeOfFour 2) (accepting
        (decideFirst ++ deliverNext ++ askToAbort)) =
      some nd ∧ nd.controller.pc.inAbort = true ∧ ¬ nd.AbortDeadlock :=
  exists_of_isSome (by decide +kernel) fun hrun =>
    ⟨by decide +kernel, abort_never_deadlocks (boot_nodeOfFour 2) (by decide +kernel) hrun⟩

/-- The run loop takes the abort while the view offers its decision. -/
theorem abortDeadlock_reachable :
    Node.boot (clusterOfFour 2) [] {} = .ok (nodeOfFour 2) ∧
      ∃ nd, run (Node.step (clusterOfFour 2)) (nodeOfFour 2)
          (accepting (decideFirst ++ askToAbort)) = some nd ∧ nd.AbortDeadlock :=
  ⟨rfl, exists_of_any (by decide +kernel)⟩

/-! ## The deadlock lasts -/

theorem View.Transition.stays_inDecide {cfg : Config} {verifier : Verifier}
    {checkpoint : Decision} {v v' : View} {event : ViewEvent}
    {outputs : List ViewOutput}
    (h : Transition cfg verifier checkpoint v event v' outputs)
    (hin : v.pc.inDecide = true) : v'.pc = v.pc := by
  cases h with
  | queued | nothingToSend | otherPrepare | otherCommit => rfl
  | _ => simp_all [ViewPc.inDecide]

namespace Node

variable {cfg : Config} {verifier : Verifier} {nd nd' : Node}

theorem AbortDeadlock.of_keepsRunLoop (h : nd.AbortDeadlock)
    (hkeeps : KeepsRunLoop nd nd') : nd'.AbortDeadlock := by
  unfold AbortDeadlock
  rw [hkeeps.pc, hkeeps.currView, hkeeps.stopped]
  exact h

theorem AbortDeadlock.no_controllerSteps (h : nd.AbortDeadlock) {event : ControllerEvent} :
    ¬ControllerSteps cfg verifier nd event nd' := by
  obtain ⟨habort, hdecide, -⟩ := h
  obtain ⟨next, hpc⟩ : ∃ next, nd.controller.pc = .aborting next := by
    cases hpc : nd.controller.pc <;> simp [hpc, ControllerPc.inAbort] at habort
    exact ⟨_, rfl⟩
  intro hsteps
  cases hsteps with
  | aborted hended => simp [hended, ViewPc.inDecide] at hdecide
  | restarted hended => simp [hended, ViewPc.inDecide] at hdecide
  | exited hended => simp [hended, ViewPc.inDecide] at hdecide
  | _ => simp_all

theorem abortDeadlock_lasts {input : NodeInput} (h : nd.AbortDeadlock)
    (hstep : nd.step cfg input = some nd') (hstop : input.event ≠ .stop)
    (hcrash : input.event ≠ .crash) : nd'.AbortDeadlock := by
  obtain ⟨verifier, event⟩ := input
  obtain ⟨-, -, hsteps⟩ := step_steps hstep
  have hkept := fun hevent => h.of_keepsRunLoop (hsteps.keepsRunLoop hevent)
  cases hsteps with
  | @view _ view outputs hview =>
    have hpc := (View.transition_of_step hview).stays_inDecide h.2.1
    have hview : ({ nd with currView := view } : Node).AbortDeadlock :=
      ⟨h.1, by rw [hpc]; exact h.2.1, h.2.2⟩
    exact hview.of_keepsRunLoop (applyOutputs_keepsRunLoop cfg _ _ outputs)
  | viewStopped hstopped => simp [h.2.2] at hstopped
  | controller hsteps => exact absurd hsteps h.no_controllerSteps
  | stop => exact absurd rfl hstop
  | down => exact absurd rfl hcrash
  | restarted => exact absurd rfl hcrash
  | _ => exact hkept rfl

/-- Only a stop or a crash ends the deadlock: until then the run loop takes no step. -/
theorem abortDeadlock_until_stop {inputs : List NodeInput} (h : nd.AbortDeadlock)
    (hrun : run (step cfg) nd inputs = some nd')
    (hup : ∀ input ∈ inputs, input.event ≠ .stop ∧ input.event ≠ .crash) :
    nd'.AbortDeadlock ∧ ∀ input ∈ inputs, ∀ event, input.event ≠ .controller event := by
  induction inputs generalizing nd with
  | nil => exact ⟨Option.some.inj hrun ▸ h, by simp⟩
  | cons input inputs ih =>
    obtain ⟨next, hstep, hrest⟩ := run_cons hrun
    obtain ⟨⟨hstop, hcrash⟩, hup⟩ := List.forall_mem_cons.mp hup
    obtain ⟨hend, hidle⟩ := ih (abortDeadlock_lasts h hstep hstop hcrash) hrest hup
    refine ⟨hend, List.forall_mem_cons.mpr ⟨fun event hevent => ?_, hidle⟩⟩
    obtain ⟨-, -, hsteps⟩ := step_steps hstep
    rw [hevent] at hsteps
    cases hsteps with
    | controller hsteps => exact h.no_controllerSteps hsteps

end Node

theorem abortDeadlock_until_stop_of_sync :
    ∃ nd nd', run (Node.step (clusterOfFour 2)) (nodeOfFour 2)
        (accepting (decideFirst ++ askToAbort)) = some nd ∧ nd.AbortDeadlock ∧
      run (Node.step (clusterOfFour 2)) nd (accepting [.requestSync]) = some nd' ∧
      nd'.AbortDeadlock :=
  ⟨_, _, Option.eq_some_of_isSome (by decide +kernel), by decide +kernel,
    Option.eq_some_of_isSome (by decide +kernel), (Node.abortDeadlock_until_stop
      (by decide +kernel) (Option.eq_some_of_isSome _) (by simp [accepting])).1⟩

end SmartBFT
