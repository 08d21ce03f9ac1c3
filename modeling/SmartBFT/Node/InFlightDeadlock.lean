import SmartBFT.Node.RunLoop
import SmartBFT.Node.AbortDeadlock

/-!
# The view changer and its in-flight view wait for each other

`commitInFlightProposal` aborts its view when it returns, and waits for the
goroutine of the view to end.  That goroutine waits in `ViewChanger.Decide` to
send on `inFlightDecideChan`, or in `ViewChanger.Sync` to send on
`inFlightSyncChan`, and only the loop that was just left reads these channels.
If the loop is left by the timeout while the view is in one of these calls,
neither ever goes on (`inFlightDeadlock_reachable`).
-/

namespace SmartBFT

open SmartBFT.Foundation

def ViewPc.sending : ViewPc → Bool
  | .delivering => true
  | .syncing _ => true
  | _ => false

def ViewPc.calling (pc : ViewPc) : Bool := pc.inDecide || pc.sending

def ViewChangerPc.inAbort : ViewChangerPc → Bool
  | .abortInFlight _ _ => true
  | _ => false

theorem ViewChangerPc.inFlight_of_inAbort {pc : ViewChangerPc} (h : pc.inAbort = true) :
    pc.inFlight = true := by
  cases pc <;> simp_all [inAbort, inFlight]

/-- The view changer waits in `inFlightView.Abort` while the view waits to send. -/
def Node.InFlightDeadlock (nd : Node) : Prop :=
  nd.viewChanger.pc.inAbort = true ∧ (∃ view ∈ nd.inFlightView, view.pc.sending = true) ∧
    nd.viewChanger.stopped = false

instance (nd : Node) : Decidable nd.InFlightDeadlock :=
  inferInstanceAs (Decidable (_ ∧ _ ∧ _))

/-- After a timeout, the in-flight view is in none of the calls of the view
changer when `Abort` closes its `abortChan`, and an in-flight view that was told
to stop does not complete its commits.  The step of the timeout is the close of
the channel: the tick that ends the wait was taken before it, and the view may
have gone on in between. -/
def leavesIdleInFlight (nd : Node) (input : NodeInput) : Bool :=
  match input.event with
  | .inFlightView .finish => nd.inFlightView.all fun view => !view.aborted
  | .viewChanger .inFlightTimeout => nd.inFlightView.all fun view => !view.pc.calling
  | _ => true

def ViewPc.committing : ViewPc → Bool
  | .select .run => true
  | .select (.processCommits _) => true
  | .syncing .run => true
  | .syncing (.processCommits _) => true
  | .doPhase => true
  | .deciding _ _ => true
  | .delivering => true
  | _ => false

structure InFlightShape (v : View) : Prop where
  place : (v.phase = .prepared ∧ v.pc.committing = true) ∨
    (v.aborted = true ∧ (v.pc = .select .run ∨ v.pc = .ended))
  delivering : v.pc = .delivering → v.aborted = true

namespace View

variable {cfg : Config} {verifier : Verifier} {checkpoint : Decision} {v v' : View}
  {event : ViewEvent} {outputs : List ViewOutput}

theorem processMsg_aborted (cfg : Config) (h : v.aborted = true) (sender : Nat)
    (m : Message) : v.processMsg cfg sender m = (v, []) := by
  simp [processMsg, h]

theorem awaitSync_cases (v : View) (outputs : List ViewOutput) :
    Node.awaitSync v outputs = v ∨
      ∃ loop, v.pc = .select loop ∧ .sync ∈ outputs ∧
        Node.awaitSync v outputs = { v with pc := .syncing loop } := by
  unfold Node.awaitSync
  split
  · rename_i loop hpc
    split
    · rename_i hsync
      exact .inr ⟨loop, hpc, hsync, rfl⟩
    · exact .inl rfl
  · exact .inl rfl

theorem awaitSync_aborted (h : v.aborted = true) :
    (Node.awaitSync v outputs).aborted = true := by
  rcases awaitSync_cases v outputs with hsame | ⟨loop, -, -, hawait⟩
  · rw [hsame, h]
  · rw [hawait, h]

theorem Transition.inFlightShape (h : Transition cfg verifier checkpoint v event v' outputs)
    (hshape : InFlightShape v) : InFlightShape v' := by
  obtain ⟨hplace, hdelivering⟩ := hshape
  cases h with
  | queued => exact ⟨hplace, hdelivering⟩
  | ended hpc haborted => exact ⟨.inr ⟨haborted, .inr rfl⟩, by simp⟩
  | left hpc haborted => exact ⟨.inr ⟨haborted, .inl rfl⟩, by simp⟩
  | @received _ sender m rest hpc hqueue =>
    have hsame := processMsg_sameProgress cfg { v with incMsgs := rest } sender m
    refine ⟨?_, fun h => hsame.aborted (hdelivering (hsame.pc ▸ h))⟩
    rcases hplace with ⟨hphase, hcommitting⟩ | ⟨haborted, hplace⟩
    · exact .inl ⟨hsame.phase.trans hphase, by rw [hsame.pc]; exact hcommitting⟩
    · exact .inr ⟨hsame.aborted haborted, by rw [hsame.pc]; exact hplace⟩
  | default hpc hopen =>
    refine ⟨?_, by simp⟩
    rcases hplace with ⟨hphase, -⟩ | ⟨haborted, -⟩
    · exact .inl ⟨hphase, rfl⟩
    · simp [hopen] at haborted
  | sendPrepare hpc hphase =>
    rcases hplace with ⟨hprepared, -⟩ | ⟨-, hplace⟩
    · simp [hphase] at hprepared
    · simp [hpc] at hplace
  | sendCommit hpc hphase => exact ⟨.inl ⟨hphase, rfl⟩, by simp⟩
  | nothingToSend => exact ⟨hplace, hdelivering⟩
  | beginProposal hpc hphase =>
    rcases hplace with ⟨hprepared, -⟩ | ⟨-, hplace⟩
    · simp [hphase] at hprepared
    · simp [hpc] at hplace
  | idle hpc hphase =>
    rcases hplace with ⟨hprepared, -⟩ | ⟨-, hplace⟩
    · simp [hphase] at hprepared
    · simp [hpc] at hplace
  | otherCommit => exact ⟨hplace, hdelivering⟩
  | countedCommit hpc =>
    refine ⟨.inl ⟨?_, rfl⟩, by simp⟩
    rcases hplace with ⟨hprepared, -⟩ | ⟨-, hplace⟩
    · exact hprepared
    · simp [hpc] at hplace
  | decided hpc =>
    refine ⟨.inl ⟨?_, rfl⟩, by simp [View.decide]⟩
    rcases hplace with ⟨hprepared, -⟩ | ⟨-, hplace⟩
    · exact hprepared
    · simp [hpc] at hplace
  | _ => simp [*, ViewPc.committing] at hplace

theorem Transition.sync_received (h : Transition cfg verifier checkpoint v event v' outputs)
    (hshape : InFlightShape v) (hsync : .sync ∈ outputs) :
    v.aborted = false ∧ v'.phase = v.phase ∧ v'.pc = v.pc := by
  cases h with
  | @received _ sender m rest hpc hqueue =>
    have hsame := processMsg_sameProgress cfg { v with incMsgs := rest } sender m
    refine ⟨?_, hsame.phase, hsame.pc⟩
    by_contra haborted
    have haborted : ({ v with incMsgs := rest } : View).aborted = true := by
      simpa using haborted
    simp [processMsg_aborted cfg haborted] at hsync
  | rejected hpc | accepted hpc =>
    have hplace := hshape.place
    simp [hpc, ViewPc.committing] at hplace
  | _ => simp [finishPrepares, View.decide] at hsync

end View

theorem InFlightShape.stop {view : View} (h : InFlightShape view) :
    InFlightShape view.stop := by
  refine ⟨?_, fun _ => rfl⟩
  rcases h.place with hplace | ⟨-, hplace⟩
  · exact .inl hplace
  · exact .inr ⟨rfl, hplace⟩

theorem InFlightShape.decided {view : View} (h : InFlightShape view)
    (hpc : view.pc = .delivering) : InFlightShape view.decided :=
  ⟨.inr ⟨h.delivering hpc, .inl rfl⟩, by simp [View.decided]⟩

theorem InFlightShape.taken {view : View} {decision : Decision} {requests : List RequestInfo}
    (h : InFlightShape view) (hpc : view.pc = .deciding decision requests) :
    InFlightShape { view.stop with pc := .delivering } := by
  refine ⟨.inl ⟨?_, rfl⟩, fun _ => rfl⟩
  rcases h.place with ⟨hphase, -⟩ | ⟨-, hplace⟩
  · exact hphase
  · simp [hpc] at hplace

theorem InFlightShape.synced {view : View} {loop : ViewLoop} (h : InFlightShape view)
    (hpc : view.pc = .syncing loop) : InFlightShape { view with pc := .select loop } := by
  refine ⟨.inl ?_, by simp⟩
  rcases h.place with ⟨hphase, hcommitting⟩ | ⟨-, hplace⟩
  · refine ⟨hphase, ?_⟩
    rw [hpc] at hcommitting
    cases loop <;> simp_all [ViewPc.committing]
  · simp [hpc] at hplace

theorem InFlightShape.step {cfg : Config} {verifier : Verifier} {checkpoint : Decision}
    {v v' : View} {event : ViewEvent} {outputs : List ViewOutput} (h : InFlightShape v)
    (htransition : View.Transition cfg verifier checkpoint v event v' outputs) :
    InFlightShape (Node.awaitSync v' outputs) := by
  rcases View.awaitSync_cases v' outputs with hsame | ⟨loop, hpc, hsync, hawait⟩
  · rw [hsame]
    exact htransition.inFlightShape h
  · obtain ⟨hopen, hphase, hpc'⟩ := htransition.sync_received h hsync
    rw [hawait]
    refine ⟨?_, by simp⟩
    rcases h.place with ⟨hprepared, hcommitting⟩ | ⟨haborted, -⟩
    · refine .inl ⟨hphase.trans hprepared, ?_⟩
      rw [← hpc', hpc] at hcommitting
      cases loop <;> simp_all [ViewPc.committing]
    · simp [hopen] at haborted

theorem InFlightShape.stays_idle {cfg : Config} {verifier : Verifier}
    {checkpoint : Decision} {v v' : View} {event : ViewEvent} {outputs : List ViewOutput}
    (h : InFlightShape v)
    (htransition : View.Transition cfg verifier checkpoint v event v' outputs)
    (haborted : v.aborted = true) (hidle : v.pc.calling = false) (hfinish : event ≠ .finish) :
    (Node.awaitSync v' outputs).aborted = true ∧
      (Node.awaitSync v' outputs).pc.calling = false := by
  rcases View.awaitSync_cases v' outputs with hsame | ⟨loop, hpc, hsync, hawait⟩
  · rw [hsame]
    refine ⟨htransition.aborted haborted, ?_⟩
    by_contra hcalling
    have hcalling : v'.pc.calling = true := by simpa using hcalling
    have hpc : v'.pc = v.pc := by
      cases htransition with
      | received hpc hqueue => exact (View.processMsg_sameProgress cfg _ _ _).pc
      | panicked => rfl
      | decided => exact absurd rfl hfinish
      | queued => rfl
      | nothingToSend => rfl
      | otherPrepare => rfl
      | otherCommit => rfl
      | _ => simp [ViewPc.calling, ViewPc.inDecide, ViewPc.sending, View.beginProposal,
          View.rejectProposal, View.acceptProposal, View.finishPrepares] at hcalling
    simp [hpc, hidle] at hcalling
  · have := (htransition.sync_received h hsync).1
    simp [this] at haborted

structure KeepsInFlight (nd nd' : Node) : Prop where
  view : nd'.inFlightView = nd.inFlightView
  pc : nd'.viewChanger.pc.inFlight = true → nd'.viewChanger.pc = nd.viewChanger.pc ∧
    nd'.viewChanger.currView = nd.viewChanger.currView
  stopped : nd'.viewChanger.stopped = false → nd.viewChanger.stopped = false

namespace KeepsInFlight

variable {a b c : Node}

theorem of_viewChanger (hview : b.inFlightView = a.inFlightView)
    (hviewChanger : b.viewChanger = a.viewChanger) : KeepsInFlight a b :=
  ⟨hview, fun _ => by simp [hviewChanger], by simp [hviewChanger]⟩

theorem trans (hab : KeepsInFlight a b) (hbc : KeepsInFlight b c) : KeepsInFlight a c where
  view := hbc.view.trans hab.view
  pc hc := by
    obtain ⟨hpc, hview⟩ := hbc.pc hc
    obtain ⟨hpc', hview'⟩ := hab.pc (hpc ▸ hc)
    exact ⟨hpc.trans hpc', hview.trans hview'⟩
  stopped h := hab.stopped (hbc.stopped h)

theorem inAbort (h : KeepsInFlight a b) (habort : b.viewChanger.pc.inAbort = true) :
    a.viewChanger.pc.inAbort = true := by
  obtain ⟨hpc, -⟩ := h.pc (ViewChangerPc.inFlight_of_inAbort habort)
  rwa [← hpc]

end KeepsInFlight

namespace Node

variable {cfg : Config} {verifier : Verifier} {nd nd' : Node}

theorem save_keepsInFlight (nd : Node) (m : SavedMessage) :
    KeepsInFlight nd (nd.save m) := by
  rcases save_cases nd m with ⟨text, h⟩ | ⟨persisted, -, h⟩ <;> rw [h] <;>
    exact .of_viewChanger rfl rfl

theorem deliver_keepsInFlight (nd : Node) (decision : Decision) (answer : DeliverAnswer) :
    KeepsInFlight nd (nd.deliver decision answer) := by
  rcases deliver_cases nd decision answer with ⟨text, h⟩ | h | h <;> rw [h] <;>
    exact .of_viewChanger rfl rfl

theorem sync_keepsInFlight (nd : Node) : KeepsInFlight nd (nd.sync cfg) := by
  unfold sync
  split <;> exact .of_viewChanger rfl rfl

theorem startViewChange_keepsInFlight (nd : Node) (view : Nat) (stopView : Bool) :
    KeepsInFlight nd (nd.startViewChange view stopView) := by
  unfold startViewChange
  split <;> exact ⟨rfl, fun _ => ⟨rfl, rfl⟩, id⟩

theorem viewChangerOp_keepsInFlight {settled voting : Bool}
    (h : ViewChangerOp cfg verifier settled voting nd nd') :
    KeepsInFlight nd nd' := by
  cases h with
  | own vc hpc hstopped hviews =>
    refine ⟨rfl, fun hinFlight => ?_, hstopped⟩
    rcases hpc with hplain | hsame
    · rw [ViewChangerPc.inFlight_of_plain hplain] at hinFlight
      simp at hinFlight
    · exact ⟨hsame, hviews.currView⟩
  | saveViewChange => exact save_keepsInFlight nd _
  | saveNewView => exact save_keepsInFlight nd _
  | askAbort => exact ⟨rfl, by simp [askAbortView, setViewChanger, ViewChangerPc.inFlight], id⟩
  | enter =>
    exact ⟨rfl, by simp [enterNextView, beginViewData, setViewChanger, ViewChangerPc.inFlight], id⟩
  | inform _ hpc => exact ⟨rfl, by simp [hpc, ViewChangerPc.inFlight], id⟩
  | install => exact ⟨rfl, by simp [ViewChangerPc.inFlight], id⟩
  | beginDeliver => exact ⟨rfl, by simp [setViewChanger, ViewChangerPc.inFlight], id⟩
  | _ => exact ⟨rfl, fun _ => ⟨rfl, rfl⟩, id⟩

theorem viewChangerEffect_keepsInFlight {settled voting : Bool}
    (h : ViewChangerEffect cfg verifier settled voting nd nd') :
    KeepsInFlight nd nd' := by
  induction h with
  | refl => exact .of_viewChanger rfl rfl
  | tail _ hop ih => exact ih.trans (viewChangerOp_keepsInFlight hop)

theorem runLoopEffect_keepsInFlight (h : RunLoopEffect nd nd') : KeepsInFlight nd nd' := by
  induction h with
  | refl => exact .of_viewChanger rfl rfl
  | tail _ hop ih =>
    refine ih.trans ?_
    cases hop with
    | saveNewView md => exact save_keepsInFlight _ _
    | _ => exact ⟨rfl, fun _ => ⟨rfl, rfl⟩, id⟩

theorem ControllerSteps.keepsInFlight {event : ControllerEvent}
    (h : ControllerSteps cfg verifier nd event nd') : KeepsInFlight nd nd' := by
  cases h.transition with
  | effect _ h => exact runLoopEffect_keepsInFlight h
  | @decide decision _ answer c hview => exact { deliver_keepsInFlight nd decision answer with }
  | ack _ h => exact { runLoopEffect_keepsInFlight h with }
  | proposed => exact .of_viewChanger rfl rfl
  | sync response reconfig _ h =>
    have := runLoopEffect_keepsInFlight h
    exact ⟨this.view, this.pc, fun h => (Bool.or_eq_false_iff.mp (this.stopped h)).1⟩
  | restarted _ _ h => exact { runLoopEffect_keepsInFlight h with }

theorem applyOutput_keepsInFlight (cfg : Config) (nd : Node) (origin : Origin)
    (output : ViewOutput) : KeepsInFlight nd (nd.applyOutput cfg origin output) := by
  cases output with
  | save m => exact save_keepsInFlight nd m
  | complain viewNum stopView =>
    simp only [applyOutput, complain]
    split
    · exact .of_viewChanger rfl rfl
    · exact startViewChange_keepsInFlight nd viewNum stopView
  | sync => exact sync_keepsInFlight nd
  | _ => exact .of_viewChanger rfl rfl

theorem applyOutputs_keepsInFlight (cfg : Config) (nd : Node) (origin : Origin)
    (outputs : List ViewOutput) : KeepsInFlight nd (nd.applyOutputs cfg origin outputs) :=
  applyOutputs_induction cfg origin
    (fun output _ mid hmid => hmid.trans (applyOutput_keepsInFlight cfg mid origin output))
    (.of_viewChanger rfl rfl)

end Node

structure InFlightInvariant (nd : Node) : Prop where
  shape : ∀ view ∈ nd.inFlightView, InFlightShape view
  told : nd.viewChanger.pc.inAbort = true → ∀ view ∈ nd.inFlightView, view.aborted = true
  idle : nd.viewChanger.pc.inAbort = true → nd.viewChanger.stopped = false →
    ∀ view ∈ nd.inFlightView, view.pc.calling = false

theorem InFlightInvariant.of_keepsInFlight {nd nd' : Node} (h : InFlightInvariant nd)
    (hkeeps : KeepsInFlight nd nd') : InFlightInvariant nd' := by
  constructor
  · rw [hkeeps.view]
    exact h.shape
  · rw [hkeeps.view]
    exact fun habort => h.told (hkeeps.inAbort habort)
  · rw [hkeeps.view]
    exact fun habort hopen => h.idle (hkeeps.inAbort habort) (hkeeps.stopped hopen)

theorem InFlightInvariant.of_view {nd : Node} {view : View} (hview : nd.inFlightView = some view)
    (hshape : InFlightShape view)
    (htold : nd.viewChanger.pc.inAbort = true → view.aborted = true)
    (hidle : nd.viewChanger.pc.inAbort = true → nd.viewChanger.stopped = false →
      view.pc.calling = false) : InFlightInvariant nd := by
  constructor <;> rw [hview]
  · simpa using hshape
  · simpa using htold
  · simpa using hidle

namespace Node

variable {cfg : Config} {verifier : Verifier} {nd nd' : Node}

theorem newInFlightView_shape (cfg : Config) (proposal : Proposal) (md : ViewMetadata) :
    InFlightShape (newInFlightView cfg proposal md) :=
  ⟨.inl ⟨rfl, rfl⟩, by simp [newInFlightView]⟩

theorem leaveInFlight_invariant (success own : Bool)
    (hshape : ∀ view ∈ nd.inFlightView, InFlightShape view)
    (hidle : nd.viewChanger.stopped = false →
      ∀ view ∈ nd.inFlightView, view.pc.calling = false) :
    InFlightInvariant (nd.leaveInFlight success own) := by
  refine ⟨?_, ?_, ?_⟩
  · intro view hview
    obtain ⟨v, hv, rfl⟩ := Option.mem_map.mp hview
    exact (hshape v hv).stop
  · intro _ view hview
    obtain ⟨v, -, rfl⟩ := Option.mem_map.mp hview
    rfl
  · intro _ hopen view hview
    obtain ⟨v, hv, rfl⟩ := Option.mem_map.mp hview
    exact hidle hopen v hv

theorem timedOut_keepsInFlight (cfg : Config) (nd : Node) :
    KeepsInFlight nd (nd.timedOut cfg) := by
  have hwatch : KeepsInFlight nd { nd with viewChanger :=
    { nd.viewChanger with checkTimeout := false } } := ⟨rfl, fun _ => ⟨rfl, rfl⟩, id⟩
  exact (hwatch.trans (sync_keepsInFlight _)).trans (startViewChange_keepsInFlight _ _ _)

theorem viewChangerStep_inFlightInvariant {event : ViewChangerEvent}
    (h : InFlightInvariant nd)
    (hmeets : leavesIdleInFlight nd ⟨verifier, .viewChanger event⟩ = true)
    (hstep : nd.viewChangerStep cfg verifier event = some nd') : InFlightInvariant nd' := by
  cases viewChangerStep_transition hstep with
  | effect _ heffect => exact h.of_keepsInFlight (viewChangerEffect_keepsInFlight heffect)
  | newView hsettled own =>
    exact h.of_keepsInFlight (viewChangerEffect_keepsInFlight (hsettled.effect own))
  | viewData hpc heffect =>
    have hbuilt := viewChangerEffect_keepsInFlight heffect
    exact h.of_keepsInFlight { hbuilt with }
  | delivered answer _ heffect =>
    exact h.of_keepsInFlight ((deliver_keepsInFlight nd _ answer).trans
      (viewChangerEffect_keepsInFlight heffect))
  | read => exact h.of_keepsInFlight ⟨rfl, by simp [setViewChanger, ViewChangerPc.inFlight], id⟩
  | beginCommit => exact ⟨h.shape, by simp [setViewChanger, ViewChangerPc.inAbort],
      by simp [setViewChanger, ViewChangerPc.inAbort]⟩
  | @startInFlight signed proposal own md hpc hplan =>
    refine .of_view rfl (newInFlightView_shape cfg proposal md) ?_ ?_ <;>
      simp [setViewChanger, ViewChangerPc.inAbort]
  | @decided own view hpc hview hdelivering =>
    refine .of_view rfl ((h.shape view hview).decided hdelivering).stop (fun _ => rfl) ?_
    exact fun _ _ => rfl
  | @synced own view loop hpc hview hsyncing =>
    refine .of_view rfl ((h.shape view hview).synced hsyncing).stop (fun _ => rfl) ?_
    exact fun _ _ => rfl
  | timeout hpc =>
    have hkeeps := timedOut_keepsInFlight cfg nd
    refine leaveInFlight_invariant false _ ?_ ?_
    · rw [hkeeps.view]
      exact h.shape
    · rw [hkeeps.view]
      intro _ view hview
      simpa [leavesIdleInFlight, Option.mem_def.mp hview] using hmeets
  | stop hpc hstopped =>
    refine leaveInFlight_invariant false _ h.shape fun hopen => ?_
    simp [hstopped] at hopen

theorem inFlightView_invariant {event : ViewEvent} {view view' : View}
    {outputs : List ViewOutput} (h : InFlightInvariant nd)
    (hmeets : leavesIdleInFlight nd ⟨verifier, .inFlightView event⟩ = true)
    (hview : nd.inFlightView = some view)
    (htransition : View.Transition cfg verifier nd.checkpoint view event view' outputs) :
    InFlightInvariant { nd with inFlightView := some (awaitSync view' outputs) } := by
  have hshape := h.shape view hview
  refine .of_view rfl (hshape.step htransition) (fun habort => ?_) (fun habort hopen => ?_)
  · exact View.awaitSync_aborted (htransition.aborted (h.told habort view hview))
  · have haborted := h.told habort view hview
    refine (hshape.stays_idle htransition haborted (h.idle habort hopen view hview) ?_).2
    rintro rfl
    simp [leavesIdleInFlight, hview, haborted] at hmeets

theorem inFlightDeliver_invariant {view : View} {decision : Decision}
    {requests : List RequestInfo} {answer : DeliverAnswer} (h : InFlightInvariant nd)
    (hview : nd.inFlightView = some view)
    (hpc : view.pc = .deciding decision requests) :
    InFlightInvariant { nd.deliver decision answer with
      inFlightView := some { view.stop with pc := .delivering }
      viewChanger := { (nd.deliver decision answer).viewChanger with
        stopped := (nd.deliver decision answer).viewChanger.stopped || answer.reconfig } } := by
  have hkeeps := deliver_keepsInFlight nd decision answer
  refine .of_view rfl ((h.shape view hview).taken hpc) (fun _ => rfl) fun habort hopen => ?_
  have hidle := h.idle (hkeeps.inAbort habort)
    (hkeeps.stopped (Bool.or_eq_false_iff.mp hopen).1) view hview
  simp [hpc, ViewPc.calling, ViewPc.inDecide] at hidle

theorem inFlightStopped_invariant {view : View} (h : InFlightInvariant nd)
    (hstopped : nd.viewChanger.stopped = true)
    (hview : nd.inFlightView = some view) (hpc : view.pc = .delivering) :
    InFlightInvariant { nd with inFlightView := some view.decided } := by
  have hshape := h.shape view hview
  refine .of_view rfl (hshape.decided hpc) (fun _ => hshape.delivering hpc) fun _ hopen => ?_
  simp [hstopped] at hopen

theorem boot_inFlightInvariant {entries : List SavedMessage} {checkpoint : Decision}
    (h : boot cfg entries checkpoint = .ok nd) : InFlightInvariant nd := by
  obtain ⟨md, start, leader, v, inFlight, -, -, -, -, rfl⟩ := boot_ok h
  exact ⟨by simp [started], by simp [started], by simp [started]⟩

theorem step_inFlightInvariant {input : NodeInput} (h : InFlightInvariant nd)
    (hmeets : leavesIdleInFlight nd input = true) (hstep : nd.step cfg input = some nd') :
    InFlightInvariant nd' := by
  obtain ⟨verifier, event⟩ := input
  obtain ⟨-, -, hsteps⟩ := step_steps hstep
  cases hsteps with
  | @view _ view outputs =>
    have hview : KeepsInFlight nd { nd with currView := view } := .of_viewChanger rfl rfl
    exact h.of_keepsInFlight (hview.trans (applyOutputs_keepsInFlight cfg _ _ outputs))
  | viewStopped => exact h.of_keepsInFlight (.of_viewChanger rfl rfl)
  | inFlightView hview hmoved =>
    exact (inFlightView_invariant h hmeets hview (View.transition_of_step hmoved)).of_keepsInFlight
      (applyOutputs_keepsInFlight cfg _ .inFlightView _)
  | inFlightDeliver answer hview hpc => exact inFlightDeliver_invariant h hview hpc
  | inFlightStopped hstopped hview hpc => exact inFlightStopped_invariant h hstopped hview hpc
  | controller hsteps => exact h.of_keepsInFlight hsteps.keepsInFlight
  | viewChanger hmoved => exact viewChangerStep_inFlightInvariant h hmeets hmoved
  | requestSync => exact h.of_keepsInFlight (sync_keepsInFlight nd)
  | complain viewNum stopView =>
    exact h.of_keepsInFlight (startViewChange_keepsInFlight nd viewNum stopView)
  | stop => exact h.of_keepsInFlight ⟨rfl, fun _ => ⟨rfl, rfl⟩, by simp⟩
  | down text => exact h.of_keepsInFlight (.of_viewChanger rfl rfl)
  | restarted hboot =>
    exact (boot_inFlightInvariant hboot).of_keepsInFlight (.of_viewChanger rfl rfl)

end Node

/--
A run in which the timeout ends the wait for an in-flight view only while this
view is in no call of the view changer, and in which an in-flight view that was
told to stop does not complete its commits, never reaches a state where the view
changer and its in-flight view wait for each other.
-/
theorem inFlight_never_deadlocks {cfg : Config} {entries : List SavedMessage}
    {checkpoint : Decision} {start nd : Node} {inputs : List NodeInput}
    (hboot : Node.boot cfg entries checkpoint = .ok start)
    (hmeets : StepsMeet (Node.step cfg) (fun nd input => leavesIdleInFlight nd input = true)
      start inputs)
    (hrun : run (Node.step cfg) start inputs = some nd) : ¬ nd.InFlightDeadlock := by
  have hinv : InFlightInvariant nd := run_invariant_of_steps_meet
    (fun _ _ _ => Node.step_inFlightInvariant) (Node.boot_inFlightInvariant hboot) hmeets hrun
  rintro ⟨habort, ⟨view, hview, hsending⟩, hopen⟩
  have := hinv.idle habort hopen view hview
  simp [ViewPc.calling, hsending] at this

def inFlightViewData (proposal : Proposal) : ViewData where
  nextView := 1
  lastDecision := some {}
  inFlightProposal := some proposal
  inFlightPrepared := true

/-- The leader of view `1` sends a new view with this in-flight proposal, and the
view changer starts a view for it. -/
def startInFlight (proposal : Proposal) : List NodeEvent :=
  let entry (signer : Nat) : SignedViewData :=
    ⟨.marshal (inFlightViewData proposal), signer, []⟩
  [.viewChanger (.msg 2 (.newView [entry 1, entry 2, entry 4])), .viewChanger .validate,
    .viewChanger .commitInFlight]

def decideInFlight : List NodeEvent :=
  let commit (signer : Nat) : Message := .commit {
    view := 0, seq := 1, digest := "seven", signature := some { signer := signer } }
  let receive (signer : Nat) : List NodeEvent :=
    [.inFlightView (.handleMessage signer (commit signer)), .inFlightView .recv,
      .inFlightView (.commitVote 0)]
  [.inFlightView .default, .inFlightView .doPhase] ++ receive 1 ++ receive 2 ++
    [.inFlightView .finish, .inFlightDeliver {}]

theorem inFlight_never_deadlocks_after_decision :
    ∃ nd, run (Node.step (clusterOfFour 3)) (nodeOfFour 3) (accepting (joinViewOne ++
        startInFlight (firstProposal [7]) ++ decideInFlight ++
        [.viewChanger .inFlightDecided])) = some nd ∧
      nd.viewChanger.pc.inAbort = true ∧ ¬ nd.InFlightDeadlock :=
  exists_of_isSome (by decide +kernel) fun hrun =>
    ⟨by decide +kernel, inFlight_never_deadlocks (boot_nodeOfFour 3) (by decide +kernel) hrun⟩

/-- The timeout ends the wait while the in-flight view reports its decision. -/
theorem inFlightDeadlock_reachable :
    Node.boot (clusterOfFour 3) [] {} = .ok (nodeOfFour 3) ∧
      ∃ nd, run (Node.step (clusterOfFour 3)) (nodeOfFour 3) (accepting (joinViewOne ++
          startInFlight (firstProposal [7]) ++ decideInFlight ++
          [.viewChanger .inFlightTimeout])) = some nd ∧ nd.InFlightDeadlock :=
  ⟨rfl, exists_of_any (by decide +kernel)⟩

end SmartBFT
