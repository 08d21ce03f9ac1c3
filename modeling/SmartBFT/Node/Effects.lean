import Mathlib.Logic.Relation
import SmartBFT.Node.Cases

/-!
# What a goroutine can do to the rest of the node

A step of the view changer is a sequence of a few elementary operations
(`ViewChangerOp`), and the effects of a view on its node are another such
sequence (`ViewOp`).  Each is established once, by following the code; what
leaves a part of the node alone is then read off the operations.
-/

namespace SmartBFT

open Relation

/-! ## The part of the node that the run loop of the controller owns -/

structure KeepsRunLoop (nd nd' : Node) : Prop where
  currView : nd'.currView = nd.currView
  pc : nd'.controller.pc = nd.controller.pc
  stopped : nd'.controller.stopped = nd.controller.stopped
  currViewNumber : nd'.controller.currViewNumber = nd.controller.currViewNumber
  currDecisionsInView :
    nd'.controller.currDecisionsInView = nd.controller.currDecisionsInView

namespace KeepsRunLoop

theorem refl (nd : Node) : KeepsRunLoop nd nd := ⟨rfl, rfl, rfl, rfl, rfl⟩

theorem trans {a b c : Node} (hab : KeepsRunLoop a b) (hbc : KeepsRunLoop b c) :
    KeepsRunLoop a c where
  currView := hbc.currView.trans hab.currView
  pc := hbc.pc.trans hab.pc
  stopped := hbc.stopped.trans hab.stopped
  currViewNumber := hbc.currViewNumber.trans hab.currViewNumber
  currDecisionsInView := hbc.currDecisionsInView.trans hab.currDecisionsInView

end KeepsRunLoop

inductive ViewChangerAction : Action → Prop where
  | viewChange (view : Nat) :
      ViewChangerAction (.broadcast .viewChanger (.viewChange view))
  | newView (signed : List SignedViewData) :
      ViewChangerAction (.broadcast .viewChanger (.newView signed))
  | sendViewData (target : Nat) (svd : SignedViewData) :
      ViewChangerAction (.send target (.viewData svd))

def ViewChangerEvent.voting : ViewChangerEvent → Bool
  | .startChange => true
  | .msg _ (.viewChange _) => true
  | .inform => true
  | .restore => true
  | .abortSent => true
  | _ => false

def ViewChangerPc.plain : ViewChangerPc → Bool
  | .sendAbort _ _ => false
  | .readPrepared _ _ _ => false
  | .deliver _ _ => false
  | .commitInFlight _ _ _ => false
  | .waitInFlight _ => false
  | .abortInFlight _ _ => false
  | .sendViewChanged _ _ _ => false
  | _ => true

def ViewChangerPc.inFlight : ViewChangerPc → Bool
  | .commitInFlight _ _ _ => true
  | .waitInFlight _ => true
  | .abortInFlight _ _ => true
  | _ => false

theorem ViewChangerPc.inFlight_of_plain {pc : ViewChangerPc} (h : pc.plain = true) :
    pc.inFlight = false := by
  cases pc <;> simp_all [plain, inFlight]

def ViewChangerPc.sending : ViewChangerPc → Bool
  | .sendAbort _ _ => true
  | .sendViewChanged _ _ _ => true
  | _ => false

/-- The view changer is not about to send anything to the run loop, or has just sent it. -/
def Node.Awake (nd : Node) : Prop :=
  nd.viewChanger.pc.sending = true →
    nd.controller.abortViewChan.isSome = true ∨ nd.controller.viewChange.isSome = true

theorem Node.awake_of_pc {nd : Node} (h : nd.viewChanger.pc.sending = false) : nd.Awake := by
  simp [Node.Awake, h]

structure ViewChanger.SameViews (vc vc' : ViewChanger) : Prop where
  realView : vc'.realView = vc.realView
  currView : vc'.currView = vc.currView
  nextView : vc'.nextView = vc.nextView

structure Node.Checked (cfg : Config) (verifier : Verifier) (nd : Node)
    (signed : List SignedViewData) (result : CheckInFlightResult) : Prop where
  valid : validateNewViewMsg verifier nd.viewChanger.currView cfg.quorum nd.checkpoint
    signed = .ok .valid
  checked : ∃ checkpoint messages,
    checkNewView cfg.f cfg.quorum nd.checkpoint signed = .act checkpoint messages result

/-- Why a new view may be saved: nothing is in flight, the in-flight proposal is
decided already, or it was committed in a view of its own. -/
inductive Node.Settled (cfg : Config) (verifier : Verifier) (nd : Node) :
    ViewChangerEvent → Prop where
  | noInFlight {signed : List SignedViewData} {own : Bool} {result : CheckInFlightResult}
      (hpc : nd.viewChanger.pc = .validate signed own)
      (hchecked : nd.Checked cfg verifier signed result) (hnone : result.noInFlight = true) :
      Settled cfg verifier nd .validate
  | decided {signed : List SignedViewData} {proposal : Proposal} {own : Bool}
      (hpc : nd.viewChanger.pc = .commitInFlight signed (some proposal) own)
      (hplan : Node.planInFlight nd.checkpoint proposal = .decided) :
      Settled cfg verifier nd .commitInFlight
  | committed {own : Bool} (hpc : nd.viewChanger.pc = .abortInFlight true own) :
      Settled cfg verifier nd .inFlightEnded

theorem Node.Settled.awake {cfg : Config} {verifier : Verifier} {nd : Node}
    {event : ViewChangerEvent} (h : nd.Settled cfg verifier event) : nd.Awake := by
  cases h with
  | noInFlight hpc | decided hpc | committed hpc => exact Node.awake_of_pc (hpc ▸ rfl)

/-- The elementary operations of the view changer.  What it is about to deliver
has passed `ValidateLastDecision` and follows the decision of some node. -/
inductive ViewChangerOp (cfg : Config) (verifier : Verifier) (settled voting : Bool) :
    Node → Node → Prop where
  | own (nd : Node) (vc : ViewChanger)
      (hpc : vc.pc.plain = true ∨ vc.pc = nd.viewChanger.pc)
      (hstopped : vc.stopped = false → nd.viewChanger.stopped = false)
      (hviews : nd.viewChanger.SameViews vc)
      (hvotes : voting = true ∨ vc.viewChangeMsgs = nd.viewChanger.viewChangeMsgs)
      (hawake : vc.pc = nd.viewChanger.pc ∨ nd.Awake) :
      ViewChangerOp cfg verifier settled voting nd { nd with viewChanger := vc }
  | askAbort (nd : Node) (hvoting : voting = true) (hawake : nd.Awake) (next : AbortViewThen) :
      ViewChangerOp cfg verifier settled voting nd (nd.askAbortView next)
  | sentAbort (nd : Node) (hvoting : voting = true) (view : Nat) :
      ViewChangerOp cfg verifier settled voting nd { nd with
        controller := { nd.controller with abortViewChan := some view } }
  | join (nd : Node) (hvoting : voting = true) :
      ViewChangerOp cfg verifier settled voting nd { nd with viewChanger := { nd.viewChanger with
        nextView := nd.viewChanger.currView + 1 } }
  | enter (nd : Node) (hvoting : voting = true) (hawake : nd.Awake) :
      ViewChangerOp cfg verifier settled voting nd nd.enterNextView
  | inform (nd : Node) {view : Nat} (hvoting : voting = true) (hpc : nd.viewChanger.pc = .select)
      (hview : nd.viewChanger.currView ≤ view) :
      ViewChangerOp cfg verifier settled voting nd { nd with viewChanger := { nd.viewChanger with
        currView := view
        realView := view
        nextView := view
        nvs := {}
        viewChangeMsgs := {}
        viewDataMsgs := {}
        checkTimeout := false } }
  | install (nd : Node) {mySequence : Nat} (hsettled : settled = true) (hawake : nd.Awake)
      (hsequence : extractCurrentSequence nd.checkpoint = .ok mySequence) (own : Bool)
      {closed : Bool} (hclosed : nd.controller.batcherClosed = true → closed = true) :
      ViewChangerOp cfg verifier settled voting nd { nd with
        controller := { nd.controller with batcherClosed := closed }
        viewChanger := { nd.viewChanger with
          realView := nd.viewChanger.currView
          nvs := {}
          pc := .sendViewChanged nd.viewChanger.currView (mySequence + 1) own } }
  | announce (nd : Node) {view seq : Nat} {own : Bool}
      (hpc : nd.viewChanger.pc = .sendViewChanged view seq own) :
      ViewChangerOp cfg verifier settled voting nd { nd with
        controller := { nd.controller with viewChange := some ⟨view, seq⟩ } }
  | record (nd : Node) {action : Action} (h : ViewChangerAction action) :
      ViewChangerOp cfg verifier settled voting nd (nd.record action)
  | saveViewChange (nd : Node) (hvoting : voting = true) (view : Nat) :
      ViewChangerOp cfg verifier settled voting nd (nd.save (.viewChange view))
  | saveNewView (nd : Node) {mySequence : Nat} (hsettled : settled = true)
      (hsequence : extractCurrentSequence nd.checkpoint = .ok mySequence) :
      ViewChangerOp cfg verifier settled voting nd (nd.save (.newView {
        viewId := nd.viewChanger.currView, latestSequence := mySequence }))
  | beginDeliver (nd : Node) {decision : Decision}
      (hvalid : decision.Validated cfg.quorum fun sig p => verifier.accepts sig p = true)
      (hpositive : decision.proposal.Positive) (hawake : nd.Awake) (purpose : DeliverFor) :
      ViewChangerOp cfg verifier settled voting nd (nd.setViewChanger (.deliver decision purpose))
  | sync (nd : Node) {closed : Bool}
      (hclosed : nd.controller.batcherClosed = true → closed = true) :
      ViewChangerOp cfg verifier settled voting nd { nd with controller := { nd.controller with
        batcherClosed := closed, syncChan := true } }
  | panic (nd : Node) (text : String) :
      ViewChangerOp cfg verifier settled voting nd (nd.panic text)

abbrev ViewChangerEffect (cfg : Config) (verifier : Verifier) (settled voting : Bool) :=
  ReflTransGen (ViewChangerOp cfg verifier settled voting)

namespace Node

variable {cfg : Config} {verifier : Verifier} {settled voting : Bool} {a b nd nd' : Node}

theorem effect_setViewChanger (h : ViewChangerEffect cfg verifier settled voting a b)
    (hawake : b.Awake) {pc : ViewChangerPc} (hpc : pc.plain = true) :
    ViewChangerEffect cfg verifier settled voting a (b.setViewChanger pc) :=
  h.tail (.own b _ (.inl hpc) id ⟨rfl, rfl, rfl⟩ (.inr rfl) (.inr hawake))

theorem effect_own (h : ViewChangerEffect cfg verifier settled voting a b)
    {viewDataMsgs : VoteSet SignedViewData} {nvs : NextViews} {startChangeChan : List Change}
    {informChan : Option Nat} {committedDuringViewChange : Option ViewMetadata}
    {checkTimeout restore : Bool} :
    ViewChangerEffect cfg verifier settled voting a { b with viewChanger := { b.viewChanger with
      viewDataMsgs, nvs, startChangeChan, informChan, checkTimeout, committedDuringViewChange,
      restore } } :=
  h.tail (.own b _ (.inr rfl) id ⟨rfl, rfl, rfl⟩ (.inr rfl) (.inl rfl))

theorem effect_panic (h : ViewChangerEffect cfg verifier settled voting a b) (text : String) :
    ViewChangerEffect cfg verifier settled voting a (b.panic text) :=
  h.tail (.panic b text)

theorem effect_sync (h : ViewChangerEffect cfg verifier settled voting a b) :
    ViewChangerEffect cfg verifier settled voting a (b.sync cfg) := by
  unfold sync
  split
  · exact h.tail (.sync b fun _ => rfl)
  · exact h.tail (.sync b id)

theorem Awake.sync (h : nd.Awake) : (nd.sync cfg).Awake := by
  unfold Node.sync
  split <;> exact h

theorem effect_startViewChange (h : ViewChangerEffect cfg verifier settled voting a b) (view : Nat)
    (stopView : Bool) :
    ViewChangerEffect cfg verifier settled voting a (b.startViewChange view stopView) := by
  unfold startViewChange
  split
  · exact effect_own h
  · exact h

/-! ### Votes -/

theorem effect_joinViewChange (h : ViewChangerEffect cfg verifier settled true a b)
    (hawake : b.Awake) (change : Change) (next : AbortViewThen) {cont : Node → Node}
    (hcont : ∀ {c}, ViewChangerEffect cfg verifier settled true a c → c.Awake →
      ViewChangerEffect cfg verifier settled true a (cont c)) :
    ViewChangerEffect cfg verifier settled true a (b.joinViewChange change next cont) := by
  unfold joinViewChange
  split
  · exact hcont h hawake
  · split
    · exact hcont (effect_own h) (by exact hawake)
    · have hasked := (h.tail (.join b rfl)).tail
          (.record _ (.viewChange (b.viewChanger.currView + 1)))
      simp only
      split
      · exact hasked.tail (.askAbort _ rfl (by exact hawake) next)
      · exact hcont (effect_own hasked) (by exact hawake)

theorem save_keepsViewChanger (nd : Node) (m : SavedMessage) :
    (nd.save m).viewChanger = nd.viewChanger ∧ (nd.save m).checkpoint = nd.checkpoint ∧
      (nd.save m).controller = nd.controller := by
  rcases save_cases nd m with ⟨text, h⟩ | ⟨persisted, -, h⟩ <;> rw [h] <;> exact ⟨rfl, rfl, rfl⟩

theorem Awake.save (h : nd.Awake) (m : SavedMessage) : (nd.save m).Awake := by
  obtain ⟨hviewChanger, -, hcontroller⟩ := save_keepsViewChanger nd m
  unfold Awake
  rw [hviewChanger, hcontroller]
  exact h

theorem effect_saveViewChange (h : ViewChangerEffect cfg verifier settled true a b)
    (hawake : b.Awake) (restore : Bool) :
    ViewChangerEffect cfg verifier settled true a (b.saveViewChange restore) := by
  unfold saveViewChange
  split
  · exact h.tail (.askAbort b rfl hawake _)
  · exact (h.tail (.saveViewChange b rfl _)).tail (.askAbort _ rfl (hawake.save _) _)

theorem effect_joinedViewChange (h : ViewChangerEffect cfg verifier settled true a b)
    (hawake : b.Awake) (restore : Bool) :
    ViewChangerEffect cfg verifier settled true a (b.joinedViewChange cfg restore) := by
  unfold joinedViewChange
  split
  · exact effect_setViewChanger h hawake (by rfl)
  · split
    · exact effect_saveViewChange h hawake restore
    · exact effect_joinViewChange h hawake _ _ fun hc hawake =>
        effect_saveViewChange hc hawake restore

theorem effect_processViewChangeMsg (h : ViewChangerEffect cfg verifier settled true a b)
    (hawake : b.Awake) (restore : Bool) :
    ViewChangerEffect cfg verifier settled true a (b.processViewChangeMsg cfg restore) := by
  unfold processViewChangeMsg
  split
  · exact effect_joinViewChange h hawake _ _ fun hc hawake =>
      effect_joinedViewChange hc hawake restore
  · exact effect_joinedViewChange h hawake restore

theorem effect_afterAbortView (h : ViewChangerEffect cfg verifier settled true a b)
    (hawake : b.Awake) (next : AbortViewThen) :
    ViewChangerEffect cfg verifier settled true a (b.afterAbortView cfg next) := by
  cases next with
  | select => exact effect_setViewChanger (effect_own h) (by exact hawake) (by rfl)
  | joined restore => exact effect_joinedViewChange (effect_own h) (by exact hawake) restore
  | save restore => exact effect_saveViewChange (effect_own h) (by exact hawake) restore
  | prepare => exact h.tail (.enter b rfl hawake)

theorem effect_processNextView (h : ViewChangerEffect cfg verifier settled true a b)
    (hawake : b.Awake) (sender nextView : Nat) :
    ViewChangerEffect cfg verifier settled true a (b.processNextView cfg sender nextView) := by
  have hregistered : ViewChangerEffect cfg verifier settled true a { b with viewChanger :=
      { b.viewChanger with nvs := b.viewChanger.nvs.registerNext nextView sender } } :=
    effect_own h
  unfold processNextView
  simp only
  split
  · exact effect_processViewChangeMsg (hregistered.tail (.own _ _ (.inr (by rfl))
      (by exact id) (by exact ⟨rfl, rfl, rfl⟩) (.inl rfl) (.inl (by rfl)))) (by exact hawake) false
  · split
    · exact hregistered.tail (.record _ (.viewChange nextView))
    · exact hregistered

theorem effect_abortSent (h : nd.abortSent cfg = some nd') :
    ViewChangerEffect cfg verifier settled true nd nd' := by
  unfold abortSent at h
  split at h
  · simp only [Option.some.injEq] at h
    exact h ▸ effect_afterAbortView (ReflTransGen.single (.sentAbort nd rfl _))
      (fun _ => .inl rfl) _
  · simp at h

theorem effect_informNewView (h : ViewChangerEffect cfg verifier settled true a b)
    (hpc : b.viewChanger.pc = .select) (view : Nat) :
    ViewChangerEffect cfg verifier settled true a (b.informNewView view) := by
  unfold informNewView
  split
  · exact h
  · rename_i hview
    exact h.tail (.inform b rfl hpc (by omega))

/-! ### View data and new views -/

theorem effect_finishNewView (h : ViewChangerEffect cfg verifier settled voting a b)
    (hawake : b.Awake) (own : Bool) :
    ViewChangerEffect cfg verifier settled voting a (b.finishNewView own) := by
  unfold finishNewView
  split
  · exact effect_setViewChanger (effect_own h) (by exact hawake) (by rfl)
  · exact effect_setViewChanger h hawake (by rfl)

theorem effect_sendViewData (h : ViewChangerEffect cfg verifier settled voting a b)
    (hawake : b.Awake) (svd : SignedViewData) :
    ViewChangerEffect cfg verifier settled voting a (b.sendViewData cfg svd) := by
  unfold sendViewData
  split
  · exact effect_panic h _
  · split
    · exact effect_setViewChanger (effect_own h) (by exact hawake) (by rfl)
    · exact effect_setViewChanger (h.tail (.record b (.sendViewData _ svd))) hawake (by rfl)

theorem effect_sendNewView (h : ViewChangerEffect cfg verifier settled voting a b)
    (hawake : b.Awake) (svd : SignedViewData) :
    ViewChangerEffect cfg verifier settled voting a (b.sendNewView cfg svd) := by
  unfold sendNewView
  have hsent := fun signed => h.tail (.record b (.newView signed))
  simp only
  split
  · exact effect_panic (hsent _) _
  · split
    · exact effect_setViewChanger (hsent _) hawake (by rfl)
    · exact effect_finishNewView (hsent _) hawake true

theorem effect_registerViewData (h : ViewChangerEffect cfg verifier settled voting a b)
    (hawake : b.Awake) (sender : Nat) (svd : SignedViewData) :
    ViewChangerEffect cfg verifier settled voting a (b.registerViewData cfg sender svd) := by
  have hregistered : ViewChangerEffect cfg verifier settled voting a { b with viewChanger :=
      { b.viewChanger with
        viewDataMsgs := b.viewChanger.viewDataMsgs.registerVote (fun _ _ => true) sender svd } } :=
    effect_own h
  unfold registerViewData processViewDataMsg
  split
  · exact effect_setViewChanger hregistered hawake (by rfl)
  · split
    · exact effect_panic hregistered _
    · split
      · exact effect_panic hregistered _
      · exact effect_panic hregistered _
      · split
        · exact effect_setViewChanger hregistered hawake (by rfl)
        · exact effect_setViewChanger hregistered hawake (by rfl)

theorem effect_processViewData (h : ViewChangerEffect cfg verifier settled voting a b)
    (hawake : b.Awake) (sender : Nat) (svd : SignedViewData) :
    ViewChangerEffect cfg verifier settled voting a
      (b.processViewData cfg verifier sender svd) := by
  unfold processViewData
  split
  · exact effect_panic h _
  · split
    · exact h
    · split
      · exact effect_registerViewData h hawake sender svd
      · rename_i hverdict _
        obtain ⟨hvalid, hpositive⟩ := validateViewDataMsg_deliver hverdict
        exact h.tail (.beginDeliver b hvalid hpositive hawake _)
      · exact effect_panic h _
      · exact effect_panic h _
      · exact h

theorem effect_processNewView (h : ViewChangerEffect cfg verifier settled voting a b)
    (hawake : b.Awake) (sender : Nat) (signed : List SignedViewData) :
    ViewChangerEffect cfg verifier settled voting a (b.processNewView cfg sender signed) := by
  unfold processNewView
  split
  · exact effect_panic h _
  · split
    · exact h
    · exact effect_setViewChanger h hawake (by rfl)

theorem Settled.effect {event : ViewChangerEvent} (h : nd.Settled cfg verifier event)
    (own : Bool) :
    ViewChangerEffect cfg verifier true false nd (nd.saveNewView cfg own) := by
  unfold saveNewView
  split
  · exact effect_panic .refl _
  · rename_i mySequence hsequence
    have hsaved : ViewChangerEffect cfg verifier true false nd _ :=
      ReflTransGen.single (.saveNewView nd rfl hsequence)
    have hawake := h.awake.save
      (.newView { viewId := nd.viewChanger.currView, latestSequence := mySequence })
    obtain ⟨hview, hcheckpoint, -⟩ := save_keepsViewChanger nd
      (.newView { viewId := nd.viewChanger.currView, latestSequence := mySequence })
    rw [← hcheckpoint] at hsequence
    simp only
    -- the rest is about the node after the save
    generalize nd.save _ = saved at *
    rw [← hview]
    split
    · exact effect_finishNewView hsaved hawake own
    · split
      · exact hsaved.tail (.install saved rfl hawake hsequence own fun _ => rfl)
      · exact hsaved.tail (.install saved rfl hawake hsequence own id)

theorem effect_timedOut (h : ViewChangerEffect cfg verifier settled voting a b) :
    ViewChangerEffect cfg verifier settled voting a (b.timedOut cfg) :=
  effect_startViewChange (effect_sync (effect_own h)) _ _

theorem effect_viewChangedSent (h : nd.viewChangedSent = some nd') :
    ViewChangerEffect cfg verifier settled voting nd nd' := by
  unfold viewChangedSent at h
  split at h
  · rename_i view seq own hpc _
    simp only [Option.some.injEq] at h
    have hsent : ViewChangerEffect cfg verifier settled voting nd { nd with controller :=
        { nd.controller with viewChange := some ⟨view, seq⟩ } } :=
      ReflTransGen.single (.announce nd hpc)
    exact h ▸ effect_finishNewView (effect_own hsent) (fun _ => .inr rfl) own
  · simp at h

theorem effect_tick (resend timeout : Bool) (nd : Node) :
    ViewChangerEffect cfg verifier settled voting nd (nd.tick cfg resend timeout) := by
  unfold tick
  simp only
  split
  · have hsent : ViewChangerEffect cfg verifier settled voting nd
        (nd.broadcastByViewChanger (.viewChange nd.viewChanger.nextView)) :=
      ReflTransGen.single (.record nd (.viewChange _))
    split
    · exact effect_timedOut hsent
    · exact hsent
  · split
    · exact effect_timedOut .refl
    · exact .refl

theorem effect_viewChangerSelect {event : ViewChangerEvent} (hpc : nd.viewChanger.pc = .select)
    (h : nd.viewChangerSelect cfg verifier event = some nd') :
    ViewChangerEffect cfg verifier settled event.voting nd nd' := by
  have hawake : nd.Awake := awake_of_pc (hpc ▸ rfl)
  unfold viewChangerSelect at h
  split at h
  · simp only [Option.ite_none_right_eq_some, Option.some.injEq] at h
    exact h.2 ▸ effect_setViewChanger .refl hawake (by rfl)
  · split at h
    · simp at h
    · exact Option.some.inj h ▸ effect_joinViewChange (effect_own .refl) (by exact hawake) _ _
        fun hc _ => hc
  · exact Option.some.inj h ▸ effect_processNextView .refl hawake _ _
  · exact Option.some.inj h ▸ effect_processViewData .refl hawake _ _
  · exact Option.some.inj h ▸ effect_processNewView .refl hawake _ _
  · exact Option.some.inj h ▸ effect_tick _ _ nd
  · obtain ⟨view, -, rfl⟩ := Option.map_eq_some_iff.mp h
    exact effect_informNewView (effect_own .refl) (by exact hpc) view
  · simp only [Option.ite_none_right_eq_some, Option.some.injEq] at h
    exact h.2 ▸ effect_processViewChangeMsg (effect_own .refl) (by exact hawake) true
  · simp at h

end Node

/-- The steps of the view changer: the installation of a view, the two reads of
`prepareViewDataMsg`, a delivery, the call of `commitInFlightProposal` and the steps
of it that touch its in-flight view, and all the others. -/
inductive ViewChangerTransition (cfg : Config) (verifier : Verifier) :
    Node → ViewChangerEvent → Node → Prop where
  | effect {nd nd' : Node} (event : ViewChangerEvent)
      (h : ViewChangerEffect cfg verifier false event.voting nd nd') :
      ViewChangerTransition cfg verifier nd event nd'
  | read {nd : Node} {lastDecision : Decision} {inFlight : Option Proposal}
      {purpose : ViewDataFor} (hpc : nd.viewChanger.pc = .readInFlight lastDecision purpose)
      (hread : getInFlight nd.persisted.inFlight lastDecision.proposal
        nd.viewChanger.committedDuringViewChange = .ok inFlight) :
      ViewChangerTransition cfg verifier nd .readInFlight
        (nd.setViewChanger (.readPrepared lastDecision inFlight purpose))
  | newView {nd : Node} {event : ViewChangerEvent} (hsettled : nd.Settled cfg verifier event)
      (own : Bool) : ViewChangerTransition cfg verifier nd event (nd.saveNewView cfg own)
  | viewData {nd nd' : Node} {lastDecision : Decision} {inFlight : Option Proposal}
      {purpose : ViewDataFor}
      (hpc : nd.viewChanger.pc = .readPrepared lastDecision inFlight purpose)
      (h : ViewChangerEffect cfg verifier false false
        (nd.record (.viewData purpose (nd.viewDataOf lastDecision inFlight))) nd') :
      ViewChangerTransition cfg verifier nd .readPrepared nd'
  | delivered {nd nd' : Node} {decision : Decision} {purpose : DeliverFor}
      (answer : DeliverAnswer) (hpc : nd.viewChanger.pc = .deliver decision purpose)
      (h : ViewChangerEffect cfg verifier false false (nd.deliver decision answer) nd') :
      ViewChangerTransition cfg verifier nd (.deliver answer) nd'
  | beginCommit {nd : Node} {signed : List SignedViewData} {own : Bool}
      {result : CheckInFlightResult} (hpc : nd.viewChanger.pc = .validate signed own)
      (hchecked : nd.Checked cfg verifier signed result)
      (hsome : result.noInFlight = false) :
      ViewChangerTransition cfg verifier nd .validate
        (nd.setViewChanger (.commitInFlight signed result.inFlightProposal own))
  | startInFlight {nd : Node} {signed : List SignedViewData} {proposal : Proposal} {own : Bool}
      {md : ViewMetadata} (hpc : nd.viewChanger.pc = .commitInFlight signed (some proposal) own)
      (hplan : Node.planInFlight nd.checkpoint proposal = .commit md) :
      ViewChangerTransition cfg verifier nd .commitInFlight
        ({ nd with inFlightView := some (Node.newInFlightView cfg proposal md)
          }.setViewChanger (.waitInFlight own))
  | decided {nd : Node} {own : Bool} {view : View}
      (hpc : nd.viewChanger.pc = .waitInFlight own)
      (hview : nd.inFlightView = some view) (hdelivering : view.pc = .delivering) :
      ViewChangerTransition cfg verifier nd .inFlightDecided
        ({ nd with inFlightView := some view.decided }.leaveInFlight true own)
  | synced {nd : Node} {own : Bool} {view : View} {loop : ViewLoop}
      (hpc : nd.viewChanger.pc = .waitInFlight own)
      (hview : nd.inFlightView = some view) (hsyncing : view.pc = .syncing loop) :
      ViewChangerTransition cfg verifier nd .inFlightSynced
        ({ nd with inFlightView := some { view with pc := .select loop }
          }.leaveInFlight false own)
  | timeout {nd : Node} {own : Bool} (hpc : nd.viewChanger.pc = .waitInFlight own) :
      ViewChangerTransition cfg verifier nd .inFlightTimeout
        ((nd.timedOut cfg).leaveInFlight false own)
  | stop {nd : Node} {own : Bool} (hpc : nd.viewChanger.pc = .waitInFlight own)
      (hstopped : nd.viewChanger.stopped = true) :
      ViewChangerTransition cfg verifier nd .inFlightStop (nd.leaveInFlight false own)

namespace Node

variable {cfg : Config} {verifier : Verifier} {nd nd' : Node}

theorem transition_of_validateStep (h : nd.validateStep cfg verifier = some nd') :
    ViewChangerTransition cfg verifier nd .validate nd' := by
  unfold validateStep at h
  split at h
  · rename_i hpc
    have hawake : nd.Awake := awake_of_pc (hpc ▸ rfl)
    split at h
    · exact Option.some.inj h ▸ .effect _ (effect_panic .refl _)
    · exact Option.some.inj h ▸ .effect _ (effect_finishNewView .refl hawake _)
    · exact Option.some.inj h ▸ .effect _ (effect_finishNewView (effect_sync .refl) hawake.sync _)
    · rename_i hverdict
      obtain ⟨hvalid, hpositive⟩ := validateNewViewMsg_deliver hverdict
      exact Option.some.inj h ▸
        .effect _ (ReflTransGen.single (.beginDeliver nd hvalid hpositive hawake _))
    · rename_i hvalid
      split at h
      · exact Option.some.inj h ▸ .effect _ (effect_finishNewView .refl hawake _)
      · exact Option.some.inj h ▸ .effect _ (effect_finishNewView .refl hawake _)
      · exact Option.some.inj h ▸ .effect _ (effect_panic .refl _)
      · rename_i hchecked
        split at h <;> rename_i hnone <;> simp only [Option.some.injEq] at h
        · exact h ▸ .newView (.noInFlight hpc ⟨hvalid, _, _, hchecked⟩ hnone) _
        · exact h ▸ .beginCommit hpc ⟨hvalid, _, _, hchecked⟩ (by simpa using hnone)
  · simp at h

theorem transition_of_inFlightEnded (h : nd.inFlightEnded cfg = some nd') :
    ViewChangerTransition cfg verifier nd .inFlightEnded nd' := by
  unfold inFlightEnded at h
  split at h
  · rename_i hpc _
    simp only [Option.ite_none_right_eq_some, Option.some.injEq] at h
    obtain ⟨-, rfl⟩ := h
    split
    · rename_i hsuccess
      exact .newView (.committed (hsuccess ▸ hpc)) _
    · exact .effect _ (effect_finishNewView .refl (awake_of_pc (hpc ▸ rfl)) _)
  · simp at h

theorem transition_of_readInFlight (h : nd.readInFlight = some nd') :
    ViewChangerTransition cfg verifier nd .readInFlight nd' := by
  unfold readInFlight at h
  split at h
  · rename_i hpc
    split at h <;> rename_i hread <;> simp only [Option.some.injEq] at h <;> subst h
    · exact .effect _ (effect_panic .refl _)
    · exact .effect _ (effect_panic .refl _)
    · exact .read hpc hread
  · simp at h

theorem transition_of_readPrepared (h : nd.readPrepared cfg = some nd') :
    ViewChangerTransition cfg verifier nd .readPrepared nd' := by
  unfold readPrepared at h
  split at h
  · rename_i hpc
    have hawake : nd.Awake := awake_of_pc (hpc ▸ rfl)
    simp only at h
    split at h <;> simp only [Option.some.injEq] at h <;> subst h
    · exact .viewData hpc (effect_sendViewData .refl (by exact hawake) _)
    · exact .viewData hpc (effect_sendNewView .refl (by exact hawake) _)
  · simp at h

theorem effect_deliverStep {answer : DeliverAnswer}
    (h : nd.deliverStep cfg verifier answer = some nd') :
    ∃ decision purpose, nd.viewChanger.pc = .deliver decision purpose ∧
      ViewChangerEffect cfg verifier false false (nd.deliver decision answer) nd' := by
  unfold deliverStep at h
  split at h
  · rename_i decision purpose hpc
    have hawake : (nd.deliver decision answer).Awake := by
      refine awake_of_pc ?_
      rcases deliver_cases nd decision answer with ⟨text, hcase⟩ | hcase | hcase <;>
        rw [hcase] <;> exact hpc ▸ rfl
    split at h
    · simp at h
    · have hstopped : ViewChangerEffect cfg verifier false false (nd.deliver decision answer)
          { nd.deliver decision answer with
            viewChanger := { (nd.deliver decision answer).viewChanger with
              stopped := (nd.deliver decision answer).viewChanger.stopped ||
                answer.reconfig } } :=
        ReflTransGen.single
          (.own _ _ (.inr rfl) (fun h => (Bool.or_eq_false_iff.mp h).1) ⟨rfl, rfl, rfl⟩
            (.inr rfl) (.inl rfl))
      refine ⟨decision, purpose, hpc, ?_⟩
      simp only at h
      split at h
      · split at h <;> simp only [Option.some.injEq] at h
        · exact h ▸ effect_setViewChanger (effect_own hstopped) (by exact hawake) (by rfl)
        · exact h ▸ effect_registerViewData (effect_own hstopped) (by exact hawake) _ _
      · split at h <;> simp only [Option.some.injEq] at h
        · exact h ▸ effect_finishNewView hstopped hawake _
        · exact h ▸ effect_setViewChanger hstopped hawake (by rfl)
  · simp at h

theorem transition_of_commitInFlight (h : nd.commitInFlight cfg = some nd') :
    ViewChangerTransition cfg verifier nd .commitInFlight nd' := by
  unfold commitInFlight at h
  split at h
  · exact Option.some.inj h ▸ .effect _ (effect_panic .refl _)
  · rename_i hpc
    split at h <;> rename_i hplan <;> simp only [Option.some.injEq] at h <;> subst h
    · exact .newView (.decided hpc hplan) _
    · exact .effect _ (effect_finishNewView .refl (awake_of_pc (hpc ▸ rfl)) _)
    · exact .effect _ (effect_panic .refl _)
    · exact .startInFlight hpc hplan
  · simp at h

theorem transition_of_waitInFlightStep {own : Bool}
    {event : ViewChangerEvent} (hpc : nd.viewChanger.pc = .waitInFlight own)
    (h : nd.waitInFlightStep cfg own event = some nd') :
    ViewChangerTransition cfg verifier nd event nd' := by
  unfold waitInFlightStep at h
  split at h
  · split at h
    · rename_i hview
      simp only [Option.ite_none_right_eq_some, Option.some.injEq] at h
      obtain ⟨hdelivering, rfl⟩ := h
      exact .decided hpc hview hdelivering
    · simp at h
  · split at h
    · rename_i hview
      split at h
      · rename_i hsyncing
        exact Option.some.inj h ▸ .synced hpc hview hsyncing
      · simp at h
    · simp at h
  · simp only [Option.ite_none_right_eq_some, Option.some.injEq] at h
    exact h.2 ▸ .timeout hpc
  · simp only [Option.ite_none_right_eq_some, Option.some.injEq] at h
    exact h.2 ▸ .stop hpc h.1
  · simp at h

theorem viewChangerStep_transition {event : ViewChangerEvent}
    (h : nd.viewChangerStep cfg verifier event = some nd') :
    ViewChangerTransition cfg verifier nd event nd' := by
  unfold viewChangerStep at h
  split at h
  · rename_i hpc
    exact .effect _ (effect_viewChangerSelect hpc h)
  · rename_i hpc
    exact transition_of_waitInFlightStep hpc h
  · obtain ⟨rfl, h⟩ := Option.ite_none_right_eq_some.mp h
    exact .effect _ (effect_abortSent h)
  · obtain ⟨rfl, h⟩ := Option.ite_none_right_eq_some.mp h
    exact transition_of_readInFlight h
  · obtain ⟨rfl, h⟩ := Option.ite_none_right_eq_some.mp h
    exact transition_of_readPrepared h
  · split at h
    · obtain ⟨decision, purpose, hpc, heffect⟩ := effect_deliverStep h
      exact .delivered _ hpc heffect
    · simp at h
  · obtain ⟨rfl, h⟩ := Option.ite_none_right_eq_some.mp h
    exact transition_of_validateStep h
  · obtain ⟨rfl, h⟩ := Option.ite_none_right_eq_some.mp h
    exact transition_of_commitInFlight h
  · obtain ⟨rfl, h⟩ := Option.ite_none_right_eq_some.mp h
    exact transition_of_inFlightEnded h
  · exact .effect _ (effect_viewChangedSent (Option.ite_none_right_eq_some.mp h).2)
  · simp at h

/-! ## What the view changer leaves alone -/

variable {settled voting : Bool}

theorem save_keepsRunLoop (nd : Node) (m : SavedMessage) :
    KeepsRunLoop nd (nd.save m) := by
  rcases save_cases nd m with ⟨text, h⟩ | ⟨persisted, -, h⟩ <;> rw [h] <;>
    exact ⟨rfl, rfl, rfl, rfl, rfl⟩

theorem deliver_keepsRunLoop (nd : Node) (decision : Decision) (answer : DeliverAnswer) :
    KeepsRunLoop nd (nd.deliver decision answer) := by
  rcases deliver_cases nd decision answer with ⟨text, h⟩ | h | h <;> rw [h] <;>
    exact ⟨rfl, rfl, rfl, rfl, rfl⟩

theorem sync_keepsRunLoop (nd : Node) : KeepsRunLoop nd (nd.sync cfg) := by
  unfold sync
  split <;> exact ⟨rfl, rfl, rfl, rfl, rfl⟩

theorem startViewChange_keepsRunLoop (nd : Node) (view : Nat) (stopView : Bool) :
    KeepsRunLoop nd (nd.startViewChange view stopView) := by
  unfold startViewChange
  split <;> exact ⟨rfl, rfl, rfl, rfl, rfl⟩

theorem viewChangerOp_keepsRunLoop
    (h : ViewChangerOp cfg verifier settled voting nd nd') : KeepsRunLoop nd nd' := by
  cases h with
  | saveViewChange view => exact save_keepsRunLoop nd _
  | saveNewView => exact save_keepsRunLoop nd _
  | _ => exact ⟨rfl, rfl, rfl, rfl, rfl⟩

theorem viewChangerEffect_keepsRunLoop
    (h : ViewChangerEffect cfg verifier settled voting nd nd') : KeepsRunLoop nd nd' := by
  induction h with
  | refl => exact .refl nd
  | tail _ hop ih => exact ih.trans (viewChangerOp_keepsRunLoop hop)

theorem timedOut_keepsRunLoop (cfg : Config) (nd : Node) : KeepsRunLoop nd (nd.timedOut cfg) := by
  have hwatch : KeepsRunLoop nd { nd with viewChanger :=
    { nd.viewChanger with checkTimeout := false } } := ⟨rfl, rfl, rfl, rfl, rfl⟩
  exact (hwatch.trans (sync_keepsRunLoop _)).trans (startViewChange_keepsRunLoop _ _ _)

theorem viewChangerStep_keepsRunLoop {event : ViewChangerEvent}
    (h : nd.viewChangerStep cfg verifier event = some nd') : KeepsRunLoop nd nd' := by
  cases viewChangerStep_transition h with
  | effect _ h => exact viewChangerEffect_keepsRunLoop h
  | newView hsettled own => exact viewChangerEffect_keepsRunLoop (hsettled.effect own)
  | viewData _ h =>
    exact { viewChangerEffect_keepsRunLoop h with }
  | delivered answer _ h =>
    exact (deliver_keepsRunLoop nd _ answer).trans (viewChangerEffect_keepsRunLoop h)
  | timeout =>
    exact { timedOut_keepsRunLoop cfg nd with }
  | _ => exact ⟨rfl, rfl, rfl, rfl, rfl⟩

/-! ## The end of a synchronization -/

section Fetched

variable {latest : Option ViewMetadata}
  {controllerViewNum newViewNum seq dec : Nat}

theorem fetched_none :
    nd.fetched cfg latest controllerViewNum newViewNum seq dec none =
      if latest = none ∨ (latest.getD {}).viewId < controllerViewNum then nd.endSync cfg 0 0 0
      else (latest.elim nd nd.maybePruneInFlight).informOrEnd cfg controllerViewNum newViewNum
        seq dec := by
  cases latest <;> rfl

theorem fetched_some (response : ViewAndSeq) :
    nd.fetched cfg latest controllerViewNum newViewNum seq dec (some response) =
      if response.view ≤ controllerViewNum ∧ (latest.getD {}).viewId < controllerViewNum then
        nd.endSync cfg 0 0 0
      else if newViewNum < response.view ∧
          response.seq = (latest.getD {}).latestSequence + 1 then
        let saved := nd.save (.newView {
          viewId := response.view
          latestSequence := (latest.getD {}).latestSequence })
        (latest.elim saved saved.maybePruneInFlight).informOrEnd cfg controllerViewNum
          response.view seq 0
      else (latest.elim nd nd.maybePruneInFlight).informOrEnd cfg controllerViewNum newViewNum
        seq dec := by
  cases latest <;> rfl

theorem fetched_cases {motive : Node → Prop} {response : Option ViewAndSeq}
    (hend : motive (nd.endSync cfg 0 0 0))
    (hkept : motive ((latest.elim nd nd.maybePruneInFlight).informOrEnd cfg controllerViewNum
      newViewNum seq dec))
    (hsaved : ∀ md view, newViewNum < view →
      let saved := nd.save (.newView md)
      motive ((latest.elim saved saved.maybePruneInFlight).informOrEnd cfg controllerViewNum
        view seq 0)) :
    motive (nd.fetched cfg latest controllerViewNum newViewNum seq dec response) := by
  cases response with
  | none =>
    rw [fetched_none]
    split
    · exact hend
    · exact hkept
  | some response =>
    rw [fetched_some]
    split
    · exact hend
    · split <;> rename_i hcase
      · exact hsaved _ _ hcase.1
      · exact hkept

end Fetched

/-! ## The effects of a view -/

theorem complain_keepsRunLoop (nd : Node) (origin : Origin) (viewNum : Nat)
    (stopView : Bool) : KeepsRunLoop nd (nd.complain origin viewNum stopView) := by
  unfold complain
  split
  · exact ⟨rfl, rfl, rfl, rfl, rfl⟩
  · exact startViewChange_keepsRunLoop nd viewNum stopView

theorem applyOutput_keepsRunLoop (cfg : Config) (nd : Node) (origin : Origin)
    (output : ViewOutput) :
    KeepsRunLoop nd (nd.applyOutput cfg origin output) := by
  cases output with
  | save m => exact save_keepsRunLoop nd m
  | complain viewNum stopView => exact complain_keepsRunLoop nd origin viewNum stopView
  | sync => exact sync_keepsRunLoop nd
  | _ => exact ⟨rfl, rfl, rfl, rfl, rfl⟩

theorem applyOutputs_induction {motive : Node → Prop} (cfg : Config) (origin : Origin)
    {outputs : List ViewOutput}
    (hstep : ∀ output ∈ outputs, ∀ nd, motive nd → motive (nd.applyOutput cfg origin output))
    {nd : Node} (h : motive nd) : motive (nd.applyOutputs cfg origin outputs) := by
  induction outputs generalizing nd with
  | nil => exact h
  | cons output outputs ih =>
    have hfirst := hstep output List.mem_cons_self nd h
    simp only [applyOutputs]
    split
    · exact hfirst
    · exact ih (fun other hother => hstep other (List.mem_cons_of_mem _ hother)) hfirst

theorem applyOutputs_cons {motive : Node → Prop} {cfg : Config} {origin : Origin}
    {output : ViewOutput} {outputs : List ViewOutput} {nd : Node}
    (hfirst : motive (nd.applyOutput cfg origin output))
    (hrest : (nd.applyOutput cfg origin output).panicked = none →
      motive ((nd.applyOutput cfg origin output).applyOutputs cfg origin outputs)) :
    motive (nd.applyOutputs cfg origin (output :: outputs)) := by
  simp only [applyOutputs]
  split
  · exact hfirst
  · rename_i hlive
    exact hrest (by simpa using hlive)

theorem applyOutputs_keepsRunLoop (cfg : Config) (nd : Node) (origin : Origin)
    (outputs : List ViewOutput) :
    KeepsRunLoop nd (nd.applyOutputs cfg origin outputs) :=
  applyOutputs_induction cfg origin
    (fun output _ mid hmid => hmid.trans (applyOutput_keepsRunLoop cfg mid origin output))
    (.refl nd)

end Node

def NodeEvent.ofRunLoop : NodeEvent → Bool
  | .view _ => true
  | .viewStopped => true
  | .controller _ => true
  | .stop => true
  | .crash => true
  | _ => false

theorem Node.Steps.keepsRunLoop {cfg : Config} {verifier : Verifier}
    {event : NodeEvent} (h : Steps cfg verifier nd event nd') (hevent : event.ofRunLoop = false) :
    KeepsRunLoop nd nd' := by
  cases h with
  | @inFlightView _ _ view' outputs hview hstep =>
    have houtputs := applyOutputs_keepsRunLoop cfg
      { nd with inFlightView := some (awaitSync view' outputs) } .inFlightView outputs
    exact { houtputs with }
  | inFlightDeliver answer =>
    exact (deliver_keepsRunLoop nd _ answer).trans ⟨rfl, rfl, rfl, rfl, rfl⟩
  | inFlightStopped => exact ⟨rfl, rfl, rfl, rfl, rfl⟩
  | viewChanger h => exact viewChangerStep_keepsRunLoop h
  | requestSync => exact sync_keepsRunLoop nd
  | complain viewNum stopView => exact startViewChange_keepsRunLoop nd viewNum stopView
  | _ => simp [NodeEvent.ofRunLoop] at hevent

end SmartBFT
