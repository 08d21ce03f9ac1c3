import SmartBFT.Node.Delivery

/-!
# The view after a sync

`Controller.sync` moves the checkpoint first and decides later what to report to
the run loop.  When it reports nothing, the run loop calls `changeView` with the
numbers of the current view and the sequence that was stored last, also if the
checkpoint has moved; and `changeView` keeps a view that it takes for the right
one without a look at its sequence.
-/

namespace SmartBFT

open Foundation

namespace Node

/-! ## Handling a sync token -/

def finishChangeView (cfg : Config) (nd : Node) : Node :=
  match nd.controller.pc with
  | .aborting (.start view seq dec rotation) => nd.restartView cfg view seq dec rotation
  | _ => nd

def finishSync (cfg : Config) (nd : Node) : Node :=
  match nd.controller.pc with
  | .informing view seq dec =>
    ({ nd with viewChanger := { nd.viewChanger with
      informChan := some view } }.endSync cfg view seq dec).finishChangeView cfg
  | _ => nd.finishChangeView cfg

/-- What the run loop does with a sync token, from the call of the synchronizer to the end
of `changeView`. -/
def handleSync (cfg : Config) (nd : Node) (response : Decision) (reconfig : Bool)
    (collected : Option ViewAndSeq) : Node :=
  let nd := nd.beginSync response reconfig
  match nd.controller.pc with
  | .fetching latest controllerViewNum newViewNum seq dec =>
    (nd.fetched cfg latest controllerViewNum newViewNum seq dec collected).finishSync cfg
  | _ => nd

def synced (nd : Node) (response : Decision) : Node :=
  if nd.checkpoint.sequence < response.sequence then { nd with checkpoint := response } else nd

def fetchReport (latest : Option ViewMetadata) (controllerViewNum newViewNum dec : Nat)
    (collected : Option ViewAndSeq) : Option (Nat × Nat) :=
  let latestDecision := latest.getD {}
  match collected with
  | none =>
    if latest = none ∨ latestDecision.viewId < controllerViewNum then none
    else some (newViewNum, dec)
  | some response =>
    if response.view ≤ controllerViewNum ∧ latestDecision.viewId < controllerViewNum then none
    else if newViewNum < response.view ∧
        response.seq = latestDecision.latestSequence + 1 then some (response.view, 0)
    else some (newViewNum, dec)

def syncReport (nd : Node) (response : Decision) (collected : Option ViewAndSeq) :
    Option (Nat × Nat) :=
  let latest := (latestMetadata response).getD none
  let controllerViewNum := nd.controller.currViewNumber
  let latestDecision := latest.getD {}
  fetchReport latest controllerViewNum (max controllerViewNum latestDecision.viewId)
    (if nd.checkpoint.sequence < response.sequence then latestDecision.decisionsInView + 1 else 0)
    collected

/-- When the view is at the right sequence after a sync: a view that is kept needs a
response that was not ahead; without a report, a view that is started again needs the right
sequence to be the one that was stored. -/
def syncKeepsPace (cfg : Config) (nd : Node) (response : Decision)
    (collected : Option ViewAndSeq) : Bool :=
  match nd.syncReport response collected with
  | some (view, dec) =>
    !(nd.synced response).alreadyRunning cfg view dec ||
      decide (response.sequence ≤ nd.checkpoint.sequence)
  | none =>
    if (nd.synced response).alreadyRunning cfg nd.controller.currViewNumber
        nd.controller.currDecisionsInView then
      decide (response.sequence ≤ nd.checkpoint.sequence)
    else
      decide (nd.viewSequences.proposalSeq = (nd.synced response).checkpoint.sequence + 1)

/-! ## The pieces -/

variable {cfg : Config} {nd nd' : Node}
variable {seq view dec : Nat} {mid : Node}

theorem startView_live (h : (nd.startView cfg seq).panicked = none) :
    (nd.startView cfg seq).currView.proposalSequence = seq ∧
      (nd.startView cfg seq).checkpoint = nd.checkpoint := by
  unfold startView at h ⊢
  split at h
  · simp [panic] at h
  · simp only
    split <;> exact ⟨rfl, rfl⟩

theorem startView_numbers (h : (nd.startView cfg seq).panicked = none) :
    (nd.startView cfg seq).currView.number = nd.controller.currViewNumber ∧
      (nd.startView cfg seq).currView.decisionsInView = nd.controller.currDecisionsInView := by
  unfold startView at h ⊢
  split at h
  · simp [panic] at h
  · simp only
    split <;> exact ⟨rfl, rfl⟩

def renumbered (nd : Node) (view dec : Nat) : Node :=
  { nd with controller := { nd.controller with
    currViewNumber := view, currDecisionsInView := dec } }

theorem restartView_startView (nd : Node) (view seq dec : Nat) :
    (nd.restartView cfg view seq dec false).currView =
        ((nd.renumbered view dec).startView cfg seq).currView ∧
      (nd.restartView cfg view seq dec false).checkpoint =
        ((nd.renumbered view dec).startView cfg seq).checkpoint ∧
      (nd.restartView cfg view seq dec false).panicked =
        ((nd.renumbered view dec).startView cfg seq).panicked := by
  unfold restartView afterChangeView
  simp only [Bool.false_eq_true, if_false]
  split <;> exact ⟨rfl, rfl, rfl⟩

theorem restartView_live (h : (nd.restartView cfg view seq dec false).panicked = none) :
    (nd.restartView cfg view seq dec false).currView.proposalSequence = seq ∧
      (nd.restartView cfg view seq dec false).checkpoint = nd.checkpoint := by
  obtain ⟨hview, hcheckpoint, hpanicked⟩ := @restartView_startView cfg nd view seq dec
  rw [hpanicked] at h
  rw [hview, hcheckpoint]
  exact startView_live h

theorem restartView_numbers (h : (nd.restartView cfg view seq dec false).panicked = none) :
    (nd.restartView cfg view seq dec false).currView.number = view ∧
      (nd.restartView cfg view seq dec false).currView.decisionsInView = dec := by
  obtain ⟨hview, -, hpanicked⟩ := @restartView_startView cfg nd view seq dec
  rw [hpanicked] at h
  rw [hview]
  exact startView_numbers h

structure ChangedTo (cfg : Config) (nd : Node) (view seq dec : Nat) (nd' : Node) : Prop where
  checkpoint : nd'.checkpoint = nd.checkpoint
  sequence : nd'.currView.proposalSequence =
    if nd.alreadyRunning cfg view dec then nd.currView.proposalSequence else seq
  kept : nd.alreadyRunning cfg view dec = true → nd'.currView = nd.currView
  started : nd.alreadyRunning cfg view dec = false →
    nd'.currView.number = view ∧ nd'.currView.decisionsInView = dec

theorem finish_changeView
    (h : ((nd.changeView cfg view seq dec false).finishChangeView cfg).panicked = none)
    (hview : nd.controller.currViewNumber ≤ view) :
    ChangedTo cfg nd view seq dec
      ((nd.changeView cfg view seq dec false).finishChangeView cfg) := by
  unfold changeView at h ⊢
  rw [if_neg (by omega)] at h ⊢
  by_cases hrunning : nd.alreadyRunning cfg view dec = true
  · rw [if_pos hrunning] at h ⊢
    exact ⟨rfl, by rw [if_pos hrunning]; rfl, fun _ => rfl, fun hnot => by simp [hrunning] at hnot⟩
  · rw [if_neg hrunning] at h ⊢
    obtain ⟨hseq, hcheckpoint⟩ := restartView_live h
    exact ⟨hcheckpoint, by rw [if_neg hrunning]; exact hseq, fun hyes => absurd hyes hrunning,
      fun _ => restartView_numbers h⟩

theorem finishSync_of_endSync (view seq dec : Nat) :
    (nd.endSync cfg view seq dec).finishSync cfg =
      (nd.endSync cfg view seq dec).finishChangeView cfg := by
  unfold endSync changeView
  simp only
  repeat' split
  all_goals rfl

theorem finish_informOrEnd (hview : nd.controller.currViewNumber ≤ view) (hseq : 0 < seq)
    (h : ((nd.informOrEnd cfg nd.controller.currViewNumber view seq dec).finishSync
      cfg).panicked = none) :
    ChangedTo cfg nd view seq dec
      ((nd.informOrEnd cfg nd.controller.currViewNumber view seq dec).finishSync cfg) := by
  unfold informOrEnd at h ⊢
  split at h <;> rename_i hnew
  · rw [if_pos hnew]
    simp only [finishSync, setController, endSync, if_pos (Or.inr hseq)] at h ⊢
    obtain ⟨hcheckpoint, hsequence, hkept, hstarted⟩ := finish_changeView h hview
    exact ⟨hcheckpoint, hsequence, hkept, hstarted⟩
  · rw [if_neg hnew, finishSync_of_endSync] at *
    simp only [endSync, if_pos (Or.inr hseq)] at h ⊢
    obtain ⟨hcheckpoint, hsequence, hkept, hstarted⟩ := finish_changeView h hview
    exact ⟨hcheckpoint, hsequence, hkept, hstarted⟩

theorem finish_endSync (h : ((nd.endSync cfg 0 0 0).finishSync cfg).panicked = none) :
    ChangedTo cfg nd nd.controller.currViewNumber nd.viewSequences.proposalSeq
      nd.controller.currDecisionsInView ((nd.endSync cfg 0 0 0).finishSync cfg) := by
  rw [finishSync_of_endSync] at h ⊢
  simp only [endSync, Nat.lt_irrefl, or_self, if_false] at h ⊢
  obtain ⟨hcheckpoint, hsequence, hkept, hstarted⟩ := finish_changeView h (Nat.le_refl _)
  exact ⟨hcheckpoint, hsequence, hkept, hstarted⟩

structure SameForSync (nd nd' : Node) : Prop where
  checkpoint : nd'.checkpoint = nd.checkpoint
  currView : nd'.currView = nd.currView
  controller : nd'.controller = nd.controller
  viewChanger : nd'.viewChanger = nd.viewChanger

theorem SameForSync.trans {a b c : Node} (hab : SameForSync a b) (hbc : SameForSync b c) :
    SameForSync a c :=
  ⟨hbc.checkpoint.trans hab.checkpoint, hbc.currView.trans hab.currView,
    hbc.controller.trans hab.controller, hbc.viewChanger.trans hab.viewChanger⟩

theorem save_sameForSync (nd : Node) (m : SavedMessage) : SameForSync nd (nd.save m) := by
  rcases save_cases nd m with ⟨text, hcase⟩ | ⟨persisted, -, hcase⟩ <;> rw [hcase] <;>
    exact ⟨rfl, rfl, rfl, rfl⟩

theorem prune_sameForSync (nd : Node) (latest : Option ViewMetadata) :
    SameForSync nd (latest.elim nd nd.maybePruneInFlight) := by
  cases latest with
  | none => exact ⟨rfl, rfl, rfl, rfl⟩
  | some md =>
    simp only [Option.elim_some, maybePruneInFlight]
    repeat' split
    all_goals exact ⟨rfl, rfl, rfl, rfl⟩

theorem ChangedTo.of_same (h : ChangedTo cfg mid view seq dec nd')
    (hcheckpoint : mid.checkpoint = nd.checkpoint) (hview : mid.currView = nd.currView)
    (hrunning : mid.alreadyRunning cfg view dec = nd.alreadyRunning cfg view dec) :
    ChangedTo cfg nd view seq dec nd' where
  checkpoint := h.checkpoint.trans hcheckpoint
  sequence := by rw [h.sequence, hrunning, hview]
  kept := fun hkept => (h.kept (hrunning.trans hkept)).trans hview
  started := fun hstarted => h.started (hrunning.trans hstarted)

theorem finish_informOrEnd_of_same (hsame : SameForSync nd mid)
    (hview : nd.controller.currViewNumber ≤ view) (hseq : 0 < seq)
    (h : ((mid.informOrEnd cfg nd.controller.currViewNumber view seq dec).finishSync
      cfg).panicked = none) :
    ChangedTo cfg nd view seq dec
      ((mid.informOrEnd cfg nd.controller.currViewNumber view seq dec).finishSync cfg) := by
  obtain ⟨hcheckpoint, hview', hcontroller, -⟩ := hsame
  rw [← hcontroller] at h hview ⊢
  have hchanged := finish_informOrEnd hview hseq h
  have hleader : mid.leaderID cfg = nd.leaderID cfg := by
    simp only [leaderID, checkpointMetadata, hcheckpoint, hcontroller]
  have hrunning : mid.alreadyRunning cfg view dec = nd.alreadyRunning cfg view dec := by
    simp only [alreadyRunning, hleader, hview', hcontroller]
  exact hchanged.of_same hcheckpoint hview' hrunning

theorem finish_fetched {latest : Option ViewMetadata} {newViewNum : Nat}
    {collected : Option ViewAndSeq} (hview : nd.controller.currViewNumber ≤ newViewNum)
    (hseq : 0 < seq)
    (h : ((nd.fetched cfg latest nd.controller.currViewNumber newViewNum seq dec
      collected).finishSync cfg).panicked = none) :
    (∀ view dec', fetchReport latest nd.controller.currViewNumber newViewNum dec collected =
        some (view, dec') →
      ChangedTo cfg nd view seq dec' ((nd.fetched cfg latest nd.controller.currViewNumber
        newViewNum seq dec collected).finishSync cfg)) ∧
    (fetchReport latest nd.controller.currViewNumber newViewNum dec collected = none →
      ChangedTo cfg nd nd.controller.currViewNumber nd.viewSequences.proposalSeq
        nd.controller.currDecisionsInView ((nd.fetched cfg latest nd.controller.currViewNumber
          newViewNum seq dec collected).finishSync cfg)) := by
  have hreport : ∀ {changed : Nat → Nat → Prop} {view dec : Nat} {kept : Prop}, changed view dec →
      (∀ view' dec', some (view, dec) = some (view', dec') → changed view' dec') ∧
        (some (view, dec) = none → kept) := by
    simp +contextual
  unfold fetchReport
  cases collected with
  | none =>
    rw [fetched_none] at h ⊢
    split at h <;> rename_i hcase
    · simp only [if_pos hcase]
      exact ⟨by simp, fun _ => finish_endSync h⟩
    · simp only [if_neg hcase]
      exact hreport <| finish_informOrEnd_of_same (prune_sameForSync nd latest) hview hseq h
  | some response =>
    rw [fetched_some] at h ⊢
    split at h <;> rename_i hcase
    · simp only [if_pos hcase]
      exact ⟨by simp, fun _ => finish_endSync h⟩
    · simp only [if_neg hcase]
      split at h <;> rename_i hnew
      · simp only [if_pos hnew]
        have hsaved := save_sameForSync nd (.newView {
          viewId := response.view, latestSequence := (latest.getD {}).latestSequence })
        have hpruned := prune_sameForSync (nd.save (.newView {
          viewId := response.view, latestSequence := (latest.getD {}).latestSequence })) latest
        exact hreport <| finish_informOrEnd_of_same (hsaved.trans hpruned) (by omega) hseq h
      · simp only [if_neg hnew]
        exact hreport <| finish_informOrEnd_of_same (prune_sameForSync nd latest) hview hseq h

theorem handleSync_changedTo {response : Decision} {reconfig : Bool}
    {collected : Option ViewAndSeq} (hselect : nd.controller.pc = .select)
    (h : (nd.handleSync cfg response reconfig collected).panicked = none) :
    (∀ view dec, nd.syncReport response collected = some (view, dec) →
      ChangedTo cfg (nd.synced response) view ((nd.synced response).checkpoint.sequence + 1) dec
        (nd.handleSync cfg response reconfig collected)) ∧
    (nd.syncReport response collected = none →
      ChangedTo cfg (nd.synced response) nd.controller.currViewNumber
        nd.viewSequences.proposalSeq nd.controller.currDecisionsInView
        (nd.handleSync cfg response reconfig collected)) := by
  have hmetadata : ∀ mid : Node, mid.checkpoint = nd.checkpoint →
      mid.checkpointMetadata = nd.checkpointMetadata := by
    intro mid hmid
    rw [checkpointMetadata, hmid]
    rfl
  cases hlatest : latestMetadata response with
  | none => simp [handleSync, beginSync, hlatest, panic, hselect] at h
  | some latest =>
    cases hmd : nd.checkpointMetadata with
    | none =>
      unfold handleSync beginSync at h
      simp [hlatest, hmetadata, hmd, panic, hselect] at h
    | some md =>
      have hcheckpoint : nd.checkpoint.sequence = md.latestSequence := sequence_of_metadata hmd
      have hresponse := sequence_of_latestMetadata hlatest
      unfold handleSync beginSync at h ⊢
      simp only [hlatest, hmetadata, hmd] at h ⊢
      unfold syncReport synced
      simp only [hlatest, Option.getD_some]
      by_cases hahead : md.latestSequence < (latest.getD {}).latestSequence
      · have hahead' : nd.checkpoint.sequence < response.sequence := by omega
        simp only [if_pos hahead, if_pos hahead', setController] at h ⊢
        have hfinish := finish_fetched (Nat.le_max_left _ _) (Nat.succ_pos _) h
        rw [hresponse]
        exact ⟨fun view dec hreport => (hfinish.1 view dec hreport).of_same rfl rfl rfl,
          fun hreport => (hfinish.2 hreport).of_same rfl rfl rfl⟩
      · have hahead' : ¬nd.checkpoint.sequence < response.sequence := by omega
        simp only [if_neg hahead, if_neg hahead', setController] at h ⊢
        have hfinish := finish_fetched (Nat.le_max_left _ _) (Nat.succ_pos _) h
        rw [hcheckpoint]
        exact ⟨fun view dec hreport => (hfinish.1 view dec hreport).of_same rfl rfl rfl,
          fun hreport => (hfinish.2 hreport).of_same rfl rfl rfl⟩

def viewCanEnd (nd : Node) : Prop :=
  nd.currView.pc = .ended ∨ ∃ loop, nd.currView.pc = .select loop

theorem step_of_live {verifier : Verifier} {event : NodeEvent} (hlive : nd.panicked = none)
    (hadmissible : event.admissible cfg = true) (hreact : nd.react cfg verifier event = some nd') :
    nd.step cfg ⟨verifier, event⟩ = some nd' := by
  simp [step, hlive, hadmissible, hreact]

theorem reaches_ended (verifier : Verifier) (hlive : nd.panicked = none)
    (haborted : nd.currView.aborted = true) (hend : nd.viewCanEnd) :
    ∃ view vs, view.pc = .ended ∧
      Reaches (step cfg) nd { nd with currView := view, viewSequences := vs } := by
  -- one step from the top of the loop of `run`
  have hrun : ∀ mid : Node, mid.panicked = none → mid.currView.aborted = true →
      mid.currView.pc = .select .run →
      mid.step cfg ⟨verifier, .view .abort⟩ = some { mid with
        currView := { mid.currView with pc := .ended }
        viewSequences := ⟨false, mid.currView.proposalSequence⟩ } := by
    intro mid hlive haborted hpc
    apply step_of_live hlive rfl
    simp [react, viewStep, View.step, View.takeAbort, haborted, hpc, applyOutputs, applyOutput,
      hlive]
  obtain hended | ⟨loop, hpc⟩ := hend
  · exact ⟨_, _, hended, .refl nd⟩
  by_cases hloop : loop = .run
  · subst hloop
    exact ⟨_, _, rfl, .head (hrun nd hlive haborted hpc) (.refl _)⟩
  · -- one of the inner loops: the view goes back to the top first
    have hinner : nd.step cfg ⟨verifier, .view .abort⟩ = some { nd with
        currView := { nd.currView with phase := .abort, pc := .select .run } } := by
      apply step_of_live hlive rfl
      cases loop <;> simp_all [react, viewStep, View.step, View.takeAbort, applyOutputs]
    exact ⟨_, _, rfl, .head hinner (.head (hrun _ hlive haborted rfl) (.refl _))⟩

theorem startView_of_ended {view : View} {vs : ViewSequence} {seq : Nat}
    (h : (nd.startView cfg seq).panicked = none) :
    { nd with currView := view, viewSequences := vs }.startView cfg seq =
      nd.startView cfg seq := by
  have hleader : { nd with currView := view, viewSequences := vs }.leaderID cfg =
      nd.leaderID cfg := rfl
  unfold startView at h ⊢
  rw [hleader]
  split at h
  · simp [panic] at h
  · rfl

theorem restartView_of_ended {view : View} {vs : ViewSequence} {newView seq dec : Nat}
    (h : (nd.restartView cfg newView seq dec false).panicked = none) :
    { nd with currView := view, viewSequences := vs }.restartView cfg newView seq dec false =
      nd.restartView cfg newView seq dec false := by
  rw [(restartView_startView nd newView seq dec).2.2] at h
  have hstarted := @startView_of_ended cfg (nd.renumbered newView dec) view vs seq h
  unfold restartView
  simp only
  exact congrArg (fun started : Node => afterChangeView cfg
    (if started.iAmTheLeader cfg then
      { started with controller := { started.controller with batcherClosed := false } }
    else started) false) hstarted

theorem live_of_restartView (h : (nd.restartView cfg view seq dec false).panicked = none) :
    nd.panicked = none := by
  rw [(restartView_startView nd view seq dec).2.2] at h
  unfold startView at h
  split at h
  · simp [panic] at h
  · simp only at h
    split at h <;> exact h

structure Syncing (nd mid : Node) : Prop where
  viewChanger : mid.viewChanger = nd.viewChanger
  viewPc : mid.currView.pc = nd.currView.pc
  aborting : ∀ view seq dec rotation,
    mid.controller.pc = .aborting (.start view seq dec rotation) →
      mid.currView.aborted = true ∧ rotation = false

theorem endSync_syncing (nd : Node) (view seq dec : Nat) :
    Syncing nd (nd.endSync cfg view seq dec) := by
  have hchange : ∀ mid : Node, ∀ view seq dec, mid.viewChanger = nd.viewChanger →
      mid.currView = nd.currView → Syncing nd (mid.changeView cfg view seq dec false) := by
    intro mid view seq dec hviewChanger hview
    unfold changeView afterChangeView
    simp only [Bool.false_eq_true, if_false]
    split
    · exact ⟨hviewChanger, by rw [← hview]; rfl, by simp [setController]⟩
    split
    · exact ⟨hviewChanger, by rw [← hview]; rfl, by simp [setController]⟩
    · refine ⟨hviewChanger, by rw [← hview]; rfl, ?_⟩
      intro _ _ _ rotation hpc
      simp only [abortCurrView, ControllerPc.aborting.injEq, AbortThen.start.injEq] at hpc
      exact ⟨rfl, hpc.2.2.2.symm⟩
  unfold endSync
  simp only
  split <;> exact hchange _ _ _ _ rfl rfl

theorem informOrEnd_syncing (hsame : SameForSync nd mid) (controllerViewNum view seq dec : Nat) :
    Syncing nd (mid.informOrEnd cfg controllerViewNum view seq dec) := by
  unfold informOrEnd
  split
  · exact ⟨hsame.viewChanger, by rw [← hsame.currView]; rfl, by simp [setController]⟩
  · obtain ⟨hviewChanger, hpc, haborting⟩ := @endSync_syncing cfg mid view seq dec
    exact ⟨hviewChanger.trans hsame.viewChanger, by rw [hpc, hsame.currView], haborting⟩

theorem fetched_syncing (nd : Node) (latest : Option ViewMetadata)
    (controllerViewNum newViewNum seq dec : Nat) (collected : Option ViewAndSeq) :
    Syncing nd (nd.fetched cfg latest controllerViewNum newViewNum seq dec collected) := by
  refine fetched_cases (motive := Syncing nd) (endSync_syncing nd 0 0 0) ?_ ?_
  · exact informOrEnd_syncing (prune_sameForSync nd latest) _ _ _ _
  · intro md view _
    exact informOrEnd_syncing ((save_sameForSync nd _).trans (prune_sameForSync _ latest)) _ _ _ _

theorem reaches_finishChangeView (verifier : Verifier) (hend : nd.viewCanEnd)
    (haborting : ∀ view seq dec rotation,
      nd.controller.pc = .aborting (.start view seq dec rotation) →
        nd.currView.aborted = true ∧ rotation = false)
    (h : (nd.finishChangeView cfg).panicked = none) :
    Reaches (step cfg) nd (nd.finishChangeView cfg) := by
  unfold finishChangeView at h ⊢
  split at h <;> rename_i hpc
  · rename_i view seq dec rotation
    obtain ⟨hstopped, rfl⟩ := haborting view seq dec rotation hpc
    have hlive := live_of_restartView h
    obtain ⟨ended, vs, hended, hreaches⟩ := @reaches_ended cfg nd verifier hlive hstopped hend
    have hrestart : { nd with currView := ended, viewSequences := vs }.step cfg
        ⟨verifier, .controller .viewEnded⟩ = some (nd.restartView cfg view seq dec false) := by
      apply step_of_live
      · exact hlive
      · rfl
      · rw [← @restartView_of_ended cfg nd ended vs view seq dec h]
        simp [react, controllerStep, viewEnded, hended, hpc]
    exact hreaches.trans (.head hrestart (.refl _))
  · exact .refl nd

theorem live_of_finishChangeView (haborting : ∀ view seq dec rotation,
      nd.controller.pc = .aborting (.start view seq dec rotation) →
        nd.currView.aborted = true ∧ rotation = false)
    (h : (nd.finishChangeView cfg).panicked = none) : nd.panicked = none := by
  unfold finishChangeView at h
  split at h <;> rename_i hpc
  · obtain ⟨-, rfl⟩ := haborting _ _ _ _ hpc
    exact live_of_restartView h
  · exact h

theorem endSync_panicked (nd : Node) (view seq dec : Nat) :
    (nd.endSync cfg view seq dec).panicked = nd.panicked := by
  unfold endSync changeView afterChangeView
  simp only [Bool.false_eq_true, if_false]
  repeat' split
  all_goals rfl

theorem reaches_finishSync (verifier : Verifier) (hmid : Syncing nd mid)
    (hinform : nd.viewChanger.informChan = none) (hend : nd.viewCanEnd)
    (h : (mid.finishSync cfg).panicked = none) : Reaches (step cfg) mid (mid.finishSync cfg) := by
  obtain ⟨hviewChanger, hpc, haborting⟩ := hmid
  have hend' : mid.viewCanEnd := by
    unfold viewCanEnd
    rw [hpc]
    exact hend
  unfold finishSync at h ⊢
  split at h <;> rename_i hinforming
  · rename_i view seq dec
    obtain ⟨-, hpc', haborting'⟩ := @endSync_syncing cfg { mid with viewChanger := {
      mid.viewChanger with informChan := some view } } view seq dec
    have hended := live_of_finishChangeView haborting' h
    rw [endSync_panicked] at hended
    have hlive : mid.panicked = none := hended
    have hinformed : mid.step cfg ⟨verifier, .controller .informed⟩ = some ({ mid with
        viewChanger := { mid.viewChanger with informChan := some view } }.endSync cfg
          view seq dec) := by
      apply step_of_live hlive rfl
      simp [react, controllerStep, informedStep, hinforming, hviewChanger, hinform]
    have hend'' : (endSync cfg { mid with viewChanger := {
        mid.viewChanger with informChan := some view } } view seq dec).viewCanEnd := by
      unfold viewCanEnd
      rw [hpc']
      exact hend'
    exact .head hinformed (reaches_finishChangeView verifier hend'' haborting' h)
  · exact reaches_finishChangeView verifier hend' haborting h

theorem reaches_handleSync (verifier : Verifier) {response : Decision} {reconfig : Bool}
    {collected : Option ViewAndSeq} (hlive : nd.panicked = none)
    (hselect : nd.controller.pc = .select) (htoken : nd.controller.syncChan = true)
    (hinform : nd.viewChanger.informChan = none) (hend : nd.viewCanEnd)
    (h : (nd.handleSync cfg response reconfig collected).panicked = none) :
    Reaches (step cfg) nd (nd.handleSync cfg response reconfig collected) := by
  have hbegin : nd.step cfg ⟨verifier, .controller (.sync response reconfig)⟩ =
      some (nd.beginSync response reconfig) := by
    apply step_of_live hlive rfl
    simp [react, controllerStep, selectStep, hselect, htoken]
  unfold handleSync at h ⊢
  simp only at h ⊢
  have hbegun : (nd.beginSync response reconfig).viewChanger.informChan = none ∧
      (nd.beginSync response reconfig).viewCanEnd ∧
      ((nd.beginSync response reconfig).controller.pc ≠ .select →
        (nd.beginSync response reconfig).panicked = none) := by
    unfold beginSync viewCanEnd
    simp only
    repeat' split
    all_goals exact ⟨hinform, hend, by simp [panic, setController, hselect, hlive]⟩
  generalize nd.beginSync response reconfig = begun at h hbegin hbegun ⊢
  split at h <;> rename_i hpc
  · rename_i latest controllerViewNum newViewNum seq dec
    have hreaches := reaches_finishSync verifier
      (fetched_syncing begun latest controllerViewNum newViewNum seq dec collected)
      hbegun.1 hbegun.2.1 h
    have hfetched : begun.step cfg ⟨verifier, .controller (.fetched collected)⟩ =
        some (begun.fetched cfg latest controllerViewNum newViewNum seq dec collected) := by
      apply step_of_live (hbegun.2.2 (by simp [hpc])) rfl
      simp [react, controllerStep, hpc]
    exact .head hbegin (.head hfetched hreaches)
  · exact .head hbegin (.refl _)

end Node

/-! ## Two syncs -/

def decisionOf (viewId latestSequence : Nat) : Decision where
  proposal := {
    metadata := some (.marshal { viewId := viewId, latestSequence := latestSequence }) }

def joinedViewTwo : Node :=
  .started (clusterOfFour 3) [.newView { viewId := 2, latestSequence := 1 }] (decisionOf 0 1)
    { view := 2, seq := 1, dec := 0 } 3 (.fresh 3 2 2 0) none

theorem reaches_handleSync_in_view :
    let nd : Node := { joinedViewTwo with
      controller := { joinedViewTwo.controller with syncChan := true } }
    Reaches (Node.step (clusterOfFour 3)) nd
      (nd.handleSync (clusterOfFour 3) (decisionOf 2 4) false none) :=
  Node.reaches_handleSync rejectingVerifier rfl rfl rfl rfl (.inr ⟨_, rfl⟩) (by decide +kernel)

end SmartBFT
