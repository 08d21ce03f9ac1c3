import SmartBFT.Node.AbortDeadlock
import SmartBFT.Node.Transition

/-!
# Commits after the view data

The view data of a node says what it has prepared, and the argument for a view
change needs that the node prepares nothing more in the view that it leaves.
`Controller.AbortView` only puts a request into a channel, so the view may go on
while the view data is built, and send a commit that the view data knows nothing
of (`commit_after_viewData`).

If the view was told to stop before the view data is built, and no view below the
next one is started again, then every later commit is for a proposal that the view
data reports (`no_commit_after_viewData`).
-/

namespace SmartBFT

open SmartBFT.Foundation

def ViewData.reportsDigest (cfg : Config) (vd : ViewData) (digest : String) : Bool :=
  (vd.inFlightPrepared && vd.inFlightProposal.any fun p => cfg.digest p = digest) ||
    vd.lastDecision.any fun p => cfg.digest p = digest

def View.aboutToSend (v : View) : Option Message :=
  if v.pc = .doPhase ∧ (v.phase = .proposed ∨ v.phase = .prepared) then v.lastBroadcastSent
  else none

def View.silentAfter (cfg : Config) (vd : ViewData) (v : View) : Bool :=
  v.aborted && match v.aboutToSend with
    | some (.commit commit) => vd.reportsDigest cfg commit.digest
    | _ => true

def Node.builtUpTo (nd : Node) (view : Nat) : Bool :=
  nd.trace.all fun
    | .viewData .leader vd => decide (vd.nextView ≤ view)
    | _ => true

/-- The view data is built after the view was told to stop, and a view is started
only if no view data was built for a view above it. -/
def stopsBeforeViewData (cfg : Config) (nd : Node) (input : NodeInput) : Bool :=
  match input.event, nd.viewChanger.pc, nd.controller.pc with
  | .viewChanger .readPrepared, .readPrepared lastDecision inFlight .leader, _ =>
    let vd := nd.viewDataOf lastDecision inFlight
    decide (vd.nextView ≤ nd.currView.number) || nd.currView.silentAfter cfg vd
  | .controller .viewEnded, _, .aborting (.start view _ _ _) => nd.builtUpTo view
  | .crash, _, _ => nd.builtUpTo (nd.crash cfg).currView.number
  | _, _, _ => true

namespace View

variable {cfg : Config} {verifier : Verifier} {checkpoint : Decision} {v v' : View}
  {event : ViewEvent} {outputs : List ViewOutput} {vd : ViewData}

theorem aboutToSend_eq_none (h : v.pc ≠ .doPhase) : v.aboutToSend = none := by
  simp [aboutToSend, h]

theorem silentAfter_of_pc (haborted : v.aborted = true) (h : v.pc ≠ .doPhase) :
    v.silentAfter cfg vd = true := by
  simp [silentAfter, haborted, aboutToSend_eq_none h]

theorem silentAfter_aborted (h : v.silentAfter cfg vd = true) : v.aborted = true :=
  (Bool.and_eq_true_iff.mp h).1

theorem Transition.silentAfter (h : Transition cfg verifier checkpoint v event v' outputs)
    (hsilent : v.silentAfter cfg vd = true) : v'.silentAfter cfg vd = true := by
  have haborted := silentAfter_aborted hsilent
  have haborted' := h.aborted haborted
  cases h with
  | queued _ _ hopen => simp [hopen] at haborted
  | nothingToSend => exact hsilent
  | received hpc =>
    refine silentAfter_of_pc haborted' ?_
    rw [(processMsg_sameProgress cfg _ _ _).pc]
    simp [hpc]
  | default _ hopen => simp [hopen] at haborted
  | panicked hpc => exact silentAfter_of_pc haborted' (by simp [hpc])
  | otherPrepare hpc => exact silentAfter_of_pc haborted' (by simp [hpc])
  | otherCommit _ hpc => exact silentAfter_of_pc haborted' (by simp [hpc])
  | _ =>
    exact silentAfter_of_pc haborted' (by simp [View.beginProposal, rejectProposal,
      acceptProposal, finishPrepares, View.decide])

theorem Transition.broadcast_commit (h : Transition cfg verifier checkpoint v event v' outputs)
    {commit : Commit} (hsent : .broadcast (.commit commit) ∈ outputs) :
    v.aboutToSend = some (.commit commit) := by
  cases h with
  | received => exact nomatch processMsg_reaction cfg _ _ _ _ hsent
  | sendPrepare hpc hphase hlast =>
    simp only [List.mem_singleton, ViewOutput.broadcast.injEq] at hsent
    simp [aboutToSend, hpc, hphase, hlast, hsent]
  | sendCommit hpc hphase hlast =>
    simp only [List.mem_singleton, ViewOutput.broadcast.injEq] at hsent
    simp [aboutToSend, hpc, hphase, hlast, hsent]
  | accepted =>
    simp only [acceptProposal] at hsent
    split at hsent <;> simp at hsent
  | _ => simp [rejectProposal, finishPrepares, View.decide] at hsent

end View

/-! ## The history -/

def Reported (cfg : Config) (newer older : Action) : Prop :=
  ∀ vd n commit, older = .viewData .leader vd → newer = .broadcast (.view n) (.commit commit) →
    vd.nextView ≤ n ∨ vd.reportsDigest cfg commit.digest = true

structure SilenceInvariant (cfg : Config) (nd : Node) : Prop where
  silent : ∀ vd, .viewData .leader vd ∈ nd.trace →
    vd.nextView ≤ nd.currView.number ∨ nd.currView.silentAfter cfg vd = true
  reported : nd.trace.Pairwise (Reported cfg)

namespace SilenceInvariant

variable {cfg : Config} {verifier : Verifier} {nd nd' : Node}

def Unrelated (action : Action) : Prop :=
  (∀ vd, action ≠ .viewData .leader vd) ∧ ∀ n commit, action ≠ .broadcast (.view n) (.commit commit)

theorem record (h : SilenceInvariant cfg nd) {action : Action} (haction : Unrelated action) :
    SilenceInvariant cfg (nd.record action) := by
  refine ⟨fun vd hvd => ?_, List.pairwise_cons.mpr ⟨?_, h.reported⟩⟩
  · rcases List.mem_cons.mp hvd with hnew | hold
    · exact absurd hnew.symm (haction.1 vd)
    · exact h.silent vd hold
  · intro older _ vd n commit _ hnewer
    exact absurd hnewer (haction.2 n commit)

theorem save (h : SilenceInvariant cfg nd) (m : SavedMessage) :
    SilenceInvariant cfg (nd.save m) := by
  rcases Node.save_cases nd m with ⟨text, hcase⟩ | ⟨persisted, -, hcase⟩ <;> rw [hcase]
  · exact ⟨h.silent, h.reported⟩
  · have hrecorded : SilenceInvariant cfg (nd.record (.save m)) :=
      h.record ⟨by simp, by simp⟩
    exact ⟨hrecorded.silent, hrecorded.reported⟩

theorem deliver (h : SilenceInvariant cfg nd) (decision : Decision) (answer : DeliverAnswer) :
    SilenceInvariant cfg (nd.deliver decision answer) := by
  rcases Node.deliver_cases nd decision answer with ⟨text, hcase⟩ | hcase | hcase <;>
    rw [hcase]
  · exact ⟨h.silent, h.reported⟩
  · exact ⟨h.silent, h.reported⟩
  · have hrecorded : SilenceInvariant cfg (nd.record (.deliver decision)) :=
      h.record ⟨by simp, by simp⟩
    exact ⟨hrecorded.silent, hrecorded.reported⟩

theorem setView (h : SilenceInvariant cfg nd) {view : View}
    (hview : ∀ vd, .viewData .leader vd ∈ nd.trace →
      vd.nextView ≤ nd.currView.number ∨ nd.currView.silentAfter cfg vd = true →
        vd.nextView ≤ view.number ∨ view.silentAfter cfg vd = true) :
    SilenceInvariant cfg { nd with currView := view } :=
  ⟨fun vd hvd => hview vd hvd (h.silent vd hvd), h.reported⟩

theorem quiet (h : SilenceInvariant cfg nd) (hop : QuietOp nd nd') :
    SilenceInvariant cfg nd' := by
  cases hop with
  | stopView =>
    refine h.setView fun vd _ hvd => hvd.imp_right fun hsilent => ?_
    simp only [View.silentAfter, Bool.and_eq_true] at hsilent ⊢
    exact ⟨rfl, hsilent.2⟩
  | viewDecided =>
    refine h.setView fun vd _ hvd => hvd.imp_right fun hsilent => ?_
    have haborted := View.silentAfter_aborted hsilent
    exact View.silentAfter_of_pc haborted (by simp [View.decided])
  | record haction =>
    refine h.record ⟨?_, ?_⟩
    · rintro vd rfl
      cases haction
    · rintro n commit rfl
      cases haction
  | saveViewChange => exact h.save _
  | saveNewView => exact h.save _
  | _ => exact ⟨h.silent, h.reported⟩

theorem quietEffect (h : SilenceInvariant cfg nd) (heffect : QuietEffect nd nd') :
    SilenceInvariant cfg nd' :=
  QuietEffect.keeps (fun hop hinv => quiet hinv hop) heffect h

theorem applyOutputs (h : SilenceInvariant cfg nd) {origin : Origin}
    {outputs : List ViewOutput}
    (hcommits : ∀ n commit, origin = .view n → .broadcast (.commit commit) ∈ outputs →
      ∀ vd, .viewData .leader vd ∈ nd.trace →
        vd.nextView ≤ n ∨ vd.reportsDigest cfg commit.digest = true) :
    SilenceInvariant cfg (nd.applyOutputs cfg origin outputs) := by
  -- no effect of a view builds view data
  suffices hboth : SilenceInvariant cfg (nd.applyOutputs cfg origin outputs) ∧
      ∀ vd, .viewData .leader vd ∈ (nd.applyOutputs cfg origin outputs).trace →
        .viewData .leader vd ∈ nd.trace from hboth.1
  refine Node.applyOutputs_keeps (motive := fun mid => SilenceInvariant cfg mid ∧
    ∀ vd, .viewData .leader vd ∈ mid.trace → .viewData .leader vd ∈ nd.trace) cfg origin
    ?_ ?_ ?_ ?_ ⟨h, fun _ hvd => hvd⟩
  · rintro a b hop ⟨hinv, htrace⟩
    refine ⟨hinv.quiet hop, fun vd hvd => ?_⟩
    rcases hop.mem_trace hvd with hold | hnew
    · exact htrace vd hold
    · exact absurd rfl (hnew.ne_viewData .leader vd)
  · rintro m hm mid ⟨hinv, htrace⟩
    refine ⟨⟨fun vd hvd => hinv.silent vd (by simpa [Node.record] using hvd),
      List.pairwise_cons.mpr ⟨fun older holder vd n commit hvd hnewer => ?_, hinv.reported⟩⟩,
      fun vd hvd => htrace vd (by simpa [Node.record] using hvd)⟩
    simp only [Action.broadcast.injEq] at hnewer
    obtain ⟨horigin, rfl⟩ := hnewer
    exact hcommits n commit horigin hm vd (htrace vd (hvd ▸ holder))
  · rintro target m - mid ⟨hinv, htrace⟩
    exact ⟨hinv.record ⟨by simp, by simp⟩,
      fun vd hvd => htrace vd (by simpa [Node.record] using hvd)⟩
  · rintro m - mid ⟨hinv, htrace⟩
    exact ⟨hinv.save m, fun vd hvd => htrace vd (by simpa using mem_trace_save hvd)⟩

theorem viewStep (h : SilenceInvariant cfg nd) {event : ViewEvent} {view : View}
    {outputs : List ViewOutput}
    (htransition : View.Transition cfg verifier nd.checkpoint nd.currView event view outputs) :
    SilenceInvariant cfg
      ({ nd with currView := view }.applyOutputs cfg (.view view.number) outputs) := by
  have hmoved : SilenceInvariant cfg { nd with currView := view } :=
    h.setView fun vd _ hvd => hvd.imp (fun hle => htransition.number ▸ hle)
      htransition.silentAfter
  refine hmoved.applyOutputs fun n commit hn hsent vd hvd => ?_
  obtain rfl : view.number = n := by simpa using hn
  refine (h.silent vd hvd).imp (fun hle => htransition.number ▸ hle) fun hsilent => ?_
  have := (Bool.and_eq_true_iff.mp hsilent).2
  simpa [htransition.broadcast_commit hsent] using this

theorem of_builtUpTo (h : SilenceInvariant cfg nd) {view : View}
    (hbuilt : nd.builtUpTo view.number = true) :
    SilenceInvariant cfg { nd with currView := view } := by
  refine h.setView fun vd hvd _ => .inl ?_
  simpa using List.all_eq_true.mp hbuilt _ hvd

theorem recordViewData (h : SilenceInvariant cfg nd) {purpose : ViewDataFor} {vd : ViewData}
    (hsilent : purpose = .leader →
      vd.nextView ≤ nd.currView.number ∨ nd.currView.silentAfter cfg vd = true) :
    SilenceInvariant cfg (nd.record (.viewData purpose vd)) := by
  refine ⟨fun other hother => ?_, List.pairwise_cons.mpr ⟨?_, h.reported⟩⟩
  · rcases List.mem_cons.mp hother with hnew | hold
    · simp only [Action.viewData.injEq] at hnew
      obtain ⟨rfl, rfl⟩ := hnew
      exact hsilent rfl
    · exact h.silent other hold
  · intro older _ _ n commit _ hnewer
    simp at hnewer

theorem step (h : SilenceInvariant cfg nd) {input : NodeInput}
    (hmeets : stopsBeforeViewData cfg nd input = true)
    (hstep : nd.step cfg input = some nd') : SilenceInvariant cfg nd' := by
  obtain ⟨-, -, htransition⟩ := Node.step_transition hstep
  cases htransition with
  | quiet _ heffect => exact h.quietEffect heffect
  | view htransition => exact h.viewStep htransition
  | @inFlightView _ _ _ view' outputs =>
    have hmoved : SilenceInvariant cfg
        { nd with inFlightView := some (Node.awaitSync view' outputs) } :=
      ⟨h.silent, h.reported⟩
    exact hmoved.applyOutputs (by simp)
  | @inFlightDeliver view decision requests verifier answer =>
    have hdelivered := h.deliver decision answer
    exact ⟨hdelivered.silent, hdelivered.reported⟩
  | @decide decision requests verifier answer c hpc =>
    have hdelivered := h.deliver decision answer
    have hview := (Node.deliver_keepsRunLoop nd decision answer).currView
    refine ⟨fun vd hvd => ?_, hdelivered.reported⟩
    refine ((hview ▸ hdelivered.silent vd hvd)).imp_right fun hsilent => ?_
    have haborted := View.silentAfter_aborted hsilent
    exact View.silentAfter_of_pc haborted (by simp)
  | proposed => exact ⟨h.silent, h.reported⟩
  | @sync _ _ _ _ checkpoint _ heffect =>
    have hsynced : SilenceInvariant cfg { nd with checkpoint := checkpoint } :=
      ⟨h.silent, h.reported⟩
    exact hsynced.quietEffect heffect
  | restarted _ hpc heffect =>
    refine quietEffect (h.of_builtUpTo ?_) heffect
    simpa [stopsBeforeViewData, hpc, View.fresh] using hmeets
  | @viewData _ lastDecision inFlight purpose _ hpc heffect =>
    refine quietEffect (h.recordViewData ?_) heffect
    rintro rfl
    simpa [stopsBeforeViewData, hpc] using hmeets
  | delivered _ answer _ heffect => exact quietEffect (h.deliver _ answer) heffect
  | startInFlight => exact ⟨h.silent, h.reported⟩
  | crash _ hboot =>
    have hmeets : nd.builtUpTo (nd.crash cfg).currView.number = true := by
      simpa [stopsBeforeViewData] using hmeets
    simp only [Node.crash, hboot] at hmeets
    have hrestarted := h.of_builtUpTo hmeets
    exact ⟨hrestarted.silent, hrestarted.reported⟩

theorem boot {entries : List SavedMessage} {checkpoint : Decision}
    (h : Node.boot cfg entries checkpoint = .ok nd) : SilenceInvariant cfg nd := by
  obtain ⟨md, start, leader, v, inFlight, -, -, -, -, rfl⟩ := Node.boot_ok h
  exact ⟨by simp [Node.started], by simp [Node.started]⟩

end SilenceInvariant

/--
In a run in which the view data is built after the view was told to stop, and in
which no view is started below one that view data was built for, a commit that
the controller's view broadcasts after the view data, in a view below the next
one, is for a proposal that this view data reports.
-/
theorem no_commit_after_viewData {cfg : Config} {entries : List SavedMessage}
    {checkpoint : Decision} {start nd : Node} {inputs : List NodeInput}
    {later earlier : List Action} {vd : ViewData} {n : Nat} {commit : Commit}
    (hboot : Node.boot cfg entries checkpoint = .ok start)
    (hmeets : StepsMeet (Node.step cfg)
      (fun nd input => stopsBeforeViewData cfg nd input = true) start inputs)
    (hrun : run (Node.step cfg) start inputs = some nd)
    (htrace : nd.trace = later ++ .viewData .leader vd :: earlier)
    (hcommit : .broadcast (.view n) (.commit commit) ∈ later) (hbelow : n < vd.nextView) :
    vd.reportsDigest cfg commit.digest = true := by
  have hinv : SilenceInvariant cfg nd := run_invariant_of_steps_meet
    (fun _ _ _ h hmeets hstep => h.step hmeets hstep) (.boot hboot) hmeets hrun
  have hreported := hinv.reported
  rw [htrace, List.pairwise_append] at hreported
  rcases hreported.2.2 _ hcommit _ List.mem_cons_self vd n commit rfl rfl with hle | hreports
  · omega
  · exact hreports

def stopWhilePrepared : List NodeEvent :=
  acceptFirst [7] ++ (prepareFirst "seven" 1 2).dropLast ++
    [.viewChanger (.msg 1 (.viewChange 1)), .viewChanger (.msg 4 (.viewChange 1)),
      .viewChanger .abortSent, .controller .abortView, .viewChanger .abortSent,
      .viewChanger .readInFlight, .viewChanger .readPrepared, .view .doPhase]

def firstCommit : Commit where
  view := 0
  seq := 1
  digest := "seven"
  signature := some { signer := 3, value := [7] }

theorem no_commit_after_viewData_prepared :
    ∃ nd later earlier vd commit,
      run (Node.step (clusterOfFour 3)) (nodeOfFour 3) (accepting stopWhilePrepared) = some nd ∧
      nd.trace = later ++ .viewData .leader vd :: earlier ∧
      .broadcast (.view 0) (.commit commit) ∈ later ∧ 0 < vd.nextView ∧
      vd.reportsDigest (clusterOfFour 3) commit.digest = true := by
  have hreached : (run (Node.step (clusterOfFour 3)) (nodeOfFour 3)
      (accepting stopWhilePrepared)).any (fun nd => decide (
        nd.trace = nd.trace.take 2 ++ .viewData .leader {
          nextView := 1
          lastDecision := some {}
          inFlightProposal := some (firstProposal [7])
          inFlightPrepared := true } :: nd.trace.drop 3 ∧
        .broadcast (.view 0) (.commit firstCommit) ∈ nd.trace.take 2)) = true := by
    decide +kernel
  obtain ⟨nd, hrun, htrace, hcommit⟩ := exists_of_any hreached
  have hreports := no_commit_after_viewData (boot_nodeOfFour 3) (by decide +kernel) hrun htrace
    hcommit (by decide)
  exact ⟨nd, _, _, _, firstCommit, hrun, htrace, hcommit, by decide, hreports⟩

def collectDuringViewChange : List NodeEvent :=
  acceptFirst [7] ++
    [.complain 0 false, .viewChanger .startChange, .viewChanger (.msg 1 (.viewChange 1)),
      .viewChanger (.msg 4 (.viewChange 1)), .viewChanger .abortSent,
      .viewChanger .readInFlight, .viewChanger .readPrepared] ++
    prepareFirst "seven" 1 2

/-- The view broadcasts a commit that the view data before it does not report. -/
theorem commit_after_viewData :
    Node.boot (clusterOfFour 3) [] {} = .ok (nodeOfFour 3) ∧
    ∃ nd later earlier vd commit,
      run (Node.step (clusterOfFour 3)) (nodeOfFour 3) (accepting collectDuringViewChange) =
        some nd ∧
      nd.trace = later ++ .viewData .leader vd :: earlier ∧
      .broadcast (.view 0) (.commit commit) ∈ later ∧ 0 < vd.nextView ∧
      vd.reportsDigest (clusterOfFour 3) commit.digest = false := by
  refine ⟨rfl, ?_⟩
  have hreached : (run (Node.step (clusterOfFour 3)) (nodeOfFour 3)
      (accepting collectDuringViewChange)).any (fun nd => decide (
        nd.trace = nd.trace.take 3 ++ .viewData .leader {
          nextView := 1
          lastDecision := some {}
          inFlightProposal := some (firstProposal [7]) } :: nd.trace.drop 4 ∧
        .broadcast (.view 0) (.commit firstCommit) ∈ nd.trace.take 3)) = true := by
    decide +kernel
  obtain ⟨nd, hrun, htrace, hcommit⟩ := exists_of_any hreached
  exact ⟨nd, _, _, _, firstCommit, hrun, htrace, hcommit, by decide, by decide⟩

end SmartBFT
