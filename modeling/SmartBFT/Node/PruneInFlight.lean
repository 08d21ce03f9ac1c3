import SmartBFT.Node.Log

/-!
# The in-flight record and a sync

The view stores its proposal in the in-flight record when it accepts it, and marks the record
as prepared when it saves its commit.  In between, `Controller.sync` may clear the record
(`maybePruneInFlight`): the view is aborted only after that, and may meanwhile have counted
its prepares, in which case it panics when it saves (`prune_crashes_commit`).

`commit_meets_proposal` says that nothing else can come in between: a commit is recorded
against the proposal that it votes for or not at all.
-/

namespace SmartBFT

open Foundation Relation

/-- A sync does not clear the in-flight record of a view that has accepted a proposal: it gives
up before it comes to the record, or `maybePruneInFlight` finds the record ahead of what was
synced. -/
def Node.keepsInFlight (nd : Node) (input : NodeInput) : Bool :=
  match input.event, nd.controller.pc with
  | .controller (.fetched response), .fetching (some latest) controllerViewNum _ _ _ =>
    decide (nd.currView.phase ≠ .proposed ∨
      (latest.viewId < controllerViewNum ∧
        ∀ reported ∈ response, reported.view ≤ controllerViewNum) ∨
      ∀ data ∈ nd.persisted.inFlight, ∀ md ∈ data.proposal.unmarshalMetadata,
        latest.latestSequence < md.latestSequence)
  | _, _ => true

/-! ## Who changes the record -/

namespace Node

variable {cfg : Config} {verifier : Verifier} {nd nd' : Node}

theorem save_inFlight (nd : Node) {m : SavedMessage} (hm : m.ofViewChange = true) :
    (nd.save m).persisted.inFlight = nd.persisted.inFlight := by
  cases m <;> first | rfl | simp [SavedMessage.ofViewChange] at hm

theorem viewChangerEffect_inFlight {settled voting : Bool}
    (h : ViewChangerEffect cfg verifier settled voting nd nd') :
    nd'.persisted.inFlight = nd.persisted.inFlight := by
  induction h with
  | refl => rfl
  | @tail mid last _ hop ih =>
    rw [← ih]
    cases hop with
    | saveViewChange view => exact save_inFlight mid rfl
    | saveNewView => exact save_inFlight mid rfl
    | _ => rfl

theorem deliver_persisted (nd : Node) (decision : Decision) (answer : DeliverAnswer) :
    (nd.deliver decision answer).persisted = nd.persisted := by
  rcases deliver_cases nd decision answer with ⟨text, hcase⟩ | hcase | hcase <;> rw [hcase] <;> rfl

theorem viewChangerStep_inFlight {event : ViewChangerEvent}
    (h : nd.viewChangerStep cfg verifier event = some nd') :
    nd'.persisted.inFlight = nd.persisted.inFlight := by
  cases viewChangerStep_transition h with
  | effect _ heffect => exact viewChangerEffect_inFlight heffect
  | newView hsettled own => exact viewChangerEffect_inFlight (hsettled.effect own)
  | viewData _ heffect =>
    rw [viewChangerEffect_inFlight heffect]
    rfl
  | delivered answer _ heffect =>
    rw [viewChangerEffect_inFlight heffect, deliver_persisted]
  | timeout =>
    have htimedOut : ViewChangerEffect cfg verifier false false nd (nd.timedOut cfg) :=
      effect_timedOut .refl
    have hkept := viewChangerEffect_inFlight htimedOut
    exact hkept
  | _ => rfl

theorem applyOutputs_inFlight (nd : Node) (origin : Origin) {outputs : List ViewOutput}
    (hsave : ∀ m, .save m ∉ outputs) :
    (nd.applyOutputs cfg origin outputs).persisted.inFlight = nd.persisted.inFlight := by
  refine @applyOutputs_induction
    (fun mid => mid.persisted.inFlight = nd.persisted.inFlight) cfg origin outputs
    (fun output houtput mid hmid => ?_) nd rfl
  rw [← hmid]
  cases output with
  | save m => exact absurd houtput (hsave m)
  | complain viewNum stopView =>
    simp only [applyOutput, complain, startViewChange]
    split
    · rfl
    · split <;> rfl
  | sync =>
    simp only [applyOutput, sync]
    split <;> rfl
  | _ => rfl

/-! ### The run loop -/

theorem changeView_persisted (nd : Node) (view seq dec : Nat) (rotation : Bool) :
    (nd.changeView cfg view seq dec rotation).persisted = nd.persisted := by
  let keeps : Node → Prop := fun last => last.persisted = nd.persisted
  exact changeView_cases (motive := keeps)
    (fun _ => afterChangeView_cases (motive := keeps) fun _ _ => rfl) rfl

theorem endSync_persisted (nd : Node) (view seq dec : Nat) :
    (nd.endSync cfg view seq dec).persisted = nd.persisted := by
  unfold endSync
  simp only
  split <;> exact changeView_persisted _ _ _ _ _

theorem informOrEnd_persisted (nd : Node) (controllerViewNum newViewNum seq dec : Nat) :
    (nd.informOrEnd cfg controllerViewNum newViewNum seq dec).persisted = nd.persisted := by
  unfold informOrEnd
  split
  · rfl
  · exact endSync_persisted _ _ _ _

theorem maybePruneInFlight_of_ahead {latest : ViewMetadata}
    (hahead : ∀ data ∈ nd.persisted.inFlight, ∀ md ∈ data.proposal.unmarshalMetadata,
      latest.latestSequence < md.latestSequence) :
    (nd.maybePruneInFlight latest).persisted = nd.persisted := by
  unfold maybePruneInFlight
  split
  · rfl
  · rename_i data hdata
    split
    · rfl
    · rename_i md hmd
      rw [if_pos (hahead data hdata md hmd)]

theorem fetched_inFlight {latest : Option ViewMetadata} {controllerViewNum newViewNum seq dec : Nat}
    {response : Option ViewAndSeq}
    (hpc : nd.controller.pc = .fetching latest controllerViewNum newViewNum seq dec)
    (hphase : nd.currView.phase = .proposed)
    (hkeeps : nd.keepsInFlight ⟨verifier, .controller (.fetched response)⟩ = true) :
    (nd.fetched cfg latest controllerViewNum newViewNum seq dec response).persisted.inFlight =
      nd.persisted.inFlight := by
  let keeps : Node → Prop := fun last => last.persisted.inFlight = nd.persisted.inFlight
  have hend : keeps (nd.endSync cfg 0 0 0) := congrArg _ (endSync_persisted nd 0 0 0)
  have hinform : ∀ (mid : Node) (view dec : Nat), keeps mid →
      keeps (mid.informOrEnd cfg controllerViewNum view seq dec) := by
    intro mid view dec hmid
    exact (congrArg _ (informOrEnd_persisted mid _ _ _ _)).trans hmid
  cases latest with
  | none =>
    exact fetched_cases (motive := keeps) hend (hinform _ _ _ rfl)
      (fun md _ _ => hinform (nd.save (.newView md)) _ _ (save_inFlight nd rfl))
  | some synced =>
    simp only [keepsInFlight, hpc, hphase, ne_eq, not_true_eq_false, false_or,
      decide_eq_true_eq] at hkeeps
    rcases hkeeps with ⟨hbehind, hreported⟩ | hahead
    · have hgivesUp : nd.fetched cfg (some synced) controllerViewNum newViewNum seq dec response =
          nd.endSync cfg 0 0 0 := by
        cases response with
        | none => simp [fetched, hbehind]
        | some reported => simp [fetched, hbehind, hreported reported rfl]
      rw [hgivesUp]
      exact hend
    · have hsaved : ∀ m : SavedMessage, m.ofViewChange = true →
          ((nd.save m).maybePruneInFlight synced).persisted.inFlight = nd.persisted.inFlight := by
        intro m hm
        rw [maybePruneInFlight_of_ahead (by rwa [save_inFlight nd hm]), save_inFlight nd hm]
      exact fetched_cases (motive := keeps) hend
        (hinform _ _ _ (congrArg _ (maybePruneInFlight_of_ahead hahead)))
        (fun _ _ _ => hinform _ _ _ (hsaved _ rfl))

theorem ControllerSteps.persisted {event : ControllerEvent}
    (h : ControllerSteps cfg verifier nd event nd')
    (hevent : ∀ response, event ≠ .fetched response) : nd'.persisted = nd.persisted := by
  let keeps : Node → Prop := fun last => last.persisted = nd.persisted
  cases h with
  | decide answer hpc hview => exact deliver_persisted nd _ answer
  | rotate hpc =>
    exact rotateOrFinish_cases (motive := keeps) (fun _ => rfl)
      (fun _ _ _ => changeView_persisted _ _ _ _ _)
      (fun _ _ _ => finishDecide_cases (motive := keeps) fun _ _ => rfl)
  | fetched response => exact absurd rfl (hevent response)
  | informed hpc => exact endSync_persisted _ _ _ _
  | informedStopped hpc => exact endSync_persisted _ _ _ _
  | restarted hended hpc =>
    exact restartView_cases (motive := keeps) (fun _ _ _ => rfl) (fun _ _ _ _ _ => rfl)
  | viewChange hpc hinfo => exact changeView_persisted _ _ _ _ _
  | abortView hpc =>
    unfold Node.abortView
    split <;> rfl
  | propose batch hpc =>
    exact propose_cases (motive := keeps) (fun _ => rfl) (fun _ => rfl) (fun _ => rfl)
      (fun _ _ => rfl)
  | sync response reconfig hpc =>
    exact beginSync_cases (motive := keeps) (fun _ => rfl) (fun _ _ _ _ _ => rfl)
      (fun _ _ _ _ _ => rfl)
  | _ => rfl

theorem Steps.inFlight (hlog : LogInvariant cfg nd) {event : NodeEvent}
    (h : Steps cfg verifier nd event nd') (hview : ∀ event', event ≠ .view event')
    (hcrash : event ≠ .crash) (hfetched : ∀ response, event ≠ .controller (.fetched response)) :
    nd'.persisted.inFlight = nd.persisted.inFlight := by
  cases h with
  | view => exact absurd rfl (hview _)
  | @inFlightView _ view _ _ hinFlight hmoved =>
    have hnone := (hlog.inFlight view hinFlight).saves_nothing (View.transition_of_step hmoved)
    exact applyOutputs_inFlight _ _ hnone
  | inFlightDeliver answer => simp only [deliver_persisted]
  | controller hsteps =>
    rw [hsteps.persisted fun response heq => hfetched response (heq ▸ rfl)]
  | viewChanger hmoved => exact viewChangerStep_inFlight hmoved
  | requestSync =>
    unfold Node.sync
    split <;> rfl
  | complain viewNum stopView =>
    unfold Node.startViewChange
    split <;> rfl
  | down => exact absurd rfl hcrash
  | restarted => exact absurd rfl hcrash
  | _ => rfl

/-! ### The commit -/

theorem applyOutputs_save (cfg : Config) (nd : Node) (origin : Origin) (m : SavedMessage) :
    nd.applyOutputs cfg origin [.save m] = nd.save m := by
  cases hpanicked : (nd.save m).panicked <;> simp [applyOutputs, applyOutput, hpanicked]

theorem save_commit_empty (h : nd.persisted.inFlight = none) (view : View) (commit : Commit) :
    { nd with currView := view }.save (.commit commit) =
      { nd with currView := view }.panic
        "stored prepares but proposal is not initialized" := by
  simp [save, PersistedState.save, PersistedState.storePrepared, InFlightData.storePrepares, h,
    Except.map]

theorem save_commit_stored {data : InFlightProposalData}
    (h : nd.persisted.inFlight = some data) (view : View) (commit : Commit) :
    { nd with currView := view }.save (.commit commit) = { nd.record (.save (.commit commit)) with
      currView := view
      persisted := ⟨some { data with prepared := true },
        nd.persisted.wal ++ [.commit commit]⟩ } := by
  simp [save, PersistedState.save, PersistedState.storePrepared, InFlightData.storePrepares, h,
    Except.map, PersistedState.append, record]

/-! ## The phase of the view -/

theorem quietOp_phase {a b : Node} (h : QuietOp a b) (hphase : b.currView.phase = .proposed) :
    a.currView.phase = .proposed := by
  have hsaved : ∀ m, (a.save m).currView = a.currView := fun m =>
    (save_keepsRunLoop a m).currView
  cases h with
  | viewDecided => simp [View.decided] at hphase
  | saveViewChange view => rwa [hsaved] at hphase
  | saveNewView md => rwa [hsaved] at hphase
  | _ => exact hphase

theorem quietEffect_phase {a b : Node} (h : QuietEffect a b)
    (hphase : b.currView.phase = .proposed) : a.currView.phase = .proposed :=
  QuietEffect.keeps (motive := fun last => last.currView.phase = .proposed →
    a.currView.phase = .proposed) (fun hop hkept hlast => hkept (quietOp_phase hop hlast)) h id
    hphase

theorem phase_of_transition {input : NodeInput} (h : NodeTransition cfg nd input nd')
    (hview : ∀ event, input.event ≠ .view event) (hcrash : input.event ≠ .crash)
    (hphase : nd'.currView.phase = .proposed) : nd.currView.phase = .proposed := by
  cases h with
  | quiet _ heffect => exact quietEffect_phase heffect hphase
  | view => exact absurd rfl (hview _)
  | inFlightView =>
    rw [(applyOutputs_keepsRunLoop cfg _ _ _).currView] at hphase
    exact hphase
  | @inFlightDeliver view decision requests verifier answer =>
    have hkept := (deliver_keepsRunLoop nd decision answer).currView
    simp only [hkept] at hphase
    exact hphase
  | decide => exact hphase
  | proposed => exact hphase
  | sync _ _ _ _ heffect =>
    have hkept := quietEffect_phase heffect hphase
    exact hkept
  | restarted _ _ heffect =>
    have hfresh := quietEffect_phase heffect hphase
    simp [View.fresh] at hfresh
  | viewData _ _ heffect =>
    have hkept := quietEffect_phase heffect hphase
    exact hkept
  | @delivered _ decision purpose verifier answer hpc heffect =>
    have hkept := quietEffect_phase heffect hphase
    rwa [(deliver_keepsRunLoop nd decision answer).currView] at hkept
  | startInFlight => exact hphase
  | crash => exact absurd rfl hcrash

end Node

theorem View.Transition.phase_proposed {cfg : Config} {verifier : Verifier}
    {checkpoint : Decision} {v v' : View} {event : ViewEvent} {outputs : List ViewOutput}
    (h : View.Transition cfg verifier checkpoint v event v' outputs)
    (hsave : ∀ m, .save m ∉ outputs) (hphase : v'.phase = .proposed) : v.phase = .proposed := by
  cases h with
  | received hpc hqueue =>
    rwa [(View.processMsg_sameProgress cfg _ _ _).phase] at hphase
  | left => simp at hphase
  | rejected => simp [View.rejectProposal] at hphase
  | accepted => exact absurd List.mem_cons_self (hsave _)
  | prepared => exact absurd List.mem_cons_self (hsave _)
  | _ => exact hphase

/-! ## The record of a view in `PROPOSED` -/

def Node.RecordKept (nd : Node) : Prop :=
  nd.panicked = none → nd.currView.phase = .proposed → nd.persisted.inFlight.isSome = true

namespace Node.RecordKept

variable {cfg : Config} {verifier : Verifier} {nd nd' : Node}

theorem viewStep (h : nd.RecordKept) (hlive : nd.panicked = none) {event : ViewEvent}
    (hstep : nd.viewStep cfg verifier event = some nd') : nd'.RecordKept := by
  obtain ⟨view, outputs, hview, rfl⟩ := viewStep_cases hstep
  have htransition := View.transition_of_step hview
  intro _ hphase
  rw [(applyOutputs_keepsRunLoop cfg _ _ _).currView] at hphase
  rcases htransition.saves with hnone | hsaves
  · rw [applyOutputs_inFlight _ _ hnone]
    exact h hlive (htransition.phase_proposed hnone hphase)
  · cases hsaves with
    | prepared => simp [View.finishPrepares] at hphase
    | @proposed _ pp proposal prepare md rest hpc hpp hproposal hmd hnumber hseq hprepare
        haccepted hrest =>
        have hstored : ({ nd with currView := view }.save (.proposedRecord pp
            prepare)).persisted.inFlight = some { proposal := proposal } := by
          simp [save, PersistedState.save, PersistedState.storeProposal, hproposal, Except.map,
            PersistedState.append, InFlightData.storeProposal]
        refine applyOutputs_cons (motive := fun last => last.persisted.inFlight.isSome = true)
          (by rw [applyOutput, hstored]; rfl) fun _ => ?_
        rw [applyOutputs_inFlight _ _ (fun m hm => by simpa using hrest _ hm), applyOutput, hstored]
        rfl

theorem boot {entries : List SavedMessage} {checkpoint : Decision}
    (h : Node.boot cfg entries checkpoint = .ok nd) : nd.RecordKept := by
  obtain ⟨md, start, leader, v, inFlight, -, -, -, hrestored, rfl⟩ := boot_ok h
  intro _ hphase
  have hrestoredPhase : v.phase = .proposed := (v.catchUp_phase ..).symm.trans hphase
  cases hrestored with
  | nothing => simp at hrestoredPhase
  | proposed => rfl
  | prepared => rfl

theorem step (hlog : LogInvariant cfg nd) (h : nd.RecordKept) {input : NodeInput}
    (hkeeps : nd.keepsInFlight input = true) (hstep : nd.step cfg input = some nd') :
    nd'.RecordKept := by
  obtain ⟨-, -, htransition⟩ := step_transition hstep
  have hreact := react_of_step hstep
  obtain ⟨verifier, event⟩ := input
  obtain ⟨hstarted, -, hsteps⟩ := step_steps hstep
  by_cases hcrash : event = .crash
  · subst hcrash
    cases hsteps with
    | down text => simp [RecordKept, panic]
    | restarted hboot =>
      have hrestarted := boot hboot
      exact hrestarted
  have hlive := hstarted.resolve_right hcrash
  by_cases hview : ∃ event', event = .view event'
  · obtain ⟨event, rfl⟩ := hview
    exact h.viewStep hlive hreact
  have hview : ∀ event', event ≠ .view event' := fun event' heq => hview ⟨event', heq⟩
  intro _ hproposed
  have hphase := phase_of_transition htransition hview hcrash hproposed
  by_cases hfetched : ∃ response, event = .controller (.fetched response)
  · obtain ⟨response, rfl⟩ := hfetched
    cases hsteps with
    | controller hsteps =>
      cases hsteps with
      | fetched _ hpc =>
        rw [fetched_inFlight hpc hphase hkeeps]
        exact h hlive hphase
  · rw [hsteps.inFlight hlog hview hcrash fun response heq => hfetched ⟨response, heq⟩]
    exact h hlive hphase

end Node.RecordKept

theorem LogInvariant.record {cfg : Config} {nd : Node} (h : LogInvariant cfg nd)
    (hlive : nd.panicked = none) (hphase : nd.currView.phase = .proposed) {proposal : Proposal}
    (hproposal : nd.currView.inFlightProposal = some proposal) :
    nd.persisted.inFlight = none ∨ nd.persisted.inFlight = some { proposal := proposal } := by
  obtain ⟨pp, prepare, hhead, hnone, hcarries, -⟩ := (h.view hlive).proposed hphase
  have hshape := h.shape
  generalize nd.persisted = persisted at hshape hhead hnone ⊢
  cases hshape with
  | empty => exact .inl rfl
  | @proposed inFlight other _ _ _ hrecord _ hinFlight =>
    simp only [List.head?_cons, Option.some.injEq, SavedMessage.proposedRecord.injEq] at hhead
    obtain ⟨rfl, -⟩ := hhead
    have hsame : other = proposal :=
      Option.some.inj (hrecord.carries.symm.trans (hcarries.trans hproposal))
    cases inFlight with
    | none => exact .inl rfl
    | some data =>
      obtain rfl := hinFlight data rfl
      exact .inr (by rw [hsame])
  | @prepared _ _ _ _ commit => exact absurd (by simp) (hnone commit)

def Node.RecordsCommit (cfg : Config) (nd nd' : Node) : Prop :=
  ∃ proposal commit, nd.currView.inFlightProposal = some proposal ∧
    commit.digest = cfg.digest proposal ∧
    nd.persisted.inFlight = some { proposal := proposal } ∧
    nd'.persisted.inFlight = some { proposal := proposal, prepared := true } ∧
    nd'.trace = .save (.commit commit) :: nd.trace ∧ nd'.panicked = none

/--
At the end of `processPrepares`, at any point of any run: the commit is recorded against the
proposal that it votes for, or the record is empty, the node panics and the commit is not
saved.  If no sync of the run has cleared the record of a view that had accepted a proposal,
the commit is recorded.
-/
theorem commit_meets_proposal {cfg : Config} {checkpoint : Decision} {start nd nd' : Node}
    {inputs : List NodeInput} {verifier : Verifier} {voterIDs : List Nat}
    (hboot : Node.boot cfg [] checkpoint = .ok start)
    (hrun : run (Node.step cfg) start inputs = some nd)
    (hpc : nd.currView.pc = .select (.processPrepares voterIDs))
    (hstep : nd.step cfg ⟨verifier, .view .finish⟩ = some nd') :
    (nd.RecordsCommit cfg nd' ∨ nd.persisted.inFlight = none ∧ nd'.trace = nd.trace ∧
      nd'.panicked = some "stored prepares but proposal is not initialized") ∧
    (StepsMeet (Node.step cfg) (fun nd input => nd.keepsInFlight input = true) start inputs →
      nd.RecordsCommit cfg nd') := by
  have hlive : nd.panicked = none := (Node.step_transition hstep).1.resolve_right (by simp)
  have hlog := LogInvariant.reachable hboot hrun
  have hphase : nd.currView.phase = .proposed :=
    (hlog.view hlive).loop .proposed (by simp [hpc, ViewPc.loopPhase])
  simp only [Node.step, Option.ite_none_left_eq_some] at hstep
  obtain ⟨view, outputs, hview, rfl⟩ := Node.viewStep_cases hstep.2.2
  cases View.transition_of_step hview with
  | decided hpc' => simp [hpc] at hpc'
  | @prepared voters proposal hpc' hproposal henough =>
    rw [View.finishPrepares, Node.applyOutputs_save]
    rcases hlog.record hlive hphase hproposal with hpruned | hrecord
    · refine ⟨.inr ⟨hpruned, ?_⟩, fun hmeets => ?_⟩
      · rw [Node.save_commit_empty hpruned]
        exact ⟨rfl, rfl⟩
      · have hkept := @run_invariant_of_steps_meet _ _ (Node.step cfg)
          (fun nd input => nd.keepsInFlight input = true)
          (fun nd => LogInvariant cfg nd ∧ nd.RecordKept)
          (fun _ _ _ h hkeeps hstep => ⟨h.1.step hstep, .step h.1 h.2 hkeeps hstep⟩)
          _ _ _ ⟨.boot_empty hboot, .boot hboot⟩ hmeets hrun
        have hsome := hkept.2 hlive hphase
        simp [hpruned] at hsome
    · rw [Node.save_commit_stored hrecord]
      refine ⟨.inl ?_, fun _ => ?_⟩ <;>
        exact ⟨proposal, _, hproposal, rfl, hrecord, rfl, rfl, hlive⟩

/-! ## A sync before the commit -/

def countPrepares : List NodeEvent :=
  let prepare : Message := .prepare { view := 0, seq := 1, digest := "seven" }
  acceptFirst [7] ++ viewReceives 1 prepare ++ [.view .prepareVote] ++
    viewReceives 3 prepare ++ [.view .prepareVote]

def syncToFirst : List NodeEvent :=
  [.requestSync, .controller (.sync { proposal := firstProposal [7] } false),
    .controller (.fetched none)]

def syncToGenesis : List NodeEvent :=
  [.requestSync, .controller (.sync { proposal := { metadata := some (.marshal {}) } } false),
    .controller (.fetched none)]

/-- A sync that brings nothing new keeps the record, and the commit is recorded. -/
theorem commit_meets_first_proposal :
    ∃ nd nd', run (Node.step (clusterOfFour 2)) (nodeOfFour 2)
        (accepting (countPrepares ++ syncToGenesis)) = some nd ∧
      nd.step (clusterOfFour 2) ⟨acceptingVerifier, .view .finish⟩ = some nd' ∧
      nd.RecordsCommit (clusterOfFour 2) nd' :=
  ⟨_, _, Option.eq_some_of_isSome (by decide +kernel), Option.eq_some_of_isSome (by decide +kernel),
    (commit_meets_proposal (boot_nodeOfFour 2) (Option.eq_some_of_isSome _)
      (by decide +kernel : _ = ViewPc.select (.processPrepares [1, 3]))
      (Option.eq_some_of_isSome _)).2 (by decide +kernel)⟩

/--
The sync clears the in-flight record after the view has counted its prepares and before it
saves its commit.
-/
theorem prune_crashes_commit :
    ∃ nd nd', run (Node.step (clusterOfFour 2)) (nodeOfFour 2)
        (accepting (countPrepares ++ syncToFirst)) = some nd ∧
      nd.currView.pc = .select (.processPrepares [1, 3]) ∧ nd.persisted.inFlight = none ∧
      nd.step (clusterOfFour 2) ⟨acceptingVerifier, .view .finish⟩ = some nd' ∧
      nd'.panicked = some "stored prepares but proposal is not initialized" :=
  ⟨_, _, Option.eq_some_of_isSome (by decide +kernel), by decide +kernel, by decide +kernel,
    Option.eq_some_of_isSome (by decide +kernel), by decide +kernel⟩

end SmartBFT
