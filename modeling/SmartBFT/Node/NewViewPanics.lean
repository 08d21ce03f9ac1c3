import SmartBFT.Node.Delivery
import SmartBFT.Node.Install

/-!
# The panics of `processNewViewMsg`

`extractViewDataMessages` and `CheckInFlight` panic on view data that `validateNewViewMsg`
would reject.  But the validation skips the entries of a signer that it has seen already, so
that nothing is known of these; and `commitInFlightProposal` panics if the proposal that was
agreed on is not of the sequence of the checkpoint or of the next one, which no check ensures
when the entries are behind this node, or when skipped ones are ahead of it.  A skipped entry
can even have the greatest `uint64` as its last sequence, and the expected one is `0` then.

`new_view_step_panics_iff` says that there are no other panics.
-/

namespace SmartBFT

open Foundation Relation

/-! ## What `CheckInFlight` can read -/

def ViewData.checkable (vd : ViewData) : Bool :=
  vd.lastDecision.any (fun lastDecision => lastDecision.unmarshalMetadata.isSome) &&
    vd.inFlightProposal.all fun proposal => proposal.metadata.any fun raw => raw.reading.isSome

def SignedViewData.checkable (svd : SignedViewData) : Bool :=
  svd.rawViewData.reading.any ViewData.checkable

def skippedEntries (signed : List SignedViewData) : List SignedViewData :=
  signed.filter fun svd => decide (svd ∉ firstBy SignedViewData.signer signed [])

theorem maxLastDecisionSequence_ok_iff (messages : List ViewData) :
    (∃ latest, maxLastDecisionSequence messages = .ok latest) ↔
      ∀ vd ∈ messages,
        vd.lastDecision.any (fun lastDecision => lastDecision.unmarshalMetadata.isSome) =
          true := by
  induction messages with
  | nil => simp [maxLastDecisionSequence]
  | cons vd messages ih =>
    rw [List.forall_mem_cons, ← ih]
    cases hlast : vd.lastDecision with
    | none => simp [maxLastDecisionSequence, hlast]
    | some lastDecision =>
      cases hmd : lastDecision.unmarshalMetadata with
      | none =>
        obtain ⟨failure, herror⟩ := maxLastDecisionSequence_unreadable hlast hmd messages
        simp [herror, hmd]
      | some md =>
        rw [maxLastDecisionSequence_cons hlast hmd]
        cases maxLastDecisionSequence messages <;> simp [Except.map, hmd]

theorem collectInFlight_ok_iff (expectedSequence : Nat) (messages : List ViewData)
    (tally : InFlightTally) :
    (∃ result, collectInFlight expectedSequence messages tally = .ok result) ↔
      ∀ vd ∈ messages, (vd.inFlightProposal.all fun proposal =>
        proposal.metadata.any fun raw => raw.reading.isSome) = true := by
  induction messages generalizing tally with
  | nil => simp [collectInFlight]
  | cons vd messages ih =>
    rw [List.forall_mem_cons]
    cases hproposal : vd.inFlightProposal with
    | none => simp only [collectInFlight, hproposal, ih, Option.all_none, true_and]
    | some proposal =>
      cases hmetadata : proposal.metadata with
      | none => simp [collectInFlight, hproposal, hmetadata]
      | some raw =>
        cases hreading : raw.reading with
        | none => simp [collectInFlight, hproposal, hmetadata, hreading]
        | some md =>
          simp only [collectInFlight, hproposal, hmetadata, hreading]
          split <;> simp [ih, hmetadata, hreading]

theorem checkInFlight_returns_iff (messages : List ViewData) (f quorum : Nat) :
    (∃ result, checkInFlight messages f quorum = .ok result) ↔
      ∀ vd ∈ messages, vd.checkable = true := by
  have hmax := maxLastDecisionSequence_ok_iff messages
  simp only [ViewData.checkable, Bool.and_eq_true, forall_and]
  rw [← hmax]
  cases hlatest : maxLastDecisionSequence messages with
  | error failure => simp [checkInFlight, hlatest]
  | ok latest =>
    rw [← collectInFlight_ok_iff (nextSequence latest) messages {}]
    simp only [checkInFlight, hlatest]
    cases collectInFlight (nextSequence latest) messages {} with
    | error failure => simp
    | ok tally =>
      simp only [Except.ok.injEq, exists_eq', and_self, iff_true]
      split
      · exact ⟨_, rfl⟩
      · split <;> exact ⟨_, rfl⟩

theorem extractViewDataMessages_checkable (signed : List SignedViewData) :
    (∃ messages, extractViewDataMessages signed = some messages ∧
      ∀ vd ∈ messages, vd.checkable = true) ↔ ∀ svd ∈ signed, svd.checkable = true := by
  induction signed with
  | nil => simp [extractViewDataMessages]
  | cons svd signed ih =>
    rw [List.forall_mem_cons, ← ih, extractViewDataMessages_cons]
    cases hreading : svd.rawViewData.reading with
    | none => simp [SignedViewData.checkable, hreading]
    | some vd =>
      cases extractViewDataMessages signed with
      | none => simp
      | some rest => simp [SignedViewData.checkable, hreading]

theorem checkNewView_panics_iff (f quorum : Nat) (checkpoint : Decision)
    (signed : List SignedViewData) :
    (∀ failure, checkNewView f quorum checkpoint signed ≠ .panic failure) ↔
      ∀ svd ∈ signed, svd.checkable = true := by
  rw [← extractViewDataMessages_checkable]
  unfold checkNewView
  cases extractViewDataMessages signed with
  | none => simp
  | some messages =>
    simp only [Option.some.injEq, exists_eq_left']
    rw [← checkInFlight_returns_iff messages f quorum]
    cases checkInFlight messages f quorum with
    | error failure => simp
    | ok result =>
      simp only [Except.ok.injEq, exists_eq', iff_true]
      intro failure
      split <;> simp

theorem checkable_of_counted {verifier : Verifier} {currView quorum mySequence : Nat}
    {myLastDecision : Proposal} {svd : SignedViewData}
    (h : judgeEntry verifier currView quorum mySequence myLastDecision svd = .counted) :
    svd.checkable = true := by
  obtain ⟨vd, lastDecision, md, hvd, -, hlast, hmd, -, hinFlight, -⟩ := judgeEntry_counted h
  have hproposal : (vd.inFlightProposal.all fun proposal =>
      proposal.metadata.any fun raw => raw.reading.isSome) = true := by
    cases hcase : vd.inFlightProposal with
    | none => rfl
    | some proposal =>
      obtain ⟨md, ⟨raw, hraw, hreading⟩, -⟩ := validateInFlight_ok hinFlight proposal hcase
      simp [hraw, hreading]
  simp [SignedViewData.checkable, ViewData.checkable, hvd, hlast, hmd, hproposal]

theorem checkable_iff_of_valid {verifier : Verifier} {currView quorum : Nat}
    {checkpoint : Decision} {signed : List SignedViewData}
    (h : validateNewViewMsg verifier currView quorum checkpoint signed = .ok .valid) :
    (∀ svd ∈ signed, svd.checkable = true) ↔
      ∀ svd ∈ skippedEntries signed, svd.checkable = true := by
  obtain ⟨mySequence, -, -, hcounted⟩ := validateNewViewMsg_valid h
  constructor
  · exact fun hall svd hsvd => hall svd (List.mem_filter.mp hsvd).1
  · intro hskipped svd hsvd
    by_cases hfirst : svd ∈ firstBy SignedViewData.signer signed []
    · exact checkable_of_counted (hcounted svd hfirst)
    · exact hskipped svd (List.mem_filter.mpr ⟨hsvd, decide_eq_true hfirst⟩)

/-! ## The steps of `processNewViewMsg` -/

def ViewChangerPc.inNewView : ViewChangerPc → Bool
  | .validate _ _ => true
  | .deliver _ (.newView _ _ _ _ _) => true
  | .commitInFlight _ _ _ => true
  | .waitInFlight _ => true
  | .abortInFlight _ _ => true
  | .sendViewChanged _ _ _ => true
  | _ => false

/-- The view changer takes a new view message of the expected leader, or it is processing
one. -/
inductive Node.HandlesNewView (cfg : Config) (nd : Node) : ViewChangerEvent → Prop where
  | takes {leader : Nat} (signed : List SignedViewData) (hpc : nd.viewChanger.pc = .select)
      (hleader : nd.nextLeader cfg = some leader) :
      HandlesNewView cfg nd (.msg leader (.newView signed))
  | processes (event : ViewChangerEvent) (hpc : nd.viewChanger.pc.inNewView = true) :
      HandlesNewView cfg nd event

/-- The in-flight proposal that the entries of the message can agree on, the skipped ones
included, is of the sequence of the checkpoint or of the next one; genesis accepts all. -/
def followsCheckpoint (checkpoint : Decision) (signed : List SignedViewData) : Bool :=
  checkpoint.proposal.metadata.isNone ||
    decide (nextSequence (highestLastSequence signed) = checkpoint.sequence) ||
    decide (nextSequence (highestLastSequence signed) = nextSequence checkpoint.sequence)

/-- A message that the validation accepts has no skipped entry that is not checkable, and when
its in-flight proposal is to be committed, it follows the checkpoint. -/
def Node.newViewSound (cfg : Config) (verifier : Verifier) (nd : Node) : Bool :=
  match nd.viewChanger.pc with
  | .validate signed _ =>
    decide (validateNewViewMsg verifier nd.viewChanger.currView cfg.quorum nd.checkpoint
      signed ≠ .ok .valid) || (skippedEntries signed).all SignedViewData.checkable
  | .commitInFlight signed _ _ => followsCheckpoint nd.checkpoint signed
  | _ => true

namespace Node

variable {cfg : Config} {verifier : Verifier} {nd nd' : Node}

theorem planInFlight_panics_iff {checkpoint : Decision} {proposal : Proposal}
    {signed : List SignedViewData} {md : ViewMetadata}
    (hmd : proposal.unmarshalMetadata = some md)
    (hsequence : md.latestSequence = nextSequence (highestLastSequence signed))
    (hreadable : ∃ md, checkpoint.proposal.unmarshalMetadata = some md) :
    (∀ text, planInFlight checkpoint proposal ≠ .panic text) ↔
      followsCheckpoint checkpoint signed = true := by
  obtain ⟨last, hlast⟩ := hreadable
  cases hmetadata : checkpoint.proposal.metadata with
  | none => simp [planInFlight, followsCheckpoint, hmd, hmetadata]
  | some raw =>
    have hreading : raw.reading = some last := by
      simpa [Proposal.unmarshalMetadata, hmetadata] using hlast
    simp only [planInFlight, followsCheckpoint, sequence_of_metadata hlast, hmd, hmetadata,
      hreading, Option.isNone_some, Bool.false_or, Bool.or_eq_true, decide_eq_true_eq,
      ← hsequence]
    by_cases hsame : last.latestSequence = md.latestSequence
    · simp only [if_pos hsame]
      refine iff_of_true (fun text => ?_) (.inl hsame.symm)
      split <;> simp
    · by_cases hnext : nextSequence last.latestSequence = md.latestSequence
      · simp only [if_neg hsame, if_pos hnext]
        exact iff_of_true (by simp) (.inr hnext.symm)
      · simp only [if_neg hsame, if_neg hnext]
        exact iff_of_false (by simp) (not_or.mpr ⟨Ne.symm hsame, Ne.symm hnext⟩)

theorem extractCurrentSequence_of_readable (h : ∃ md, nd.checkpointMetadata = some md) :
    ∃ mySequence, extractCurrentSequence nd.checkpoint = .ok mySequence := by
  obtain ⟨md, hmd⟩ := h
  cases hmetadata : nd.checkpoint.proposal.metadata with
  | none => exact ⟨0, by simp [extractCurrentSequence, hmetadata]⟩
  | some raw =>
    have hreading : raw.reading = some md := by
      simpa [checkpointMetadata, Proposal.unmarshalMetadata, hmetadata] using hmd
    exact ⟨md.latestSequence, by simp [extractCurrentSequence, hmetadata, hreading]⟩

theorem sync_panicked (cfg : Config) (nd : Node) : (nd.sync cfg).panicked = nd.panicked := by
  unfold sync
  split <;> rfl

theorem finishNewView_panicked (nd : Node) (own : Bool) :
    (nd.finishNewView own).panicked = nd.panicked := by
  unfold finishNewView
  split <;> rfl

theorem saveNewView_panicked (hreadable : ∃ md, nd.checkpointMetadata = some md) (own : Bool) :
    (nd.saveNewView cfg own).panicked = nd.panicked := by
  obtain ⟨mySequence, hsequence⟩ := extractCurrentSequence_of_readable hreadable
  simp only [saveNewView, hsequence]
  split
  · rw [finishNewView_panicked]
    rfl
  · split <;> rfl

theorem deliver_panicked {decision : Decision} (answer : DeliverAnswer)
    (hdecision : decision.proposal.Positive)
    (hreadable : ∃ md, nd.checkpointMetadata = some md) :
    (nd.deliver decision answer).panicked = nd.panicked := by
  obtain ⟨pending, hpending, -⟩ := hdecision
  obtain ⟨latest, hlatest⟩ := hreadable
  simp only [deliver, hpending, hlatest]
  split <;> rfl

theorem validateStep_panics_iff (hlive : nd.panicked = none)
    (hreadable : ∃ md, nd.checkpointMetadata = some md)
    (h : nd.validateStep cfg verifier = some nd') :
    nd'.panicked = none ↔ nd.newViewSound cfg verifier = true := by
  unfold validateStep at h
  split at h
  · rename_i signed own hpc
    simp only [newViewSound, hpc, Bool.or_eq_true, decide_eq_true_eq, List.all_eq_true]
    obtain ⟨mySequence, hsequence⟩ := extractCurrentSequence_of_readable hreadable
    split at h <;> rename_i hverdict
    · simp [validateNewViewMsg, hsequence] at hverdict
    · obtain rfl := Option.some.inj h
      exact iff_of_true (by rw [finishNewView_panicked, hlive]) (.inl (by simp [hverdict]))
    · obtain rfl := Option.some.inj h
      exact iff_of_true (by rw [finishNewView_panicked, sync_panicked, hlive])
        (.inl (by simp [hverdict]))
    · obtain rfl := Option.some.inj h
      exact iff_of_true hlive (.inl (by simp [hverdict]))
    · have hpanics := checkNewView_panics_iff cfg.f cfg.quorum nd.checkpoint signed
      rw [checkable_iff_of_valid hverdict] at hpanics
      rw [← hpanics]
      simp only [hverdict, ne_eq, not_true_eq_false, false_or]
      split at h <;> rename_i hcheck
      · obtain rfl := Option.some.inj h
        exact iff_of_true (by rw [finishNewView_panicked, hlive]) (by simp [hcheck])
      · obtain rfl := Option.some.inj h
        exact iff_of_true (by rw [finishNewView_panicked, hlive]) (by simp [hcheck])
      · obtain rfl := Option.some.inj h
        exact iff_of_false (by simp [panic]) (by simp [hcheck])
      · refine iff_of_true ?_ (by simp [hcheck])
        split at h <;> obtain rfl := Option.some.inj h
        · rw [saveNewView_panicked hreadable, hlive]
        · exact hlive
  · simp at h

theorem deliverStep_panicked {answer : DeliverAnswer} {decision : Decision}
    {signed : List SignedViewData} {own : Bool} {svd : SignedViewData} {vd : ViewData}
    {sequence : Nat} (hpc : nd.viewChanger.pc = .deliver decision (.newView signed own svd vd
      sequence)) (hdecision : decision.proposal.Positive)
    (hreadable : ∃ md, nd.checkpointMetadata = some md)
    (h : nd.deliverStep cfg verifier answer = some nd') : nd'.panicked = nd.panicked := by
  have hdelivered := deliver_panicked answer hdecision hreadable
  simp only [deliverStep, hpc, Option.ite_none_left_eq_some] at h
  obtain ⟨-, h⟩ := h
  split at h <;> obtain rfl := Option.some.inj h
  · rw [finishNewView_panicked]
    exact hdelivered
  · exact hdelivered

theorem commitInFlight_panics_iff (hlive : nd.panicked = none)
    (hreadable : ∃ md, nd.checkpointMetadata = some md)
    (hpc : nd.viewChanger.pc.Readable) (h : nd.commitInFlight cfg = some nd') :
    nd'.panicked = none ↔ nd.newViewSound cfg verifier = true := by
  unfold commitInFlight at h
  split at h <;> rename_i heq
  · simp [heq, ViewChangerPc.Readable] at hpc
  · simp only [heq, ViewChangerPc.Readable, Option.mem_def, Option.some.injEq,
      exists_eq_left'] at hpc
    obtain ⟨md, hmd, hsequence⟩ := hpc
    simp only [newViewSound, heq]
    rw [← planInFlight_panics_iff hmd hsequence hreadable]
    split at h <;> rename_i hplan <;> obtain rfl := Option.some.inj h
    · exact iff_of_true (by rw [saveNewView_panicked hreadable, hlive]) (by simp [hplan])
    · exact iff_of_true (by rw [finishNewView_panicked, hlive]) (by simp [hplan])
    · exact iff_of_false (by simp [panic]) (by simp [hplan])
    · exact iff_of_true hlive (by simp [hplan])
  · simp at h

theorem waitInFlightStep_panicked {own : Bool} {event : ViewChangerEvent}
    (h : nd.waitInFlightStep cfg own event = some nd') : nd'.panicked = nd.panicked := by
  have htimedOut : (nd.timedOut cfg).panicked = nd.panicked := by
    unfold timedOut startViewChange
    simp only
    split <;> exact sync_panicked cfg _
  unfold waitInFlightStep at h
  repeat' split at h
  all_goals first
    | simp at h; done
    | exact Option.some.inj h ▸ rfl
    | exact Option.some.inj h ▸ htimedOut

theorem inFlightEnded_panicked (hreadable : ∃ md, nd.checkpointMetadata = some md)
    (h : nd.inFlightEnded cfg = some nd') : nd'.panicked = nd.panicked := by
  unfold inFlightEnded at h
  split at h
  · simp only [Option.ite_none_right_eq_some, Option.some.injEq] at h
    obtain ⟨-, rfl⟩ := h
    split
    · exact saveNewView_panicked hreadable _
    · exact finishNewView_panicked nd _
  · simp at h

theorem viewChangedSent_panicked (h : nd.viewChangedSent = some nd') :
    nd'.panicked = nd.panicked := by
  unfold viewChangedSent at h
  split at h
  · rw [← Option.some.inj h, finishNewView_panicked]
  · simp at h

theorem viewChangerStep_panics_iff {event : ViewChangerEvent} (hlive : nd.panicked = none)
    (hreadable : ∃ md, nd.checkpointMetadata = some md) (hpc : nd.viewChanger.pc.Readable)
    (hnewView : nd.viewChanger.pc.inNewView = true)
    (h : nd.viewChangerStep cfg verifier event = some nd') :
    nd'.panicked = none ↔ nd.newViewSound cfg verifier = true := by
  unfold viewChangerStep at h
  split at h <;> rename_i heq <;>
    simp only [heq, ViewChangerPc.inNewView, Bool.false_eq_true] at hnewView
  · have hkept := waitInFlightStep_panicked h
    exact iff_of_true (hkept.trans hlive) (by simp [newViewSound, heq])
  · rename_i decision purpose
    cases purpose with
    | viewData sender svd vd sequence => simp at hnewView
    | newView signed own svd vd sequence =>
      simp only [heq, ViewChangerPc.Readable] at hpc
      split at h
      · have hkept := deliverStep_panicked heq hpc hreadable h
        exact iff_of_true (hkept.trans hlive) (by simp [newViewSound, heq])
      · simp at h
  · exact validateStep_panics_iff hlive hreadable (Option.ite_none_right_eq_some.mp h).2
  · exact commitInFlight_panics_iff hlive hreadable hpc (Option.ite_none_right_eq_some.mp h).2
  · have hkept := inFlightEnded_panicked hreadable (Option.ite_none_right_eq_some.mp h).2
    exact iff_of_true (hkept.trans hlive) (by simp [newViewSound, heq])
  · have hkept := viewChangedSent_panicked (Option.ite_none_right_eq_some.mp h).2
    exact iff_of_true (hkept.trans hlive) (by simp [newViewSound, heq])

end Node

/--
At any point of any run: a step of `processNewViewMsg` on a message of the expected leader,
with a well-formed checkpoint, ends without a panic iff the message is sound at that point
(`newViewSound`).
-/
theorem new_view_step_panics_iff {cfg : Config} {entries : List SavedMessage}
    {checkpoint : Decision} {start nd nd' : Node} {inputs : List NodeInput}
    {verifier : Verifier} {event : ViewChangerEvent}
    (hboot : Node.boot cfg entries checkpoint = .ok start)
    (hrun : run (Node.step cfg) start inputs = some nd)
    (hhandles : nd.HandlesNewView cfg event)
    (hreadable : ∃ md, nd.checkpointMetadata = some md)
    (hstep : nd.step cfg ⟨verifier, .viewChanger event⟩ = some nd') :
    nd'.panicked = none ↔ nd.newViewSound cfg verifier = true := by
  have hlive : nd.panicked = none := (Node.step_transition hstep).1.resolve_right (by simp)
  have hpc := Node.run_readable hboot hrun
  simp only [Node.step, Option.ite_none_left_eq_some] at hstep
  obtain ⟨-, -, hreact⟩ := hstep
  have hreact : nd.viewChangerStep cfg verifier event = some nd' := hreact
  cases hhandles with
  | processes _ hnewView =>
    exact Node.viewChangerStep_panics_iff hlive hreadable hpc hnewView hreact
  | takes signed hselect hleader =>
    simp only [Node.viewChangerStep, hselect, Node.viewChangerSelect, Node.processNewView,
      hleader, ne_eq, not_true_eq_false, if_false, Option.some.injEq] at hreact
    subst hreact
    exact iff_of_true hlive (by simp [Node.newViewSound, hselect])

def entriesOf (vd : ViewData) : List SignedViewData :=
  [⟨.marshal vd, 2, []⟩, ⟨.marshal vd, 3, []⟩, ⟨.marshal vd, 4, []⟩]

/-- Node `3` has joined view `1` and takes the new view message of node `2`. -/
def takeNewView (signed : List SignedViewData) : List NodeInput :=
  accepting (joinViewOne ++ [.viewChanger (.msg 2 (.newView signed))])

/-- The message comes from three nodes at genesis, and the view is installed. -/
theorem new_view_accepted :
    ∃ nd nd', run (Node.step (clusterOfFour 3)) (nodeOfFour 3)
        (takeNewView (entriesOf genesisViewData)) = some nd ∧
      nd.viewChanger.pc = .validate (entriesOf genesisViewData) false ∧
      nd.step (clusterOfFour 3) ⟨acceptingVerifier, .viewChanger .validate⟩ = some nd' ∧
      nd'.viewChanger.pc = .sendViewChanged 1 1 false ∧ nd'.panicked = none :=
  ⟨_, _, Option.eq_some_of_isSome (by decide +kernel), by decide +kernel,
    Option.eq_some_of_isSome (by decide +kernel), by decide +kernel,
    (new_view_step_panics_iff (boot_nodeOfFour 3) (Option.eq_some_of_isSome _)
      (.processes _ (by decide +kernel)) ⟨{}, by decide +kernel⟩
      (Option.eq_some_of_isSome _)).mpr (by decide +kernel)⟩

def repeatedEntry : SignedViewData := ⟨⟨none, 0⟩, 2, []⟩

def behindViewData : ViewData where
  nextView := 1
  lastDecision := some { metadata := some (.marshal { latestSequence := 2 }) }
  inFlightProposal := some { metadata := some (.marshal { latestSequence := 3 }) }
  inFlightPrepared := true

/--
Two new view messages that make node `3` panic.  The first one has an entry with malformed
bytes and a signer that was seen before.  The second one comes to a node that has decided
sequence `6`, and its entries are behind: their signatures are not verified, and the proposal
that they agree on has sequence `3`.
-/
theorem new_view_crashes :
    (∃ nd, run (Node.step (clusterOfFour 3)) (nodeOfFour 3)
        (takeNewView (entriesOf genesisViewData ++ [repeatedEntry]) ++
          accepting [.viewChanger .validate]) = some nd ∧
      nd.panicked = some "the check of the in flight proposal failed" ∧
      nd.checkpointMetadata = some {}) ∧
    ∃ start nd, Node.boot (clusterOfFour 3) [] decisionSix = .ok start ∧
      run (Node.step (clusterOfFour 3)) start (takeNewView (entriesOf behindViewData) ++
        [⟨rejectingVerifier, .viewChanger .validate⟩,
          ⟨rejectingVerifier, .viewChanger .commitInFlight⟩]) = some nd ∧
      nd.panicked = some "got an in flight proposal with a sequence that is not the next one" ∧
      nd.checkpoint = decisionSix :=
  ⟨exists_of_any (by decide +kernel), _, _, rfl, Option.eq_some_of_isSome (by decide +kernel),
    by decide +kernel⟩

end SmartBFT
