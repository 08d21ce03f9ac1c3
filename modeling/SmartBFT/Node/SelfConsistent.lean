import SmartBFT.Node.Delivery
import SmartBFT.Node.Reports

/-!
# Is the view data of a node consistent with itself?

`prepareViewDataMsg` reads the last decision, the in-flight record and its flag one after the
other, while the other goroutines go on.  `getInFlight` leaves out an in-flight proposal that
is decided, and one that is one behind if the view changer remembers that it has delivered the
last decision itself.  It reports all others: a record that was overtaken in any other way
makes view data that does not pass `ValidateInFlight` (`viewData_overtaken`).
`viewData_selfConsistent_iff` says when it does.
-/

namespace SmartBFT

open SmartBFT.Foundation

/-- The view data passes `ValidateInFlight` against its own last decision. -/
def ViewData.SelfConsistent (vd : ViewData) : Prop :=
  validateInFlight vd.inFlightProposal (vd.lastSequence.getD 0) = .ok ()

instance (vd : ViewData) : Decidable vd.SelfConsistent :=
  inferInstanceAs (Decidable (_ = _))

/-- The sequence of the in-flight record is the one after the last decision, or the last
decision is not genesis and the record is at its sequence, or one behind it and the view changer
remembers that it has delivered the last decision. -/
def Node.RecordFits (nd : Node) (lastDecision : Decision) : Prop :=
  ∀ data ∈ nd.persisted.inFlight,
    let sequence := Decision.sequence { proposal := data.proposal }
    sequence = nextSequence lastDecision.sequence ∨
      lastDecision.proposal.metadata ≠ none ∧ (sequence = lastDecision.sequence ∨
        sequence + 1 = lastDecision.sequence ∧
          nd.viewChanger.committedDuringViewChange.map ViewMetadata.latestSequence =
            some lastDecision.sequence)

/-! ## What `getInFlight` reports -/

theorem validateInFlight_iff {proposal : Proposal} {md : ViewMetadata}
    (hmd : proposal.HasMetadata md) (lastSequence : Nat) :
    validateInFlight (some proposal) lastSequence = .ok () ↔
      md.latestSequence = nextSequence lastSequence := by
  constructor
  · intro h
    obtain ⟨md', hmd', hnext⟩ := validateInFlight_ok h proposal rfl
    rw [hmd.unique hmd', hnext]
  · intro hnext
    obtain ⟨raw, hraw, hreading⟩ := hmd
    simp [validateInFlight, hraw, hreading, hnext]

namespace Node

variable {cfg : Config} {verifier : Verifier} {nd nd' : Node}

theorem selfConsistent_iff {lastDecision : Decision} {inFlight : Option Proposal}
    (hread : getInFlight nd.persisted.inFlight lastDecision.proposal
      nd.viewChanger.committedDuringViewChange = .ok inFlight) :
    (nd'.viewDataOf lastDecision inFlight).SelfConsistent ↔ nd.RecordFits lastDecision := by
  have hlast : (nd'.viewDataOf lastDecision inFlight).lastSequence.getD 0 =
      lastDecision.sequence := by
    cases hmd : lastDecision.proposal.unmarshalMetadata <;>
      simp [viewDataOf, ViewData.lastSequence, Decision.sequence, hmd]
  unfold ViewData.SelfConsistent RecordFits
  rw [hlast]
  simp only [viewDataOf]
  cases hdata : nd.persisted.inFlight with
  | none =>
    rw [hdata] at hread
    have hnone : inFlight = none := by
      simpa [getInFlight, InFlightData.inFlightProposal] using (Except.ok.inj hread).symm
    simp [hnone, validateInFlight]
  | some data =>
    rw [hdata] at hread
    obtain ⟨md, hmd, hcases⟩ := getInFlight_cases hread
    have hsequence : Decision.sequence { proposal := data.proposal } = md.latestSequence := by
      simp [Decision.sequence, hmd.unmarshal]
    simp only [Option.mem_some_iff, forall_eq', hsequence]
    rcases hcases with ⟨hgenesis, rfl⟩ | ⟨last, hlast, hreported⟩
    · simp [validateInFlight_iff hmd, hgenesis]
    · have hlastSequence : lastDecision.sequence = last.latestSequence := by
        simp [Decision.sequence, hlast.unmarshal]
      obtain ⟨raw, hraw, -⟩ := hlast
      simp only [hlastSequence, hraw, ne_eq, reduceCtorEq, not_false_eq_true, true_and]
      split at hreported <;> rename_i hleft <;> rw [hreported]
      · simp only [validateInFlight, true_iff]
        exact .inr hleft
      · rw [validateInFlight_iff hmd]
        exact (or_iff_left hleft).symm

/-! ## One call of `prepareViewDataMsg` -/

theorem step_readInFlight {lastDecision : Decision} {purpose : ViewDataFor}
    (hpc : nd.viewChanger.pc = .readInFlight lastDecision purpose)
    (h : nd.step cfg ⟨verifier, .viewChanger .readInFlight⟩ = some nd') :
    nd'.viewChanger.pc = .readInFlight lastDecision purpose ∨
      ∃ inFlight, getInFlight nd.persisted.inFlight lastDecision.proposal
          nd.viewChanger.committedDuringViewChange = .ok inFlight ∧
        nd'.viewChanger.pc = .readPrepared lastDecision inFlight purpose := by
  simp only [step, Option.ite_none_left_eq_some, react, viewChangerStep, hpc, if_true,
    readInFlight] at h
  obtain ⟨-, -, h⟩ := h
  split at h <;> obtain rfl := Option.some.inj h
  · exact .inl hpc
  · exact .inl hpc
  · rename_i inFlight hread
    exact .inr ⟨inFlight, hread, rfl⟩

theorem readPrepared_builds (verifier : Verifier) (h : nd.readPrepared cfg = some nd') :
    ∃ lastDecision inFlight purpose,
      nd.viewChanger.pc = .readPrepared lastDecision inFlight purpose ∧
      .viewData purpose (nd.viewDataOf lastDecision inFlight) ∈ nd'.trace := by
  unfold readPrepared at h
  split at h
  · rename_i lastDecision inFlight purpose hpc
    refine ⟨lastDecision, inFlight, purpose, hpc, ?_⟩
    have hawake : nd.Awake := awake_of_pc (hpc ▸ rfl)
    have hrecorded : .viewData purpose (nd.viewDataOf lastDecision inFlight) ∈
        (nd.record (.viewData purpose (nd.viewDataOf lastDecision inFlight))).trace :=
      List.mem_cons_self
    have hkept : ∀ mid, ViewChangerEffect cfg verifier false false
        (nd.record (.viewData purpose (nd.viewDataOf lastDecision inFlight))) mid →
        .viewData purpose (nd.viewDataOf lastDecision inFlight) ∈ mid.trace :=
      fun mid heffect => heffect.quiet.trace_subset hrecorded
    split at h <;> obtain rfl := Option.some.inj h
    · exact hkept _ (effect_sendViewData .refl (by exact hawake) _)
    · exact hkept _ (effect_sendNewView .refl (by exact hawake) _)
  · simp at h

theorem step_readPrepared (h : nd.step cfg ⟨verifier, .viewChanger .readPrepared⟩ = some nd') :
    nd.readPrepared cfg = some nd' := by
  simp only [step, Option.ite_none_left_eq_some, react, viewChangerStep] at h
  obtain ⟨-, -, h⟩ := h
  split at h
  all_goals simp_all [viewChangerSelect, waitInFlightStep]

theorem run_others_pc {inputs : List NodeInput}
    (hothers : ∀ input ∈ inputs,
      input.event ≠ .crash ∧ ∀ event, input.event ≠ .viewChanger event)
    (hrun : run (step cfg) nd inputs = some nd') :
    nd'.viewChanger.pc = nd.viewChanger.pc := by
  induction inputs generalizing nd with
  | nil =>
    obtain rfl := Option.some.inj hrun
    rfl
  | cons input inputs ih =>
    obtain ⟨mid, hstep, hrest⟩ := run_cons hrun
    obtain ⟨hcrash, hown⟩ := hothers input List.mem_cons_self
    simp only [step, Option.ite_none_left_eq_some] at hstep
    rw [ih (fun other hother => hothers other (List.mem_cons_of_mem _ hother)) hrest,
      (react_keepsViews hstep.2.2 hcrash hown).pc]

end Node

/--
One call of `prepareViewDataMsg`, in any state: the last decision was read, the in-flight
record is read in state `nd`, and after any steps of the other goroutines the flag is read.
The view data that is then built passes `ValidateInFlight` against its own last decision
exactly if the record was at the sequence of the last decision or the next one, or one behind
a last decision that the view changer remembers.
-/
theorem viewData_selfConsistent_iff {cfg : Config} {nd mid nd' built : Node}
    {others : List NodeInput} {verifier verifier' : Verifier} {lastDecision : Decision}
    {purpose : ViewDataFor} (hpc : nd.viewChanger.pc = .readInFlight lastDecision purpose)
    (hread : nd.step cfg ⟨verifier, .viewChanger .readInFlight⟩ = some mid)
    (hothers : ∀ input ∈ others,
      input.event ≠ .crash ∧ ∀ event, input.event ≠ .viewChanger event)
    (hmeanwhile : run (Node.step cfg) mid others = some nd')
    (hbuild : nd'.step cfg ⟨verifier', .viewChanger .readPrepared⟩ = some built) :
    ∃ vd, .viewData purpose vd ∈ built.trace ∧
      vd.lastDecision = some lastDecision.proposal ∧
      (vd.SelfConsistent ↔ nd.RecordFits lastDecision) := by
  have hkept := Node.run_others_pc hothers hmeanwhile
  obtain ⟨last, inFlight, why, hready, hbuilt⟩ :=
    Node.readPrepared_builds verifier' (Node.step_readPrepared hbuild)
  rcases Node.step_readInFlight hpc hread with hpanicked | ⟨found, hfound, hfilled⟩
  · rw [hkept, hpanicked] at hready
    simp at hready
  · rw [hkept, hfilled, ViewChangerPc.readPrepared.injEq] at hready
    obtain ⟨rfl, rfl, rfl⟩ := hready
    exact ⟨_, hbuilt, rfl, Node.selfConsistent_iff hfound⟩

/-! ## Node `4` of four -/

def stopAndJoin (view : Nat) (stopped : List NodeEvent) : List NodeEvent :=
  [.viewChanger (.msg 1 (.viewChange view)), .viewChanger (.msg 3 (.viewChange view)),
    .viewChanger .abortSent, .controller .abortView] ++ stopped ++
    [.controller .viewEnded, .viewChanger .abortSent]

def joinAccepted : List NodeInput :=
  accepting (acceptFirst [7] ++ stopAndJoin 1 [.view .abort, .view .abort])

theorem viewData_selfConsistent_first :
    ∃ nd built vd, run (Node.step (clusterOfFour 4)) (nodeOfFour 4) joinAccepted = some nd ∧
      run (Node.step (clusterOfFour 4)) nd (accepting [.viewChanger .readInFlight, .requestSync,
        .viewChanger .readPrepared]) = some built ∧
      .viewData .leader vd ∈ built.trace ∧ vd.SelfConsistent := by
  have hreached : (run (Node.step (clusterOfFour 4)) (nodeOfFour 4) joinAccepted).any
      (fun nd => decide (nd.viewChanger.pc = .readInFlight {} .leader ∧
        nd.persisted.inFlight = some { proposal := firstProposal [7] } ∧
        (run (Node.step (clusterOfFour 4)) nd (accepting [.viewChanger .readInFlight,
          .requestSync, .viewChanger .readPrepared])).isSome)) = true := by
    decide +kernel
  obtain ⟨nd, hrun, hpc, hrecord, hbuilt⟩ := exists_of_any hreached
  obtain ⟨built, hbuilt⟩ := Option.isSome_iff_exists.mp hbuilt
  have hsteps := hbuilt
  simp only [accepting, List.map_cons, List.map_nil] at hsteps
  obtain ⟨mid, hread, hrest⟩ := run_cons hsteps
  obtain ⟨nd', hmeanwhile, hlast⟩ := run_cons hrest
  obtain ⟨_, hbuild, hend⟩ := run_cons hlast
  obtain rfl := Option.some.inj hend
  have hothers : run (Node.step (clusterOfFour 4)) mid (accepting [.requestSync]) = some nd' := by
    simp [accepting, run, hmeanwhile]
  obtain ⟨vd, hvd, -, hconsistent⟩ := viewData_selfConsistent_iff hpc hread
    (by simp [accepting]) hothers hbuild
  refine ⟨nd, _, vd, hrun, hbuilt, hvd, hconsistent.mpr ?_⟩
  intro data hdata
  rw [hrecord] at hdata
  obtain rfl := Option.some.inj hdata
  exact .inl rfl

def secondDecision : Decision where
  proposal := { payload := [8], metadata := some (.marshal
    { latestSequence := 2, decisionsInView := 1 }) }
  signatures := [1, 2, 3].map fun signer => { signer := signer }

def newViewAfterSecond : Message :=
  .newView ([1, 2, 3].map fun signer => ⟨.marshal {
    nextView := 1
    lastDecision := some secondDecision.proposal
    lastDecisionSignatures := secondDecision.signatures }, signer, []⟩)

def learnSecond : List NodeInput :=
  accepting (decideFirst ++ deliverNext ++
    stopAndJoin 1 [.view .abort] ++ [.viewChanger .readInFlight, .viewChanger .readPrepared,
      .viewChanger (.msg 2 newViewAfterSecond), .viewChanger .validate,
      .viewChanger (.deliver {}), .viewChanger .validate, .viewChanger .viewChangedSent,
      .controller .viewChange, .controller .viewEnded, .controller .abortView] ++
    stopAndJoin 2 [.view .abort] ++ [.viewChanger .readInFlight, .viewChanger .readPrepared])

/-- The first proposal is reported as in flight, next to the second decision. -/
theorem viewData_overtaken :
    Node.boot (clusterOfFour 4) [] {} = .ok (nodeOfFour 4) ∧
    ∃ nd vd, run (Node.step (clusterOfFour 4)) (nodeOfFour 4) learnSecond = some nd ∧
      .viewData .leader vd ∈ nd.trace ∧ vd.nextView = 2 ∧
      vd.lastDecision = some secondDecision.proposal ∧ vd.lastSequence = some 2 ∧
      vd.inFlightProposal = some (firstProposal [7]) ∧ ¬ vd.SelfConsistent :=
  ⟨rfl, _, ⟨2, some secondDecision.proposal, secondDecision.signatures,
    some (firstProposal [7]), true⟩, Option.eq_some_of_isSome (by decide +kernel),
    by decide +kernel⟩

end SmartBFT
