import SmartBFT.Node.Coverage

/-!
# What a node has accepted is what it reports

The in-flight record of a node holds one proposal.  As long as the node accepts proposals for
the sequence after its checkpoint only, the same one each time, and a restart reads the record
back, a proposal for this sequence stays in the record (`HeldInvariant.held`).  View data that
is built from it then reports every proposal that the node has accepted in an earlier view and
that is not decided, and reports a proposal as prepared only if the node has saved a commit for
it (`ViewData.Reports`).
-/

namespace SmartBFT

open SmartBFT.Foundation

namespace Node

/-- The proposal that is taken up is for the sequence after the checkpoint, and its view is not
behind the view data that the node has built. -/
def acceptsNext (nd : Node) (input : NodeInput) : Bool :=
  (nd.takesUp input.event).all fun pp =>
    decide (pp.seq = nd.checkpoint.sequence + 1) && nd.trace.all fun
      | .viewData _ vd => decide (vd.nextView ≤ pp.view)
      | _ => true

/-- View data is built for a view that is ahead of those of all accepted proposals. -/
def reportsAhead (nd : Node) (input : NodeInput) : Bool :=
  match input.event with
  | .viewChanger .readPrepared => nd.trace.all fun
      | .save (.proposedRecord pp _) => decide (pp.view < nd.viewChanger.currView)
      | _ => true
  | _ => true

/-- A restart reads the proposal of the in-flight record back, if it is not decided. -/
def restoresRecord (cfg : Config) (nd : Node) (input : NodeInput) : Bool :=
  match input.event, nd.persisted.inFlight, boot cfg nd.persisted.wal nd.checkpoint with
  | .crash, some data, .ok restarted =>
    decide (Decision.sequence { proposal := data.proposal } ≤ nd.checkpoint.sequence) ||
      decide (restarted.persisted.inFlight.inFlightProposal = some data.proposal)
  | _, _, _ => true

end Node

structure ViewData.Reports (cfg : Config) (trace : List Action) (vd : ViewData) : Prop where
  lastDecision : ∃ lastDecision md, vd.lastDecision = some lastDecision ∧
    lastDecision.unmarshalMetadata = some md ∧
    ∀ pp prepare, .save (.proposedRecord pp prepare) ∈ trace → pp.view < vd.nextView →
      pp.seq ≤ md.latestSequence ∨ vd.inFlightProposal = pp.proposal
  recorded : ∀ p ∈ vd.inFlightProposal, ∃ pp prepare,
    .save (.proposedRecord pp prepare) ∈ trace ∧ RecordOf cfg p pp prepare
  prepared : vd.inFlightPrepared = true → ∀ p ∈ vd.inFlightProposal, ∃ commit,
    .save (.commit commit) ∈ trace ∧ commit.digest = cfg.digest p ∧ commit.view < vd.nextView

structure HeldInvariant (cfg : Config) (nd : Node) : Prop where
  synced : ∀ md, nd.controller.pc.synced = some md →
    md.latestSequence ≤ nd.checkpoint.sequence
  next : ∀ pp prepare, .save (.proposedRecord pp prepare) ∈ nd.trace →
    0 < pp.seq ∧ pp.seq ≤ nd.checkpoint.sequence + 1
  held : ∀ pp prepare, .save (.proposedRecord pp prepare) ∈ nd.trace →
    pp.seq = nd.checkpoint.sequence + 1 → nd.persisted.inFlight.inFlightProposal = pp.proposal
  reported : ∀ purpose vd, .viewData purpose vd ∈ nd.trace → vd.Reports cfg nd.trace

theorem LogShape.recorded {cfg : Config} {ps : PersistedState} (h : LogShape cfg ps)
    {data : InFlightProposalData} (hdata : ps.inFlight = some data) :
    (∃ pp prepare, .proposedRecord pp prepare ∈ ps.wal ∧
      RecordOf cfg data.proposal pp prepare) ∧
    (data.prepared = true → ∃ commit, .commit commit ∈ ps.wal ∧
      commit.digest = cfg.digest data.proposal) := by
  cases h with
  | empty => simp at hdata
  | proposed hrecord _ hinFlight =>
    obtain rfl := hinFlight data hdata
    exact ⟨⟨_, _, List.mem_cons_self, hrecord⟩, by simp⟩
  | @prepared _ _ _ _ commit _ _ hrecord hdigest _ _ _ hinFlight =>
    obtain rfl := hinFlight data hdata
    exact ⟨⟨_, _, List.mem_cons_self, hrecord⟩, fun _ => ⟨commit, by simp, hdigest⟩⟩

namespace HeldInvariant

variable {cfg : Config} {nd nd' : Node} {input : NodeInput}

theorem boot {checkpoint : Decision} (h : Node.boot cfg [] checkpoint = .ok nd) :
    HeldInvariant cfg nd := by
  obtain ⟨md, start, leader, v, inFlight, -, -, -, -, rfl⟩ := Node.boot_ok h
  exact ⟨by simp [Node.started, ControllerPc.synced], by simp [Node.started],
    by simp [Node.started], by simp [Node.started]⟩

/-- A step that saves a record has taken up its pre-prepare. -/
theorem taken (hlog : LogInvariant cfg nd) (hstep : nd.step cfg input = some nd')
    {pp : PrePrepare} {prepare : Prepare}
    (hmem : .save (.proposedRecord pp prepare) ∈ nd'.trace) :
    .save (.proposedRecord pp prepare) ∈ nd.trace ∨ nd.takesUp input.event = some pp := by
  cases Node.step_record hlog hstep with
  | kept _ hsaves => exact .inl ((hsaves _ rfl hmem).resolve_right id)
  | proposed _ _ _ _ _ _ hsaves htakes =>
    refine (hsaves _ rfl hmem).imp_right fun hnew => ?_
    obtain ⟨rfl, -⟩ : pp = _ ∧ prepare = _ := by simpa using hnew
    exact htakes
  | prepared _ _ _ hsaves => exact .inl ((hsaves _ rfl hmem).resolve_right (by simp))
  | pruned _ _ _ _ _ hsaves => exact .inl ((hsaves _ rfl hmem).resolve_right id)
  | restarted _ _ _ hsaves => exact .inl ((hsaves _ rfl hmem).resolve_right id)

theorem held_step (h : HeldInvariant cfg nd) (hlog : LogInvariant cfg nd)
    (hhistory : RecordHistory cfg (fun _ => True) nd.trace)
    (hle : nd.checkpoint.sequence ≤ nd'.checkpoint.sequence)
    (haccepts : nd.acceptsNext input = true)
    (hsame : ∀ pp' pp prepare, nd.takesUp input.event = some pp' →
      .save (.proposedRecord pp prepare) ∈ nd.trace → pp.seq = pp'.seq →
        pp.proposal = pp'.proposal)
    (hrestores : nd.restoresRecord cfg input = true) (hstep : nd.step cfg input = some nd')
    {pp : PrePrepare} {prepare : Prepare}
    (hmem : .save (.proposedRecord pp prepare) ∈ nd'.trace)
    (hseq : pp.seq = nd'.checkpoint.sequence + 1) :
    nd'.persisted.inFlight.inFlightProposal = pp.proposal := by
  -- a record that was there is for the sequence after the old checkpoint, and is held
  have hold : .save (.proposedRecord pp prepare) ∈ nd.trace →
      pp.seq = nd.checkpoint.sequence + 1 ∧ ∃ data, nd.persisted.inFlight = some data ∧
        pp.proposal = some data.proposal ∧
        Decision.sequence { proposal := data.proposal } = pp.seq := by
    intro hbefore
    have hnext := (h.next pp prepare hbefore).2
    have hcheckpoint : pp.seq = nd.checkpoint.sequence + 1 := by omega
    obtain ⟨proposal, hrecord⟩ := hhistory.record pp prepare hbefore
    obtain ⟨md, hmd, -, hsequence⟩ := hrecord.metadata
    have hheld := h.held pp prepare hbefore hcheckpoint
    rw [hrecord.carries] at hheld ⊢
    obtain ⟨data, hdata, rfl⟩ := Option.map_eq_some_iff.mp hheld
    exact ⟨hcheckpoint, data, hdata, rfl, (Node.sequence_of_metadata hmd).trans hsequence⟩
  cases Node.step_record hlog hstep with
  | kept hinFlight hsaves =>
    obtain ⟨-, data, hdata, hproposal, -⟩ := hold ((hsaves _ rfl hmem).resolve_right id)
    rw [hinFlight, hdata, hproposal]
    rfl
  | @proposed pp' prepare' proposal hlive hrecord _ _ _ hsaved hsaves htakes hinFlight =>
    rw [hinFlight]
    refine hrecord.carries.symm.trans ?_
    simp only [Node.acceptsNext, htakes, Option.all_some, Bool.and_eq_true,
      decide_eq_true_eq] at haccepts
    rcases hsaves _ rfl hmem with hbefore | hnew
    · obtain ⟨hcheckpoint, -⟩ := hold hbefore
      exact (hsame pp' pp prepare htakes hbefore (by omega)).symm
    · obtain ⟨rfl, -⟩ : pp = pp' ∧ prepare = prepare' := by simpa using hnew
      rfl
  | prepared hbefore hafter _ hsaves =>
    obtain ⟨-, data, hdata, hproposal, -⟩ := hold ((hsaves _ rfl hmem).resolve_right (by simp))
    obtain rfl := Option.some.inj (hbefore.symm.trans hdata)
    rw [hafter, hproposal]
    rfl
  | pruned hsynced hdata hmd hbehind _ hsaves =>
    obtain ⟨hcheckpoint, data, hdata', -, hsequence⟩ :=
      hold ((hsaves _ rfl hmem).resolve_right id)
    obtain rfl := Option.some.inj (hdata.symm.trans hdata')
    rw [Node.sequence_of_metadata hmd] at hsequence
    have := h.synced _ hsynced
    omega
  | restarted hevent hboot hinFlight hsaves =>
    obtain ⟨hcheckpoint, data, hdata, hproposal, hsequence⟩ :=
      hold ((hsaves _ rfl hmem).resolve_right id)
    simp only [Node.restoresRecord, hevent, hdata, hboot, hsequence, Bool.or_eq_true,
      decide_eq_true_eq] at hrestores
    rw [hinFlight, hproposal]
    exact hrestores.resolve_left (by omega)

theorem reported_step (h : HeldInvariant cfg nd) (hlog : LogInvariant cfg nd)
    {covers : Message → Prop} (hvotes : VotesKept cfg (fun _ => True) covers nd)
    (hreadable : ∃ md, nd.checkpointMetadata = some md)
    (haccepts : nd.acceptsNext input = true) (hahead : nd.reportsAhead input = true)
    (hreads : nd.readsOnce input = true) (hstep : nd.step cfg input = some nd')
    {purpose : ViewDataFor} {vd : ViewData} (hmem : .viewData purpose vd ∈ nd'.trace) :
    vd.Reports cfg nd'.trace := by
  have hsub := Node.step_trace_subset hstep
  have htransition := (Node.step_transition hstep).2.2
  by_cases hvd : .viewData purpose vd ∈ nd.trace
  · obtain ⟨⟨lastDecision, md, hlast, hmd, haccepted⟩, hrecorded, hprepared⟩ :=
      h.reported purpose vd hvd
    refine ⟨⟨lastDecision, md, hlast, hmd, fun pp prepare hrecord hview => ?_⟩,
      fun p hp => ?_, fun hflag p hp => ?_⟩
    · rcases taken hlog hstep hrecord with hold | htakes
      · exact haccepted pp prepare hold hview
      · -- a proposal that is accepted later is not of an earlier view
        simp only [Node.acceptsNext, htakes, Option.all_some, Bool.and_eq_true] at haccepts
        have := of_decide_eq_true (List.all_eq_true.mp haccepts.2 _ hvd)
        omega
    · obtain ⟨pp, prepare, hrecord, hof⟩ := hrecorded p hp
      exact ⟨pp, prepare, hsub hrecord, hof⟩
    · obtain ⟨commit, hcommit, hrest⟩ := hprepared hflag p hp
      exact ⟨commit, hsub hcommit, hrest⟩
  · obtain ⟨lastDecision, inFlight, hevent, hpc, rfl⟩ :=
      ((htransition.mem_trace hmem).resolve_left hvd).viewData_cases
    simp only [Node.readsOnce, hevent, hpc, Bool.and_eq_true, decide_eq_true_eq] at hreads
    simp only [Node.reportsAhead, hevent] at hahead
    obtain ⟨rfl, hread⟩ := hreads
    obtain ⟨last, hlast⟩ := hreadable
    have hcheckpoint : nd.checkpoint.sequence = last.latestSequence :=
      Node.sequence_of_metadata hlast
    refine ⟨⟨_, last, rfl, hlast, fun pp prepare hrecord _ => ?_⟩, fun p hp => ?_,
      fun hflag p hp => ?_⟩
    · have hold := (taken hlog hstep hrecord).resolve_right (by simp [Node.takesUp, hevent])
      have hnext := (h.next pp prepare hold).2
      by_cases hdecided : pp.seq ≤ last.latestSequence
      · exact .inl hdecided
      · obtain ⟨proposal, hof⟩ := hvotes.history.record pp prepare hold
        have hheld := h.held pp prepare hold (by omega)
        rw [hof.carries] at hheld ⊢
        obtain ⟨data, hdata, rfl⟩ := Option.map_eq_some_iff.mp hheld
        rw [hdata] at hread
        rcases getInFlight_ok hread with rfl | ⟨md, other, hmd, hother, hbehind⟩
        · exact .inr rfl
        · obtain ⟨md', hmd', -, hsequence⟩ := hof.metadata
          obtain rfl := Option.some.inj (hmd.symm.trans hmd')
          obtain rfl := Option.some.inj (hlast.symm.trans hother)
          exact .inl (by omega)
    · obtain rfl : inFlight = some p := hp
      obtain ⟨data, _, hdata, rfl, -⟩ := getInFlight_readable hread
      obtain ⟨⟨pp, prepare, hwal, hof⟩, -⟩ := hlog.shape.recorded hdata
      exact ⟨pp, prepare, hsub (hvotes.logged _ hwal), hof⟩
    · obtain rfl : inFlight = some p := hp
      obtain ⟨data, _, hdata, rfl, -⟩ := getInFlight_readable hread
      obtain ⟨-, hcommit⟩ := hlog.shape.recorded hdata
      have hflag : data.prepared = true := by
        simpa [Node.viewDataOf, hdata, InFlightData.isInFlightPrepared] using hflag
      obtain ⟨commit, hwal, hdigest⟩ := hcommit hflag
      have hsaved := hvotes.logged _ hwal
      obtain ⟨pp, prepare, hrecord, hview, -⟩ := hvotes.history.commit commit hsaved trivial
      refine ⟨commit, hsub hsaved, hdigest, ?_⟩
      rw [hview]
      exact of_decide_eq_true (List.all_eq_true.mp hahead _ hrecord)

theorem step (h : HeldInvariant cfg nd) (hlog : LogInvariant cfg nd)
    {covers : Message → Prop} (hvotes : VotesKept cfg (fun _ => True) covers nd)
    (hreadable : ∃ md, nd.checkpointMetadata = some md)
    (hobtains : Obtains nd nd' (nd.outcome input.event))
    (haccepts : nd.acceptsNext input = true) (hahead : nd.reportsAhead input = true)
    (hsame : ∀ pp' pp prepare, nd.takesUp input.event = some pp' →
      .save (.proposedRecord pp prepare) ∈ nd.trace → pp.seq = pp'.seq →
        pp.proposal = pp'.proposal)
    (hreads : nd.readsOnce input = true) (hrestores : nd.restoresRecord cfg input = true)
    (hstep : nd.step cfg input = some nd') : HeldInvariant cfg nd' where
  synced _ hmd := hobtains.synced_le h.synced hstep hmd
  next pp prepare hmem := by
    have hle := hobtains.checkpoint_le
    rcases taken hlog hstep hmem with hold | htakes
    · have := h.next pp prepare hold
      omega
    · simp only [Node.acceptsNext, htakes, Option.all_some, Bool.and_eq_true,
        decide_eq_true_eq] at haccepts
      omega
  held _ _ hmem hseq :=
    h.held_step hlog hvotes.history hobtains.checkpoint_le haccepts hsame hrestores hstep hmem hseq
  reported _ _ hmem := h.reported_step hlog hvotes hreadable haccepts hahead hreads hstep hmem

end HeldInvariant

end SmartBFT
