import SmartBFT.Node.Delivery
import SmartBFT.Node.RecordStep
import SmartBFT.Node.Votes

/-!
# What a node still knows of its commits

A node that has saved a commit must not forget it while the proposal may be decided.  It
has delivered a decision that is not behind it, or it holds the proposal as the prepared one
in flight, or it has accepted in a later view a proposal that is not ahead (`Node.Covers`);
and its view data for a later view says so (`ViewData.Accounts`).

The code guarantees this if the node votes and reports in order, builds its view data from one
state, and finds its prepared proposal again after a crash; none of the three is guaranteed.
-/

namespace SmartBFT

open SmartBFT.Foundation

/-! ## Votes and reports in order -/

namespace Node

def upTo (nd : Node) (view : Nat) : Bool :=
  nd.trace.all fun
    | .save (.proposedRecord pp _) => decide (pp.view ≤ view)
    | .viewData _ vd => decide (vd.nextView ≤ view)
    | _ => true

/-- A vote is cast in a view that is not behind an earlier vote or report, and for the
sequence after the checkpoint; a report is for a view that is ahead of all votes. -/
def inOrder (nd : Node) : Action → Bool
  | .save (.proposedRecord pp _) =>
    nd.upTo pp.view && decide (pp.seq = nd.checkpoint.sequence + 1)
  | .save (.commit commit) => nd.upTo commit.view
  | .viewData _ vd => nd.trace.all fun
      | .save (.proposedRecord pp _) => decide (pp.view < vd.nextView)
      | _ => true
  | _ => true

def votesInOrder (cfg : Config) (nd : Node) (input : NodeInput) : Bool :=
  (nd.step cfg input).all fun nd' =>
    nd'.trace.all fun action => decide (action ∈ nd.trace) || nd.inOrder action

def readsOnce (nd : Node) (input : NodeInput) : Bool :=
  match input.event, nd.viewChanger.pc with
  | .viewChanger .readPrepared, .readPrepared lastDecision inFlight _ =>
    decide (lastDecision = nd.checkpoint) &&
      decide (getInFlight nd.persisted.inFlight nd.checkpoint.proposal
        nd.viewChanger.committedDuringViewChange = .ok inFlight)
  | _, _ => true

def restoresPrepared (cfg : Config) (nd : Node) (input : NodeInput) : Bool :=
  match input.event, nd.persisted.inFlight, boot cfg nd.persisted.wal nd.checkpoint with
  | .crash, some data, .ok restarted =>
    !data.prepared ||
      decide (Decision.sequence { proposal := data.proposal } ≤ nd.checkpoint.sequence) ||
      decide (restarted.persisted.inFlight = some data)
  | _, _, _ => true

variable {cfg : Config} {nd nd' : Node}

theorem inOrder_of_votesInOrder {input : NodeInput} (h : nd.votesInOrder cfg input = true)
    (hstep : nd.step cfg input = some nd') {action : Action} (hmem : action ∈ nd'.trace)
    (hnew : action ∉ nd.trace) : nd.inOrder action = true := by
  simp only [votesInOrder, hstep, Option.all_some, List.all_eq_true, Bool.or_eq_true,
    decide_eq_true_eq] at h
  exact (h action hmem).resolve_left hnew

theorem upTo_record {view : Nat} (h : nd.upTo view = true) {pp : PrePrepare} {prepare : Prepare}
    (hmem : .save (.proposedRecord pp prepare) ∈ nd.trace) : pp.view ≤ view :=
  of_decide_eq_true (List.all_eq_true.mp h _ hmem)

theorem upTo_viewData {view : Nat} (h : nd.upTo view = true) {purpose : ViewDataFor}
    {vd : ViewData} (hmem : .viewData purpose vd ∈ nd.trace) : vd.nextView ≤ view :=
  of_decide_eq_true (List.all_eq_true.mp h _ hmem)

end Node

/-! ## The proposal of a commit -/

namespace RecordHistory

variable {cfg : Config} {trace : List Action} {commit : Commit}

theorem proposal (h : RecordHistory cfg (fun _ => True) trace)
    (hcommit : .save (.commit commit) ∈ trace) :
    ∃ pp prepare proposal, .save (.proposedRecord pp prepare) ∈ trace ∧
      RecordOf cfg proposal pp prepare ∧ pp.view = commit.view ∧ pp.seq = commit.seq ∧
      cfg.digest proposal = commit.digest := by
  obtain ⟨pp, prepare, hmem, hview, hseq, hdigest⟩ := h.commit commit hcommit trivial
  obtain ⟨proposal, hrecord⟩ := h.record pp prepare hmem
  refine ⟨pp, prepare, proposal, hmem, hrecord, hview.symm, hseq.symm, ?_⟩
  rw [hdigest, hrecord.answer]

theorem metadata (h : RecordHistory cfg (fun _ => True) trace)
    (hdigest : Function.Injective cfg.digest) (hcommit : .save (.commit commit) ∈ trace)
    {proposal : Proposal} (hsame : cfg.digest proposal = commit.digest) :
    ∃ md, proposal.unmarshalMetadata = some md ∧ md.viewId = commit.view ∧
      md.latestSequence = commit.seq := by
  obtain ⟨pp, prepare, other, -, hrecord, hview, hseq, hother⟩ := h.proposal hcommit
  obtain rfl := hdigest (hsame.trans hother.symm)
  obtain ⟨md, hmd, hviewId, hsequence⟩ := hrecord.metadata
  exact ⟨md, hmd, hviewId.trans hview, hsequence.trans hseq⟩

end RecordHistory

/-! ## Coverage -/

inductive Node.Covers (cfg : Config) (nd : Node) (commit : Commit) : Prop where
  | decided (hle : commit.seq ≤ nd.checkpoint.sequence)
  | held {data : InFlightProposalData} (hdata : nd.persisted.inFlight = some data)
      (hprepared : data.prepared = true) (hdigest : cfg.digest data.proposal = commit.digest)
  | superseded {pp : PrePrepare} {prepare : Prepare}
      (hrecord : .save (.proposedRecord pp prepare) ∈ nd.trace)
      (hview : commit.view < pp.view) (hseq : pp.seq ≤ commit.seq)

inductive ViewData.Accounts (cfg : Config) (trace : List Action) (vd : ViewData)
    (commit : Commit) : Prop where
  | decided {lastDecision : Proposal} {md : ViewMetadata}
      (hlast : vd.lastDecision = some lastDecision)
      (hmd : lastDecision.unmarshalMetadata = some md) (hle : commit.seq ≤ md.latestSequence)
  | held {proposal : Proposal} (hproposal : vd.inFlightProposal = some proposal)
      (hprepared : vd.inFlightPrepared = true) (hdigest : cfg.digest proposal = commit.digest)
  | superseded {pp : PrePrepare} {prepare : Prepare}
      (hrecord : .save (.proposedRecord pp prepare) ∈ trace)
      (hview : commit.view < pp.view) (hnext : pp.view < vd.nextView) (hseq : pp.seq ≤ commit.seq)

theorem ViewData.Accounts.mono {cfg : Config} {trace trace' : List Action} {vd : ViewData}
    {commit : Commit} (h : vd.Accounts cfg trace commit) (hsub : trace ⊆ trace') :
    vd.Accounts cfg trace' commit := by
  cases h with
  | decided hlast hmd hle => exact .decided hlast hmd hle
  | held hproposal hprepared hdigest => exact .held hproposal hprepared hdigest
  | superseded hrecord hview hnext hseq => exact .superseded (hsub hrecord) hview hnext hseq

structure CoverageInvariant (cfg : Config) (nd : Node) : Prop where
  synced : ∀ md, nd.controller.pc.synced = some md →
    md.latestSequence ≤ nd.checkpoint.sequence
  covered : ∀ commit, .save (.commit commit) ∈ nd.trace → nd.Covers cfg commit
  reported : ∀ purpose vd commit, .viewData purpose vd ∈ nd.trace →
    .save (.commit commit) ∈ nd.trace → commit.view < vd.nextView →
      vd.Accounts cfg nd.trace commit

theorem getInFlight_ok {data : InFlightProposalData} {lastDecision : Proposal}
    {committed : Option ViewMetadata} {inFlight : Option Proposal}
    (h : getInFlight (some data) lastDecision committed = .ok inFlight) :
    inFlight = some data.proposal ∨ ∃ md last, data.proposal.unmarshalMetadata = some md ∧
      lastDecision.unmarshalMetadata = some last ∧ md.latestSequence ≤ last.latestSequence := by
  obtain ⟨md, hmd, ⟨-, hsome⟩ | ⟨last, hlast, hreported⟩⟩ := getInFlight_cases h
  · exact .inl hsome
  · split at hreported
    · exact .inr ⟨md, last, hmd.unmarshal, hlast.unmarshal, by omega⟩
    · exact .inl hreported

theorem Obtains.synced_le {cfg : Config} {nd nd' : Node} {input : NodeInput}
    (hobtains : Obtains nd nd' (nd.outcome input.event))
    (h : ∀ md, nd.controller.pc.synced = some md → md.latestSequence ≤ nd.checkpoint.sequence)
    (hstep : nd.step cfg input = some nd') {md : ViewMetadata}
    (hmd : nd'.controller.pc.synced = some md) :
    md.latestSequence ≤ nd'.checkpoint.sequence := by
  rcases Node.step_synced hstep hmd with hold | ⟨response, reconfig, hevent, hlatest⟩
  · exact Nat.le_trans (h md hold) hobtains.checkpoint_le
  · have hsequence := Node.sequence_of_latestMetadata hlatest
    rw [Option.getD_some] at hsequence
    rw [← hsequence]
    exact hobtains.obtained_le (.synced response) (by simp [hevent, Node.outcome])

theorem StepAction.viewData_cases {cfg : Config} {nd : Node} {input : NodeInput}
    {purpose : ViewDataFor} {vd : ViewData} (h : StepAction cfg nd input (.viewData purpose vd)) :
    ∃ lastDecision inFlight, input.event = .viewChanger .readPrepared ∧
      nd.viewChanger.pc = .readPrepared lastDecision inFlight purpose ∧
      vd = nd.viewDataOf lastDecision inFlight := by
  cases h with
  | quiet hquiet => exact absurd rfl (hquiet.ne_viewData purpose vd)
  | view _ haction => nomatch haction
  | inFlightView _ _ haction => nomatch haction
  | viewData hevent hpc => exact ⟨_, _, hevent, hpc, rfl⟩

namespace CoverageInvariant

variable {cfg : Config} {nd nd' : Node} {input : NodeInput}

theorem boot {checkpoint : Decision} (h : Node.boot cfg [] checkpoint = .ok nd) :
    CoverageInvariant cfg nd := by
  obtain ⟨md, start, leader, v, inFlight, -, -, -, -, rfl⟩ := Node.boot_ok h
  exact ⟨by simp [Node.started, ControllerPc.synced], by simp [Node.started],
    by simp [Node.started]⟩

theorem held_sequence (hhistory : RecordHistory cfg (fun _ => True) nd.trace)
    (hdigest : Function.Injective cfg.digest) {commit : Commit}
    (hcommit : .save (.commit commit) ∈ nd.trace) {proposal : Proposal} {md : ViewMetadata}
    (hsame : cfg.digest proposal = commit.digest) (hmd : proposal.unmarshalMetadata = some md) :
    md.latestSequence = commit.seq := by
  obtain ⟨other, hother, -, hseq⟩ := hhistory.metadata hdigest hcommit hsame
  obtain rfl : md = other := Option.some.inj (hmd.symm.trans hother)
  exact hseq

theorem covered_step (h : CoverageInvariant cfg nd) (hlog : LogInvariant cfg nd)
    (hvotes : VotesKept cfg (fun _ => True) (fun _ => False) nd)
    (hdigest : Function.Injective cfg.digest)
    (hle : nd.checkpoint.sequence ≤ nd'.checkpoint.sequence)
    (horder : nd.votesInOrder cfg input = true)
    (hrestores : nd.restoresPrepared cfg input = true)
    (hstep : nd.step cfg input = some nd') {commit : Commit}
    (hmem : .save (.commit commit) ∈ nd'.trace) : nd'.Covers cfg commit := by
  have hsub := Node.step_trace_subset hstep
  -- what does not depend on the in-flight record stays
  have hother : .save (.commit commit) ∈ nd.trace → (∀ data, nd.persisted.inFlight = some data →
      data.prepared = true → cfg.digest data.proposal = commit.digest →
        nd'.Covers cfg commit) → nd'.Covers cfg commit := by
    intro hold hheld
    cases h.covered commit hold with
    | decided hseq => exact .decided (Nat.le_trans hseq hle)
    | held hdata hprepared hsame => exact hheld _ hdata hprepared hsame
    | superseded hrecord hview hseq => exact .superseded (hsub hrecord) hview hseq
  cases Node.step_record hlog hstep with
  | kept hinFlight hsaves =>
    have hold := (hsaves _ rfl hmem).resolve_right id
    exact hother hold fun data hdata hprepared hsame =>
      .held (hinFlight.trans hdata) hprepared hsame
  | @proposed pp prepare proposal hlive hrecord hphase hview hseq hsaved hsaves =>
    have hold := (hsaves _ rfl hmem).resolve_right (by simp)
    refine hother hold fun _ _ _ _ => ?_
    have hfree := (hvotes.view hlive trivial).free (.inl hphase)
    have hfresh : .save (.proposedRecord pp prepare) ∉ nd.trace := by
      intro hearlier
      have := hfree pp prepare hearlier hview
      omega
    have hinOrder := Node.inOrder_of_votesInOrder horder hstep hsaved hfresh
    simp only [Node.inOrder, Bool.and_eq_true, decide_eq_true_eq] at hinOrder
    obtain ⟨hupTo, hnext⟩ := hinOrder
    obtain ⟨own, ownPrepare, _, hown, -, hownView, hownSeq, -⟩ := hvotes.history.proposal hold
    have hbefore := Node.upTo_record hupTo hown
    by_cases hdecided : commit.seq ≤ nd.checkpoint.sequence
    · exact .decided (Nat.le_trans hdecided hle)
    · refine .superseded hsaved ?_ (by omega)
      by_contra hlevel
      have := hfree own ownPrepare hown (by omega)
      omega
  | @prepared saved proposal hbefore hafter hsame hsaves =>
    rcases hsaves _ rfl hmem with hold | hnew
    · refine hother hold fun data hdata hprepared _ => ?_
      obtain rfl := Option.some.inj (hbefore.symm.trans hdata)
      simp at hprepared
    · obtain rfl : commit = saved := by simpa using hnew
      exact .held hafter rfl hsame.symm
  | pruned hsynced hdata hmd hbehind _ hsaves =>
    have hold := (hsaves _ rfl hmem).resolve_right id
    refine hother hold fun data hdata' _ hsame => ?_
    obtain rfl := Option.some.inj (hdata.symm.trans hdata')
    have hseq := held_sequence hvotes.history hdigest hold hsame hmd
    have hcheckpoint := h.synced _ hsynced
    exact .decided (by omega)
  | restarted hevent hboot hinFlight hsaves =>
    have hold := (hsaves _ rfl hmem).resolve_right id
    refine hother hold fun data hdata hprepared hsame => ?_
    obtain ⟨md, hmd, -, hseq⟩ := hvotes.history.metadata hdigest hold hsame
    simp only [Node.restoresPrepared, hevent, hdata, hboot, hprepared, Bool.not_true,
      Bool.false_or, Bool.or_eq_true, decide_eq_true_eq, Decision.sequence, hmd,
      Option.getD_some] at hrestores
    rcases hrestores with hdecided | hkept
    · refine .decided (Nat.le_trans ?_ hle)
      rw [← hseq]
      exact hdecided
    · exact .held (hinFlight.trans hkept) hprepared hsame

theorem reported_step (h : CoverageInvariant cfg nd) (hlog : LogInvariant cfg nd)
    (hvotes : VotesKept cfg (fun _ => True) (fun _ => False) nd)
    (hdigest : Function.Injective cfg.digest)
    (hreadable : ∃ md, nd.checkpointMetadata = some md)
    (horder : nd.votesInOrder cfg input = true) (hreads : nd.readsOnce input = true)
    (hstep : nd.step cfg input = some nd') {purpose : ViewDataFor} {vd : ViewData}
    {commit : Commit} (hmem : .viewData purpose vd ∈ nd'.trace)
    (hcommit : .save (.commit commit) ∈ nd'.trace) (hearlier : commit.view < vd.nextView) :
    vd.Accounts cfg nd'.trace commit := by
  have hsub := Node.step_trace_subset hstep
  have htransition := (Node.step_transition hstep).2.2
  by_cases hvd : .viewData purpose vd ∈ nd.trace
  · by_cases hold : .save (.commit commit) ∈ nd.trace
    · exact (h.reported purpose vd commit hvd hold hearlier).mono hsub
    · -- a commit after the view data is of a view that is not behind it
      have hupTo := Node.inOrder_of_votesInOrder horder hstep hcommit hold
      have := Node.upTo_viewData hupTo hvd
      omega
  · have hbelow := Node.inOrder_of_votesInOrder horder hstep hmem hvd
    obtain ⟨lastDecision, inFlight, hevent, hpc, rfl⟩ :=
      ((htransition.mem_trace hmem).resolve_left hvd).viewData_cases
    have hold : .save (.commit commit) ∈ nd.trace :=
      (htransition.savesOnly (by simp [hevent]) hlog.inFlight (fun _ => False) _ rfl
        hcommit).resolve_right id
    simp only [Node.readsOnce, hevent, hpc, Bool.and_eq_true, decide_eq_true_eq] at hreads
    obtain ⟨rfl, hread⟩ := hreads
    obtain ⟨last, hlast⟩ := hreadable
    have hcheckpoint : nd.checkpoint.sequence = last.latestSequence :=
      Node.sequence_of_metadata hlast
    cases h.covered commit hold with
    | decided hseq => exact .decided rfl hlast (by omega)
    | @held data hdata hprepared hsame =>
      rw [hdata] at hread
      rcases getInFlight_ok hread with rfl | ⟨md, other, hmd, hother, hle⟩
      · refine .held rfl ?_ hsame
        simp [Node.viewDataOf, hdata, InFlightData.isInFlightPrepared, hprepared]
      · have hseq := held_sequence hvotes.history hdigest hold hsame hmd
        obtain rfl := Option.some.inj (hlast.symm.trans hother)
        exact .decided rfl hlast (by omega)
    | superseded hrecord hview hseq =>
      refine .superseded (hsub hrecord) hview ?_ hseq
      exact of_decide_eq_true (List.all_eq_true.mp hbelow _ hrecord)

theorem step (h : CoverageInvariant cfg nd) (hlog : LogInvariant cfg nd)
    (hvotes : VotesKept cfg (fun _ => True) (fun _ => False) nd)
    (hdigest : Function.Injective cfg.digest)
    (hreadable : ∃ md, nd.checkpointMetadata = some md)
    (hobtains : Obtains nd nd' (nd.outcome input.event))
    (horder : nd.votesInOrder cfg input = true) (hreads : nd.readsOnce input = true)
    (hrestores : nd.restoresPrepared cfg input = true)
    (hstep : nd.step cfg input = some nd') : CoverageInvariant cfg nd' where
  synced _ hmd := hobtains.synced_le h.synced hstep hmd
  covered _ hmem :=
    h.covered_step hlog hvotes hdigest hobtains.checkpoint_le horder hrestores hstep hmem
  reported _ _ _ hmem hcommit hearlier :=
    h.reported_step hlog hvotes hdigest hreadable horder hreads hstep hmem hcommit hearlier

end CoverageInvariant

end SmartBFT
