import SmartBFT.Node.Log
import SmartBFT.Node.RestartView

/-!
# The phase of a restored view

`Restore` takes the phase, the proposal and the message to broadcast from the log, and
`NewProposer` then raises the number and the sequence of the view to those that it was asked
for, whatever the phase is.  `recoverProposed` does not even look at the sequence: a proposal
that a sync has overtaken is in flight again, at a sequence that is not its own
(`restored_proposal_overtaken`).  `restored_phase_iff` says when the phase fits.
-/

namespace SmartBFT

open SmartBFT.Foundation

structure View.Carries (v : View) (proposal : Proposal) : Prop where
  inFlight : v.inFlightProposal = some proposal
  metadata : ∃ md, proposal.unmarshalMetadata = some md ∧
    md.latestSequence = v.proposalSequence ∧ md.viewId = v.number

/-- A view that is proposed or prepared carries a proposal, and what it broadcasts is the
prepare, or the commit with its signature, for this proposal in this view. -/
def View.PhaseFits (cfg : Config) (v : View) : Prop :=
  match v.phase with
  | .proposed => ∃ proposal, v.Carries proposal ∧ v.lastBroadcastSent = some (.prepare {
      view := v.number, seq := v.proposalSequence, digest := cfg.digest proposal })
  | .prepared => ∃ proposal commit signature, v.Carries proposal ∧
      v.lastBroadcastSent = some (.commit commit) ∧ commit.view = v.number ∧
      commit.seq = v.proposalSequence ∧ commit.digest = cfg.digest proposal ∧
      commit.signature = some signature ∧ v.myProposalSig = some signature
  | _ => True

def lastCommitOf (entries : List SavedMessage) (prePrepare : PrePrepare) : Bool :=
  match entries.getLast? with
  | some (.commit commit) =>
    decide (commit.view = prePrepare.view) && decide (commit.seq = prePrepare.seq)
  | _ => true

/-- The view is started no further than the proposal that it is put back to, and the commit
behind it is of the same view. -/
def restoresInPlace (entries : List SavedMessage) (proposalSequence viewNum : Nat) : Bool :=
  (restoredPrePrepare entries proposalSequence).all fun prePrepare =>
    decide (proposalSequence ≤ prePrepare.seq) && decide (viewNum ≤ prePrepare.view) &&
      lastCommitOf entries prePrepare

namespace View

variable {v : View} {proposalSequence viewNum decisionsInView : Nat}

theorem catchUp_proposalSequence :
    (v.catchUp proposalSequence viewNum decisionsInView).proposalSequence =
      max v.proposalSequence proposalSequence := by
  by_cases hseq : v.proposalSequence < proposalSequence <;>
    by_cases hview : v.number < viewNum <;> simp [catchUp, hseq, hview] <;> omega

theorem catchUp_number :
    (v.catchUp proposalSequence viewNum decisionsInView).number = max v.number viewNum := by
  by_cases hseq : v.proposalSequence < proposalSequence <;>
    by_cases hview : v.number < viewNum <;> simp [catchUp, hseq, hview] <;> omega

theorem catchUp_inFlight :
    (v.catchUp proposalSequence viewNum decisionsInView).inFlightProposal =
        v.inFlightProposal ∧
      (v.catchUp proposalSequence viewNum decisionsInView).lastBroadcastSent =
        v.lastBroadcastSent ∧
      (v.catchUp proposalSequence viewNum decisionsInView).myProposalSig = v.myProposalSig := by
  obtain ⟨seq, view, dec, h⟩ := v.catchUp_eq proposalSequence viewNum decisionsInView
  rw [h]
  exact ⟨rfl, rfl, rfl⟩

theorem catchUp_resume_carries {cfg : Config} {prePrepare : PrePrepare} {prepare : Prepare}
    {proposal : Proposal} {md : ViewMetadata} {phase : Phase} {m : Message}
    {signature : Option Signature} (hrecord : RecordOf cfg proposal prePrepare prepare) :
    ((v.resume prePrepare proposal md phase m signature).catchUp proposalSequence viewNum
        decisionsInView).Carries proposal ↔
      proposalSequence ≤ prePrepare.seq ∧ viewNum ≤ prePrepare.view := by
  obtain ⟨proposed, hproposed, hview, hseq⟩ := hrecord.metadata
  constructor
  · rintro ⟨-, other, hother, hsequence, hnumber⟩
    obtain rfl := Option.some.inj (hproposed.symm.trans hother)
    rw [catchUp_proposalSequence, hseq] at hsequence
    rw [catchUp_number, hview] at hnumber
    simp only [resume] at hsequence hnumber
    omega
  · rintro ⟨hsequence, hnumber⟩
    refine ⟨catchUp_inFlight.1, proposed, hproposed, ?_, ?_⟩
    · rw [catchUp_proposalSequence, hseq]
      exact (Nat.max_eq_left hsequence).symm
    · rw [catchUp_number, hview]
      exact (Nat.max_eq_left hnumber).symm

end View

/-! ## The logs of a correct node -/

section Restored

variable {cfg : Config} {inFlight : InFlightData} {entries : List SavedMessage}
  {leader proposalSequence viewNum decisionsInView : Nat} {v : View} {prePrepare : PrePrepare}
  {prepare : Prepare} {proposal : Proposal} {md : ViewMetadata}

theorem LogShape.proposed_fits_iff (h : LogShape cfg ⟨inFlight, entries⟩)
    (hlast : entries.getLast? = some (.proposedRecord prePrepare prepare))
    (hproposal : prePrepare.proposal = some proposal) :
    ((v.resume prePrepare proposal md .proposed (.prepare prepare) v.myProposalSig).catchUp
        proposalSequence viewNum decisionsInView).PhaseFits cfg ↔
      restoresInPlace entries proposalSequence viewNum = true := by
  obtain ⟨-, other, hrecord⟩ := h.eq_proposed hlast
  obtain rfl : proposal = other := Option.some.inj (hproposal.symm.trans hrecord.carries)
  have hplace : restoresInPlace entries proposalSequence viewNum = true ↔
      proposalSequence ≤ prePrepare.seq ∧ viewNum ≤ prePrepare.view := by
    simp [restoresInPlace, restoredPrePrepare, hlast, lastCommitOf]
  rw [hplace]
  simp only [View.PhaseFits, View.catchUp_phase, View.resume]
  constructor
  · rintro ⟨carried, hcarries, -⟩
    obtain rfl : proposal = carried :=
      Option.some.inj (View.catchUp_inFlight.1.symm.trans hcarries.inFlight)
    exact (View.catchUp_resume_carries hrecord).mp hcarries
  · rintro ⟨hsequence, hnumber⟩
    refine ⟨proposal, (View.catchUp_resume_carries hrecord).mpr ⟨hsequence, hnumber⟩, ?_⟩
    rw [View.catchUp_inFlight.2.1, View.catchUp_number, View.catchUp_proposalSequence,
      Nat.max_eq_left hsequence, Nat.max_eq_left hnumber, hrecord.answer]

theorem LogShape.prepared_fits_iff (h : LogShape cfg ⟨inFlight, entries⟩) {commit : Commit}
    {signature : Signature} (hlast : entries.getLast? = some (.commit commit))
    (hsecond : secondLast entries = some (.proposedRecord prePrepare prepare))
    (hseq : prePrepare.seq = proposalSequence)
    (hproposal : prePrepare.proposal = some proposal)
    (hsignature : commit.signature = some signature) :
    ((v.resume prePrepare proposal md .prepared (.commit commit) (some signature)).catchUp
        proposalSequence viewNum decisionsInView).PhaseFits cfg ↔
      restoresInPlace entries proposalSequence viewNum = true := by
  obtain ⟨-, other, hrecord, hdigest, -⟩ := h.eq_prepared hlast hsecond
  obtain rfl : proposal = other := Option.some.inj (hproposal.symm.trans hrecord.carries)
  have hplace : restoresInPlace entries proposalSequence viewNum = true ↔
      (proposalSequence ≤ prePrepare.seq ∧ viewNum ≤ prePrepare.view) ∧
        commit.view = prePrepare.view ∧ commit.seq = prePrepare.seq := by
    simp [restoresInPlace, restoredPrePrepare, hlast, hsecond, hseq, lastCommitOf]
  rw [hplace]
  simp only [View.PhaseFits, View.catchUp_phase, View.resume]
  constructor
  · rintro ⟨carried, other, sent, hcarries, hsent, hview, hsequence, -⟩
    obtain rfl : proposal = carried :=
      Option.some.inj (View.catchUp_inFlight.1.symm.trans hcarries.inFlight)
    have hstart := (View.catchUp_resume_carries hrecord).mp hcarries
    have hcommit := View.catchUp_inFlight.2.1.symm.trans hsent
    simp only [Option.some.injEq, Message.commit.injEq] at hcommit
    subst hcommit
    rw [View.catchUp_number] at hview
    rw [View.catchUp_proposalSequence] at hsequence
    exact ⟨hstart, hview.trans (Nat.max_eq_left hstart.2),
      hsequence.trans (Nat.max_eq_left hstart.1)⟩
  · rintro ⟨hstart, hview, hsequence⟩
    refine ⟨proposal, commit, signature, (View.catchUp_resume_carries hrecord).mpr hstart,
      View.catchUp_inFlight.2.1, ?_, ?_, hdigest, hsignature, View.catchUp_inFlight.2.2⟩
    · rw [View.catchUp_number, hview]
      exact (Nat.max_eq_left hstart.2).symm
    · rw [View.catchUp_proposalSequence, hsequence]
      exact (Nat.max_eq_left hstart.1).symm

end Restored

/-- Whatever log a node leaves, and wherever a view is started on it, the phase that is
restored fits exactly if the view is put back to a proposal of its own view and sequence. -/
theorem restored_phase_iff {cfg : Config} {checkpoint : Decision} {start nd : Node}
    {inputs : List NodeInput} (hboot : Node.boot cfg [] checkpoint = .ok start)
    (hrun : run (Node.step cfg) start inputs = some nd)
    {leader proposalSequence viewNum decisionsInView : Nat} {v : View} {inFlight : InFlightData}
    (hnew : newProposer nd.persisted.wal leader proposalSequence viewNum decisionsInView =
      .ok (v, inFlight)) :
    v.PhaseFits cfg ↔ restoresInPlace nd.persisted.wal proposalSequence viewNum = true := by
  have hshape := (LogInvariant.reachable hboot hrun).shape
  obtain ⟨⟨w, inFlight'⟩, hrestore, heq⟩ := except_map_ok hnew
  simp only [Prod.mk.injEq] at heq
  obtain ⟨rfl, rfl⟩ := heq
  cases restored_of_restore hrestore with
  | nothing =>
    have hnone := restoredPrePrepare_eq_none hrestore
    simp only [View.fresh] at hnone
    simp [restoresInPlace, hnone, View.PhaseFits]
  | proposed hlast hproposal hmd => exact hshape.proposed_fits_iff hlast hproposal
  | prepared hlast hsecond hseq hproposal hmd hsignature =>
    exact hshape.prepared_fits_iff hlast hsecond hseq hproposal hsignature

/-- A node that has prepared the first proposal restores it in place. -/
theorem restored_phase_prepared :
    ∃ nd v inFlight, run (Node.step (clusterOfFour 3)) (nodeOfFour 3)
        (accepting (acceptFirst [7] ++ prepareFirst "seven" 1 2)) = some nd ∧
      newProposer nd.persisted.wal 1 1 0 0 = .ok (v, inFlight) ∧ v.phase = .prepared ∧
      v.PhaseFits (clusterOfFour 3) := by
  have hreached : (run (Node.step (clusterOfFour 3)) (nodeOfFour 3)
      (accepting (acceptFirst [7] ++ prepareFirst "seven" 1 2))).any (fun nd =>
        restoresInPlace nd.persisted.wal 1 0 &&
          match newProposer nd.persisted.wal 1 1 0 0 with
          | .ok (v, _) => decide (v.phase = .prepared)
          | .error _ => false) = true := by
    decide +kernel
  obtain ⟨nd, hrun, hnd⟩ := (Option.any_eq_true _ _).mp hreached
  obtain ⟨hplace, hphase⟩ := Bool.and_eq_true_iff.mp hnd
  split at hphase
  · rename_i v inFlight hnew
    exact ⟨nd, v, inFlight, hrun, hnew, of_decide_eq_true hphase,
      (restored_phase_iff (boot_nodeOfFour 3) hrun hnew).mpr hplace⟩
  · simp at hphase

def overtakenBySync : List NodeEvent :=
  acceptFirst [7] ++ [.requestSync, .controller (.sync ⟨firstProposal [7], []⟩ false)]

/-- After a crash the view is at sequence `2`, in the phase of the proposal of sequence `1`. -/
theorem restored_proposal_overtaken :
    Node.boot (clusterOfFour 3) [] {} = .ok (nodeOfFour 3) ∧
    ∃ nd v inFlight nd', run (Node.step (clusterOfFour 3)) (nodeOfFour 3)
        (accepting overtakenBySync) = some nd ∧
      nd.checkpoint.sequence = 1 ∧ nd.persisted.wal = savedFirstProposal ∧
      newProposer nd.persisted.wal 1 2 0 1 = .ok (v, inFlight) ∧
      run (Node.step (clusterOfFour 3)) (nodeOfFour 3)
        (accepting (overtakenBySync ++ [.crash])) = some nd' ∧
      nd'.panicked = none ∧ nd'.currView = v ∧ v.phase = .proposed ∧ v.proposalSequence = 2 ∧
      v.inFlightProposal = some (firstProposal [7]) ∧ ¬v.PhaseFits (clusterOfFour 3) := by
  refine ⟨rfl, ?_⟩
  have hreached : (run (Node.step (clusterOfFour 3)) (nodeOfFour 3)
      (accepting overtakenBySync)).any (fun nd => decide (nd.checkpoint.sequence = 1 ∧
        nd.persisted.wal = savedFirstProposal)) = true := by
    decide +kernel
  obtain ⟨nd, hrun, hsequence, hwal⟩ := exists_of_any hreached
  have hcrashed : (run (Node.step (clusterOfFour 3)) (nodeOfFour 3)
      (accepting (overtakenBySync ++ [.crash]))).any (fun nd' => decide (nd'.panicked = none ∧
        (newProposer savedFirstProposal 1 2 0 1).toOption.map Prod.fst = some nd'.currView ∧
        nd'.currView.phase = .proposed ∧ nd'.currView.proposalSequence = 2 ∧
        nd'.currView.inFlightProposal = some (firstProposal [7]))) = true := by
    decide +kernel
  obtain ⟨nd', hrun', hlive, hview, hphase, hseq, hproposal⟩ := exists_of_any hcrashed
  cases hnew : newProposer savedFirstProposal 1 2 0 1 with
  | error failure => simp [hnew, Except.toOption] at hview
  | ok restored =>
    obtain ⟨v, inFlight⟩ := restored
    obtain rfl : v = nd'.currView := by simpa [hnew, Except.toOption] using hview
    refine ⟨nd, _, inFlight, nd', hrun, hsequence, hwal, by rw [hwal, hnew], hrun', hlive, rfl,
      hphase, hseq, hproposal, ?_⟩
    simp only [View.PhaseFits, hphase]
    rintro ⟨proposal, ⟨hcarried, md, hmd, hlatest, -⟩, -⟩
    obtain rfl := Option.some.inj (hproposal.symm.trans hcarried)
    obtain rfl : md = { latestSequence := 1 } := (Option.some.inj hmd).symm
    simp [hseq] at hlatest

end SmartBFT
