import SmartBFT.Node.RestartView

/-!
# The decisions in the view after a sync

The counter of a view is one above the one in the checkpoint, or zero if the view has no
decision yet.  `sync` computes it only when the response is ahead of the checkpoint and
reports zero otherwise, so that a sync that brings nothing new starts the view again with
the counter at zero (`fruitless_sync_resets_count`).
-/

namespace SmartBFT

variable {response checkpoint : Decision} {dec view : Nat} {collected : Option ViewAndSeq}
  {entries : List SavedMessage}

open Foundation

def Decision.metadata (decision : Decision) : ViewMetadata :=
  decision.proposal.unmarshalMetadata.getD {}

/-- The number of decisions in the view that the proposal after the checkpoint carries. -/
def nextDecisions (checkpoint : Decision) (view : Nat) : Nat :=
  if view = checkpoint.metadata.viewId ∧ checkpoint.metadata.latestSequence ≠ 0 then
    checkpoint.metadata.decisionsInView + 1
  else 0

theorem metadata_latestSequence (decision : Decision) :
    decision.metadata.latestSequence = decision.sequence := by
  unfold Decision.metadata Decision.sequence
  cases decision.proposal.unmarshalMetadata <;> rfl

theorem latestMetadata_getD (response : Decision) :
    ((Node.latestMetadata response).getD none).getD {} = response.metadata := by
  unfold Node.latestMetadata Decision.metadata Proposal.unmarshalMetadata
  cases response.proposal.metadata with
  | none => rfl
  | some raw => cases h : raw.reading <;> simp [h]

def Node.CountsDecisions (nd : Node) : Prop :=
  nd.currView.decisionsInView = nextDecisions nd.checkpoint nd.currView.number

/-- The counter of the controller is right, too. -/
def Node.ControllerCounts (nd : Node) : Prop :=
  nd.controller.currDecisionsInView = nextDecisions nd.checkpoint nd.controller.currViewNumber

instance (nd : Node) : Decidable nd.CountsDecisions :=
  inferInstanceAs (Decidable (_ = _))

instance (nd : Node) : Decidable nd.ControllerCounts :=
  inferInstanceAs (Decidable (_ = _))

/-! ## What a sync reports -/

def syncedCheckpoint (checkpoint response : Decision) : Decision :=
  if checkpoint.sequence < response.sequence then response else checkpoint

/-- A collected view is above the one of the response, and is taken with the counter zero. -/
def collectorDecides (controllerViewNum : Nat) (response : Decision)
    (collected : Option ViewAndSeq) : Bool :=
  collected.any fun state =>
    decide (max controllerViewNum response.metadata.viewId < state.view ∧
      state.seq = response.metadata.latestSequence + 1)

/-- When the counter of a report is right for the view.  It is the one of a response that is
ahead, or zero. -/
def countsReported (checkpoint response : Decision) (collector : Bool) (view : Nat) : Bool :=
  if checkpoint.sequence < response.sequence then
    collector || decide (view = response.metadata.viewId)
  else decide (view ≠ checkpoint.metadata.viewId ∨ checkpoint.sequence = 0)

/-- When the counter that was right for the checkpoint stays right: the response is not ahead,
or both are of the view and have the same number of decisions, or neither is of the view. -/
def countsKept (checkpoint response : Decision) (view : Nat) : Bool :=
  decide (response.sequence ≤ checkpoint.sequence) ||
    if view = response.metadata.viewId then
      decide (view = checkpoint.metadata.viewId ∧ checkpoint.sequence ≠ 0 ∧
        checkpoint.metadata.decisionsInView = response.metadata.decisionsInView)
    else decide (view ≠ checkpoint.metadata.viewId ∨ checkpoint.sequence = 0)

theorem fetchReport_some {controllerViewNum : Nat} {dec' : Nat}
    (h : Node.fetchReport ((Node.latestMetadata response).getD none) controllerViewNum
      (max controllerViewNum response.metadata.viewId) dec collected = some (view, dec')) :
    if collectorDecides controllerViewNum response collected then
      max controllerViewNum response.metadata.viewId < view ∧ dec' = 0
    else view = max controllerViewNum response.metadata.viewId ∧ dec' = dec := by
  unfold Node.fetchReport at h
  cases collected with
  | none =>
    simp only at h
    split at h
    · simp at h
    · simp only [Option.some.injEq, Prod.mk.injEq] at h
      simp [collectorDecides, h.1, h.2]
  | some state =>
    simp only [latestMetadata_getD] at h
    split at h
    · simp at h
    · split at h <;> rename_i hnew <;> simp only [Option.some.injEq, Prod.mk.injEq] at h
      · rw [if_pos (by simpa [collectorDecides] using hnew), ← h.1]
        exact ⟨hnew.1, h.2.symm⟩
      · rw [if_neg (by simpa [collectorDecides] using hnew)]
        exact ⟨h.1.symm, h.2.symm⟩

theorem report_counts_iff {controllerViewNum : Nat} {view' : Nat}
    (hreport : Node.fetchReport ((Node.latestMetadata response).getD none) controllerViewNum
      (max controllerViewNum response.metadata.viewId)
      (if checkpoint.sequence < response.sequence then response.metadata.decisionsInView + 1
        else 0) collected = some (view, dec)) (hview : view ≤ view') :
    dec = nextDecisions (syncedCheckpoint checkpoint response) view' ↔
      countsReported checkpoint response
        (collectorDecides controllerViewNum response collected) view' = true := by
  have hcase := fetchReport_some hreport
  unfold nextDecisions syncedCheckpoint countsReported
  by_cases hahead : checkpoint.sequence < response.sequence
  · simp only [if_pos hahead, metadata_latestSequence, Bool.or_eq_true, decide_eq_true_eq]
      at hcase ⊢
    split at hcase <;> rename_i hcollector <;> simp only [hcollector, true_or, iff_true]
    · rw [if_neg (by omega)]
      exact hcase.2
    · split <;> simp <;> omega
  · simp only [if_neg hahead, metadata_latestSequence, decide_eq_true_eq] at hcase ⊢
    have hzero : dec = 0 := by split at hcase <;> exact hcase.2
    split <;> omega

theorem kept_counts_iff (hbefore : dec = nextDecisions checkpoint view) :
    dec = nextDecisions (syncedCheckpoint checkpoint response) view ↔
      countsKept checkpoint response view = true := by
  subst hbefore
  unfold nextDecisions syncedCheckpoint countsKept
  by_cases hahead : checkpoint.sequence < response.sequence
  · simp only [if_pos hahead, metadata_latestSequence, Bool.or_eq_true, decide_eq_true_eq,
      Nat.not_le.mpr hahead, false_or]
    have hsome : response.sequence ≠ 0 := by omega
    by_cases hresponse : view = response.metadata.viewId <;>
      by_cases hcheckpoint : view = checkpoint.metadata.viewId ∧ checkpoint.sequence ≠ 0 <;>
      simp [hresponse, hcheckpoint, hsome] <;> grind
  · simp [if_neg hahead, Nat.not_lt.mp hahead]

namespace Node

/-- When a sync of the run loop leaves the view with the right counter. -/
def syncKeepsCount (cfg : Config) (nd : Node) (response : Decision)
    (collected : Option ViewAndSeq) : Bool :=
  match nd.syncReport response collected with
  | some (view, dec) =>
    if (nd.synced response).alreadyRunning cfg view dec then
      countsKept nd.checkpoint response nd.currView.number
    else
      countsReported nd.checkpoint response
        (collectorDecides nd.controller.currViewNumber response collected) view
  | none =>
    -- the view is kept, or it is started again with the numbers of the controller
    if (nd.synced response).alreadyRunning cfg nd.controller.currViewNumber
        nd.controller.currDecisionsInView then
      countsKept nd.checkpoint response nd.currView.number
    else countsKept nd.checkpoint response nd.controller.currViewNumber

theorem synced_checkpoint (nd : Node) (response : Decision) :
    (nd.synced response).checkpoint = syncedCheckpoint nd.checkpoint response := by
  unfold synced syncedCheckpoint
  split <;> rfl

theorem synced_currView (nd : Node) (response : Decision) :
    (nd.synced response).currView = nd.currView := by
  unfold synced
  split <;> rfl

theorem ChangedTo.counts_iff {cfg : Config} {nd nd' : Node} {response : Decision}
    {view seq dec : Nat} (h : ChangedTo cfg (nd.synced response) view seq dec nd')
    (hbefore : nd.CountsDecisions) :
    nd'.CountsDecisions ↔
      if (nd.synced response).alreadyRunning cfg view dec then
        countsKept nd.checkpoint response nd.currView.number = true
      else dec = nextDecisions (syncedCheckpoint nd.checkpoint response) view := by
  unfold CountsDecisions
  rw [h.checkpoint, synced_checkpoint]
  by_cases hrunning : (nd.synced response).alreadyRunning cfg view dec = true
  · rw [if_pos hrunning, h.kept hrunning, synced_currView]
    exact kept_counts_iff hbefore
  · obtain ⟨hnumber, hdecisions⟩ := h.started (by simpa using hrunning)
    rw [if_neg hrunning, hnumber, hdecisions]

theorem handleSync_counts_iff {cfg : Config} {nd : Node} {response : Decision} {reconfig : Bool}
    {collected : Option ViewAndSeq} (hselect : nd.controller.pc = .select)
    (hbefore : nd.CountsDecisions) (hcontroller : nd.ControllerCounts)
    (hfinished : (nd.handleSync cfg response reconfig collected).panicked = none) :
    (nd.handleSync cfg response reconfig collected).CountsDecisions ↔
      nd.syncKeepsCount cfg response collected = true := by
  obtain ⟨hsome, hnone⟩ := handleSync_changedTo hselect hfinished
  unfold syncKeepsCount
  cases hreport : nd.syncReport response collected with
  | none =>
    rw [(hnone hreport).counts_iff hbefore]
    simp only
    split
    · rfl
    · exact kept_counts_iff hcontroller
  | some report =>
    obtain ⟨view, dec⟩ := report
    rw [(hsome view dec hreport).counts_iff hbefore]
    simp only
    split
    · rfl
    · unfold syncReport at hreport
      simp only [latestMetadata_getD] at hreport
      exact report_counts_iff hreport (Nat.le_refl view)

end Node

/-! ## Starting with a sync -/

/-- `syncOnStart`, which merges what `sync` reports with where the node would start;
`seq` is the sequence of the checkpoint. -/
def StartPoint.syncOnStart (start : StartPoint) (seq : Nat) : Option (Nat × Nat) → StartPoint
  | none => start
  | some (view, dec) =>
    let merged := if start.view < view then { start with view := view, dec := dec } else start
    if start.seq < seq then { merged with seq := seq, dec := dec } else merged

def startPoint (entries : List SavedMessage) (checkpoint : Decision) : StartPoint :=
  setViewAndSeq entries checkpoint.metadata.viewId checkpoint.metadata.latestSequence
    checkpoint.metadata.decisionsInView

def startReport (checkpoint response : Decision) (collected : Option ViewAndSeq) :
    Option (Nat × Nat) :=
  Node.fetchReport ((Node.latestMetadata response).getD none) 0 (max 0 response.metadata.viewId)
    (if checkpoint.sequence < response.sequence then response.metadata.decisionsInView + 1 else 0)
    collected

def syncedStart (entries : List SavedMessage) (checkpoint response : Decision)
    (collected : Option ViewAndSeq) : StartPoint :=
  (startPoint entries checkpoint).syncOnStart (syncedCheckpoint checkpoint response).sequence
    (startReport checkpoint response collected)

/-- `Consensus.Start` with `SyncOnStart`.  The view changer is already in the view of the
start point, and `Restore` reads the log as it was before the sync. -/
def Node.bootSynced (cfg : Config) (entries : List SavedMessage)
    (checkpoint response : Decision) (reconfig : Bool) (collected : Option ViewAndSeq) :
    Except Failure Node :=
  match checkpoint.proposal.unmarshalMetadata, Node.latestMetadata response with
  | none, _ => .error (.panic "Failed unmarshalling metadata")
  | some _, none =>
    .error (.panic
      "Controller was unable to unmarshal the proposal metadata returned by the Synchronizer")
  | some _, some _ =>
    let start := syncedStart entries checkpoint response collected
    let latest := syncedCheckpoint checkpoint response
    match getLeaderID start.view cfg.n cfg.nodes cfg.leaderRotation start.dec
        cfg.decisionsPerLeader latest.metadata.blackList with
    | none => .error (.panic "all nodes are blacklisted")
    | some leader =>
      (newProposer entries leader (start.seq + 1) start.view start.dec).map
        fun (view, inFlight) =>
          let nd := Node.started cfg entries latest start leader view inFlight
          let startView := (startPoint entries checkpoint).view
          let reported := (startReport checkpoint response collected).map Prod.fst
          -- a view that only the collector knows is saved
          let saved := (reported.filter (response.metadata.viewId < ·)).toList.map fun view =>
            .newView { viewId := view, latestSequence := response.metadata.latestSequence }
          { nd with
            persisted := { nd.persisted with wal := entries ++ saved }
            controller := { nd.controller with stopped := reconfig }
            viewChanger := { nd.viewChanger with
              realView := startView, currView := startView, nextView := startView
              informChan := reported.filter (0 < ·), stopped := reconfig } }

/-- The report of the sync is taken, as its view or its sequence is above the start point. -/
def takesReport (entries : List SavedMessage) (checkpoint response : Decision)
    (collected : Option ViewAndSeq) : Bool :=
  let start := startPoint entries checkpoint
  (startReport checkpoint response collected).any fun report =>
    decide (start.view < report.1 ∨ start.seq < (syncedCheckpoint checkpoint response).sequence)

/-- When the counter of the merged start point is right for the view. -/
def startPointCounts (entries : List SavedMessage) (checkpoint response : Decision)
    (collected : Option ViewAndSeq) (view : Nat) : Bool :=
  if takesReport entries checkpoint response collected then
    countsReported checkpoint response (collectorDecides 0 response collected) view
  else if view = (startPoint entries checkpoint).view then countsKept checkpoint response view
  else decide (checkpoint.sequence = 0)

/-- When the view that `Start` creates has the right counter: it is put back to a proposal of
the log past the start point, or it has the counter of the start point. -/
def startKeepsCount (entries : List SavedMessage) (checkpoint response : Decision)
    (collected : Option ViewAndSeq) : Bool :=
  let start := syncedStart entries checkpoint response collected
  match restoredPrePrepare entries (start.seq + 1) with
  | none => startPointCounts entries checkpoint response collected start.view
  | some prePrepare =>
    if prePrepare.seq ≤ start.seq ∨ prePrepare.view < start.view then
      startPointCounts entries checkpoint response collected (max prePrepare.view start.view)
    else countsKept checkpoint response prePrepare.view

/-- The counter is right before the sync: the one of the start point, and those of the
proposals in the log that are not decided. -/
structure StartCounts (entries : List SavedMessage) (checkpoint : Decision) : Prop where
  point : (startPoint entries checkpoint).dec =
    nextDecisions checkpoint (startPoint entries checkpoint).view
  log : ∀ pp prepare proposal md, .proposedRecord pp prepare ∈ entries →
    pp.proposal = some proposal → proposal.unmarshalMetadata = some md →
      checkpoint.sequence < pp.seq → md.decisionsInView = nextDecisions checkpoint pp.view

theorem syncedStart_eq (entries : List SavedMessage) (checkpoint response : Decision)
    (collected : Option ViewAndSeq) :
    (takesReport entries checkpoint response collected = false ∧
      (syncedStart entries checkpoint response collected).view =
        (startPoint entries checkpoint).view ∧
      (syncedStart entries checkpoint response collected).dec =
        (startPoint entries checkpoint).dec) ∨
    ∃ view dec, takesReport entries checkpoint response collected = true ∧
      startReport checkpoint response collected = some (view, dec) ∧
      (syncedStart entries checkpoint response collected).view =
        max (startPoint entries checkpoint).view view ∧
      (syncedStart entries checkpoint response collected).dec = dec := by
  unfold syncedStart takesReport StartPoint.syncOnStart
  cases startReport checkpoint response collected with
  | none => exact .inl ⟨rfl, rfl, rfl⟩
  | some report =>
    obtain ⟨view, dec⟩ := report
    simp only [Option.any_some, decide_eq_true_eq, decide_eq_false_iff_not]
    by_cases hview : (startPoint entries checkpoint).view < view <;>
      by_cases hseq : (startPoint entries checkpoint).seq <
        (syncedCheckpoint checkpoint response).sequence <;>
      simp [hview, hseq] <;> omega

theorem startPoint_seq_le (entries : List SavedMessage) (checkpoint response : Decision)
    (collected : Option ViewAndSeq) : (startPoint entries checkpoint).seq ≤
      (syncedStart entries checkpoint response collected).seq := by
  unfold syncedStart StartPoint.syncOnStart
  split
  · exact Nat.le_refl _
  · simp only
    split
    · rename_i hlt
      exact Nat.le_of_lt hlt
    · split <;> exact Nat.le_refl _

theorem startReport_of_ahead (hahead : checkpoint.sequence < response.sequence)
    (collected : Option ViewAndSeq) :
    ∃ report, startReport checkpoint response collected = some report := by
  have hlatest : (Node.latestMetadata response).getD none ≠ none := by
    intro hnone
    have hmetadata := latestMetadata_getD response
    rw [hnone] at hmetadata
    rw [← metadata_latestSequence response, ← hmetadata] at hahead
    simp at hahead
  unfold startReport Node.fetchReport
  cases collected with
  | none => simp [hlatest]
  | some state =>
    simp only [Nat.not_lt_zero, and_false, if_false]
    split <;> exact ⟨_, rfl⟩

theorem startPoint_counts_iff
    (hbefore : (startPoint entries checkpoint).dec =
      nextDecisions checkpoint (startPoint entries checkpoint).view)
    (hview : view = (syncedStart entries checkpoint response collected).view ∨
      (syncedStart entries checkpoint response collected).view < view ∧
        startPoint entries checkpoint = {
          view := checkpoint.metadata.viewId
          seq := checkpoint.metadata.latestSequence
          dec := if checkpoint.metadata.latestSequence = 0 then 0
            else checkpoint.metadata.decisionsInView + 1 }) :
    (syncedStart entries checkpoint response collected).dec =
        nextDecisions (syncedCheckpoint checkpoint response) view ↔
      startPointCounts entries checkpoint response collected view = true := by
  unfold startPointCounts
  rcases syncedStart_eq entries checkpoint response collected with
    ⟨hnot, hplace, hdec⟩ | ⟨reported, dec, htaken, hreport, hplace, hdec⟩
  · simp only [hnot, Bool.false_eq_true, if_false]
    rw [hdec]
    rcases hview with rfl | ⟨habove, hplain⟩
    · rw [hplace, if_pos rfl]
      exact kept_counts_iff hbefore
    · -- a report of a response that is ahead would have been taken
      have hbehind : ¬checkpoint.sequence < response.sequence := by
        intro hahead
        obtain ⟨report, hreport⟩ := startReport_of_ahead hahead collected
        simp [takesReport, hreport, hplain, metadata_latestSequence, syncedCheckpoint,
          hahead] at hnot
      rw [hplace, hplain] at habove
      have habove : checkpoint.metadata.viewId < view := habove
      rw [syncedCheckpoint, if_neg hbehind, nextDecisions, if_neg (by omega)]
      simp only [hplain, metadata_latestSequence, if_neg (Nat.ne_of_gt habove),
        decide_eq_true_eq]
      split <;> simp_all
  · rw [if_pos htaken, hdec]
    exact report_counts_iff hreport (by omega)

theorem catchUp_resumed {v : View} {prePrepare : PrePrepare} {md : ViewMetadata}
    (h : ResumedAt v prePrepare md) (seq view dec : Nat) :
    (v.catchUp (seq + 1) view dec).number = max prePrepare.view view ∧
      (v.catchUp (seq + 1) view dec).decisionsInView =
        if prePrepare.seq ≤ seq ∨ prePrepare.view < view then dec else md.decisionsInView := by
  obtain ⟨hnumber, hsequence, hdecisions⟩ := h
  simp only [View.catchUp, hsequence, Nat.lt_succ_iff]
  by_cases hseq : prePrepare.seq ≤ seq <;> by_cases hview : prePrepare.view < view <;>
    simp [hnumber, hdecisions, hseq, hview] <;> omega

theorem restoredPrePrepare_mem {proposalSequence : Nat} {prePrepare : PrePrepare}
    (h : restoredPrePrepare entries proposalSequence = some prePrepare) :
    ∃ prepare, .proposedRecord prePrepare prepare ∈ entries := by
  unfold restoredPrePrepare at h
  split at h
  · rename_i prepare hlast
    obtain rfl := Option.some.inj h
    exact ⟨prepare, List.mem_of_getLast? hlast⟩
  · rename_i prepare _ hsecond
    obtain ⟨-, h⟩ := Option.ite_none_right_eq_some.mp h
    obtain rfl := Option.some.inj h
    exact ⟨prepare, List.dropLast_subset entries (List.mem_of_getLast? hsecond)⟩
  · simp at h

theorem bootSynced_counts_iff {cfg : Config} {reconfig : Bool} {nd : Node}
    (hboot : Node.bootSynced cfg entries checkpoint response reconfig collected = .ok nd)
    (hbefore : StartCounts entries checkpoint) :
    nd.CountsDecisions ↔ startKeepsCount entries checkpoint response collected = true := by
  unfold Node.bootSynced at hboot
  split at hboot
  · simp at hboot
  · simp at hboot
  simp only at hboot
  split at hboot
  · simp at hboot
  obtain ⟨⟨view, inFlight⟩, hnew, rfl⟩ := except_map_ok hboot
  obtain ⟨⟨v, inFlight'⟩, hrestore, heq⟩ := except_map_ok hnew
  simp only [Prod.mk.injEq] at heq
  obtain ⟨rfl, rfl⟩ := heq
  unfold startKeepsCount Node.CountsDecisions
  simp only [Node.started]
  obtain ⟨-, ⟨hnone, rfl⟩ |
    ⟨prePrepare, proposal, proposed, hsome, hproposal, hproposed, hresumed⟩⟩ :=
    restore_numbers hrestore
  · simp only [View.fresh] at hnone
    rw [hnone, catchUp_fresh]
    exact startPoint_counts_iff hbefore.point (.inl rfl)
  · simp only [View.fresh] at hsome
    obtain ⟨hnumber, hdecisions⟩ := catchUp_resumed hresumed
      (syncedStart entries checkpoint response collected).seq
      (syncedStart entries checkpoint response collected).view
      (syncedStart entries checkpoint response collected).dec
    rw [hsome, hnumber, hdecisions]
    -- the last record is one of a proposal, so the node starts at the checkpoint
    have hplain : startPoint entries checkpoint = _ := setViewAndSeq_of_restored hsome _ _ _
    simp only
    split <;> rename_i hplace
    · refine startPoint_counts_iff hbefore.point ?_
      rcases Nat.lt_or_ge (syncedStart entries checkpoint response collected).view
        prePrepare.view with hlt | hle
      · exact .inr ⟨by omega, hplain⟩
      · exact .inl (Nat.max_eq_right hle)
    · obtain ⟨hpast, hnotBefore⟩ := not_or.mp hplace
      obtain ⟨prepare, hmem⟩ := restoredPrePrepare_mem hsome
      have hseq := startPoint_seq_le entries checkpoint response collected
      simp only [hplain, metadata_latestSequence] at hseq
      rw [Nat.max_eq_left (Nat.not_lt.mp hnotBefore)]
      exact kept_counts_iff
        (hbefore.log prePrepare prepare proposal proposed hmem hproposal hproposed (by omega))

def fiveDecisions : Decision where
  proposal := { metadata := some (.marshal {
    viewId := 0, latestSequence := 5, decisionsInView := 4 }) }

def sixDecisions : Decision where
  proposal := { metadata := some (.marshal {
    viewId := 0, latestSequence := 6, decisionsInView := 5 }) }

end SmartBFT
