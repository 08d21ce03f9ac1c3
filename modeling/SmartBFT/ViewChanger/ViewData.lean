import SmartBFT.ViewChanger.NewView

/-!
# View data: building it and validating it

`getInFlight` decides which in-flight proposal a node reports in its view data;
`checkLastDecision` and `validateViewDataMsg` are what the next leader does with
the view data of the others.
-/

namespace SmartBFT

/-- `committedDuringViewChange` is set when the node has delivered a decision of
another node's view data: its in-flight record may then be one behind. -/
def getInFlight (inFlight : InFlightData) (lastDecision : Proposal)
    (committedDuringViewChange : Option ViewMetadata) :
    Except Failure (Option Proposal) :=
  match inFlight.inFlightProposal with
  | none => .ok none
  | some proposal =>
    match proposal.metadata with
    | none => .error (.panic "in flight proposal metadata is not set")
    | some raw =>
      match raw.reading, lastDecision.metadata with
      | none, _ => .error (.panic "unable to unmarshal its own in flight metadata")
      | some _, none => .ok (some proposal)
      | some inFlightMetadata, some lastRaw =>
        match lastRaw.reading with
        | none =>
          .error (.panic "unable to unmarshal its own last decision metadata from checkpoint")
        | some lastDecisionMetadata =>
          if inFlightMetadata.latestSequence =
              lastDecisionMetadata.latestSequence then .ok none
          else if inFlightMetadata.latestSequence + 1 =
                lastDecisionMetadata.latestSequence ∧
              committedDuringViewChange.map ViewMetadata.latestSequence =
                some lastDecisionMetadata.latestSequence then .ok none
          else .ok (some proposal)

theorem getInFlight_cases {data : InFlightProposalData} {lastDecision : Proposal}
    {committed : Option ViewMetadata} {inFlight : Option Proposal}
    (h : getInFlight (some data) lastDecision committed = .ok inFlight) :
    ∃ md, data.proposal.HasMetadata md ∧
      (lastDecision.metadata = none ∧ inFlight = some data.proposal ∨
        ∃ last, lastDecision.HasMetadata last ∧
          inFlight = if md.latestSequence = last.latestSequence ∨
              md.latestSequence + 1 = last.latestSequence ∧
                committed.map ViewMetadata.latestSequence = some last.latestSequence then none
            else some data.proposal) := by
  simp only [getInFlight, InFlightData.inFlightProposal, Option.map_some] at h
  split at h
  · simp at h
  · rename_i raw hraw
    split at h
    · simp at h
    · rename_i md hreading hgenesis
      exact ⟨md, ⟨raw, hraw, hreading⟩, .inl ⟨hgenesis, (Except.ok.inj h).symm⟩⟩
    · rename_i md lastRaw hreading hlast
      refine ⟨md, ⟨raw, hraw, hreading⟩, .inr ?_⟩
      split at h
      · simp at h
      · rename_i last hlastReading
        refine ⟨last, ⟨lastRaw, hlast, hlastReading⟩, ?_⟩
        split at h <;> rename_i hsame
        · rw [if_pos (.inl hsame)]
          exact (Except.ok.inj h).symm
        · split at h <;> rename_i hremembered
          · rw [if_pos (.inr hremembered)]
            exact (Except.ok.inj h).symm
          · rw [if_neg (not_or.mpr ⟨hsame, hremembered⟩)]
            exact (Except.ok.inj h).symm

theorem getInFlight_readable {inFlight : InFlightData} {lastDecision proposal : Proposal}
    {committed : Option ViewMetadata}
    (h : getInFlight inFlight lastDecision committed = .ok (some proposal)) :
    ∃ data md, inFlight = some data ∧ data.proposal = proposal ∧ proposal.HasMetadata md := by
  cases inFlight with
  | none => simp [getInFlight, InFlightData.inFlightProposal] at h
  | some data =>
    obtain ⟨md, hmd, ⟨-, hsome⟩ | ⟨last, -, hsome⟩⟩ := getInFlight_cases h
    · obtain rfl := Option.some.inj hsome
      exact ⟨data, md, rfl, rfl, hmd⟩
    · split at hsome
      · simp at hsome
      · obtain rfl := Option.some.inj hsome
        exact ⟨data, md, rfl, rfl, hmd⟩

/-! ## View data of other nodes -/

/-- What `checkLastDecision` finds; `deliver` is followed by
`checkedAfterDelivery`. -/
inductive ViewDataVerdict where
  | invalid
  | valid (sequence : Nat)
  | deliver (lastDecision : Decision) (sequence : Nat)
  | panic (failure : Failure)
  deriving DecidableEq, Repr

/-- `checkLastDecision` up to the delivery. -/
def checkLastDecision (verifier : Verifier) (quorum : Nat) (checkpoint : Decision)
    (svd : SignedViewData) (vd : ViewData) (sender : Nat) : ViewDataVerdict :=
  match vd.lastDecision with
  | none => .invalid
  | some lastDecision =>
    match extractCurrentSequence checkpoint with
    | .error failure => .panic failure
    | .ok mySequence =>
      match lastDecision.metadata with
      | none => if 0 < mySequence then .invalid else .valid 0
      | some raw =>
        match raw.reading with
        | none => .invalid
        | some lastDecisionMD =>
          if vd.nextView ≤ lastDecisionMD.viewId then .invalid
          else if mySequence + 1 < lastDecisionMD.latestSequence then .invalid
          else if lastDecisionMD.latestSequence < mySequence then .invalid
          else if lastDecisionMD.latestSequence = mySequence then
            if svd.signer ≠ sender then .invalid
            else if !verifier.verifySignature svd then .invalid
            else if lastDecision ≠ checkpoint.proposal then .invalid
            else .valid lastDecisionMD.latestSequence
          else
            match validateLastDecision vd quorum verifier with
            | .error _ => .invalid
            | .ok _ =>
              .deliver ⟨lastDecision, vd.lastDecisionSignatures⟩
                lastDecisionMD.latestSequence

/-- The checks of `checkLastDecision` that follow the delivery. -/
def checkedAfterDelivery (verifier : Verifier) (svd : SignedViewData) (sender : Nat) :
    Bool :=
  decide (svd.signer = sender) && verifier.verifySignature svd

/-- `validateViewDataMsg` up to a delivery, for the leader of `currView`. -/
def validateViewDataMsg (verifier : Verifier) (currView quorum : Nat)
    (checkpoint : Decision) (svd : SignedViewData) (sender : Nat) : ViewDataVerdict :=
  match svd.rawViewData.reading with
  | none => .invalid
  | some vd =>
    if vd.nextView ≠ currView then .invalid
    else
      match checkLastDecision verifier quorum checkpoint svd vd sender with
      | .valid sequence =>
        match validateInFlight vd.inFlightProposal sequence with
        | .error _ => .invalid
        | .ok () => .valid sequence
      | verdict => verdict

theorem checkLastDecision_deliver {verifier : Verifier} {quorum : Nat}
    {checkpoint decision : Decision} {svd : SignedViewData} {vd : ViewData}
    {sender sequence : Nat}
    (h : checkLastDecision verifier quorum checkpoint svd vd sender =
      .deliver decision sequence) :
    (decision.Validated quorum fun sig p => verifier.accepts sig p = true) ∧
      decision.proposal.Positive := by
  unfold checkLastDecision at h
  split at h
  · simp at h
  · rename_i lastDecision hlast
    split at h
    · simp at h
    · split at h
      · split at h <;> simp at h
      · rename_i raw hraw
        split at h
        · simp at h
        · rename_i md hmd
          have hmetadata : lastDecision.HasMetadata md := ⟨raw, hraw, hmd⟩
          split at h
          · simp at h
          · split at h
            · simp at h
            · split at h
              · simp at h
              · rename_i hbehind
                split at h
                · split at h
                  · simp at h
                  · split at h
                    · simp at h
                    · split at h <;> simp at h
                · rename_i hlevel
                  split at h
                  · simp at h
                  · rename_i hvalid
                    simp only [ViewDataVerdict.deliver.injEq] at h
                    obtain ⟨rfl, rfl⟩ := h
                    exact ⟨validated_of_validateLastDecision hvalid hlast (by simp [hraw]),
                      md, hmetadata.unmarshal, by omega⟩

theorem validateViewDataMsg_deliver {verifier : Verifier} {currView quorum : Nat}
    {checkpoint decision : Decision} {svd : SignedViewData} {sender sequence : Nat}
    (h : validateViewDataMsg verifier currView quorum checkpoint svd sender =
      .deliver decision sequence) :
    (decision.Validated quorum fun sig p => verifier.accepts sig p = true) ∧
      decision.proposal.Positive := by
  unfold validateViewDataMsg at h
  split at h
  · simp at h
  · split at h
    · simp at h
    · split at h
      · split at h <;> simp at h
      · exact checkLastDecision_deliver h

end SmartBFT
