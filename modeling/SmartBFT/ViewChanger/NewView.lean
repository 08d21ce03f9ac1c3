import SmartBFT.ViewChanger.CheckInFlight
import SmartBFT.ViewChanger.LastDecision

/-!
# Processing a new view message

`validateNewViewMsg` goes through the signed view data once and skips
repeated signers; `extractViewDataMessages` goes through it again and skips
nothing.  What the validation establishes is therefore a statement about the
first entry of each signer (`newViewAction_quorum`).

A node that is ahead of an entry cannot check the signature on it, because
the configuration may have changed since, and counts the entry as it stands.
-/

namespace SmartBFT

open SmartBFT.Foundation

/-! ## Validation -/

def extractCurrentSequence (checkpoint : Decision) : Except Failure Nat :=
  match checkpoint.proposal.metadata with
  | none => .ok 0
  | some raw =>
    match raw.reading with
    | none => .error (.panic "unable to unmarshal its own last decision metadata from checkpoint")
    | some md => .ok md.latestSequence

/-- What the loop of `validateNewViewMsg` does with one entry. -/
inductive EntryVerdict where
  | invalid
  | counted
  | sync
  | deliver (lastDecision : Decision) (vd : ViewData) (sequence : Nat)
  deriving DecidableEq, Repr

/-- What `validateNewViewMsg` returns; `deliver` is followed by
`validAfterDelivery`. -/
inductive NewViewVerdict where
  | invalid
  | valid
  | sync
  | deliver (lastDecision : Decision) (svd : SignedViewData) (vd : ViewData)
      (sequence : Nat)
  deriving DecidableEq, Repr

/-- An entry that is behind this node or level with it. -/
def judgeKnownEntry (verifier : Verifier) (svd : SignedViewData) (vd : ViewData)
    (checkSignature sameDecision : Bool) (lastSequence : Nat) : EntryVerdict :=
  if checkSignature && !verifier.verifySignature svd then .invalid
  else if !sameDecision then .invalid
  else
    match validateInFlight vd.inFlightProposal lastSequence with
    | .error _ => .invalid
    | .ok () => .counted

/-- The body of the loop of `validateNewViewMsg`. -/
def judgeEntry (verifier : Verifier) (currView quorum mySequence : Nat)
    (myLastDecision : Proposal) (svd : SignedViewData) : EntryVerdict :=
  match svd.rawViewData.reading with
  | none => .invalid
  | some vd =>
    if vd.nextView ≠ currView then .invalid
    else
      match vd.lastDecision with
      | none => .invalid
      | some lastDecision =>
        match lastDecision.metadata with
        | none =>
          -- the genesis proposal; the signature is checked unless this node is ahead
          judgeKnownEntry verifier svd vd (decide (mySequence = 0)) true 0
        | some raw =>
          match raw.reading with
          | none => .invalid
          | some lastDecisionMD =>
            if vd.nextView ≤ lastDecisionMD.viewId then .invalid
            else if mySequence + 1 < lastDecisionMD.latestSequence then .sync
            else if lastDecisionMD.latestSequence < mySequence then
              judgeKnownEntry verifier svd vd false true
                lastDecisionMD.latestSequence
            else if lastDecisionMD.latestSequence = mySequence then
              judgeKnownEntry verifier svd vd true
                (decide (lastDecision = myLastDecision))
                lastDecisionMD.latestSequence
            else
              match validateLastDecision vd quorum verifier with
              | .error _ => .invalid
              | .ok _ =>
                .deliver ⟨lastDecision, vd.lastDecisionSignatures⟩ vd
                  lastDecisionMD.latestSequence

/-- The loop of `validateNewViewMsg`, with `nodesMap` and
`validViewDataMsgs`. -/
def judgeEntries (judge : SignedViewData → EntryVerdict) (quorum : Nat) :
    List SignedViewData → List Nat → Nat → NewViewVerdict
  | [], _, validViewDataMsgs =>
    if validViewDataMsgs < quorum then .invalid else .valid
  | svd :: signed, nodesMap, validViewDataMsgs =>
    if svd.signer ∈ nodesMap then
      judgeEntries judge quorum signed nodesMap validViewDataMsgs
    else
      match judge svd with
      | .invalid => .invalid
      | .sync => .sync
      | .deliver lastDecision vd sequence => .deliver lastDecision svd vd sequence
      | .counted =>
        judgeEntries judge quorum signed (svd.signer :: nodesMap)
          (validViewDataMsgs + 1)

def validateNewViewMsg (verifier : Verifier) (currView quorum : Nat)
    (checkpoint : Decision) (signed : List SignedViewData) :
    Except Failure NewViewVerdict :=
  match extractCurrentSequence checkpoint with
  | .error failure => .error failure
  | .ok mySequence =>
    .ok (judgeEntries
      (judgeEntry verifier currView quorum mySequence checkpoint.proposal)
      quorum signed [] 0)

/-- The checks of `validateNewViewMsg` that follow a delivery. -/
def validAfterDelivery (verifier : Verifier) (svd : SignedViewData) (vd : ViewData)
    (sequence : Nat) : Bool :=
  verifier.verifySignature svd &&
    (validateInFlight vd.inFlightProposal sequence).isOk

/-- Unlike the validation this keeps repeated signers; `none` is a panic. -/
def extractViewDataMessages (signed : List SignedViewData) : Option (List ViewData) :=
  signed.mapM fun svd => svd.rawViewData.reading

/-! ## Acting on a new view -/

/-- How `processNewViewMsg` ends: it drops the message, asks for a sync, panics,
or acts on the result of `CheckInFlight` for the given messages. -/
inductive NewViewAction where
  | drop
  | sync
  | panic (failure : Failure)
  | act (checkpoint : Decision) (messages : List ViewData) (result : CheckInFlightResult)
  deriving DecidableEq, Repr

/-- `processNewViewMsg` from the point where the message is valid. -/
def checkNewView (f quorum : Nat) (checkpoint : Decision)
    (signed : List SignedViewData) : NewViewAction :=
  match extractViewDataMessages signed with
  | none => .panic (.panic "unable to unmarshal viewData from the newView message")
  | some messages =>
    match checkInFlight messages f quorum with
    | .error failure => .panic failure
    | .ok result => if !result.ok then .drop else .act checkpoint messages result

/--
`processNewViewMsg` up to its use of `CheckInFlight`.  The message is validated
again after each delivery; `deliver` is the application's `Deliver`, which
returns the checkpoint after it and whether the view changer was stopped by a
reconfiguration.  `none` says that the iterations do not suffice.
-/
def processNewViewMsg (verifier : Verifier) (currView f quorum : Nat)
    (deliver : Decision → Decision → Decision × Bool) (signed : List SignedViewData) :
    Nat → Decision → Option NewViewAction
  | 0, _ => none
  | iterations + 1, checkpoint =>
    match validateNewViewMsg verifier currView quorum checkpoint signed with
    | .error failure => some (.panic failure)
    | .ok .invalid => some .drop
    | .ok .sync => some .sync
    | .ok .valid => some (checkNewView f quorum checkpoint signed)
    | .ok (.deliver lastDecision svd vd sequence) =>
      let (checkpoint', stopped) := deliver checkpoint lastDecision
      if stopped || !validAfterDelivery verifier svd vd sequence then some .drop
      else processNewViewMsg verifier currView f quorum deliver signed iterations
        checkpoint'

/-! ## What the validation has established -/

def ViewData.LastDecisionBelow (vd : ViewData) (mySequence : Nat) : Prop :=
  ∃ lastDecision md, vd.lastDecision = some lastDecision ∧
    lastDecision.unmarshalMetadata = some md ∧ md.latestSequence < mySequence

variable {verifier : Verifier} {currView f quorum mySequence sequence : Nat} {svd : SignedViewData}
  {vd : ViewData} {signed : List SignedViewData} {messages : List ViewData}
  {checkpoint checkpoint' decision : Decision} {judge : SignedViewData → EntryVerdict}
  {myLastDecision : Proposal} {result : CheckInFlightResult}

theorem judgeKnownEntry_counted {checkSignature sameDecision : Bool} {lastSequence : Nat}
    (h : judgeKnownEntry verifier svd vd checkSignature sameDecision lastSequence =
      .counted) :
    (checkSignature = true → verifier.verifySignature svd = true) ∧
      sameDecision = true ∧ validateInFlight vd.inFlightProposal lastSequence = .ok () := by
  unfold judgeKnownEntry at h
  split at h
  · simp at h
  · rename_i hsignature
    split at h
    · simp at h
    · rename_i hsame
      split at h
      · simp at h
      · rename_i hinFlight
        refine ⟨fun hcheck => ?_, by simpa using hsame, hinFlight⟩
        simpa [hcheck] using hsignature

theorem judgeEntry_counted
    (h : judgeEntry verifier currView quorum mySequence myLastDecision svd = .counted) :
    ∃ vd lastDecision md, svd.rawViewData.reading = some vd ∧ vd.nextView = currView ∧
      vd.lastDecision = some lastDecision ∧ lastDecision.unmarshalMetadata = some md ∧
      md.latestSequence ≤ mySequence ∧
      validateInFlight vd.inFlightProposal md.latestSequence = .ok () ∧
      (verifier.verifySignature svd = true ∨ md.latestSequence < mySequence) := by
  unfold judgeEntry at h
  split at h
  · simp at h
  · rename_i vd hvd
    split at h
    · simp at h
    · rename_i hview
      split at h
      · simp at h
      · rename_i lastDecision hlast
        split at h
        · rename_i hgenesis
          obtain ⟨hsignature, -, hinFlight⟩ := judgeKnownEntry_counted h
          have hmd : lastDecision.unmarshalMetadata = some {} := by
            simp [Proposal.unmarshalMetadata, hgenesis]
          refine ⟨vd, lastDecision, {}, hvd, not_not.mp hview, hlast, hmd, Nat.zero_le _,
            hinFlight, ?_⟩
          by_cases hzero : mySequence = 0
          · exact .inl (hsignature (by simp [hzero]))
          · exact .inr (Nat.pos_of_ne_zero hzero)
        · rename_i raw hraw
          split at h
          · simp at h
          · rename_i md hread
            have hmd : lastDecision.unmarshalMetadata = some md :=
              Proposal.HasMetadata.unmarshal ⟨raw, hraw, hread⟩
            split at h
            · simp at h
            · split at h
              · simp at h
              · split at h
                · rename_i hbelow
                  exact ⟨vd, lastDecision, md, hvd, not_not.mp hview, hlast, hmd,
                    Nat.le_of_lt hbelow, (judgeKnownEntry_counted h).2.2, .inr hbelow⟩
                · split at h
                  · rename_i hlevel
                    exact ⟨vd, lastDecision, md, hvd, not_not.mp hview, hlast, hmd,
                      Nat.le_of_eq hlevel, (judgeKnownEntry_counted h).2.2,
                      .inl ((judgeKnownEntry_counted h).1 rfl)⟩
                  · split at h <;> simp at h

theorem judgeKnownEntry_ne_deliver
    {vd' : ViewData} {checkSignature sameDecision : Bool} {lastSequence : Nat} :
    judgeKnownEntry verifier svd vd checkSignature sameDecision lastSequence ≠
      .deliver decision vd' sequence := by
  unfold judgeKnownEntry
  split
  · simp
  · split
    · simp
    · split <;> simp

theorem judgeEntry_deliver_cases
    (h : judgeEntry verifier currView quorum mySequence myLastDecision svd =
      .deliver decision vd sequence) :
    ∃ lastDecision md seq, svd.rawViewData.reading = some vd ∧
      vd.lastDecision = some lastDecision ∧
      decision = ⟨lastDecision, vd.lastDecisionSignatures⟩ ∧ lastDecision.HasMetadata md ∧
      md.latestSequence = mySequence + 1 ∧ validateLastDecision vd quorum verifier = .ok seq := by
  unfold judgeEntry at h
  split at h
  · simp at h
  · rename_i vd' hreading
    split at h
    · simp at h
    · split at h
      · simp at h
      · rename_i lastDecision hlast
        split at h
        · exact absurd h judgeKnownEntry_ne_deliver
        · rename_i raw hraw
          split at h
          · simp at h
          · rename_i md hmd
            split at h
            · simp at h
            · split at h
              · simp at h
              · split at h
                · exact absurd h judgeKnownEntry_ne_deliver
                · split at h
                  · exact absurd h judgeKnownEntry_ne_deliver
                  · rename_i hfar hbehind hlevel
                    split at h
                    · simp at h
                    · rename_i seq hvalid
                      simp only [EntryVerdict.deliver.injEq] at h
                      obtain ⟨rfl, rfl, rfl⟩ := h
                      exact ⟨lastDecision, md, seq, hreading, hlast, rfl, ⟨raw, hraw, hmd⟩,
                        by omega, hvalid⟩

theorem judgeEntry_deliver (h : judgeEntry verifier currView quorum mySequence myLastDecision svd =
      .deliver decision vd sequence) :
    (decision.Validated quorum fun sig p => verifier.accepts sig p = true) ∧
      decision.proposal.Positive := by
  obtain ⟨lastDecision, md, seq, -, hlast, rfl, hmd, hnext, hvalid⟩ := judgeEntry_deliver_cases h
  have hset : lastDecision.metadata ≠ none := by
    obtain ⟨raw, hraw, -⟩ := hmd
    simp [hraw]
  exact ⟨validated_of_validateLastDecision hvalid hlast hset, md, hmd.unmarshal, by omega⟩

theorem judgeEntries_deliver {nodesMap : List Nat} {validViewDataMsgs : Nat}
    (h : judgeEntries judge quorum signed nodesMap validViewDataMsgs =
      .deliver decision svd vd sequence) :
    svd ∈ signed ∧ judge svd = .deliver decision vd sequence := by
  induction signed generalizing nodesMap validViewDataMsgs with
  | nil =>
    simp only [judgeEntries] at h
    split at h <;> simp at h
  | cons head signed ih =>
    simp only [judgeEntries] at h
    split at h
    · exact (ih h).imp_left (List.mem_cons_of_mem head)
    · cases hjudge : judge head with
      | invalid => simp [hjudge] at h
      | sync => simp [hjudge] at h
      | counted =>
        simp only [hjudge] at h
        exact (ih h).imp_left (List.mem_cons_of_mem head)
      | deliver lastDecision vd' sequence' =>
        simp only [hjudge, NewViewVerdict.deliver.injEq] at h
        obtain ⟨rfl, rfl, rfl, rfl⟩ := h
        exact ⟨List.mem_cons_self, hjudge⟩

theorem validateNewViewMsg_deliver
    (h : validateNewViewMsg verifier currView quorum checkpoint signed =
      .ok (.deliver decision svd vd sequence)) :
    (decision.Validated quorum fun sig p => verifier.accepts sig p = true) ∧
      decision.proposal.Positive := by
  unfold validateNewViewMsg at h
  split at h
  · simp at h
  · simp only [Except.ok.injEq] at h
    exact judgeEntry_deliver (judgeEntries_deliver h).2

theorem validateNewViewMsg_deliver_next
    (h : validateNewViewMsg verifier currView quorum checkpoint signed =
      .ok (.deliver decision svd vd sequence)) :
    ∃ mySequence md, extractCurrentSequence checkpoint = .ok mySequence ∧ svd ∈ signed ∧
      svd.rawViewData.reading = some vd ∧ vd.lastSequence = some (mySequence + 1) ∧
      decision.proposal.HasMetadata md ∧ md.latestSequence = mySequence + 1 := by
  unfold validateNewViewMsg at h
  split at h
  · simp at h
  · rename_i mySequence hsequence
    simp only [Except.ok.injEq] at h
    obtain ⟨hmem, hjudge⟩ := judgeEntries_deliver h
    obtain ⟨lastDecision, md, seq, hreading, hlast, rfl, hmd, hnext, -⟩ :=
      judgeEntry_deliver_cases hjudge
    refine ⟨mySequence, md, hsequence, hmem, hreading, ?_, hmd, hnext⟩
    simp [ViewData.lastSequence, hlast, hmd.unmarshal, hnext]

theorem judgeEntries_valid {nodesMap : List Nat} {validViewDataMsgs : Nat}
    (h : judgeEntries judge quorum signed nodesMap validViewDataMsgs = .valid) :
    quorum ≤ validViewDataMsgs +
        (firstBy SignedViewData.signer signed nodesMap).length ∧
      ∀ svd ∈ firstBy SignedViewData.signer signed nodesMap, judge svd = .counted := by
  induction signed generalizing nodesMap validViewDataMsgs with
  | nil =>
    simp only [judgeEntries] at h
    split at h
    · simp at h
    · rename_i hquorum
      simp only [firstBy, List.length_nil, List.not_mem_nil, false_implies,
        implies_true, and_true]
      omega
  | cons svd signed ih =>
    simp only [judgeEntries] at h
    split at h
    · rename_i hseen
      simp only [firstBy, if_pos hseen]
      exact ih h
    · rename_i hnew
      simp only [firstBy, if_neg hnew]
      cases hjudge : judge svd with
      | invalid => simp [hjudge] at h
      | sync => simp [hjudge] at h
      | deliver lastDecision vd sequence => simp [hjudge] at h
      | counted =>
        simp only [hjudge] at h
        obtain ⟨hquorum, hcounted⟩ := ih h
        refine ⟨?_, ?_⟩
        · rw [List.length_cons]
          omega
        · intro other hother
          rcases List.mem_cons.mp hother with rfl | hother
          · exact hjudge
          · exact hcounted other hother

theorem validateNewViewMsg_valid
    (h : validateNewViewMsg verifier currView quorum checkpoint signed = .ok .valid) :
    ∃ mySequence, extractCurrentSequence checkpoint = .ok mySequence ∧
      quorum ≤ (firstBy SignedViewData.signer signed []).length ∧
      ∀ svd ∈ firstBy SignedViewData.signer signed [],
        judgeEntry verifier currView quorum mySequence checkpoint.proposal svd =
          .counted := by
  unfold validateNewViewMsg at h
  split at h
  · simp at h
  · rename_i mySequence hsequence
    simp only [Except.ok.injEq] at h
    obtain ⟨hquorum, hcounted⟩ := judgeEntries_valid h
    exact ⟨mySequence, hsequence, by omega, hcounted⟩

theorem extractViewDataMessages_cons (svd : SignedViewData) (signed : List SignedViewData) :
    extractViewDataMessages (svd :: signed) = svd.rawViewData.reading.bind fun vd =>
      (extractViewDataMessages signed).map (vd :: ·) := by
  simp only [extractViewDataMessages, List.mapM_cons]
  cases svd.rawViewData.reading with
  | none => rfl
  | some vd => cases List.mapM (fun svd => svd.rawViewData.reading) signed <;> rfl

def highestLastSequence (signed : List SignedViewData) : Nat :=
  (signed.filterMap fun svd => svd.rawViewData.reading.bind ViewData.lastSequence).foldr max 0

theorem highestLastSequence_of_extract (h : extractViewDataMessages signed = some messages)
    {latest : Nat} (hlatest : maxLastDecisionSequence messages = .ok latest) :
    latest = highestLastSequence signed := by
  induction signed generalizing messages latest with
  | nil =>
    simp only [extractViewDataMessages, List.mapM_nil, Option.pure_def, Option.some.injEq] at h
    subst h
    simpa [maxLastDecisionSequence, highestLastSequence] using hlatest.symm
  | cons svd signed ih =>
    rw [extractViewDataMessages_cons] at h
    simp only [Option.bind_eq_some_iff, Option.map_eq_some_iff] at h
    obtain ⟨vd, hvd, rest, hrest, rfl⟩ := h
    obtain ⟨sequence, highest, hsequence, hhighest, rfl⟩ := maxLastDecisionSequence_cons_ok hlatest
    rw [ih hrest hhighest]
    simp [highestLastSequence, hvd, hsequence]

theorem mem_of_extractViewDataMessages (h : extractViewDataMessages signed = some messages)
    (hmem : svd ∈ signed) :
    ∃ vd ∈ messages, svd.rawViewData.reading = some vd := by
  induction signed generalizing messages with
  | nil => simp at hmem
  | cons head signed ih =>
    simp only [extractViewDataMessages, List.mapM_cons, Option.pure_def,
      Option.bind_eq_bind, Option.bind_eq_some_iff] at h
    obtain ⟨vd, hvd, rest, hrest, heq⟩ := h
    simp only [Option.some.injEq] at heq
    subst heq
    rcases List.mem_cons.mp hmem with rfl | hmem
    · exact ⟨vd, List.mem_cons_self, hvd⟩
    · obtain ⟨vd', hvd', hread⟩ := ih hrest hmem
      exact ⟨vd', List.mem_cons_of_mem _ hvd', hread⟩

theorem extractViewDataMessages_eq
    (h : extractViewDataMessages signed = some messages) (other : ViewData) :
    signed.map (fun svd => svd.rawViewData.reading.getD other) = messages := by
  induction signed generalizing messages with
  | nil =>
    simp only [extractViewDataMessages, List.mapM_nil, Option.pure_def, Option.some.injEq] at h
    exact h ▸ rfl
  | cons head signed ih =>
    simp only [extractViewDataMessages, List.mapM_cons, Option.pure_def,
      Option.bind_eq_bind, Option.bind_eq_some_iff] at h
    obtain ⟨vd, hvd, rest, hrest, heq⟩ := h
    rw [List.map_cons, ih hrest, hvd]
    exact Option.some.inj heq

theorem checkNewView_act
    (h : checkNewView f quorum checkpoint signed = .act checkpoint' messages result) :
    checkpoint' = checkpoint ∧ extractViewDataMessages signed = some messages ∧
      checkInFlight messages f quorum = .ok result ∧ result.ok = true := by
  unfold checkNewView at h
  split at h
  · simp at h
  · rename_i messages' hextract
    split at h
    · simp at h
    · rename_i result' hcheck
      split at h
      · simp at h
      · rename_i hok
        simp only [NewViewAction.act.injEq] at h
        obtain ⟨rfl, rfl, rfl⟩ := h
        exact ⟨rfl, hextract, hcheck, by simpa using hok⟩

theorem processNewViewMsg_valid {deliver : Decision → Decision → Decision × Bool} {iterations : Nat}
    (h : processNewViewMsg verifier currView f quorum deliver signed iterations
      checkpoint = some (.act checkpoint' messages result)) :
    validateNewViewMsg verifier currView quorum checkpoint' signed = .ok .valid ∧
      checkNewView f quorum checkpoint' signed = .act checkpoint' messages result := by
  induction iterations generalizing checkpoint with
  | zero => simp [processNewViewMsg] at h
  | succ iterations ih =>
    simp only [processNewViewMsg] at h
    split at h
    · simp at h
    · simp at h
    · simp at h
    · rename_i hvalid
      simp only [Option.some.injEq] at h
      obtain ⟨rfl, -⟩ := checkNewView_act h
      exact ⟨hvalid, h⟩
    · split at h
      · simp at h
      · exact ih h

/--
If a new view message is acted on, then its entries, taken once for each signer,
come from at least a quorum of distinct signers, are among the messages given to
`CheckInFlight`, ask for the current view, and carry an accepted signature unless
their last decision is below the one of this node.
-/
theorem newViewAction_quorum {verifier : Verifier} {currView f quorum : Nat}
    {deliver : Decision → Decision → Decision × Bool} {signed : List SignedViewData}
    {iterations : Nat} {checkpoint checkpoint' : Decision} {messages : List ViewData}
    {result : CheckInFlightResult}
    (h : processNewViewMsg verifier currView f quorum deliver signed iterations
      checkpoint = some (.act checkpoint' messages result)) :
    ∃ mySequence entries, extractCurrentSequence checkpoint' = .ok mySequence ∧
      entries = firstBy SignedViewData.signer signed [] ∧
      (entries.map SignedViewData.signer).Nodup ∧ quorum ≤ entries.length ∧
      ∀ svd ∈ entries, ∃ vd ∈ messages, svd.rawViewData.reading = some vd ∧
        vd.nextView = currView ∧
        (verifier.verifySignature svd = true ∨ vd.LastDecisionBelow mySequence) := by
  obtain ⟨hvalid, haction⟩ := processNewViewMsg_valid h
  obtain ⟨mySequence, hsequence, hquorum, hcounted⟩ := validateNewViewMsg_valid hvalid
  obtain ⟨-, hextract, -, -⟩ := checkNewView_act haction
  refine ⟨mySequence, _, hsequence, rfl, firstBy_nodup _ _ _, hquorum, ?_⟩
  intro svd hsvd
  obtain ⟨vd, lastDecision, md, hvd, hview, hlast, hmd, -, -, hsignature⟩ :=
    judgeEntry_counted (hcounted svd hsvd)
  have hmem := (firstBy_sublist _ _ _).subset hsvd
  obtain ⟨vd', hvd', hread⟩ := mem_of_extractViewDataMessages hextract hmem
  obtain rfl : vd = vd' := by simpa [hvd] using hread
  exact ⟨vd, hvd', hvd, hview,
    hsignature.imp id fun hbelow => ⟨lastDecision, md, hlast, hmd, hbelow⟩⟩

/-! ## A message that this node is ahead of -/

def rejectingVerifier : Verifier where
  verifyProposal _ := none
  verifyConsenterSig _ _ := none
  verifySignature _ := false
  verificationSequence := 0
  auxiliaryData _ := none
  membershipChange := false

def genesisViewData : ViewData where
  nextView := 1
  lastDecision := some {}

def decisionOne : Decision where
  proposal := { metadata := some (.marshal { latestSequence := 1 }) }

def unsignedNewView : List SignedViewData :=
  [⟨.marshal genesisViewData, 2, []⟩, ⟨.marshal genesisViewData, 3, []⟩,
    ⟨.marshal genesisViewData, 4, []⟩]

theorem newViewAction_quorum_unsigned :
    ∃ mySequence entries, extractCurrentSequence decisionOne = .ok mySequence ∧
      entries = firstBy SignedViewData.signer unsignedNewView [] ∧
      (entries.map SignedViewData.signer).Nodup ∧ 3 ≤ entries.length ∧
      ∀ svd ∈ entries, ∃ vd ∈ [genesisViewData, genesisViewData, genesisViewData],
        svd.rawViewData.reading = some vd ∧ vd.nextView = 1 ∧
        (rejectingVerifier.verifySignature svd = true ∨ vd.LastDecisionBelow mySequence) :=
  newViewAction_quorum (f := 1)
    (by rfl : processNewViewMsg rejectingVerifier 1 1 3 (fun cp _ => (cp, false))
      unsignedNewView 1 decisionOne =
        some (.act decisionOne [genesisViewData, genesisViewData, genesisViewData]
          ⟨true, true, none⟩))

/--
A node that has decided sequence `1` acts on a new view message whose view data
has no accepted signature at all, and so whose senders may not exist: every
entry is behind this node, and is counted without a look at its signature.
-/
theorem newViewAction_without_signatures :
    processNewViewMsg rejectingVerifier 1 1 3 (fun cp _ => (cp, false))
        unsignedNewView 1 decisionOne =
      some (.act decisionOne [genesisViewData, genesisViewData, genesisViewData]
        ⟨true, true, none⟩) ∧
    ¬ ∀ svd ∈ unsignedNewView, rejectingVerifier.verifySignature svd = true := by
  refine ⟨rfl, fun haccepted => ?_⟩
  have := haccepted ⟨.marshal genesisViewData, 2, []⟩ List.mem_cons_self
  simp [rejectingVerifier] at this

end SmartBFT
