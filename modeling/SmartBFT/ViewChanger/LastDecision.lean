import SmartBFT.Foundation.Quorum
import SmartBFT.Util

/-!
# Validating the content of a view data message

`ValidateLastDecision` and `ValidateInFlight` of `viewchanger.go`.  The
signature check walks the list once and skips repeated signers, so it says
nothing about the skipped entries (`validateLastDecision_ok`).
-/

namespace SmartBFT

open SmartBFT.Foundation

structure SignatureTally where
  nodesMap : List Nat := []
  validSig : Nat := 0
  deriving DecidableEq, Repr

/-- The signature loop of `ValidateLastDecision`. -/
def countSignatures (verifier : Verifier) (proposal : Proposal) :
    List Signature → SignatureTally → Except Failure SignatureTally
  | [], tally => .ok tally
  | sig :: sigs, tally =>
    if sig.signer ∈ tally.nodesMap then
      countSignatures verifier proposal sigs tally
    else if verifier.accepts sig proposal then
      countSignatures verifier proposal sigs
        ⟨sig.signer :: tally.nodesMap, tally.validSig + 1⟩
    else .error (.error "last decision signature is invalid")

/-- Returns the sequence of the last decision when it is valid. -/
def validateLastDecision (vd : ViewData) (quorum : Nat) (verifier : Verifier) :
    Except Failure Nat :=
  match vd.lastDecision with
  | none => .error (.error "the last decision is not set")
  | some lastDecision =>
    match lastDecision.metadata with
    | none => .ok 0
    | some raw =>
      match raw.reading with
      | none => .error (.error "unable to unmarshal last decision metadata")
      | some md =>
        if vd.nextView ≤ md.viewId then
          .error (.error "last decision view is greater or equal to requested next view")
        else if vd.lastDecisionSignatures.length < quorum then
          .error (.error "there are only too few last decision signatures")
        else
          match countSignatures verifier lastDecision
              vd.lastDecisionSignatures {} with
          | .error failure => .error failure
          | .ok tally =>
            if tally.validSig < quorum then
              .error (.error "there are only too few valid last decision signatures")
            else .ok md.latestSequence

def validateInFlight (inFlightProposal : Option Proposal) (lastSequence : Nat) :
    Except Failure Unit :=
  match inFlightProposal with
  | none => .ok ()
  | some proposal =>
    match proposal.metadata with
    | none => .error (.error "in flight proposal metadata is nil")
    | some raw =>
      match raw.reading with
      | none => .error (.error "unable to unmarshal the in flight proposal metadata")
      | some inFlightMetadata =>
        if inFlightMetadata.latestSequence ≠ nextSequence lastSequence then
          .error (.error "the in flight proposal sequence does not follow the last decision sequence")
        else .ok ()

theorem validateInFlight_ok {inFlightProposal : Option Proposal}
    {lastSequence : Nat} (h : validateInFlight inFlightProposal lastSequence = .ok ()) :
    ∀ p, inFlightProposal = some p →
      ∃ md, p.HasMetadata md ∧ md.latestSequence = nextSequence lastSequence := by
  intro p hp
  subst hp
  simp only [validateInFlight] at h
  split at h
  · simp at h
  · rename_i raw hraw
    split at h
    · simp at h
    · rename_i md hmd
      split at h
      · simp at h
      · rename_i hseq
        exact ⟨md, ⟨raw, hraw, hmd⟩, not_not.mp hseq⟩

/-! ## What the signature loop has checked -/

/-- The signatures that the loop has verified, the first one of each signer. -/
def verifiedSignatures (sigs : List Signature) : List Signature :=
  firstBy Signature.signer sigs []

theorem countSignatures_ok {verifier : Verifier} {proposal : Proposal}
    {sigs : List Signature} {tally result : SignatureTally}
    (h : countSignatures verifier proposal sigs tally = .ok result) :
    result.validSig = tally.validSig + (firstBy Signature.signer sigs tally.nodesMap).length ∧
      ∀ sig ∈ firstBy Signature.signer sigs tally.nodesMap,
        verifier.accepts sig proposal = true := by
  induction sigs generalizing tally with
  | nil =>
    simp only [countSignatures, Except.ok.injEq] at h
    simp [firstBy, h]
  | cons sig sigs ih =>
    simp only [countSignatures] at h
    split at h
    · rename_i hseen
      simp only [firstBy, if_pos hseen]
      exact ih h
    · rename_i hnew
      split at h
      · rename_i haccepts
        obtain ⟨hcount, hvalid⟩ := ih h
        simp only [firstBy, if_neg hnew]
        refine ⟨?_, ?_⟩
        · rw [hcount, List.length_cons]
          exact Nat.succ_add _ _
        · intro other hother
          rcases List.mem_cons.mp hother with rfl | hother
          · exact haccepts
          · exact hvalid other hother
      · simp at h

theorem validateLastDecision_ok {vd : ViewData} {quorum seq : Nat}
    {verifier : Verifier} (h : validateLastDecision vd quorum verifier = .ok seq) :
    ∃ lastDecision, vd.lastDecision = some lastDecision ∧
      (lastDecision.metadata = none ∨
        ∃ md, lastDecision.HasMetadata md ∧ md.latestSequence = seq ∧
          md.viewId < vd.nextView ∧
          quorum ≤ (verifiedSignatures vd.lastDecisionSignatures).length ∧
          ∀ sig ∈ verifiedSignatures vd.lastDecisionSignatures,
            verifier.accepts sig lastDecision = true) := by
  simp only [validateLastDecision] at h
  split at h
  · simp at h
  · rename_i lastDecision hlast
    refine ⟨lastDecision, hlast, ?_⟩
    split at h
    · rename_i hnone
      exact .inl hnone
    · rename_i raw hraw
      split at h
      · simp at h
      · rename_i md hmd
        split at h
        · simp at h
        · rename_i hview
          split at h
          · simp at h
          · cases hcount : countSignatures verifier lastDecision
                vd.lastDecisionSignatures {} with
            | error failure => simp [hcount] at h
            | ok tally =>
              simp only [hcount] at h
              split at h
              · simp at h
              · rename_i hquorum
                simp only [Except.ok.injEq] at h
                obtain ⟨hvalid, haccepts⟩ := countSignatures_ok hcount
                refine .inr ⟨md, ⟨raw, hraw, hmd⟩, h, by omega, ?_, haccepts⟩
                rw [verifiedSignatures, ← Nat.zero_add (firstBy _ _ _).length]
                exact hvalid ▸ Nat.not_lt.mp hquorum

structure Decision.Validated (decision : Decision) (quorum : Nat)
    (accepted : Signature → Proposal → Prop) : Prop where
  metadata : ∃ md, decision.proposal.HasMetadata md
  quorum : quorum ≤ (verifiedSignatures decision.signatures).length
  accepted : ∀ sig ∈ verifiedSignatures decision.signatures, accepted sig decision.proposal

theorem Decision.Validated.mono {decision : Decision} {quorum : Nat}
    {accepted accepted' : Signature → Proposal → Prop}
    (h : decision.Validated quorum accepted)
    (hsub : ∀ sig p, accepted sig p → accepted' sig p) :
    decision.Validated quorum accepted' :=
  ⟨h.metadata, h.quorum, fun sig hsig => hsub sig _ (h.accepted sig hsig)⟩

theorem validated_of_validateLastDecision {vd : ViewData} {quorum seq : Nat}
    {verifier : Verifier} {lastDecision : Proposal}
    (h : validateLastDecision vd quorum verifier = .ok seq)
    (hlast : vd.lastDecision = some lastDecision) (hmetadata : lastDecision.metadata ≠ none) :
    Decision.Validated ⟨lastDecision, vd.lastDecisionSignatures⟩ quorum
      fun sig p => verifier.accepts sig p = true := by
  obtain ⟨other, hother, hcases⟩ := validateLastDecision_ok h
  obtain rfl : lastDecision = other := by simpa [hlast] using hother
  rcases hcases with hnone | ⟨md, hmd, -, -, hquorum, haccepts⟩
  · exact absurd hnone hmetadata
  · exact ⟨⟨md, hmd⟩, hquorum, haccepts⟩

end SmartBFT
