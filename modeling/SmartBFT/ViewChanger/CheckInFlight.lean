import SmartBFT.Foundation.Quorum
import SmartBFT.Util

/-!
# The in-flight rule of a view change

`CheckInFlight` reads a list of view data messages and decides whether some
proposal may already have been decided in an earlier view.  It goes through
the list twice: the first loop collects the prepared proposals of the
expected sequence, the second counts for each of them the messages that
support it and those that do not argue against it.
-/

namespace SmartBFT

open SmartBFT.Foundation

structure PossibleProposal where
  proposal : Proposal
  preprepared : Nat := 0
  noArgument : Nat := 0
  deriving DecidableEq, Repr

abbrev ProposalAndMetadata := Option (Proposal × ViewMetadata)

structure CheckInFlightResult where
  ok : Bool
  noInFlight : Bool
  inFlightProposal : Option Proposal
  deriving DecidableEq, Repr

def maxLastDecisionSequence : List ViewData → Except Failure Nat
  | [] => .ok 0
  | vd :: messages =>
    match vd.lastDecision with
    | none => .error (.panic "The last decision is not set")
    | some lastDecision =>
      match lastDecision.metadata with
      | none => maxLastDecisionSequence messages
      | some raw =>
        match raw.reading with
        | none => .error (.panic "Unable to unmarshal the last decision metadata")
        | some md =>
          match maxLastDecisionSequence messages with
          | .error failure => .error failure
          | .ok rest => .ok (max md.latestSequence rest)

variable {messages : List ViewData} {vd : ViewData} {f quorum latest expectedSequence : Nat}
  {md : ViewMetadata} {lastDecision proposal : Proposal} {possible : List PossibleProposal}
  {result : CheckInFlightResult}

theorem maxLastDecisionSequence_cons (hvd : vd.lastDecision = some lastDecision)
    (hmd : lastDecision.unmarshalMetadata = some md) (messages : List ViewData) :
    maxLastDecisionSequence (vd :: messages) =
      (maxLastDecisionSequence messages).map (max md.latestSequence) := by
  cases hmetadata : lastDecision.metadata with
  | none =>
    obtain rfl : md = {} := by simpa [Proposal.unmarshalMetadata, hmetadata] using hmd.symm
    simp only [maxLastDecisionSequence, hvd, hmetadata]
    cases maxLastDecisionSequence messages <;> simp [Except.map]
  | some raw =>
    have hread : raw.reading = some md := by
      simpa [Proposal.unmarshalMetadata, hmetadata] using hmd
    simp only [maxLastDecisionSequence, hvd, hmetadata, hread]
    cases maxLastDecisionSequence messages <;> rfl

theorem maxLastDecisionSequence_unreadable (hvd : vd.lastDecision = some lastDecision)
    (hmd : lastDecision.unmarshalMetadata = none) (messages : List ViewData) :
    ∃ failure, maxLastDecisionSequence (vd :: messages) = .error failure := by
  cases hmetadata : lastDecision.metadata with
  | none => simp [Proposal.unmarshalMetadata, hmetadata] at hmd
  | some raw =>
    have hread : raw.reading = none := by
      simpa [Proposal.unmarshalMetadata, hmetadata] using hmd
    refine ⟨.panic "Unable to unmarshal the last decision metadata", ?_⟩
    simp only [maxLastDecisionSequence, hvd, hmetadata, hread]

theorem maxLastDecisionSequence_cons_ok
    (h : maxLastDecisionSequence (vd :: messages) = .ok latest) :
    ∃ sequence rest, vd.lastSequence = some sequence ∧
      maxLastDecisionSequence messages = .ok rest ∧ latest = max sequence rest := by
  cases hvd : vd.lastDecision with
  | none => simp [maxLastDecisionSequence, hvd] at h
  | some lastDecision =>
    cases hmd : lastDecision.unmarshalMetadata with
    | none =>
      obtain ⟨failure, herror⟩ := maxLastDecisionSequence_unreadable hvd hmd messages
      simp [herror] at h
    | some md =>
      rw [maxLastDecisionSequence_cons hvd hmd] at h
      cases hrest : maxLastDecisionSequence messages with
      | error failure => simp [hrest, Except.map] at h
      | ok rest =>
        rw [hrest] at h
        exact ⟨md.latestSequence, rest, by simp [ViewData.lastSequence, hvd, hmd], rfl,
          (Except.ok.inj h).symm⟩

theorem maxLastDecisionSequence_same (hne : messages ≠ [])
    (h : ∀ vd ∈ messages, vd.lastDecision = some lastDecision)
    (hmd : lastDecision.unmarshalMetadata = some md) :
    maxLastDecisionSequence messages = .ok md.latestSequence := by
  induction messages with
  | nil => exact absurd rfl hne
  | cons vd messages ih =>
    rw [maxLastDecisionSequence_cons (h vd List.mem_cons_self) hmd]
    cases messages with
    | nil => simp [maxLastDecisionSequence, Except.map]
    | cons other messages =>
      rw [ih (by simp) fun later hlater => h later (List.mem_cons_of_mem _ hlater)]
      simp [Except.map]

theorem maxLastDecisionSequence_bounded {bound : Nat}
    (h : ∀ vd ∈ messages, ∃ lastDecision md, vd.lastDecision = some lastDecision ∧
      lastDecision.unmarshalMetadata = some md ∧ md.latestSequence ≤ bound) :
    ∃ latest ≤ bound, maxLastDecisionSequence messages = .ok latest ∧
      ∀ vd ∈ messages, ∀ lastDecision md, vd.lastDecision = some lastDecision →
        lastDecision.unmarshalMetadata = some md → md.latestSequence ≤ latest := by
  induction messages with
  | nil => exact ⟨0, Nat.zero_le _, rfl, by simp⟩
  | cons vd messages ih =>
    obtain ⟨lastDecision, md, hlast, hmd, hle⟩ := h vd List.mem_cons_self
    obtain ⟨latest, hbound, hmax, hall⟩ :=
      ih fun other hother => h other (List.mem_cons_of_mem _ hother)
    refine ⟨max md.latestSequence latest, Nat.max_le.mpr ⟨hle, hbound⟩, ?_, ?_⟩
    · rw [maxLastDecisionSequence_cons hlast hmd, hmax]
      rfl
    · intro other hother lastDecision' md' hlast' hmd'
      rcases List.mem_cons.mp hother with rfl | hother
      · obtain rfl := Option.some.inj (hlast.symm.trans hlast')
        obtain rfl := Option.some.inj (hmd.symm.trans hmd')
        exact Nat.le_max_left _ _
      · exact Nat.le_trans (hall other hother lastDecision' md' hlast' hmd')
          (Nat.le_max_right _ _)

structure InFlightTally where
  possibleProposals : List PossibleProposal := []
  proposalsAndMetadata : List ProposalAndMetadata := []
  noInFlightCount : Nat := 0
  deriving DecidableEq, Repr

def addPossible (possible : List PossibleProposal) (proposal : Proposal) :
    List PossibleProposal :=
  if possible.any fun p => p.proposal == proposal then possible
  else possible ++ [{ proposal := proposal }]

/-- The first loop of `CheckInFlight`. -/
def collectInFlight (expectedSequence : Nat) :
    List ViewData → InFlightTally → Except Failure InFlightTally
  | [], tally => .ok tally
  | vd :: messages, tally =>
    match vd.inFlightProposal with
    | none =>
      collectInFlight expectedSequence messages
        { tally with
          noInFlightCount := tally.noInFlightCount + 1
          proposalsAndMetadata := tally.proposalsAndMetadata ++ [none] }
    | some proposal =>
      match proposal.metadata with
      | none =>
        .error (.error "Node has a view data message where the in flight proposal metadata is nil")
      | some raw =>
        match raw.reading with
        | none =>
          .error (.error "Node was unable to unmarshal the in flight proposal metadata")
        | some inFlightMetadata =>
          let seen := tally.proposalsAndMetadata ++
            [some (proposal, inFlightMetadata)]
          if inFlightMetadata.latestSequence ≠ expectedSequence ∨
              vd.inFlightPrepared = false then
            collectInFlight expectedSequence messages
              { tally with
                noInFlightCount := tally.noInFlightCount + 1
                proposalsAndMetadata := seen }
          else
            collectInFlight expectedSequence messages
              { tally with
                possibleProposals :=
                  addPossible tally.possibleProposals proposal
                proposalsAndMetadata := seen }

/-- The body of the second loop, for one message and one possible proposal. -/
def fillPossible (expectedSequence : Nat) (prop : ProposalAndMetadata)
    (possible : PossibleProposal) : PossibleProposal :=
  match prop with
  | none => { possible with noArgument := possible.noArgument + 1 }
  | some (proposal, metadata) =>
    if metadata.latestSequence ≠ expectedSequence then
      { possible with noArgument := possible.noArgument + 1 }
    else if proposal = possible.proposal then
      { possible with
        noArgument := possible.noArgument + 1
        preprepared := possible.preprepared + 1 }
    else possible

/-- The second loop of `CheckInFlight`. -/
def fillPossibleProposals (expectedSequence : Nat)
    (props : List ProposalAndMetadata) (possible : List PossibleProposal) :
    List PossibleProposal :=
  props.foldl (fun possible prop => possible.map (fillPossible expectedSequence prop))
    possible

def checkInFlight (messages : List ViewData) (f quorum : Nat) :
    Except Failure CheckInFlightResult :=
  match maxLastDecisionSequence messages with
  | .error failure => .error failure
  | .ok latest =>
    let expectedSequence := nextSequence latest
    match collectInFlight expectedSequence messages {} with
    | .error failure => .error failure
    | .ok tally =>
      let possible := fillPossibleProposals expectedSequence
        tally.proposalsAndMetadata tally.possibleProposals
      match possible.find? fun p =>
          decide (f + 1 ≤ p.preprepared) && decide (quorum ≤ p.noArgument) with
      | some agreed => .ok ⟨true, false, some agreed.proposal⟩
      | none =>
        if quorum ≤ tally.noInFlightCount then .ok ⟨true, true, none⟩
        else .ok ⟨false, false, none⟩

/-! ## The counters as counts over the messages -/

/-- The in-flight proposal of the message, when its metadata has the expected
sequence. -/
def ViewData.expectedInFlight (expectedSequence : Nat) (vd : ViewData) :
    Option Proposal :=
  vd.inFlightProposal.filter fun p =>
    p.unmarshalMetadata.any fun md => md.latestSequence == expectedSequence

theorem ViewData.expectedInFlight_eq_some {expectedSequence : Nat} {vd : ViewData}
    {p : Proposal} : vd.expectedInFlight expectedSequence = some p ↔
      vd.inFlightProposal = some p ∧
        ∃ md, p.unmarshalMetadata = some md ∧ md.latestSequence = expectedSequence := by
  simp [expectedInFlight, Option.filter_eq_some_iff, Option.any_eq_true]

def ViewData.supportsNone (expectedSequence : Nat) (vd : ViewData) : Bool :=
  decide (vd.expectedInFlight expectedSequence = none ∨ vd.inFlightPrepared = false)

def ViewData.supports (expectedSequence : Nat) (p : Proposal) (vd : ViewData) : Bool :=
  decide (vd.expectedInFlight expectedSequence = some p)

def ViewData.permits (expectedSequence : Nat) (p : Proposal) (vd : ViewData) : Bool :=
  decide (vd.expectedInFlight expectedSequence = none ∨
    vd.expectedInFlight expectedSequence = some p)

def ProposalAndMetadata.expected (expectedSequence : Nat)
    (prop : ProposalAndMetadata) : Option Proposal :=
  (prop.filter fun entry => entry.2.latestSequence == expectedSequence).map Prod.fst

theorem fillPossible_eq (expectedSequence : Nat) (prop : ProposalAndMetadata)
    (possible : PossibleProposal) :
    fillPossible expectedSequence prop possible =
      { possible with
        noArgument := possible.noArgument +
          if prop.expected expectedSequence = none ∨
            prop.expected expectedSequence = some possible.proposal then 1 else 0
        preprepared := possible.preprepared +
          if prop.expected expectedSequence = some possible.proposal then 1 else 0 } := by
  cases prop with
  | none => simp [fillPossible, ProposalAndMetadata.expected]
  | some entry =>
    obtain ⟨proposal, metadata⟩ := entry
    by_cases hseq : metadata.latestSequence = expectedSequence
    · by_cases heq : proposal = possible.proposal <;>
        simp [fillPossible, ProposalAndMetadata.expected, hseq, heq]
    · simp [fillPossible, ProposalAndMetadata.expected, hseq]

theorem fillPossibleProposals_eq (expectedSequence : Nat)
    (props : List ProposalAndMetadata) (possible : List PossibleProposal) :
    fillPossibleProposals expectedSequence props possible =
      possible.map fun p =>
        { p with
          noArgument := p.noArgument + props.countP fun prop =>
            decide (prop.expected expectedSequence = none ∨
              prop.expected expectedSequence = some p.proposal)
          preprepared := p.preprepared + props.countP fun prop =>
            decide (prop.expected expectedSequence = some p.proposal) } := by
  induction props generalizing possible with
  | nil => simp [fillPossibleProposals]
  | cons prop props ih =>
    have hrest := ih (possible.map (fillPossible expectedSequence prop))
    simp only [fillPossibleProposals, List.foldl_cons] at hrest ⊢
    rw [hrest, List.map_map]
    apply List.map_congr_left
    intro p _
    simp only [Function.comp_apply, fillPossible_eq, List.countP_cons, decide_eq_true_eq]
    congr 1 <;> omega

theorem mem_addPossible {p : PossibleProposal} (h : p ∈ addPossible possible proposal) :
    p ∈ possible ∨ p = { proposal := proposal } := by
  unfold addPossible at h
  split at h
  · exact .inl h
  · simpa using h

theorem collectInFlight_ok {tally result : InFlightTally}
    (h : collectInFlight expectedSequence messages tally = .ok result) :
    result.noInFlightCount = tally.noInFlightCount +
        messages.countP (·.supportsNone expectedSequence) ∧
      result.proposalsAndMetadata.map (·.expected expectedSequence) =
        tally.proposalsAndMetadata.map (·.expected expectedSequence) ++
          messages.map (·.expectedInFlight expectedSequence) ∧
      ∀ p ∈ result.possibleProposals, p ∈ tally.possibleProposals ∨
        (p.preprepared = 0 ∧ p.noArgument = 0) := by
  induction messages generalizing tally with
  | nil =>
    simp only [collectInFlight, Except.ok.injEq] at h
    subst h
    exact ⟨by simp, by simp, fun p hp => .inl hp⟩
  | cons vd messages ih =>
    cases hproposal : vd.inFlightProposal with
    | none =>
      simp only [collectInFlight, hproposal] at h
      obtain ⟨hcount, hprops, hpossible⟩ := ih h
      refine ⟨?_, ?_, hpossible⟩
      · rw [hcount]
        simp [ViewData.supportsNone, ViewData.expectedInFlight, hproposal]
        omega
      · rw [hprops]
        simp [ViewData.expectedInFlight, hproposal, ProposalAndMetadata.expected]
    | some proposal =>
      cases hmetadata : proposal.metadata with
      | none => simp [collectInFlight, hproposal, hmetadata] at h
      | some raw =>
        cases hreading : raw.reading with
        | none => simp [collectInFlight, hproposal, hmetadata, hreading] at h
        | some md =>
          have hexpected : vd.expectedInFlight expectedSequence =
              ProposalAndMetadata.expected expectedSequence
                (some (proposal, md)) := by
            have hmd : proposal.unmarshalMetadata = some md := by
              simp [Proposal.unmarshalMetadata, hmetadata, hreading]
            by_cases hseq : md.latestSequence = expectedSequence <;>
              simp [ViewData.expectedInFlight, hproposal, Option.filter_some,
                hmd, ProposalAndMetadata.expected, hseq]
          simp only [collectInFlight, hproposal, hmetadata, hreading] at h
          split at h
          · rename_i hnone
            obtain ⟨hcount, hprops, hpossible⟩ := ih h
            refine ⟨?_, ?_, hpossible⟩
            · have hsupports : vd.supportsNone expectedSequence = true := by
                rcases hnone with hseq | hprepared
                · simp [ViewData.supportsNone, hexpected,
                    ProposalAndMetadata.expected, hseq]
                · simp [ViewData.supportsNone, hprepared]
              rw [hcount, List.countP_cons_of_pos hsupports]
              exact Nat.add_right_comm _ _ _
            · rw [hprops]
              simp [hexpected]
          · rename_i hsome
            simp only [not_or, not_not, Bool.not_eq_false] at hsome
            obtain ⟨hcount, hprops, hpossible⟩ := ih h
            refine ⟨?_, ?_, ?_⟩
            · have hsupports : ¬ vd.supportsNone expectedSequence = true := by
                simp [ViewData.supportsNone, hexpected,
                  ProposalAndMetadata.expected, hsome.1, hsome.2]
              rw [hcount, List.countP_cons_of_neg hsupports]
            · rw [hprops]
              simp [hexpected]
            · intro p hp
              rcases hpossible p hp with hp | hp
              · rcases mem_addPossible hp with hp | rfl
                · exact .inl hp
                · exact .inr ⟨rfl, rfl⟩
              · exact .inr hp

theorem countP_expected {props : List ProposalAndMetadata}
    (h : props.map (·.expected expectedSequence) =
      messages.map (·.expectedInFlight expectedSequence))
    (count : Option Proposal → Bool) :
    props.countP (fun prop => count (prop.expected expectedSequence)) =
      messages.countP fun vd => count (vd.expectedInFlight expectedSequence) := by
  have := congrArg (List.countP count) h
  rw [List.countP_map, List.countP_map] at this
  exact this

theorem checkInFlight_cases (hlatest : maxLastDecisionSequence messages = .ok latest)
    (h : checkInFlight messages f quorum = .ok result) :
    (∃ p, result = ⟨true, false, some p⟩ ∧
      f + 1 ≤ messages.countP (·.supports (nextSequence latest) p) ∧
      quorum ≤ messages.countP (·.permits (nextSequence latest) p)) ∨
    (result = ⟨true, true, none⟩ ∧
      quorum ≤ messages.countP (·.supportsNone (nextSequence latest))) ∨
    result = ⟨false, false, none⟩ := by
  simp only [checkInFlight, hlatest] at h
  cases hcollect : collectInFlight (nextSequence latest) messages {} with
  | error failure => simp [hcollect] at h
  | ok tally =>
    simp only [hcollect] at h
    obtain ⟨hcount, hprops, hpossible⟩ := collectInFlight_ok hcollect
    simp only [List.map_nil, List.nil_append, Nat.zero_add, List.not_mem_nil,
      false_or] at hcount hprops hpossible
    split at h
    · rename_i agreed hagreed
      simp only [Except.ok.injEq] at h
      have hcond := List.find?_some hagreed
      have hmem := List.mem_of_find?_eq_some hagreed
      rw [fillPossibleProposals_eq] at hmem
      obtain ⟨p, hp, rfl⟩ := List.mem_map.mp hmem
      obtain ⟨hzero, hzero'⟩ := hpossible p hp
      simp only [hzero, hzero', Nat.zero_add, Bool.and_eq_true, decide_eq_true_eq]
        at hcond
      refine .inl ⟨p.proposal, h.symm, ?_, ?_⟩
      · rw [countP_expected hprops fun e => decide (e = some p.proposal)] at hcond
        exact hcond.1
      · rw [countP_expected hprops
          fun e => decide (e = none ∨ e = some p.proposal)] at hcond
        exact hcond.2
    · split at h
      · rename_i hquorum
        simp only [Except.ok.injEq] at h
        exact .inr (.inl ⟨h.symm, by rw [hcount] at hquorum; exact hquorum⟩)
      · simp only [Except.ok.injEq] at h
        exact .inr (.inr h.symm)

theorem mem_addPossible_iff {p : Proposal} :
    (∃ entry ∈ addPossible possible proposal, entry.proposal = p) ↔
      (∃ entry ∈ possible, entry.proposal = p) ∨ p = proposal := by
  unfold addPossible
  split
  · rename_i hany
    constructor
    · exact .inl
    · rintro (hold | rfl)
      · exact hold
      · simpa using hany
  · constructor
    · rintro ⟨entry, hentry, rfl⟩
      rcases List.mem_append.mp hentry with hold | hnew
      · exact .inl ⟨entry, hold, rfl⟩
      · exact .inr (by simp [List.mem_singleton.mp hnew])
    · rintro (⟨entry, hentry, rfl⟩ | rfl)
      · exact ⟨entry, List.mem_append_left _ hentry, rfl⟩
      · exact ⟨{ proposal := p }, by simp, rfl⟩

theorem collectInFlight_possible
    (hreadable : ∀ vd ∈ messages, ∀ p ∈ vd.inFlightProposal, ∃ md, p.HasMetadata md)
    (tally : InFlightTally) :
    ∃ result, collectInFlight expectedSequence messages tally = .ok result ∧
      ∀ p, (∃ entry ∈ result.possibleProposals, entry.proposal = p) ↔
        (∃ entry ∈ tally.possibleProposals, entry.proposal = p) ∨
        ∃ vd ∈ messages, vd.expectedInFlight expectedSequence = some p ∧
          vd.inFlightPrepared = true := by
  induction messages generalizing tally with
  | nil => exact ⟨tally, rfl, by simp⟩
  | cons vd messages ih =>
    have hrest : ∀ vd ∈ messages, ∀ p ∈ vd.inFlightProposal, ∃ md, p.HasMetadata md :=
      fun other hother => hreadable other (List.mem_cons_of_mem _ hother)
    cases hproposal : vd.inFlightProposal with
    | none =>
      obtain ⟨result, hresult, hpossible⟩ := ih hrest { tally with
        noInFlightCount := tally.noInFlightCount + 1
        proposalsAndMetadata := tally.proposalsAndMetadata ++ [none] }
      refine ⟨result, by simp only [collectInFlight, hproposal, hresult], fun p => ?_⟩
      rw [hpossible p]
      simp [ViewData.expectedInFlight, hproposal]
    | some proposal =>
      obtain ⟨md, raw, hraw, hreading⟩ := hreadable vd List.mem_cons_self proposal hproposal
      have hexpected : vd.expectedInFlight expectedSequence =
          if md.latestSequence = expectedSequence then some proposal else none := by
        have hmd : proposal.unmarshalMetadata = some md :=
          Proposal.HasMetadata.unmarshal ⟨raw, hraw, hreading⟩
        by_cases hseq : md.latestSequence = expectedSequence <;>
          simp [ViewData.expectedInFlight, hproposal, Option.filter_some, hmd, hseq]
      simp only [collectInFlight, hproposal, hraw, hreading]
      split
      · rename_i hnone
        obtain ⟨result, hresult, hpossible⟩ := ih hrest { tally with
          noInFlightCount := tally.noInFlightCount + 1
          proposalsAndMetadata := tally.proposalsAndMetadata ++ [some (proposal, md)] }
        refine ⟨result, hresult, fun p => ?_⟩
        rw [hpossible p]
        rcases hnone with hseq | hprepared
        · simp [hexpected, hseq]
        · simp [hprepared]
      · rename_i hsome
        simp only [not_or, not_not, Bool.not_eq_false] at hsome
        obtain ⟨result, hresult, hpossible⟩ := ih hrest { tally with
          possibleProposals := addPossible tally.possibleProposals proposal
          proposalsAndMetadata := tally.proposalsAndMetadata ++ [some (proposal, md)] }
        refine ⟨result, hresult, fun p => ?_⟩
        rw [hpossible p, mem_addPossible_iff, @eq_comm _ p proposal]
        simp [hexpected, hsome.1, hsome.2, or_assoc]

def InFlightCandidate (messages : List ViewData) (f quorum expectedSequence : Nat)
    (p : Proposal) : Prop :=
  (∃ vd ∈ messages, vd.expectedInFlight expectedSequence = some p ∧
      vd.inFlightPrepared = true) ∧
    f + 1 ≤ messages.countP (·.supports expectedSequence p) ∧
    quorum ≤ messages.countP (·.permits expectedSequence p)

theorem checkInFlight_outcome (f quorum : Nat)
    (hlatest : maxLastDecisionSequence messages = .ok latest)
    (hreadable : ∀ vd ∈ messages, ∀ p ∈ vd.inFlightProposal, ∃ md, p.HasMetadata md) :
    (∃ p, InFlightCandidate messages f quorum (nextSequence latest) p ∧
      checkInFlight messages f quorum = .ok ⟨true, false, some p⟩) ∨
    ((∀ p, ¬InFlightCandidate messages f quorum (nextSequence latest) p) ∧
      checkInFlight messages f quorum =
        if quorum ≤ messages.countP (·.supportsNone (nextSequence latest)) then
          .ok ⟨true, true, none⟩
        else .ok ⟨false, false, none⟩) := by
  obtain ⟨tally, htally, hreported⟩ :=
    @collectInFlight_possible messages (nextSequence latest) hreadable {}
  obtain ⟨hcount, hprops, hzero⟩ := collectInFlight_ok htally
  simp only [List.map_nil, List.nil_append, Nat.zero_add, List.not_mem_nil, false_or,
    false_and, exists_false] at hcount hprops hzero hreported
  have hsupports := fun p : Proposal => countP_expected hprops fun e => decide (e = some p)
  have hpermits := fun p : Proposal =>
    countP_expected hprops fun e => decide (e = none ∨ e = some p)
  simp only [checkInFlight, hlatest, htally]
  rw [fillPossibleProposals_eq]
  split
  · rename_i agreed hagreed
    have hcond := List.find?_some hagreed
    obtain ⟨entry, hentry, rfl⟩ := List.mem_map.mp (List.mem_of_find?_eq_some hagreed)
    obtain ⟨hpre, hno⟩ := hzero entry hentry
    simp only [hpre, hno, Nat.zero_add, Bool.and_eq_true, decide_eq_true_eq, hsupports,
      hpermits] at hcond
    exact .inl ⟨entry.proposal, ⟨(hreported _).mp ⟨entry, hentry, rfl⟩, hcond.1, hcond.2⟩, rfl⟩
  · rename_i hnone
    refine .inr ⟨?_, by rw [hcount]⟩
    rintro p ⟨hp, hsupport, hpermit⟩
    obtain ⟨entry, hentry, rfl⟩ := (hreported p).mpr hp
    obtain ⟨hpre, hno⟩ := hzero entry hentry
    have hfails := List.find?_eq_none.mp hnone _ (List.mem_map_of_mem hentry)
    simp only [hpre, hno, Nat.zero_add, Bool.and_eq_true, decide_eq_true_eq, hsupports,
      hpermits] at hfails
    exact hfails ⟨hsupport, hpermit⟩

theorem checkInFlight_ok_iff (f quorum : Nat)
    (hlatest : maxLastDecisionSequence messages = .ok latest)
    (hreadable : ∀ vd ∈ messages, ∀ p ∈ vd.inFlightProposal, ∃ md, p.HasMetadata md) :
    ∃ result, checkInFlight messages f quorum = .ok result ∧ (result.ok = true ↔
      (∃ p, InFlightCandidate messages f quorum (nextSequence latest) p) ∨
      quorum ≤ messages.countP (·.supportsNone (nextSequence latest))) := by
  rcases checkInFlight_outcome f quorum hlatest hreadable with
    ⟨p, hcandidate, hresult⟩ | ⟨hnone, hresult⟩
  · exact ⟨_, hresult, iff_of_true rfl (.inl ⟨p, hcandidate⟩)⟩
  · have hrejected : ¬∃ p, InFlightCandidate messages f quorum (nextSequence latest) p :=
      fun ⟨p, hp⟩ => hnone p hp
    rw [hresult]
    split
    · rename_i hquorum
      exact ⟨_, rfl, iff_of_true rfl (.inr hquorum)⟩
    · rename_i hquorum
      exact ⟨_, rfl, iff_of_false (by simp) (by simp [hrejected, hquorum])⟩

theorem checkInFlight_same_iff (hquorum : 0 < quorum)
    (hlast : ∀ vd ∈ messages, vd.lastDecision = some lastDecision)
    (hreadable : ∀ vd ∈ messages, ∀ p ∈ vd.inFlightProposal, ∃ md, p.HasMetadata md) :
    (∃ result, checkInFlight messages f quorum = .ok result ∧ result.ok = true) ↔
      ∃ md, lastDecision.unmarshalMetadata = some md ∧
        ((∃ p, InFlightCandidate messages f quorum (nextSequence md.latestSequence) p) ∨
        quorum ≤ messages.countP (·.supportsNone (nextSequence md.latestSequence))) := by
  cases messages with
  | nil =>
    simp [checkInFlight, maxLastDecisionSequence, collectInFlight, fillPossibleProposals,
      InFlightCandidate, Nat.not_le.mpr hquorum]
  | cons vd messages =>
    have hvd := hlast vd List.mem_cons_self
    cases hmd : lastDecision.unmarshalMetadata with
    | none =>
      obtain ⟨failure, hmax⟩ := maxLastDecisionSequence_unreadable hvd hmd messages
      simp [checkInFlight, hmax]
    | some md =>
      have hmax := maxLastDecisionSequence_same (by simp) hlast hmd
      obtain ⟨result, hresult, hiff⟩ := checkInFlight_ok_iff f quorum hmax hreadable
      constructor
      · rintro ⟨other, hother, hok⟩
        obtain rfl : result = other := Except.ok.inj (hresult.symm.trans hother)
        exact ⟨md, rfl, hiff.mp hok⟩
      · rintro ⟨other, hother, hsettles⟩
        obtain rfl := Option.some.inj hother
        exact ⟨result, hresult, hiff.mpr hsettles⟩

theorem checkInFlight_sequence (hlatest : maxLastDecisionSequence messages = .ok latest)
    (h : checkInFlight messages f quorum = .ok result)
    (hproposal : result.inFlightProposal = some proposal) :
    ∃ md, proposal.unmarshalMetadata = some md ∧ md.latestSequence = nextSequence latest := by
  rcases checkInFlight_cases hlatest h with ⟨p, rfl, hsupports, -⟩ | ⟨rfl, -⟩ | rfl
  · obtain rfl : p = proposal := by simpa using hproposal
    have hpos : 0 < messages.countP (·.supports (nextSequence latest) p) := by omega
    obtain ⟨vd, -, hvd⟩ := List.countP_pos_iff.mp hpos
    exact (ViewData.expectedInFlight_eq_some.mp (of_decide_eq_true hvd)).2
  · simp at hproposal
  · simp at hproposal

/-! ## A proposal that may have been decided is never abandoned -/

theorem ViewData.expectedInFlight_of_report {p : Proposal} (hmd : p.HasMetadata md)
    (hseq : md.latestSequence = expectedSequence)
    (hreport : vd.inFlightProposal = some p) :
    vd.expectedInFlight expectedSequence = some p :=
  ViewData.expectedInFlight_eq_some.mpr ⟨hreport, md, hmd.unmarshal, hseq⟩

theorem card_sdiff_lt_quorum {n q : Nat} (hquorum : computeQuorum n = (q, f))
    {nodes avoided : Finset Nat} (hnodes : nodes.card = n) (hsub : avoided ⊆ nodes)
    (hcard : q - f ≤ avoided.card) : (nodes \ avoided).card < q := by
  have htwo := computeQuorum_two_mul hquorum
  have hlt := computeQuorum_faulty_lt hquorum
  rw [Finset.card_sdiff_of_subset hsub, hnodes]
  omega

theorem checkInFlight_prepared {n q : Nat}
    (nodes prepared : Finset Nat) (messages : List (Nat × ViewData)) (p : Proposal)
    (hquorum : computeQuorum n = (q, f)) (hnodes : nodes.card = n)
    (hdistinct : (messages.map Prod.fst).Nodup)
    (hsenders : ∀ message ∈ messages, message.1 ∈ nodes)
    (hlatest : maxLastDecisionSequence (messages.map Prod.snd) = .ok latest)
    (hmd : p.HasMetadata md) (hseq : md.latestSequence = nextSequence latest)
    (hsub : prepared ⊆ nodes) (hcard : q - f ≤ prepared.card)
    (hreport : ∀ message ∈ messages, message.1 ∈ prepared →
      message.2.inFlightProposal = some p ∧ message.2.inFlightPrepared = true)
    (h : checkInFlight (messages.map Prod.snd) f q = .ok result) :
    result = ⟨true, false, some p⟩ ∨ result = ⟨false, false, none⟩ := by
  have hsmall := card_sdiff_lt_quorum hquorum hnodes hsub hcard
  have hexpected : ∀ message ∈ messages, message.1 ∈ prepared →
      message.2.expectedInFlight (nextSequence latest) = some p := fun message hmem hprepared =>
    ViewData.expectedInFlight_of_report hmd hseq (hreport message hmem hprepared).1
  rcases checkInFlight_cases hlatest h with ⟨p', rfl, -, hpermits⟩ | ⟨rfl, hnone⟩ | rfl
  · left
    by_contra hne
    have hle := countP_le_card_sdiff prepared (fun vd => vd.permits (nextSequence latest) p')
      hdistinct hsenders (by
        intro message hmem hpermit hprepared
        rw [ViewData.permits, hexpected message hmem hprepared] at hpermit
        simp only [reduceCtorEq, Option.some.injEq, false_or, decide_eq_true_eq] at hpermit
        exact hne (hpermit ▸ rfl))
    omega
  · exfalso
    have hle := countP_le_card_sdiff prepared (fun vd => vd.supportsNone (nextSequence latest))
      hdistinct hsenders (by
        intro message hmem hsupports hprepared
        rw [ViewData.supportsNone, hexpected message hmem hprepared,
          (hreport message hmem hprepared).2] at hsupports
        simp at hsupports)
    omega
  · exact .inr rfl

/--
If at least `q - f` nodes report the proposal `p` as prepared whenever they
report at all, then `CheckInFlight` neither concludes that nothing is in flight
nor picks another proposal.
-/
theorem checkInFlight_keeps_prepared {n q f latest : Nat}
    (nodes prepared : Finset Nat) (messages : List (Nat × ViewData)) (p : Proposal)
    (hquorum : computeQuorum n = (q, f)) (hnodes : nodes.card = n)
    (hdistinct : (messages.map Prod.fst).Nodup)
    (hsenders : ∀ message ∈ messages, message.1 ∈ nodes)
    (hlatest : maxLastDecisionSequence (messages.map Prod.snd) = .ok latest)
    {md : ViewMetadata} (hmd : p.HasMetadata md) (hseq : md.latestSequence = nextSequence latest)
    (hsub : prepared ⊆ nodes) (hcard : q - f ≤ prepared.card)
    (hreport : ∀ message ∈ messages, message.1 ∈ prepared →
      message.2.inFlightProposal = some p ∧ message.2.inFlightPrepared = true)
    {result : CheckInFlightResult}
    (h : checkInFlight (messages.map Prod.snd) f q = .ok result) :
    ¬ (result.ok = true ∧ result.noInFlight = true) ∧
      ∀ p', result.inFlightProposal = some p' → p' = p := by
  rcases checkInFlight_prepared nodes prepared messages p hquorum hnodes hdistinct hsenders
    hlatest hmd hseq hsub hcard hreport h with rfl | rfl
  · refine ⟨by simp, fun p' heq => ?_⟩
    exact (Option.some.inj heq).symm
  · exact ⟨by simp, by simp⟩

def exampleProposal (payload : Bytes) : Proposal where
  payload := payload
  metadata := some (.marshal { latestSequence := 1 })

def exampleViewData (p : Option Proposal) : ViewData where
  nextView := 1
  lastDecision := some {}
  inFlightProposal := p
  inFlightPrepared := true

/-- Nodes `1` and `2` of four have prepared a proposal and node `4` claims to
have none; the rule picks the prepared one. -/
theorem checkInFlight_keeps_prepared_of_four :
    checkInFlight [exampleViewData none, exampleViewData (some (exampleProposal [7])),
        exampleViewData (some (exampleProposal [7]))] 1 3 =
      .ok ⟨true, false, some (exampleProposal [7])⟩ ∧
    ∀ p', some (exampleProposal [7]) = some p' → p' = exampleProposal [7] := by
  have hresult : checkInFlight [exampleViewData none,
      exampleViewData (some (exampleProposal [7])),
      exampleViewData (some (exampleProposal [7]))] 1 3 =
    .ok ⟨true, false, some (exampleProposal [7])⟩ := by decide
  have hquorum : computeQuorum 4 = (3, 1) := by decide
  exact ⟨hresult, (checkInFlight_keeps_prepared {1, 2, 3, 4} {1, 2}
    [(4, exampleViewData none), (1, exampleViewData (some (exampleProposal [7]))),
      (2, exampleViewData (some (exampleProposal [7])))]
    (exampleProposal [7]) hquorum (by decide) (by decide) (by decide)
    (rfl : _ = Except.ok 0) ⟨_, rfl, rfl⟩ rfl (by decide) (by decide) (by decide)
    hresult).2⟩

end SmartBFT
