import SmartBFT.Node.Step

/-!
# The new view of an honest leader

`validateViewDataMsg` is what the next leader asks of the view data it collects,
and `validateNewViewMsg` is what every other node asks of the same view data in
the new view message.  The leader does not look at the signer and the signature
of view data that reports the genesis decision; the other nodes do.

The decisions of the nodes are positions of one sequence `decided`: the leader
was at positions up to `last` while it collected, and the follower is anywhere.
-/

namespace SmartBFT

open SmartBFT.Foundation

/-! ## What the two sides do -/

inductive Accepted (verifier : Verifier) (currView quorum : Nat) (decided : Nat → Decision)
    (last sender : Nat) (svd : SignedViewData) : Prop where
  | level {position sequence : Nat} (hposition : position ≤ last)
      (hverdict : validateViewDataMsg verifier currView quorum (decided position) svd sender =
        .valid sequence) :
      Accepted verifier currView quorum decided last sender svd
  | ahead {position sequence : Nat} {decision : Decision} {vd : ViewData}
      (hverdict : validateViewDataMsg verifier currView quorum (decided position) svd sender =
        .deliver decision sequence)
      (hvd : svd.rawViewData.reading = some vd)
      (hchecked : checkedAfterDelivery verifier svd sender = true)
      (hinFlight : validateInFlight vd.inFlightProposal sequence = .ok ())
      (hsequence : sequence ≤ last)
      (hdecided : decision.proposal = (decided sequence).proposal) :
      Accepted verifier currView quorum decided last sender svd

/-- The calls of `validateNewViewMsg` in `processNewViewMsg`: whether the last of them has
returned `valid`. -/
def acceptsNewView (verifier : Verifier) (currView quorum : Nat)
    (deliver : Decision → Decision → Decision × Bool) (signed : List SignedViewData) :
    Nat → Decision → Option Bool
  | 0, _ => none
  | iterations + 1, checkpoint =>
    match validateNewViewMsg verifier currView quorum checkpoint signed with
    | .error _ => some false
    | .ok .invalid => some false
    | .ok .sync => some true
    | .ok .valid => some true
    | .ok (.deliver lastDecision svd vd sequence) =>
      let (checkpoint', stopped) := deliver checkpoint lastDecision
      if stopped || !validAfterDelivery verifier svd vd sequence then some false
      else acceptsNewView verifier currView quorum deliver signed iterations checkpoint'

/-- The message of an honest leader.  Its own view data comes first; the follower accepts
its signature, the certificate of its last decision, and every signature that the leader
has accepted. -/
structure HonestNewView (verifier : Verifier) (currView quorum : Nat)
    (decided : Nat → Decision) (last : Nat) (own : SignedViewData) (vd : ViewData)
    (others : List SignedViewData) : Prop where
  chain : ∀ k, extractCurrentSequence (decided k) = .ok k
  reading : own.rawViewData.reading = some vd
  nextView : vd.nextView = currView
  lastDecision : vd.lastDecision = some (decided last).proposal
  signatures : vd.lastDecisionSignatures = (decided last).signatures
  signed : verifier.verifySignature own = true
  certified : 0 < last →
    (decided last).Validated quorum fun sig p => verifier.accepts sig p = true
  accepted : ∀ svd ∈ others, ∃ leaderVerifier sender,
    Accepted leaderVerifier currView quorum decided last sender svd ∧
      (leaderVerifier.verifySignature svd = true → verifier.verifySignature svd = true)

def viewBelow (currView : Nat) (proposal : Proposal) : Bool :=
  match proposal.metadata with
  | none => true
  | some raw =>
    match raw.reading with
    | none => false
    | some md => decide (md.viewId < currView)

/-- When a follower at position `mine` accepts the message of an honest leader at `last`:
the last decision of the leader is of an earlier view, and the follower has to sync, or the
in-flight proposal of the leader follows its last decision, the follower is not stopped by
the decision it catches up with, a quorum of signers remains, and at the genesis decision
all of them have signed. -/
def newViewFits (verifier : Verifier) (currView quorum : Nat) (reconfig : Decision → Bool)
    (decided : Nat → Decision) (last mine : Nat) (vd : ViewData)
    (signed : List SignedViewData) : Bool :=
  let entries := firstBy SignedViewData.signer signed []
  viewBelow currView (decided last).proposal &&
    (decide (mine + 1 < last) ||
      ((validateInFlight vd.inFlightProposal last).isOk &&
        (decide (last ≠ mine + 1) || !reconfig (decided last)) &&
        decide (quorum ≤ entries.length) &&
        (decide (0 < max mine last) || entries.all verifier.verifySignature)))

/-! ## The entries of the others -/

section Entries

variable {verifier leaderVerifier : Verifier} {currView quorum : Nat}
  {decided : Nat → Decision} {last sender : Nat} {svd : SignedViewData}

theorem checkLastDecision_valid {checkpoint : Decision} {vd : ViewData} {sequence : Nat}
    (h : checkLastDecision leaderVerifier quorum checkpoint svd vd sender = .valid sequence) :
    ∃ lastDecision, vd.lastDecision = some lastDecision ∧
      ((lastDecision.metadata = none ∧ sequence = 0) ∨
        ∃ md, lastDecision.HasMetadata md ∧ md.viewId < vd.nextView ∧
          md.latestSequence = sequence ∧ extractCurrentSequence checkpoint = .ok sequence ∧
          lastDecision = checkpoint.proposal ∧ svd.signer = sender ∧
          leaderVerifier.verifySignature svd = true) := by
  unfold checkLastDecision at h
  split at h
  · simp at h
  · rename_i lastDecision hlast
    refine ⟨lastDecision, hlast, ?_⟩
    split at h
    · simp at h
    · rename_i mySequence hmine
      split at h
      · rename_i hgenesis
        split at h
        · simp at h
        · simp only [ViewDataVerdict.valid.injEq] at h
          exact .inl ⟨hgenesis, h.symm⟩
      · rename_i raw hraw
        split at h
        · simp at h
        · rename_i md hmd
          repeat (split at h; · simp at h)
          split at h
          · rename_i hview _ _ hlevel
            split at h
            · simp at h
            · rename_i hsigner
              split at h
              · simp at h
              · rename_i hsignature
                split at h
                · simp at h
                · rename_i hsame
                  simp only [ViewDataVerdict.valid.injEq] at h
                  subst h
                  rw [← hlevel] at hmine
                  exact .inr ⟨md, ⟨raw, hraw, hmd⟩, by omega, rfl, hmine, not_not.mp hsame,
                    not_not.mp hsigner, by simpa using hsignature⟩
          · split at h <;> simp at h

theorem checkLastDecision_ahead {checkpoint decision : Decision} {vd : ViewData}
    {sequence : Nat}
    (h : checkLastDecision leaderVerifier quorum checkpoint svd vd sender =
      .deliver decision sequence) :
    ∃ lastDecision md, vd.lastDecision = some lastDecision ∧ lastDecision.HasMetadata md ∧
      md.viewId < vd.nextView ∧ md.latestSequence = sequence ∧
      decision.proposal = lastDecision := by
  unfold checkLastDecision at h
  split at h
  · simp at h
  · rename_i lastDecision hlast
    split at h
    · simp at h
    · split at h
      · split at h <;> simp at h
      · rename_i raw hraw
        split at h
        · simp at h
        · rename_i md hmd
          split at h
          · simp at h
          · rename_i hview
            repeat (split at h; · simp at h)
            split at h
            · repeat' split at h
              all_goals simp at h
            · split at h
              · simp at h
              · simp only [ViewDataVerdict.deliver.injEq] at h
                obtain ⟨rfl, rfl⟩ := h
                exact ⟨lastDecision, md, hlast, ⟨raw, hraw, hmd⟩, by omega, rfl, rfl⟩

theorem Accepted.entry (hchain : ∀ k, extractCurrentSequence (decided k) = .ok k)
    (h : Accepted leaderVerifier currView quorum decided last sender svd) :
    ∃ vd lastDecision, svd.rawViewData.reading = some vd ∧ vd.nextView = currView ∧
      vd.lastDecision = some lastDecision ∧
      ((lastDecision.metadata = none ∧ validateInFlight vd.inFlightProposal 0 = .ok ()) ∨
        ∃ md, lastDecision.HasMetadata md ∧ md.viewId < currView ∧ md.latestSequence ≤ last ∧
          lastDecision = (decided md.latestSequence).proposal ∧ svd.signer = sender ∧
          leaderVerifier.verifySignature svd = true ∧
          validateInFlight vd.inFlightProposal md.latestSequence = .ok ()) := by
  cases h with
  | level hposition hverdict =>
    rename_i position sequence
    unfold validateViewDataMsg at hverdict
    split at hverdict
    · simp at hverdict
    · rename_i vd hvd
      split at hverdict
      · simp at hverdict
      · rename_i hview
        split at hverdict
        · rename_i sequence' hchecked
          split at hverdict
          · simp at hverdict
          · rename_i hinFlight
            obtain ⟨lastDecision, hlast, hcases⟩ := checkLastDecision_valid hchecked
            refine ⟨vd, lastDecision, hvd, not_not.mp hview, hlast, ?_⟩
            rcases hcases with ⟨hgenesis, rfl⟩ | ⟨md, hmd, hbelow, rfl, hmine, hsame, hsigned⟩
            · exact .inl ⟨hgenesis, hinFlight⟩
            · have hat : position = md.latestSequence :=
                Except.ok.inj ((hchain position).symm.trans hmine)
              rw [not_not.mp hview] at hbelow
              rw [hat] at hposition hsame
              exact .inr ⟨md, hmd, hbelow, hposition, hsame, hsigned.1, hsigned.2, hinFlight⟩
        · rename_i hother
          exact absurd hverdict (hother sequence)
  | ahead hverdict hvd hchecked hinFlight hsequence hdecided =>
    rename_i position sequence decision vd
    unfold validateViewDataMsg at hverdict
    simp only [hvd] at hverdict
    split at hverdict
    · simp at hverdict
    · rename_i hview
      split at hverdict
      · split at hverdict <;> simp at hverdict
      · obtain ⟨lastDecision, md, hlast, hmd, hbelow, rfl, rfl⟩ :=
          checkLastDecision_ahead hverdict
        simp only [checkedAfterDelivery, Bool.and_eq_true, decide_eq_true_eq] at hchecked
        rw [not_not.mp hview] at hbelow
        exact ⟨vd, decision.proposal, hvd, not_not.mp hview, hlast,
          .inr ⟨md, hmd, hbelow, hsequence, hdecided, hchecked.1, hchecked.2, hinFlight⟩⟩

theorem Accepted.judged {mine : Nat}
    (hchain : ∀ k, extractCurrentSequence (decided k) = .ok k) (hmine : last ≤ mine)
    (h : Accepted leaderVerifier currView quorum decided last sender svd)
    (hverify : leaderVerifier.verifySignature svd = true →
      verifier.verifySignature svd = true) :
    judgeEntry verifier currView quorum mine (decided mine).proposal svd =
      if mine = 0 ∧ verifier.verifySignature svd = false then .invalid else .counted := by
  obtain ⟨vd, lastDecision, hvd, hview, hlast, hcases⟩ := h.entry hchain
  unfold judgeEntry
  simp only [hvd, hview, hlast, ne_eq, not_true_eq_false, if_false]
  rcases hcases with ⟨hgenesis, hinFlight⟩ | ⟨md, hmd, hbelow, hseq, hsame, -, hsigned, hinFlight⟩
  · simp only [hgenesis, judgeKnownEntry, hinFlight]
    by_cases hzero : mine = 0
    · cases hsignature : verifier.verifySignature svd <;> simp [hzero]
    · simp [hzero]
  · obtain ⟨raw, hraw, hread⟩ := hmd
    have hsignature := hverify hsigned
    have hnotBelow : ¬currView ≤ md.viewId := by omega
    have hnotAhead : ¬mine + 1 < md.latestSequence := by omega
    simp only [hraw, hread, if_neg hnotBelow, if_neg hnotAhead, hsignature, Bool.true_eq_false,
      and_false, if_false]
    by_cases hpast : md.latestSequence < mine
    · simp [hpast, judgeKnownEntry, hinFlight]
    · have hlevel : md.latestSequence = mine := by omega
      rw [hlevel] at hsame hinFlight
      simp [hlevel, judgeKnownEntry, hsignature, hsame, hinFlight]

end Entries

/-! ## The certificate of the last decision -/

theorem countSignatures_of_accepted {verifier : Verifier} {proposal : Proposal}
    {sigs : List Signature} {tally : SignatureTally}
    (h : ∀ sig ∈ firstBy Signature.signer sigs tally.nodesMap,
      verifier.accepts sig proposal = true) :
    ∃ result, countSignatures verifier proposal sigs tally = .ok result := by
  induction sigs generalizing tally with
  | nil => exact ⟨tally, rfl⟩
  | cons sig sigs ih =>
    simp only [countSignatures]
    split
    · rename_i hseen
      simp only [firstBy, if_pos hseen] at h
      exact ih h
    · rename_i hnew
      simp only [firstBy, if_neg hnew] at h
      rw [if_pos (h sig List.mem_cons_self)]
      apply ih
      intro other hother
      exact h other (List.mem_cons_of_mem _ hother)

theorem validateLastDecision_of_validated {verifier : Verifier} {quorum : Nat} {vd : ViewData}
    {decision : Decision} {md : ViewMetadata}
    (h : decision.Validated quorum fun sig p => verifier.accepts sig p = true)
    (hlast : vd.lastDecision = some decision.proposal)
    (hsignatures : vd.lastDecisionSignatures = decision.signatures)
    (hmd : decision.proposal.HasMetadata md) (hview : md.viewId < vd.nextView) :
    validateLastDecision vd quorum verifier = .ok md.latestSequence := by
  obtain ⟨raw, hraw, hread⟩ := hmd
  obtain ⟨result, hcount⟩ := @countSignatures_of_accepted verifier decision.proposal
    decision.signatures {} h.accepted
  have hvalid := (countSignatures_ok hcount).1
  have hquorum := h.quorum
  have hlength := (firstBy_sublist Signature.signer decision.signatures []).length_le
  unfold verifiedSignatures at hquorum
  simp only [Nat.zero_add] at hvalid
  unfold validateLastDecision
  simp only [hlast, hraw, hread, hsignatures, hcount]
  rw [if_neg (by omega), if_neg (by omega), if_neg (by omega)]

theorem judgeEntries_of_judged {judge : SignedViewData → EntryVerdict} {quorum : Nat}
    {signed : List SignedViewData} {nodesMap : List Nat} {validViewDataMsgs : Nat}
    (h : ∀ svd ∈ firstBy SignedViewData.signer signed nodesMap,
      judge svd = .counted ∨ judge svd = .invalid) :
    judgeEntries judge quorum signed nodesMap validViewDataMsgs =
      if (∀ svd ∈ firstBy SignedViewData.signer signed nodesMap, judge svd = .counted) ∧
          quorum ≤ validViewDataMsgs + (firstBy SignedViewData.signer signed nodesMap).length
        then .valid else .invalid := by
  induction signed generalizing nodesMap validViewDataMsgs with
  | nil =>
    simp only [judgeEntries, firstBy, List.not_mem_nil, false_implies, implies_true,
      true_and, List.length_nil, Nat.add_zero]
    split <;> split <;> first | rfl | omega
  | cons svd signed ih =>
    simp only [judgeEntries]
    split
    · rename_i hseen
      simp only [firstBy, if_pos hseen] at h ⊢
      exact ih h
    · rename_i hnew
      simp only [firstBy, if_neg hnew] at h ⊢
      rcases h svd List.mem_cons_self with hcounted | hinvalid
      · rw [hcounted]
        simp only
        rw [ih fun other hother => h other (List.mem_cons_of_mem _ hother)]
        simp only [List.mem_cons, forall_eq_or_imp, hcounted, true_and, List.length_cons]
        simp only [Nat.add_assoc, Nat.add_comm 1]
      · rw [hinvalid]
        simp [hinvalid]

section Message

variable {verifier : Verifier} {currView quorum : Nat} {decided : Nat → Decision} {last : Nat}
  {own : SignedViewData} {vd : ViewData} {others : List SignedViewData}

theorem HonestNewView.judged_own
    (h : HonestNewView verifier currView quorum decided last own vd others) {mine : Nat}
    (hmine : last ≤ mine) :
    judgeEntry verifier currView quorum mine (decided mine).proposal own =
      if viewBelow currView (decided last).proposal = true ∧
          (validateInFlight vd.inFlightProposal last).isOk = true
        then .counted else .invalid := by
  have hsequence := h.chain last
  unfold extractCurrentSequence at hsequence
  unfold judgeEntry viewBelow
  simp only [h.reading, h.nextView, h.lastDecision, ne_eq, not_true_eq_false, if_false]
  have hknown : ∀ checkSignature, judgeKnownEntry verifier own vd checkSignature true last =
      if (validateInFlight vd.inFlightProposal last).isOk = true then .counted else .invalid := by
    intro checkSignature
    unfold judgeKnownEntry
    cases hinFlight : validateInFlight vd.inFlightProposal last <;>
      simp [h.signed, Except.isOk, Except.toBool]
  cases hmetadata : (decided last).proposal.metadata with
  | none =>
    simp only [hmetadata, Except.ok.injEq] at hsequence
    subst hsequence
    simp [hknown]
  | some raw =>
    cases hread : raw.reading with
    | none => simp [hmetadata, hread] at hsequence
    | some md =>
      simp only [hmetadata, hread, Except.ok.injEq] at hsequence
      subst hsequence
      simp only [hread, decide_eq_true_eq]
      by_cases hview : currView ≤ md.viewId
      · have hnot : ¬md.viewId < currView := by omega
        simp [hview, hnot]
      · have hbelow : md.viewId < currView := by omega
        rw [if_neg hview, if_neg (by omega)]
        by_cases hpast : md.latestSequence < mine
        · rw [if_pos hpast, hknown]
          simp [hbelow]
        · have hlevel : md.latestSequence = mine := by omega
          rw [if_neg hpast, if_pos hlevel, ← hlevel]
          simp [hknown, hbelow]

theorem HonestNewView.judged_own_behind
    (h : HonestNewView verifier currView quorum decided last own vd others) {mine : Nat}
    (hmine : mine < last) :
    judgeEntry verifier currView quorum mine (decided mine).proposal own =
      if viewBelow currView (decided last).proposal = true then
        if mine + 1 < last then .sync else .deliver (decided last) vd last
      else .invalid := by
  have hsequence := h.chain last
  unfold extractCurrentSequence at hsequence
  unfold judgeEntry viewBelow
  simp only [h.reading, h.nextView, h.lastDecision, ne_eq, not_true_eq_false, if_false]
  cases hmetadata : (decided last).proposal.metadata with
  | none =>
    simp only [hmetadata, Except.ok.injEq] at hsequence
    omega
  | some raw =>
    cases hread : raw.reading with
    | none => simp [hmetadata, hread] at hsequence
    | some md =>
      simp only [hmetadata, hread, Except.ok.injEq] at hsequence
      subst hsequence
      simp only [hread, decide_eq_true_eq]
      by_cases hview : currView ≤ md.viewId
      · have hnot : ¬md.viewId < currView := by omega
        simp [hview, hnot]
      · have hbelow : md.viewId < currView := by omega
        rw [if_neg hview, if_pos hbelow]
        by_cases hfar : mine + 1 < md.latestSequence
        · rw [if_pos hfar, if_pos hfar]
        · have hbelow' : md.viewId < vd.nextView := by
            rw [h.nextView]
            exact hbelow
          rw [if_neg hfar, if_neg hfar, if_neg (by omega), if_neg (by omega),
            validateLastDecision_of_validated (h.certified (by omega)) h.lastDecision
              h.signatures ⟨raw, hmetadata, hread⟩ hbelow', h.signatures]

theorem HonestNewView.validate_level
    (h : HonestNewView verifier currView quorum decided last own vd others) {mine : Nat}
    (hmine : last ≤ mine) :
    validateNewViewMsg verifier currView quorum (decided mine) (own :: others) =
      .ok (if viewBelow currView (decided last).proposal = true ∧
          (validateInFlight vd.inFlightProposal last).isOk = true ∧
          quorum ≤ (firstBy SignedViewData.signer (own :: others) []).length ∧
          (mine = 0 → ∀ svd ∈ firstBy SignedViewData.signer (own :: others) [],
            verifier.verifySignature svd = true)
        then .valid else .invalid) := by
  have hown := h.judged_own hmine
  have hothers : ∀ svd ∈ others,
      judgeEntry verifier currView quorum mine (decided mine).proposal svd =
        if mine = 0 ∧ verifier.verifySignature svd = false then .invalid else .counted := by
    intro svd hsvd
    obtain ⟨leaderVerifier, sender, haccepted, hverify⟩ := h.accepted svd hsvd
    exact haccepted.judged h.chain hmine hverify
  have hfirst : firstBy SignedViewData.signer (own :: others) [] =
      own :: firstBy SignedViewData.signer others [own.signer] := by
    simp [firstBy]
  have hsub : ∀ svd ∈ firstBy SignedViewData.signer others [own.signer], svd ∈ others :=
    fun svd hsvd => (firstBy_sublist _ _ _).subset hsvd
  unfold validateNewViewMsg
  simp only [h.chain mine]
  rw [judgeEntries_of_judged]
  · rw [hfirst]
    simp only [List.mem_cons, forall_eq_or_imp, hown, Nat.zero_add, h.signed, true_and,
      Except.ok.injEq]
    congr 1
    rw [eq_iff_iff]
    constructor
    · rintro ⟨⟨hcounted, hall⟩, hquorum⟩
      have hfits : viewBelow currView (decided last).proposal = true ∧
          (validateInFlight vd.inFlightProposal last).isOk = true := by
        by_contra hno
        simp [if_neg hno] at hcounted
      refine ⟨hfits.1, hfits.2, hquorum, ?_⟩
      intro hzero svd hsvd
      have hjudged := hall svd hsvd
      rw [hothers svd (hsub svd hsvd)] at hjudged
      by_contra hno
      rw [if_pos ⟨hzero, by simpa using hno⟩] at hjudged
      simp at hjudged
    · rintro ⟨hview, hinFlight, hquorum, hsigned⟩
      refine ⟨⟨if_pos ⟨hview, hinFlight⟩, ?_⟩, hquorum⟩
      intro svd hsvd
      rw [hothers svd (hsub svd hsvd), if_neg]
      rintro ⟨hzero, hno⟩
      simp [hsigned hzero svd hsvd] at hno
  · intro svd hsvd
    rw [hfirst] at hsvd
    rcases List.mem_cons.mp hsvd with rfl | hsvd
    · rw [hown]
      split
      · exact .inl rfl
      · exact .inr rfl
    · rw [hothers svd (hsub svd hsvd)]
      split
      · exact .inr rfl
      · exact .inl rfl

theorem HonestNewView.validate_behind
    (h : HonestNewView verifier currView quorum decided last own vd others) {mine : Nat}
    (hmine : mine < last) :
    validateNewViewMsg verifier currView quorum (decided mine) (own :: others) =
      .ok (if viewBelow currView (decided last).proposal = true then
        if mine + 1 < last then .sync else .deliver (decided last) own vd last
      else .invalid) := by
  unfold validateNewViewMsg
  simp only [h.chain mine, judgeEntries, List.not_mem_nil, if_false,
    h.judged_own_behind hmine]
  by_cases hview : viewBelow currView (decided last).proposal = true
  · by_cases hfar : mine + 1 < last
    · simp [hview, hfar]
    · simp [hview, hfar]
  · simp [hview]

theorem HonestNewView.accepts_level
    (h : HonestNewView verifier currView quorum decided last own vd others) {mine : Nat}
    (hmine : last ≤ mine) (deliver : Decision → Decision → Decision × Bool)
    (iterations : Nat) :
    acceptsNewView verifier currView quorum deliver (own :: others) (iterations + 1)
        (decided mine) = some true ↔
      viewBelow currView (decided last).proposal = true ∧
        (validateInFlight vd.inFlightProposal last).isOk = true ∧
        quorum ≤ (firstBy SignedViewData.signer (own :: others) []).length ∧
        (mine = 0 → ∀ svd ∈ firstBy SignedViewData.signer (own :: others) [],
          verifier.verifySignature svd = true) := by
  rw [acceptsNewView, h.validate_level hmine]
  split_ifs with hfits
  · simp only [true_iff]
    exact hfits
  · simp only [Option.some.injEq, Bool.false_eq_true, false_iff]
    exact hfits

/-- A follower accepts the new view of an honest leader exactly if `newViewFits`; two
validations decide it. -/
theorem honest_newView_accepted_iff
    (h : HonestNewView verifier currView quorum decided last own vd others)
    (reconfig : Decision → Bool) (mine iterations : Nat) :
    acceptsNewView verifier currView quorum (fun _ decision => (decision, reconfig decision))
        (own :: others) (iterations + 2) (decided mine) = some true ↔
      newViewFits verifier currView quorum reconfig decided last mine vd (own :: others) =
        true := by
  unfold newViewFits
  simp only [Bool.and_eq_true, Bool.or_eq_true, decide_eq_true_eq, List.all_eq_true,
    Bool.not_eq_true']
  by_cases hmine : last ≤ mine
  · rw [h.accepts_level hmine]
    have hfar : ¬mine + 1 < last := by omega
    have hcatch : last ≠ mine + 1 := by omega
    have hpositive : 0 < max mine last ↔ ¬mine = 0 := by omega
    simp only [hfar, hcatch, hpositive, false_or, ne_eq, not_false_eq_true, true_or, and_true,
      ← imp_iff_not_or]
    tauto
  · -- the own entry of the leader decides the first validation
    rw [acceptsNewView, h.validate_behind (by omega)]
    by_cases hview : viewBelow currView (decided last).proposal = true
    · by_cases hfar : mine + 1 < last
      · simp [hview, hfar]
      · have hcatch : last = mine + 1 := by omega
        have hpositive : 0 < max mine last := by omega
        have hnext := h.accepts_level (Nat.le_refl last)
          (fun _ decision => (decision, reconfig decision)) iterations
        have hzero : ¬last = 0 := by omega
        simp only [hview, if_true, if_neg hfar, validAfterDelivery, h.signed, Bool.true_and]
        cases hstopped : reconfig (decided last) <;>
          cases hinFlight : (validateInFlight vd.inFlightProposal last).isOk
        all_goals simp_all
    · simp [hview]

theorem newViewFits_of_signed {reconfig : Decision → Bool} {mine : Nat}
    {signed : List SignedViewData}
    (hview : viewBelow currView (decided last).proposal = true)
    (hinFlight : validateInFlight vd.inFlightProposal last = .ok ())
    (hreconfig : last = mine + 1 → reconfig (decided last) = false)
    (hdistinct : (signed.map SignedViewData.signer).Nodup)
    (hquorum : quorum ≤ signed.length)
    (hsigned : ∀ svd ∈ signed, verifier.verifySignature svd = true) :
    newViewFits verifier currView quorum reconfig decided last mine vd signed = true := by
  unfold newViewFits
  rw [firstBy_eq_self hdistinct (by simp)]
  simp only [Bool.and_eq_true, Bool.or_eq_true, decide_eq_true_eq, List.all_eq_true,
    Bool.not_eq_true', hinFlight]
  refine ⟨hview, .inr ⟨⟨⟨rfl, ?_⟩, hquorum⟩, .inr hsigned⟩⟩
  by_cases hcatch : last = mine + 1
  · exact .inr (hreconfig hcatch)
  · exact .inl hcatch

end Message

/-! ## A change from view `0` to view `1` at the genesis decision -/

def genesisData (signer : Nat) (signature : Bytes) : SignedViewData where
  rawViewData := .marshal { nextView := 1, lastDecision := some {} }
  signer := signer
  signature := signature

def strictVerifier : Verifier :=
  { acceptingVerifier with verifySignature := fun svd => decide (svd.signature = []) }

def decidedFrom : Nat → Decision
  | 0 => {}
  | k + 1 => {
      proposal := { metadata := some (.marshal { latestSequence := k + 1 }) }
      signatures := [{ signer := 1 }, { signer := 2 }, { signer := 3 }] }

theorem accepted_genesisData {signer sender last : Nat} (signature : Bytes) :
    Accepted strictVerifier 1 3 decidedFrom last sender (genesisData signer signature) :=
  @Accepted.level strictVerifier 1 3 decidedFrom last sender (genesisData signer signature) 0 0
    (Nat.zero_le last) rfl

def firstDecided : ViewData where
  nextView := 1
  lastDecision := some (decidedFrom 1).proposal
  lastDecisionSignatures := (decidedFrom 1).signatures

def firstDecidedData : SignedViewData where
  rawViewData := .marshal firstDecided
  signer := 2

/-- Node `2` has decided once and has collected view data of nodes `3` and `4`, which have
not: a follower that is behind it, one that is level and one that is ahead accept its new view. -/
theorem honest_newView_accepted_first :
    [0, 1, 2].Forall fun mine =>
      newViewFits strictVerifier 1 3 (fun _ => false) decidedFrom 1 mine firstDecided
        [firstDecidedData, genesisData 3 [], genesisData 4 []] = true ∧
      acceptsNewView strictVerifier 1 3 (fun _ decision => (decision, false))
        [firstDecidedData, genesisData 3 [], genesisData 4 []] 2 (decidedFrom mine) =
        some true := by
  have hhonest : HonestNewView strictVerifier 1 3 decidedFrom 1 firstDecidedData firstDecided
      [genesisData 3 [], genesisData 4 []] := by
    refine ⟨?_, rfl, rfl, rfl, rfl, rfl, fun _ => ⟨⟨_, _, rfl, rfl⟩, by decide, by decide⟩, ?_⟩
    · intro k
      cases k <;> rfl
    · intro svd hsvd
      simp only [List.mem_cons, List.not_mem_nil, or_false] at hsvd
      rcases hsvd with rfl | rfl
      · exact ⟨strictVerifier, 3, accepted_genesisData [], fun hsigned => hsigned⟩
      · exact ⟨strictVerifier, 4, accepted_genesisData [], fun hsigned => hsigned⟩
  refine List.forall_iff_forall_mem.mpr fun mine hmine => ?_
  have hfits : newViewFits strictVerifier 1 3 (fun _ => false) decidedFrom 1 mine firstDecided
      [firstDecidedData, genesisData 3 [], genesisData 4 []] = true := by
    simp only [List.mem_cons, List.not_mem_nil, or_false] at hmine
    rcases hmine with rfl | rfl | rfl <;> decide +kernel
  exact ⟨hfits, (honest_newView_accepted_iff hhonest (fun _ => false) mine 0).mpr hfits⟩

def strictly (events : List NodeEvent) : List NodeInput :=
  events.map fun event => ⟨strictVerifier, event⟩

def collectUnsigned : List NodeEvent :=
  joinViewOne ++ [.viewChanger (.msg 1 (.viewData (genesisData 1 [9]))),
    .viewChanger (.msg 3 (.viewData (genesisData 3 []))), .viewChanger .readInFlight,
    .viewChanger .readPrepared]

def rejectedNewView : List SignedViewData :=
  [genesisData 2 [], genesisData 1 [9], genesisData 3 []]

/-- Node `1` keeps the others from changing the view: node `2` takes its view data without a
look at the signature, and node `3` rejects the new view because of it. -/
theorem honest_newView_rejected :
    (∃ leader, run (Node.step (clusterOfFour 2)) (nodeOfFour 2) (strictly collectUnsigned) =
        some leader ∧
      leader.trace.head? = some (.broadcast .viewChanger (.newView rejectedNewView))) ∧
    ∃ follower, run (Node.step (clusterOfFour 3)) (nodeOfFour 3) (strictly joinViewOne) =
        some follower ∧
      follower.viewChanger.currView = 1 ∧ follower.checkpoint = decidedFrom 0 ∧
      validateNewViewMsg strictVerifier follower.viewChanger.currView (clusterOfFour 3).quorum
        follower.checkpoint rejectedNewView = .ok .invalid :=
  ⟨exists_of_any (by decide +kernel), exists_of_any (by decide +kernel)⟩

end SmartBFT
