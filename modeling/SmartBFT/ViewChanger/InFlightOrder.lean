import SmartBFT.ViewChanger.CheckInFlight

/-!
# The in-flight rule and the order of the messages

`CheckInFlight` takes the first candidate that it finds.  What it finds does not depend on
the order of the messages as long as there is at most one candidate.  Two candidates need
`f + 1` messages that support the one and a quorum of others that permit the other: in a
cluster of `3 * f + 3` nodes there are that many, in any other there are not.
-/

namespace SmartBFT

variable {messages messages' : List ViewData} {expectedSequence f quorum : Nat} {p : Proposal}

theorem toOption_maxLastDecisionSequence_cons (vd : ViewData) (messages : List ViewData) :
    (maxLastDecisionSequence (vd :: messages)).toOption =
      vd.lastSequence.bind fun sequence =>
        (maxLastDecisionSequence messages).toOption.map (max sequence) := by
  cases hvd : vd.lastDecision with
  | none => simp [maxLastDecisionSequence, hvd, ViewData.lastSequence, Except.toOption]
  | some lastDecision =>
    cases hmd : lastDecision.unmarshalMetadata with
    | none =>
      obtain ⟨failure, hmax⟩ := maxLastDecisionSequence_unreadable hvd hmd messages
      simp [hmax, ViewData.lastSequence, hvd, hmd, Except.toOption]
    | some md =>
      rw [maxLastDecisionSequence_cons hvd hmd]
      cases maxLastDecisionSequence messages <;>
        simp [ViewData.lastSequence, hvd, hmd, Except.toOption, Except.map]

theorem toOption_maxLastDecisionSequence_perm (h : messages'.Perm messages) :
    (maxLastDecisionSequence messages').toOption =
      (maxLastDecisionSequence messages).toOption := by
  induction h with
  | nil => rfl
  | cons vd _ ih => rw [toOption_maxLastDecisionSequence_cons,
      toOption_maxLastDecisionSequence_cons, ih]
  | swap vd vd' messages =>
    simp only [toOption_maxLastDecisionSequence_cons]
    cases vd.lastSequence <;> cases vd'.lastSequence <;>
      cases (maxLastDecisionSequence messages).toOption <;> simp [Nat.max_left_comm]
  | trans _ _ ih ih' => exact ih.trans ih'

theorem maxLastDecisionSequence_perm {latest : Nat} (h : messages'.Perm messages)
    (hlatest : maxLastDecisionSequence messages = .ok latest) :
    maxLastDecisionSequence messages' = .ok latest := by
  have hperm := toOption_maxLastDecisionSequence_perm h
  rw [hlatest] at hperm
  cases hmax : maxLastDecisionSequence messages' with
  | error failure => simp [hmax, Except.toOption] at hperm
  | ok sequence => simpa [hmax, Except.toOption] using hperm

theorem collectInFlight_readable {tally result : InFlightTally}
    (h : collectInFlight expectedSequence messages tally = .ok result) :
    ∀ vd ∈ messages, ∀ p ∈ vd.inFlightProposal, ∃ md, p.HasMetadata md := by
  induction messages generalizing tally with
  | nil => simp
  | cons vd messages ih =>
    have hvd : (∀ p ∈ vd.inFlightProposal, ∃ md, p.HasMetadata md) ∧
        ∃ next, collectInFlight expectedSequence messages next = .ok result := by
      rw [collectInFlight] at h
      split at h
      · rename_i hnone
        exact ⟨by simp [hnone], _, h⟩
      · rename_i proposal hproposal
        split at h
        · simp at h
        · rename_i raw hraw
          split at h
          · simp at h
          · rename_i md hread
            refine ⟨?_, ?_⟩
            · intro p hp
              obtain rfl : p = proposal := by simpa [hproposal] using hp.symm
              exact ⟨md, raw, hraw, hread⟩
            · split at h
              · exact ⟨_, h⟩
              · exact ⟨_, h⟩
    obtain ⟨next, hnext⟩ := hvd.2
    intro other hother
    rcases List.mem_cons.mp hother with rfl | hrest
    · exact hvd.1
    · exact ih hnext other hrest

theorem InFlightCandidate.perm (h : messages'.Perm messages)
    (hp : InFlightCandidate messages f quorum expectedSequence p) :
    InFlightCandidate messages' f quorum expectedSequence p := by
  obtain ⟨⟨vd, hvd, hreport⟩, hsupports, hpermits⟩ := hp
  refine ⟨⟨vd, h.mem_iff.mpr hvd, hreport⟩, ?_, ?_⟩
  · rwa [h.countP_eq]
  · rwa [h.countP_eq]

theorem checkInFlight_perm {result : CheckInFlightResult} (h : messages'.Perm messages)
    (hunique : ∀ latest, maxLastDecisionSequence messages = .ok latest →
      ∀ p p', InFlightCandidate messages f quorum (nextSequence latest) p →
        InFlightCandidate messages f quorum (nextSequence latest) p' → p = p')
    (hresult : checkInFlight messages f quorum = .ok result) :
    checkInFlight messages' f quorum = .ok result := by
  cases hlatest : maxLastDecisionSequence messages with
  | error failure => simp [checkInFlight, hlatest] at hresult
  | ok latest =>
    have hlatest' := maxLastDecisionSequence_perm h hlatest
    have hreadable : ∀ vd ∈ messages, ∀ p ∈ vd.inFlightProposal, ∃ md, p.HasMetadata md := by
      cases hcollect : collectInFlight (nextSequence latest) messages {} with
      | error failure => simp [checkInFlight, hlatest, hcollect] at hresult
      | ok tally => exact collectInFlight_readable hcollect
    have hreadable' : ∀ vd ∈ messages', ∀ p ∈ vd.inFlightProposal, ∃ md, p.HasMetadata md :=
      fun vd hvd => hreadable vd (h.mem_iff.mp hvd)
    rcases checkInFlight_outcome f quorum hlatest hreadable with
      ⟨p, hp, houtcome⟩ | ⟨hnone, houtcome⟩ <;>
      rcases checkInFlight_outcome f quorum hlatest' hreadable' with
        ⟨p', hp', houtcome'⟩ | ⟨hnone', houtcome'⟩
    · rw [houtcome', ← hresult, houtcome, hunique latest hlatest p' p (hp'.perm h.symm) hp]
    · exact absurd (hp.perm h) (hnone' p)
    · exact absurd (hp'.perm h.symm) (hnone p')
    · rw [houtcome', h.countP_eq, ← houtcome, hresult]

/-! ## At most one candidate -/

theorem countP_permits_add_supports_le {p' : Proposal} (hne : p ≠ p') (messages : List ViewData)
    (expectedSequence : Nat) :
    messages.countP (·.permits expectedSequence p) +
      messages.countP (·.supports expectedSequence p') ≤ messages.length := by
  induction messages with
  | nil => simp
  | cons vd messages ih =>
    have hdisjoint : ¬(vd.permits expectedSequence p = true ∧
        vd.supports expectedSequence p' = true) := by
      simp only [ViewData.permits, ViewData.supports, decide_eq_true_eq]
      rintro ⟨hpermits, hsupports⟩
      rw [hsupports] at hpermits
      rcases hpermits with hnone | hsame
      · simp at hnone
      · exact hne (Option.some.inj hsame).symm
    simp only [List.countP_cons, List.length_cons]
    by_cases hpermits : vd.permits expectedSequence p = true
    · have hother : ¬vd.supports expectedSequence p' = true :=
        fun hsupports => hdisjoint ⟨hpermits, hsupports⟩
      rw [if_pos hpermits, if_neg hother]
      omega
    · rw [if_neg hpermits]
      split <;> omega

structure Agreed (messages : List ViewData) (f quorum expectedSequence : Nat)
    (p : Proposal) : Prop where
  noArgument : quorum ≤ messages.countP (·.permits expectedSequence p)
  preprepared : f + 1 ≤ messages.countP (·.supports expectedSequence p)

theorem InFlightCandidate.agreed (h : InFlightCandidate messages f quorum expectedSequence p) :
    Agreed messages f quorum expectedSequence p :=
  ⟨h.2.2, h.2.1⟩

theorem Agreed.unique {n q : Nat} {p' : Proposal} (hquorum : computeQuorum n = (q, f))
    (hn : n % 3 ≠ 0 ∨ n = 0) (hlength : messages.length ≤ n)
    (hp : Agreed messages f q expectedSequence p) (hp' : Agreed messages f q expectedSequence p') :
    p = p' := by
  by_contra hne
  have hle := countP_permits_add_supports_le hne messages expectedSequence
  have hpermits := hp.noArgument
  have hsupports := hp'.preprepared
  simp only [computeQuorum, maxFaulty, Prod.mk.injEq] at hquorum
  omega

/-- A third of the nodes has prepared one proposal, a third another, and a third none. -/
def splitInThree (m : Nat) (p p' : Proposal) : List ViewData :=
  List.replicate m (exampleViewData (some p)) ++ List.replicate m (exampleViewData (some p')) ++
    List.replicate m (exampleViewData none)

theorem splitInThree_agreed (f : Nat) :
    maxLastDecisionSequence (splitInThree (f + 1) (exampleProposal [7]) (exampleProposal [9])) =
        .ok 0 ∧
      Agreed (splitInThree (f + 1) (exampleProposal [7]) (exampleProposal [9])) f (2 * f + 2) 1
        (exampleProposal [7]) ∧
      Agreed (splitInThree (f + 1) (exampleProposal [7]) (exampleProposal [9])) f (2 * f + 2) 1
        (exampleProposal [9]) := by
  have hseven : (exampleViewData (some (exampleProposal [7]))).expectedInFlight 1 =
      some (exampleProposal [7]) := by decide
  have hnine : (exampleViewData (some (exampleProposal [9]))).expectedInFlight 1 =
      some (exampleProposal [9]) := by decide
  have hnone : (exampleViewData none).expectedInFlight 1 = none := by decide
  have hne : exampleProposal [7] ≠ exampleProposal [9] := by decide
  refine ⟨?_, ⟨?_, ?_⟩, ?_, ?_⟩
  · refine @maxLastDecisionSequence_same _ {} {} (by simp [splitInThree]) ?_ rfl
    intro vd hvd
    simp only [splitInThree, List.mem_append, List.mem_replicate] at hvd
    rcases hvd with (⟨-, rfl⟩ | ⟨-, rfl⟩) | ⟨-, rfl⟩ <;> rfl
  all_goals
    simp [splitInThree, List.countP_replicate, ViewData.permits, ViewData.supports, hseven,
      hnine, hnone, hne, hne.symm]
  all_goals omega

/-- At most one proposal meets both conditions, whatever the messages are, and the answer
does not depend on their order, exactly if the size of the cluster is not a multiple of
three. -/
theorem inFlight_choice_unordered_iff {n q f : Nat} (hquorum : computeQuorum n = (q, f)) :
    (∀ messages : List ViewData, messages.length ≤ n →
      (∀ latest, maxLastDecisionSequence messages = .ok latest →
        ∀ p p', Agreed messages f q (nextSequence latest) p →
          Agreed messages f q (nextSequence latest) p' → p = p') ∧
      ∀ messages', messages'.Perm messages →
        (checkInFlight messages' f q).toOption = (checkInFlight messages f q).toOption) ↔
      n % 3 ≠ 0 ∨ n = 0 := by
  constructor
  · intro h
    by_contra hn
    push Not at hn
    -- the cluster falls into three equal parts
    obtain ⟨hq, hlength⟩ : q = 2 * f + 2 ∧
        (splitInThree (f + 1) (exampleProposal [7]) (exampleProposal [9])).length ≤ n := by
      simp only [computeQuorum, maxFaulty, Prod.mk.injEq] at hquorum
      simp only [splitInThree, List.length_append, List.length_replicate]
      omega
    obtain ⟨hlatest, hseven, hnine⟩ := splitInThree_agreed f
    rw [← hq] at hseven hnine
    exact absurd ((h _ hlength).1 0 hlatest _ _ hseven hnine) (by decide)
  · intro hn messages hlength
    have hunique : ∀ {other : List ViewData}, other.length ≤ n → ∀ latest,
        maxLastDecisionSequence other = .ok latest →
        ∀ p p', Agreed other f q (nextSequence latest) p →
          Agreed other f q (nextSequence latest) p' → p = p' :=
      fun hother latest _ p p' hp hp' => hp.unique hquorum hn hother hp'
    refine ⟨hunique hlength, fun messages' hperm => ?_⟩
    have hcandidates : ∀ {other : List ViewData}, other.length ≤ n → ∀ latest,
        maxLastDecisionSequence other = .ok latest →
        ∀ p p', InFlightCandidate other f q (nextSequence latest) p →
          InFlightCandidate other f q (nextSequence latest) p' → p = p' :=
      fun hother latest hlatest p p' hp hp' =>
        hunique hother latest hlatest p p' hp.agreed hp'.agreed
    have hlength' : messages'.length ≤ n := hperm.length_eq.le.trans hlength
    cases hresult : checkInFlight messages f q with
    | ok result => rw [checkInFlight_perm hperm (hcandidates hlength) hresult]
    | error failure =>
      cases hresult' : checkInFlight messages' f q with
      | ok result =>
        have := checkInFlight_perm hperm.symm (hcandidates hlength') hresult'
        simp [this] at hresult
      | error failure' => rfl

theorem inFlight_choice_unordered_four :
    (checkInFlight [exampleViewData none, exampleViewData (some (exampleProposal [7])),
        exampleViewData (some (exampleProposal [7]))] 1 3).toOption =
      (checkInFlight [exampleViewData (some (exampleProposal [7])), exampleViewData none,
        exampleViewData (some (exampleProposal [7]))] 1 3).toOption := by
  have hquorum : computeQuorum 4 = (3, 1) := by decide
  exact ((inFlight_choice_unordered_iff hquorum).mpr (by decide) _ (by decide)).2 _
    (List.Perm.swap _ _ _)

/-- Two of six nodes have prepared one proposal, two another: the first one in the list is
chosen. -/
theorem inFlight_choice_ordered_six :
    computeQuorum 6 = (4, 1) ∧
      (splitInThree 2 (exampleProposal [7]) (exampleProposal [9])).length = 6 ∧
      (splitInThree 2 (exampleProposal [9]) (exampleProposal [7])).Perm
        (splitInThree 2 (exampleProposal [7]) (exampleProposal [9])) ∧
      checkInFlight (splitInThree 2 (exampleProposal [7]) (exampleProposal [9])) 1 4 =
        .ok ⟨true, false, some (exampleProposal [7])⟩ ∧
      checkInFlight (splitInThree 2 (exampleProposal [9]) (exampleProposal [7])) 1 4 =
        .ok ⟨true, false, some (exampleProposal [9])⟩ := by
  refine ⟨by decide, by decide, ?_, by decide, by decide⟩
  exact List.Perm.append_right _ List.perm_append_comm

end SmartBFT
