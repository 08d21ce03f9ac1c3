import SmartBFT.Blacklist.Update
import SmartBFT.Metadata

/-!
# The blacklists of decided proposals

A follower accepts a proposal only with the blacklist that `computeUpdate` makes of that of
its checkpoint.  The update keeps at most `f` nodes of the cluster, without the current
leader; that no node is listed twice holds as long as the last `f` leaders that it appends
are distinct.

The previous commit signatures of a proposal are counted without looking at who has signed
them.
-/

namespace SmartBFT

variable {verifier : Verifier} {sigs : List Signature}

open SmartBFT.Foundation

structure IsBlacklist (nodes : List Nat) (leader : Nat) (blackList : List Nat) : Prop where
  nodup : blackList.Nodup
  bounded : blackList.length ≤ (computeQuorum nodes.length).2
  members : ∀ node ∈ blackList, node ∈ nodes
  leader : leader ∉ blackList

theorem IsBlacklist.exists_free {nodes blackList : List Nat} {leader : Nat}
    (h : IsBlacklist nodes leader blackList) (hnodes : nodes.Nodup) (hpos : 1 ≤ nodes.length) :
    ∃ node ∈ nodes, node ∉ blackList := by
  by_contra hall
  push Not at hall
  have hle : nodes.length ≤ blackList.length := (List.subperm_of_subset hnodes hall).length_le
  have hbound := h.bounded
  simp only [computeQuorum, maxFaulty] at hbound
  omega

theorem IsBlacklist.sublist {nodes blackList result : List Nat} {leader : Nat}
    (h : IsBlacklist nodes leader blackList) (hsub : result.Sublist blackList) :
    IsBlacklist nodes leader result where
  nodup := h.nodup.sublist hsub
  bounded := hsub.length_le.trans h.bounded
  members node hnode := h.members node (hsub.subset hnode)
  leader hleader := h.leader (hsub.subset hleader)

/-! ## One update -/

namespace Blacklist

variable {bl : Blacklist}

structure Regular (bl : Blacklist) : Prop where
  nodup : bl.nodes.Nodup
  nonempty : 1 ≤ bl.nodes.length
  n : bl.n = bl.nodes.length
  f : bl.f = (computeQuorum bl.nodes.length).2
  rotation : bl.leaderRotation = decide (0 < bl.decisionsPerLeader)
  turn : 1 ≤ bl.decisionsPerLeader
  views : bl.prevMD.viewId ≤ bl.currView
  previous : IsBlacklist bl.nodes bl.currentLeader bl.prevMD.blackList

def distinctLeaders (bl : Blacklist) : Bool :=
  decide (bl.skippedLeaders.drop (bl.skippedLeaders.length - bl.f)).Nodup

theorem Regular.leaderRotation (h : bl.Regular) : bl.leaderRotation = true :=
  h.rotation.trans (decide_eq_true (Nat.lt_of_lt_of_le Nat.one_pos h.turn))

theorem Regular.skippedLeader_isSome (h : bl.Regular) (view : Nat) :
    (bl.skippedLeader view).isSome = true := by
  obtain ⟨node, hnode, hfree⟩ := h.previous.exists_free h.nodup h.nonempty
  unfold skippedLeader
  rw [h.n]
  exact getLeaderID_isSome hnode hfree _ _ _ _

theorem Regular.of_mem_skippedLeaders (h : bl.Regular) {leader : Nat}
    (hleader : leader ∈ bl.skippedLeaders) :
    leader ∈ bl.nodes ∧ leader ∉ bl.prevMD.blackList ∧ leader ≠ bl.currentLeader := by
  obtain ⟨hcurrent, view, -, -, hskipped⟩ := mem_skippedLeaders.mp hleader
  unfold skippedLeader at hskipped
  rw [h.n] at hskipped
  obtain ⟨hnode, hfree⟩ := getLeaderID_mem hskipped
  exact ⟨hnode, hfree h.leaderRotation, hcurrent⟩

theorem drop_append_skipped (bl : Blacklist) :
    (bl.prevMD.blackList ++ bl.skippedLeaders).drop
        ((bl.prevMD.blackList ++ bl.skippedLeaders).length - bl.f) =
      bl.prevMD.blackList.drop
          ((bl.prevMD.blackList ++ bl.skippedLeaders).length - bl.f) ++
        bl.skippedLeaders.drop (bl.skippedLeaders.length - bl.f) := by
  rw [List.drop_append]
  congr 2
  rw [List.length_append]
  omega

theorem Regular.skipped_isBlacklist_iff (h : bl.Regular) :
    IsBlacklist bl.nodes bl.currentLeader
        ((bl.prevMD.blackList ++ bl.skippedLeaders).drop
          ((bl.prevMD.blackList ++ bl.skippedLeaders).length - bl.f)) ↔
      bl.distinctLeaders = true := by
  rw [distinctLeaders, decide_eq_true_iff]
  constructor
  · intro hresult
    have hnodup := hresult.nodup
    rw [drop_append_skipped] at hnodup
    exact (List.nodup_append.mp hnodup).2.1
  · intro hdistinct
    have hmem : ∀ node ∈ (bl.prevMD.blackList ++ bl.skippedLeaders).drop
        ((bl.prevMD.blackList ++ bl.skippedLeaders).length - bl.f),
        node ∈ bl.nodes ∧ node ≠ bl.currentLeader := by
      intro node hnode
      rcases List.mem_append.mp (List.mem_of_mem_drop hnode) with hold | hnew
      · refine ⟨h.previous.members node hold, ?_⟩
        rintro rfl
        exact h.previous.leader hold
      · exact ⟨(h.of_mem_skippedLeaders hnew).1, (h.of_mem_skippedLeaders hnew).2.2⟩
    refine ⟨?_, ?_, fun node hnode => (hmem node hnode).1, fun hleader => (hmem _ hleader).2 rfl⟩
    · rw [drop_append_skipped]
      refine List.nodup_append.mpr ⟨h.previous.nodup.sublist (List.drop_sublist _ _),
        hdistinct, ?_⟩
      rintro a ha b hb rfl
      exact (h.of_mem_skippedLeaders (List.mem_of_mem_drop hb)).2.1 (List.mem_of_mem_drop ha)
    · rw [List.length_drop, ← h.f]
      omega

theorem Regular.computeUpdate_isBlacklist_iff (h : bl.Regular) :
    ∃ result, bl.computeUpdate = some result ∧
      (IsBlacklist bl.nodes bl.currentLeader result ↔ bl.distinctLeaders = true) := by
  by_cases hview : bl.prevMD.viewId = bl.currView
  · -- nothing is skipped, and pruning only removes nodes
    have hnone : bl.skippedLeaders = [] := by
      simp [skippedLeaders, skippedViews, hview]
    have hupdate : bl.computeUpdate = some
        ((pruneBlacklist bl.prevMD.blackList bl.preparesFrom bl.f bl.nodes).drop
          ((pruneBlacklist bl.prevMD.blackList bl.preparesFrom bl.f bl.nodes).length - bl.f)) := by
      simp [computeUpdate, hview]
    refine ⟨_, hupdate, iff_of_true ?_ (by simp [distinctLeaders, hnone])⟩
    exact h.previous.sublist ((List.drop_sublist _ _).trans pruneBlacklist_sublist)
  · refine ⟨_, (computeUpdate_eq_some_iff hview).mpr
      ⟨fun view _ => h.skippedLeader_isSome view, rfl⟩, ?_⟩
    exact h.skipped_isBlacklist_iff

end Blacklist

/-! ## What a follower checks -/

namespace View

variable {cfg : Config} {verifier : Verifier} {checkpoint : Decision} {v : View}
  {proposal : Proposal} {prevCommits : List Signature} {prevMD : ViewMetadata}
  {requests : List RequestInfo}

theorem verifyProposal_checked
    (h : (v.verifyProposal cfg verifier checkpoint proposal prevCommits).1 = .ok requests) :
    ∃ md acks, proposal.unmarshalMetadata = some md ∧
      verifyPrevCommitSignatures verifier checkpoint prevCommits
        verifier.verificationSequence = .ok acks ∧
      (v.verifyBlacklist cfg verifier checkpoint prevCommits verifier.verificationSequence
        md.blackList acks).1 = .ok () := by
  unfold verifyProposal at h
  cases hpayload : verifier.verifyProposal proposal with
  | none => simp [hpayload] at h
  | some accepted =>
    cases hmd : proposal.unmarshalMetadata with
    | none => simp [hpayload, hmd] at h
    | some md =>
      cases hmetadata : v.verifyMetadata verifier proposal md with
      | error failure => simp [hpayload, hmd, hmetadata] at h
      | ok =>
        cases hprev : verifyPrevCommitSignatures verifier checkpoint prevCommits
            verifier.verificationSequence with
        | error failure => simp [hpayload, hmd, hmetadata, hprev] at h
        | ok acks =>
          refine ⟨md, acks, rfl, rfl, ?_⟩
          rcases hblacklist : v.verifyBlacklist cfg verifier checkpoint prevCommits
            verifier.verificationSequence md.blackList acks with ⟨result, supported⟩
          cases result with
          | error failure => simp [hpayload, hmd, hmetadata, hprev, hblacklist] at h
          | ok => rfl

theorem verifyBlacklist_ok (hprevMD : checkpoint.proposal.unmarshalMetadata = some prevMD)
    {currVerificationSeq : Nat} {pending : List Nat} {acks : List (Nat × PreparesFrom)}
    (h : (v.verifyBlacklist cfg verifier checkpoint prevCommits currVerificationSeq pending
      acks).1 = .ok ()) :
    (cfg.decisionsPerLeader = 0 ∧ pending = []) ∨
    (¬(checkpoint.proposal.verificationSequence = currVerificationSeq ∧
        verifier.membershipChange = false) ∧ pending = prevMD.blackList) ∨
    (0 < cfg.decisionsPerLeader ∧
      (v.blacklistingSupported verifier cfg.f checkpoint.signatures = true →
        checkpoint.signatures.length ≤ prevCommits.length) ∧
      v.expectedBlacklist cfg prevMD acks = some pending) := by
  by_cases hrotation : cfg.decisionsPerLeader = 0
  · exact .inl ⟨hrotation, (verifyBlacklist_inactive hrotation hprevMD).mp h⟩
  · unfold verifyBlacklist verifyUnchangedBlacklist at h
    simp only [hprevMD, if_neg hrotation] at h
    by_cases hseq : checkpoint.proposal.verificationSequence = currVerificationSeq
    · simp only [hseq, ne_eq, not_true_eq_false, if_false] at h
      cases hmembership : verifier.membershipChange with
      | true =>
        rw [hmembership] at h
        by_cases hsame : prevMD.blackList = pending
        · exact .inr (.inl ⟨by simp, hsame.symm⟩)
        · simp [hsame] at h
      | false =>
        rw [hmembership] at h
        simp only [Bool.false_eq_true, if_false] at h
        refine .inr (.inr ⟨by omega, ?_, ?_⟩)
        · intro hsupported
          by_contra hfew
          simp [hsupported, Nat.lt_of_not_le hfew] at h
        · split at h
          · simp at h
          · unfold expectedBlacklist
            split at h
            · simp at h
            · rename_i hupdate
              split at h
              · simp at h
              · rename_i hsame
                rw [hupdate, not_not.mp hsame]
    · refine .inr (.inl ⟨fun hboth => hseq hboth.1, ?_⟩)
      by_contra hdiffers
      simp [hseq, Ne.symm hdiffers] at h

end View

/-! ## A chain of decisions -/

structure Acceptance where
  verifier : Verifier
  view : View
  proposal : Proposal
  prevCommits : List Signature
  signatures : List Signature

def decideNext (cfg : Config) (last : Decision × Nat) (a : Acceptance) :
    Option (Decision × Nat) :=
  match (a.view.verifyProposal cfg a.verifier last.1 a.proposal a.prevCommits).1 with
  | .ok _ => some (⟨a.proposal, a.signatures⟩, a.view.leaderID)
  | .error _ => none

def Acceptance.update (cfg : Config) (a : Acceptance) (prevMD : ViewMetadata) : Blacklist where
  currentLeader := a.view.leaderID
  leaderRotation := decide (0 < cfg.decisionsPerLeader)
  prevMD := prevMD
  n := cfg.n
  nodes := cfg.nodes
  currView := a.view.number
  preparesFrom := []
  f := cfg.f
  decisionsPerLeader := cfg.decisionsPerLeader

/-- The leader of the view is not blacklisted, views do not go back, and the leaders that are
blacklisted for the views in between are distinct. -/
def Acceptance.proper (cfg : Config) (last : Decision × Nat) (a : Acceptance) : Bool :=
  last.1.proposal.unmarshalMetadata.any fun prevMD =>
    decide (a.view.leaderID ∉ prevMD.blackList) && decide (prevMD.viewId ≤ a.view.number) &&
      (a.update cfg prevMD).distinctLeaders

def BlacklistKept (cfg : Config) (last : Decision × Nat) : Prop :=
  ∃ md, last.1.proposal.unmarshalMetadata = some md ∧ IsBlacklist cfg.nodes last.2 md.blackList

theorem BlacklistKept.decideNext {cfg : Config} (hnodes : cfg.nodes.Nodup) (hpos : 1 ≤ cfg.n)
    {last next : Decision × Nat} {a : Acceptance} (h : BlacklistKept cfg last)
    (hproper : a.proper cfg last = true) (hnext : decideNext cfg last a = some next) :
    BlacklistKept cfg next := by
  obtain ⟨prevMD, hprevMD, hprev⟩ := h
  simp only [Acceptance.proper, hprevMD, Option.any_some, Bool.and_eq_true,
    decide_eq_true_eq] at hproper
  obtain ⟨⟨hleader, hviews⟩, hdistinct⟩ := hproper
  unfold SmartBFT.decideNext at hnext
  cases haccepted : (a.view.verifyProposal cfg a.verifier last.1 a.proposal a.prevCommits).1 with
  | error failure => simp [haccepted] at hnext
  | ok requests =>
    simp only [haccepted, Option.some.injEq] at hnext
    subst hnext
    obtain ⟨md, acks, hmd, -, hblacklist⟩ := View.verifyProposal_checked haccepted
    refine ⟨md, hmd, ?_⟩
    have hprevious : IsBlacklist cfg.nodes a.view.leaderID prevMD.blackList :=
      { hprev with leader := hleader }
    rcases View.verifyBlacklist_ok hprevMD hblacklist with
      ⟨-, hempty⟩ | ⟨-, hsame⟩ | ⟨hrotation, -, hexpected⟩
    · rw [hempty]
      exact hprevious.sublist (List.nil_sublist _)
    · rw [hsame]
      exact hprevious
    · -- the update is regular, whatever the acknowledgements are
      have hregular : Blacklist.Regular { a.update cfg prevMD with preparesFrom := acks } :=
        ⟨hnodes, hpos, rfl, rfl, rfl, hrotation, hviews, hprevious⟩
      obtain ⟨result, hupdate, hresult⟩ := hregular.computeUpdate_isBlacklist_iff
      have hblackList : result = md.blackList :=
        Option.some.inj (hupdate.symm.trans hexpected)
      exact hblackList ▸ hresult.mpr hdistinct

/-- An update keeps a proper blacklist exactly if the last `f` leaders that it appends are
distinct; in every chain of accepted proposals in which they are, all blacklists are proper. -/
theorem blacklist_kept_iff (cfg : Config) (hnodes : cfg.nodes.Nodup) (hpos : 1 ≤ cfg.n) :
    (∀ bl : Blacklist, bl.nodes = cfg.nodes → bl.Regular →
      ∃ result, bl.computeUpdate = some result ∧
        (IsBlacklist bl.nodes bl.currentLeader result ↔ bl.distinctLeaders = true)) ∧
    ∀ (start final : Decision × Nat) (accepted : List Acceptance), BlacklistKept cfg start →
      StepsMeet (decideNext cfg) (fun last a => a.proper cfg last = true) start accepted →
      run (decideNext cfg) start accepted = some final → BlacklistKept cfg final := by
  refine ⟨fun bl _ h => h.computeUpdate_isBlacklist_iff, ?_⟩
  intro start final accepted hstart hmeets hrun
  exact run_invariant_of_steps_meet
    (fun last a next hlast hproper hnext => hlast.decideNext hnodes hpos hproper hnext)
    hstart hmeets hrun

theorem skippedUpTo_regular : (skippedUpTo 3 4 0).Regular where
  nodup := by decide
  nonempty := by decide
  n := rfl
  f := by decide
  rotation := rfl
  turn := by decide
  views := by decide
  previous := ⟨by decide, by decide, by decide, by decide⟩

def nextOfSkippedTwo : Proposal :=
  secondProposal { latestSequence := 2, decisionsInView := 1, blackList := [2] }

def acceptsNextOfSkippedTwo : Acceptance where
  view := secondSequence
  verifier := attesting [1, 3]
  proposal := nextOfSkippedTwo
  prevCommits := skippedTwo.signatures
  signatures := skippedTwo.signatures

theorem blacklist_kept_three :
    (skippedUpTo 3 4 0).computeUpdate = some [3] ∧ IsBlacklist [1, 2, 3, 4] 4 [3] ∧
      ∃ final, run (decideNext (rotatingFour 4)) (skippedTwo, secondSequence.leaderID)
        [acceptsNextOfSkippedTwo] = some final ∧ BlacklistKept (rotatingFour 4) final := by
  obtain ⟨hone, hall⟩ := blacklist_kept_iff (rotatingFour 4) (by decide) (by decide)
  obtain ⟨result, hupdate, hresult⟩ := hone _ rfl skippedUpTo_regular
  obtain rfl : [3] = result := Option.some.inj (Eq.trans (by decide) hupdate)
  refine ⟨hupdate, hresult.mpr (by decide), ?_⟩
  have hrun : (run (decideNext (rotatingFour 4)) (skippedTwo, secondSequence.leaderID)
      [acceptsNextOfSkippedTwo]).isSome = true := by
    decide +kernel
  obtain ⟨final, hfinal⟩ := Option.isSome_iff_exists.mp hrun
  have hstart : BlacklistKept (rotatingFour 4) (skippedTwo, secondSequence.leaderID) :=
    ⟨_, rfl, by decide, by decide, by decide, by decide⟩
  exact ⟨final, hfinal, hall _ _ _ hstart (by decide +kernel) hfinal⟩

def skippedTwice : Blacklist where
  currentLeader := 4
  leaderRotation := true
  prevMD := { viewId := 1, latestSequence := 5, blackList := [2] }
  n := 7
  nodes := [1, 2, 3, 4, 5, 6, 7]
  currView := 3
  preparesFrom := []
  f := 2
  decisionsPerLeader := 10

/-- Node `3` is listed twice, and node `2` is pushed out. -/
theorem leader_blacklisted_twice :
    skippedTwice.Regular ∧ skippedTwice.leaderAt 3 = some skippedTwice.currentLeader ∧
      skippedTwice.computeUpdate = some [3, 3] ∧
      ¬IsBlacklist skippedTwice.nodes skippedTwice.currentLeader [3, 3] := by
  refine ⟨?_, by decide, by decide, fun h => absurd h.nodup (by decide)⟩
  exact ⟨by decide, by decide, rfl, by decide, rfl, by decide, by decide, by decide, by decide,
    by decide, by decide⟩

/-! ## The previous commits of a proposal -/

theorem acknowledgePrepares_accepts {prevProp : Proposal} {acks result : List (Nat × PreparesFrom)}
    (h : acknowledgePrepares verifier prevProp sigs acks = .ok result) :
    ∀ sig ∈ sigs, verifier.accepts sig prevProp = true := by
  induction sigs generalizing acks with
  | nil => simp
  | cons sig sigs ih =>
    rw [acknowledgePrepares] at h
    cases haux : verifier.verifyConsenterSig sig prevProp with
    | none => simp [haux] at h
    | some aux =>
      cases hread : unmarshalPreparesFrom aux with
      | none => simp [haux, hread] at h
      | some prpf =>
        simp only [haux, hread] at h
        intro other hother
        rcases List.mem_cons.mp hother with rfl | hrest
        · simp [Verifier.accepts, haux]
        · exact ih h other hrest

def signersOf (sigs : List Signature) : Finset Nat := (sigs.map Signature.signer).toFinset

/-- The list holds accepted signatures on the proposal of at least `count` nodes. -/
def HasCommits (verifier : Verifier) (proposal : Proposal) (sigs : List Signature)
    (count : Nat) : Prop :=
  ∃ signers : Finset Nat, count ≤ signers.card ∧ ∀ signer ∈ signers, ∃ sig ∈ sigs,
    sig.signer = signer ∧ verifier.accepts sig proposal = true

theorem signersOf_card_le (sigs : List Signature) : (signersOf sigs).card ≤ sigs.length :=
  (List.toFinset_card_le _).trans (List.length_map _).le

theorem signersOf_card_eq_iff :
    (signersOf sigs).card = sigs.length ↔ (sigs.map Signature.signer).Nodup := by
  have hiff := @Multiset.toFinset_card_eq_card_iff_nodup _ _
    (sigs.map Signature.signer : Multiset Nat)
  rwa [Multiset.coe_card, List.length_map, Multiset.coe_nodup] at hiff

theorem HasCommits.card_le {proposal : Proposal} {count : Nat}
    (h : HasCommits verifier proposal sigs count) : count ≤ (signersOf sigs).card := by
  obtain ⟨signers, hcount, hsigners⟩ := h
  refine hcount.trans (Finset.card_le_card fun signer hsigner => ?_)
  obtain ⟨sig, hsig, rfl, -⟩ := hsigners signer hsigner
  exact List.mem_toFinset.mpr (List.mem_map_of_mem hsig)

theorem hasCommits_of_accepts {proposal : Proposal} {count : Nat}
    (haccepts : ∀ sig ∈ sigs, verifier.accepts sig proposal = true)
    (hcount : count ≤ (signersOf sigs).card) : HasCommits verifier proposal sigs count := by
  refine ⟨signersOf sigs, hcount, fun signer hsigner => ?_⟩
  obtain ⟨sig, hsig, rfl⟩ := List.mem_map.mp (List.mem_toFinset.mp hsigner)
  exact ⟨sig, hsig, rfl, haccepts sig hsig⟩

/-- All previous commits of an accepted proposal are verified, and there are as many as the
follower holds.  If no signer is repeated, they are of as many nodes; a list that is no longer
than needed is of as many nodes only if no signer is repeated. -/
theorem prev_commits_distinct {cfg : Config} {verifier : Verifier} {checkpoint : Decision}
    {v : View} {proposal : Proposal} {prevCommits : List Signature}
    {requests : List RequestInfo} (hrotation : 0 < cfg.decisionsPerLeader)
    (hsequence : checkpoint.proposal.verificationSequence = verifier.verificationSequence)
    (hmembership : verifier.membershipChange = false)
    (hsupported : v.blacklistingSupported verifier cfg.f checkpoint.signatures = true)
    (haccepted : (v.verifyProposal cfg verifier checkpoint proposal prevCommits).1 =
      .ok requests) :
    (∀ sig ∈ prevCommits, verifier.accepts sig checkpoint.proposal = true) ∧
    checkpoint.signatures.length ≤ prevCommits.length ∧
    ((prevCommits.map Signature.signer).Nodup →
      HasCommits verifier checkpoint.proposal prevCommits
        (signersOf checkpoint.signatures).card) ∧
    (prevCommits.length = (signersOf checkpoint.signatures).card →
      (HasCommits verifier checkpoint.proposal prevCommits
          (signersOf checkpoint.signatures).card ↔
        (prevCommits.map Signature.signer).Nodup)) := by
  obtain ⟨md, acks, -, hacks, hblacklist⟩ := View.verifyProposal_checked haccepted
  cases hprevMD : checkpoint.proposal.unmarshalMetadata with
  | none => simp [verifyPrevCommitSignatures, hprevMD] at hacks
  | some prevMD =>
    simp only [verifyPrevCommitSignatures, hprevMD, hsequence, ne_eq, not_true_eq_false,
      if_false] at hacks
    have hverified := acknowledgePrepares_accepts hacks
    have hlength : checkpoint.signatures.length ≤ prevCommits.length := by
      rcases View.verifyBlacklist_ok hprevMD hblacklist with
        ⟨hinactive, -⟩ | ⟨hchanged, -⟩ | ⟨-, henough, -⟩
      · omega
      · exact absurd ⟨hsequence, hmembership⟩ hchanged
      · exact henough hsupported
    have henough : (prevCommits.map Signature.signer).Nodup →
        HasCommits verifier checkpoint.proposal prevCommits
          (signersOf checkpoint.signatures).card := by
      intro hdistinct
      refine hasCommits_of_accepts hverified ?_
      rw [signersOf_card_eq_iff.mpr hdistinct]
      exact (signersOf_card_le _).trans hlength
    refine ⟨hverified, hlength, henough, fun hexact => ⟨fun hcommits => ?_, henough⟩⟩
    exact signersOf_card_eq_iff.mp
      ((signersOf_card_le _).antisymm (hexact.trans_le hcommits.card_le))

theorem prev_commits_distinct_three :
    (secondSequence.verifyProposal (rotatingFour 4) (attesting [1, 3]) skippedTwo
        nextOfSkippedTwo skippedTwo.signatures).1 = .ok [] ∧
      HasCommits (attesting [1, 3]) skippedTwo.proposal skippedTwo.signatures 3 := by
  have haccepted : (secondSequence.verifyProposal (rotatingFour 4) (attesting [1, 3]) skippedTwo
      nextOfSkippedTwo skippedTwo.signatures).1 = .ok [] := by
    decide +kernel
  exact ⟨haccepted, (prev_commits_distinct (by decide) rfl rfl (by decide +kernel)
    haccepted).2.2.1 (by decide)⟩

/-- A proposal with three copies of one commit is accepted. -/
theorem repeated_commits_accepted :
    secondSequence.blacklistingSupported (attesting [1, 3]) (rotatingFour 4).f
        skippedTwo.signatures = true ∧
      (signersOf skippedTwo.signatures).card = 3 ∧
      (secondSequence.verifyProposal (rotatingFour 4) (attesting [1, 3]) skippedTwo
        nextOfSkippedTwo (List.replicate 3 { signer := 1 })).1 = .ok [] ∧
      ¬HasCommits (attesting [1, 3]) skippedTwo.proposal
        (List.replicate 3 { signer := 1 }) 3 := by
  refine ⟨by decide +kernel, by decide, by decide +kernel, fun hcommits => ?_⟩
  exact absurd hcommits.card_le (by decide)

end SmartBFT
