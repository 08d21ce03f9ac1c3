import SmartBFT.Node.Step

/-!
# The metadata of an honest proposal

The leader builds the metadata of a proposal in `GetMetadata`, and a follower
checks them in `verifyProposal`.  The two compute the blacklist on different
paths: the leader asks for the verification sequence and the membership first
and whether leaders rotate afterwards, the follower the other way round.
-/

namespace SmartBFT

/-- What a leader and a follower with the same checkpoint agree on.  The follower accepts
the signatures of the checkpoint and finds in them the auxiliary data that the leader
reads. -/
structure Agree (leaderCfg followerCfg : Config) (leaderVerifier followerVerifier : Verifier)
    (checkpoint : Decision) (leader follower : View) : Prop where
  nodes : followerCfg.nodes = leaderCfg.nodes
  decisionsPerLeader : followerCfg.decisionsPerLeader = leaderCfg.decisionsPerLeader
  commitSignaturesDigest :
    followerCfg.commitSignaturesDigest = leaderCfg.commitSignaturesDigest
  leaderID : follower.leaderID = leader.leaderID
  number : follower.number = leader.number
  proposalSequence : follower.proposalSequence = leader.proposalSequence
  decisionsInView : follower.decisionsInView = leader.decisionsInView
  verificationSequence :
    followerVerifier.verificationSequence = leaderVerifier.verificationSequence
  membershipChange : followerVerifier.membershipChange = leaderVerifier.membershipChange
  signatures : ∀ sig ∈ checkpoint.signatures,
    followerVerifier.verifyConsenterSig sig checkpoint.proposal =
      some (leaderVerifier.auxiliaryData sig.msg)

def readableAuxiliaryData (verifier : Verifier) (sigs : List Signature) : Bool :=
  sigs.all fun sig => (unmarshalPreparesFrom (verifier.auxiliaryData sig.msg)).isSome

/-- When the metadata that the leader builds are those that a follower expects: without
rotation the blacklist it takes over must be empty unless it has been cleared, and with
rotation a change of the membership must not hide auxiliary data that cannot be read. -/
def metadataFits (cfg : Config) (verifier : Verifier) (checkpoint : Decision)
    (prevMD : ViewMetadata) : Bool :=
  let sameSequence :=
    decide (verifier.verificationSequence = checkpoint.proposal.verificationSequence)
  if cfg.decisionsPerLeader = 0 then
    prevMD.blackList.isEmpty || (sameSequence && !verifier.membershipChange)
  else
    !(sameSequence && verifier.membershipChange) ||
      readableAuxiliaryData verifier checkpoint.signatures

variable {leaderCfg followerCfg : Config} {leaderVerifier followerVerifier : Verifier}
  {checkpoint : Decision} {leader follower : View}

/-! ## The auxiliary data of the previous commits -/

theorem acknowledgePrepares_of_collect {prevProp : Proposal} {sigs : List Signature}
    (hsigs : ∀ sig ∈ sigs, followerVerifier.verifyConsenterSig sig prevProp =
      some (leaderVerifier.auxiliaryData sig.msg))
    {acks preparesFrom : List (Nat × PreparesFrom)}
    (hcollect : collectPreparesFrom leaderVerifier sigs acks = some preparesFrom) :
    acknowledgePrepares followerVerifier prevProp sigs acks = .ok preparesFrom := by
  induction sigs generalizing acks with
  | nil =>
    simp only [collectPreparesFrom, Option.some.injEq] at hcollect
    rw [acknowledgePrepares, hcollect]
  | cons sig sigs ih =>
    rw [acknowledgePrepares, hsigs sig List.mem_cons_self]
    simp only [collectPreparesFrom] at hcollect
    simp only
    cases hread : unmarshalPreparesFrom (leaderVerifier.auxiliaryData sig.msg) with
    | none => simp [hread] at hcollect
    | some prpf =>
      rw [hread] at hcollect
      exact ih (fun other hother => hsigs other (List.mem_cons_of_mem _ hother)) hcollect

theorem collectPreparesFrom_isSome (verifier : Verifier) (sigs : List Signature)
    (acks : List (Nat × PreparesFrom)) :
    (collectPreparesFrom verifier sigs acks).isSome = readableAuxiliaryData verifier sigs := by
  unfold readableAuxiliaryData
  induction sigs generalizing acks with
  | nil => rfl
  | cons sig sigs ih =>
    rw [collectPreparesFrom, List.all_cons]
    cases hread : unmarshalPreparesFrom (verifier.auxiliaryData sig.msg) with
    | none => rfl
    | some prpf => exact ih _

theorem acknowledgePrepares_unreadable {prevProp : Proposal} {sigs : List Signature}
    (hsigs : ∀ sig ∈ sigs, followerVerifier.verifyConsenterSig sig prevProp =
      some (leaderVerifier.auxiliaryData sig.msg))
    (hread : readableAuxiliaryData leaderVerifier sigs = false)
    (acks : List (Nat × PreparesFrom)) :
    ∃ failure, acknowledgePrepares followerVerifier prevProp sigs acks = .error failure := by
  unfold readableAuxiliaryData at hread
  induction sigs generalizing acks with
  | nil => simp at hread
  | cons sig sigs ih =>
    rw [acknowledgePrepares, hsigs sig List.mem_cons_self]
    simp only
    cases hsig : unmarshalPreparesFrom (leaderVerifier.auxiliaryData sig.msg) with
    | none => exact ⟨_, rfl⟩
    | some prpf =>
      rw [List.all_cons, hsig] at hread
      exact ih (fun other hother => hsigs other (List.mem_cons_of_mem _ hother)) hread _

/-! ## The checks of the follower -/

namespace View

variable {cfg : Config} {verifier : Verifier} {v : View} {proposal : Proposal}
  {prevCommits : List Signature} {prevMD md : ViewMetadata} {requests : List RequestInfo}

theorem verifyProposal_ok_iff (hpayload : verifier.verifyProposal proposal = some requests)
    (hmd : proposal.unmarshalMetadata = some md)
    (hmetadata : v.verifyMetadata verifier proposal md = .ok ()) :
    (v.verifyProposal cfg verifier checkpoint proposal prevCommits).1 = .ok requests ↔
      ∃ acks, verifyPrevCommitSignatures verifier checkpoint prevCommits
          verifier.verificationSequence = .ok acks ∧
        (v.verifyBlacklist cfg verifier checkpoint prevCommits verifier.verificationSequence
          md.blackList acks).1 = .ok () ∧
        (0 < cfg.decisionsPerLeader →
          cfg.commitSignaturesDigest prevCommits = md.prevCommitSignatureDigest) := by
  unfold verifyProposal
  simp only [hpayload, hmd, hmetadata]
  cases hprev : verifyPrevCommitSignatures verifier checkpoint prevCommits
      verifier.verificationSequence with
  | error failure => simp
  | ok acks =>
    simp only [Except.ok.injEq, exists_eq_left']
    rcases hblacklist : v.verifyBlacklist cfg verifier checkpoint prevCommits
      verifier.verificationSequence md.blackList acks with ⟨result, supported⟩
    cases result with
    | error failure => simp
    | ok =>
      simp only [true_and]
      split <;> rename_i hdigest
      · simp only [reduceCtorEq, false_iff]
        intro hsame
        exact hdigest.1 (hsame hdigest.2)
      · simp only [true_iff]
        intro hrotation
        by_contra hdiffers
        exact hdigest ⟨hdiffers, hrotation⟩

theorem verifyBlacklist_inactive (hrotation : cfg.decisionsPerLeader = 0)
    (hprevMD : checkpoint.proposal.unmarshalMetadata = some prevMD)
    {currVerificationSeq : Nat} {pending : List Nat} {acks : List (Nat × PreparesFrom)} :
    (v.verifyBlacklist cfg verifier checkpoint prevCommits currVerificationSeq pending acks).1 =
      .ok () ↔ pending = [] := by
  unfold verifyBlacklist verifyUnchangedBlacklist
  simp only [hprevMD, if_pos hrotation]
  cases pending with
  | nil => simp
  | cons node nodes => simp

theorem verifyBlacklist_unchanged (hrotation : 0 < cfg.decisionsPerLeader)
    (hprevMD : checkpoint.proposal.unmarshalMetadata = some prevMD)
    {currVerificationSeq : Nat} {acks : List (Nat × PreparesFrom)}
    (hchanged : ¬(currVerificationSeq = checkpoint.proposal.verificationSequence ∧
      verifier.membershipChange = false)) :
    (v.verifyBlacklist cfg verifier checkpoint prevCommits currVerificationSeq prevMD.blackList
      acks).1 = .ok () := by
  have hactive : cfg.decisionsPerLeader ≠ 0 := by omega
  unfold verifyBlacklist verifyUnchangedBlacklist
  simp only [hprevMD, if_neg hactive]
  by_cases hseq : checkpoint.proposal.verificationSequence = currVerificationSeq
  · have hmembership : verifier.membershipChange = true := by
      by_contra hno
      exact hchanged ⟨hseq.symm, by simpa using hno⟩
    simp [hseq, hmembership]
  · simp [hseq]

def expectedBlacklist (cfg : Config) (v : View) (prevMD : ViewMetadata)
    (acks : List (Nat × PreparesFrom)) : Option (List Nat) :=
  Blacklist.computeUpdate {
    currentLeader := v.leaderID
    leaderRotation := Decidable.decide (0 < cfg.decisionsPerLeader)
    prevMD := prevMD
    n := cfg.n
    nodes := cfg.nodes
    currView := v.number
    preparesFrom := acks
    f := cfg.f
    decisionsPerLeader := cfg.decisionsPerLeader }

theorem verifyBlacklist_updated (hrotation : 0 < cfg.decisionsPerLeader)
    (hprevMD : checkpoint.proposal.unmarshalMetadata = some prevMD)
    (hmembership : verifier.membershipChange = false)
    {pending : List Nat} {acks : List (Nat × PreparesFrom)}
    (hexpected : v.expectedBlacklist cfg prevMD acks = some pending) :
    (v.verifyBlacklist cfg verifier checkpoint checkpoint.signatures
      checkpoint.proposal.verificationSequence pending acks).1 = .ok () := by
  have hactive : cfg.decisionsPerLeader ≠ 0 := by omega
  unfold expectedBlacklist at hexpected
  unfold verifyBlacklist verifyUnchangedBlacklist
  simp [hprevMD, hactive, hmembership, hexpected]

end View

/-! ## What the leader builds -/

theorem getMetadata_some {cfg : Config} {verifier : Verifier} {v : View} {md : ViewMetadata}
    (h : v.getMetadata cfg verifier checkpoint = some md) :
    ∃ prevMD blackList, checkpoint.proposal.unmarshalMetadata = some prevMD ∧
      (if verifier.verificationSequence = checkpoint.proposal.verificationSequence ∧
          verifier.membershipChange = false then
        v.updatedBlacklist cfg verifier checkpoint.signatures prevMD
      else some prevMD.blackList) = some blackList ∧
      md = {
        viewId := v.number
        latestSequence := v.proposalSequence
        decisionsInView := v.decisionsInView
        blackList := blackList
        prevCommitSignatureDigest :=
          if cfg.decisionsPerLeader = 0 then []
          else cfg.commitSignaturesDigest checkpoint.signatures } := by
  unfold View.getMetadata at h
  split at h
  · simp at h
  · rename_i prevMD hprevMD
    obtain ⟨blackList, hblackList, rfl⟩ := Option.map_eq_some_iff.mp h
    exact ⟨prevMD, blackList, hprevMD, hblackList, rfl⟩

theorem expectedBlacklist_of_updated
    (hagree : Agree leaderCfg followerCfg leaderVerifier followerVerifier checkpoint leader
      follower)
    (hrotation : 0 < leaderCfg.decisionsPerLeader) {prevMD : ViewMetadata} {blackList : List Nat}
    (h : leader.updatedBlacklist leaderCfg leaderVerifier checkpoint.signatures prevMD =
      some blackList) :
    ∃ acks, collectPreparesFrom leaderVerifier checkpoint.signatures [] = some acks ∧
      follower.expectedBlacklist followerCfg prevMD acks = some blackList := by
  have hactive : leaderCfg.decisionsPerLeader ≠ 0 := by omega
  unfold View.updatedBlacklist at h
  rw [if_neg hactive] at h
  cases hcollect : collectPreparesFrom leaderVerifier checkpoint.signatures [] with
  | none => simp [hcollect] at h
  | some acks =>
    rw [hcollect] at h
    refine ⟨acks, rfl, ?_⟩
    unfold View.expectedBlacklist
    simp only [Config.n, Config.f, hagree.nodes, hagree.decisionsPerLeader, hagree.leaderID,
      hagree.number]
    exact h

theorem verifyMetadata_of_agree
    (hagree : Agree leaderCfg followerCfg leaderVerifier followerVerifier checkpoint leader
      follower) {proposal : Proposal} {md : ViewMetadata}
    (hmd : leader.getMetadata leaderCfg leaderVerifier checkpoint = some md)
    (hsequence : proposal.verificationSequence = leaderVerifier.verificationSequence) :
    follower.verifyMetadata followerVerifier proposal md = .ok () := by
  obtain ⟨prevMD, blackList, -, -, rfl⟩ := getMetadata_some hmd
  simp [View.verifyMetadata, hagree.number, hagree.proposalSequence, hagree.decisionsInView,
    hagree.verificationSequence, hsequence]

theorem blackList_empty_iff {cfg : Config} {verifier : Verifier} {v : View}
    {prevMD : ViewMetadata} {blackList : List Nat} (hrotation : cfg.decisionsPerLeader = 0)
    (h : (if verifier.verificationSequence = checkpoint.proposal.verificationSequence ∧
          verifier.membershipChange = false then
        v.updatedBlacklist cfg verifier checkpoint.signatures prevMD
      else some prevMD.blackList) = some blackList) :
    blackList = [] ↔ metadataFits cfg verifier checkpoint prevMD = true := by
  unfold metadataFits
  rw [if_pos hrotation]
  split at h <;> rename_i hsame
  · simp only [View.updatedBlacklist, if_pos hrotation, Option.some.injEq] at h
    simp [← h, hsame.1, hsame.2]
  · simp only [Option.some.injEq] at h
    subst h
    simp only [Bool.or_eq_true, List.isEmpty_iff, Bool.and_eq_true, decide_eq_true_eq,
      Bool.not_eq_true']
    constructor
    · intro hempty
      exact .inl hempty
    · rintro (hempty | hboth)
      · exact hempty
      · exact absurd hboth hsame

theorem commits_accepted_iff
    (hagree : Agree leaderCfg followerCfg leaderVerifier followerVerifier checkpoint leader
      follower)
    (hrotation : 0 < leaderCfg.decisionsPerLeader) {prevMD : ViewMetadata} {blackList : List Nat}
    (hprevMD : checkpoint.proposal.unmarshalMetadata = some prevMD)
    (h : (if leaderVerifier.verificationSequence = checkpoint.proposal.verificationSequence ∧
          leaderVerifier.membershipChange = false then
        leader.updatedBlacklist leaderCfg leaderVerifier checkpoint.signatures prevMD
      else some prevMD.blackList) = some blackList) :
    (∃ acks, verifyPrevCommitSignatures followerVerifier checkpoint checkpoint.signatures
          followerVerifier.verificationSequence = .ok acks ∧
        (follower.verifyBlacklist followerCfg followerVerifier checkpoint checkpoint.signatures
          followerVerifier.verificationSequence blackList acks).1 = .ok ()) ↔
      metadataFits leaderCfg leaderVerifier checkpoint prevMD = true := by
  have hactive : 0 < followerCfg.decisionsPerLeader := by
    rw [hagree.decisionsPerLeader]
    exact hrotation
  have hne : leaderCfg.decisionsPerLeader ≠ 0 := by omega
  unfold metadataFits verifyPrevCommitSignatures
  simp only [hprevMD, hagree.verificationSequence, if_neg hne]
  by_cases hseq : leaderVerifier.verificationSequence = checkpoint.proposal.verificationSequence
  · rw [hseq] at h ⊢
    simp only [ne_eq, not_true_eq_false, if_false, decide_true, Bool.true_and]
    cases hmembership : leaderVerifier.membershipChange with
    | false =>
      rw [if_pos ⟨rfl, hmembership⟩] at h
      obtain ⟨acks, hcollect, hexpected⟩ := expectedBlacklist_of_updated hagree hrotation h
      simp only [Bool.not_false, Bool.true_or, iff_true]
      exact ⟨acks, acknowledgePrepares_of_collect hagree.signatures hcollect,
        View.verifyBlacklist_updated hactive hprevMD
          (hagree.membershipChange.trans hmembership) hexpected⟩
    | true =>
      rw [if_neg (by simp [hmembership])] at h
      obtain rfl := Option.some.inj h
      simp only [Bool.not_true, Bool.false_or]
      have hunchanged : ∀ acks, (follower.verifyBlacklist followerCfg followerVerifier checkpoint
          checkpoint.signatures checkpoint.proposal.verificationSequence prevMD.blackList
          acks).1 = .ok () := by
        intro acks
        apply View.verifyBlacklist_unchanged hactive hprevMD
        simp [hagree.membershipChange, hmembership]
      simp only [hunchanged, and_true]
      cases hread : readableAuxiliaryData leaderVerifier checkpoint.signatures with
      | true =>
        rw [← collectPreparesFrom_isSome leaderVerifier checkpoint.signatures []] at hread
        obtain ⟨acks, hcollect⟩ := Option.isSome_iff_exists.mp hread
        simp only [iff_true]
        exact ⟨acks, acknowledgePrepares_of_collect hagree.signatures hcollect⟩
      | false =>
        obtain ⟨failure, hfails⟩ :=
          acknowledgePrepares_unreadable hagree.signatures hread []
        simp [hfails]
  · rw [if_neg (fun hboth => hseq hboth.1)] at h
    obtain rfl := Option.some.inj h
    have hdiffers : checkpoint.proposal.verificationSequence ≠
        leaderVerifier.verificationSequence := fun heq => hseq heq.symm
    simp only [if_pos hdiffers, hseq, decide_false, Bool.false_and, Bool.not_false, Bool.true_or,
      iff_true]
    exact ⟨[], rfl, View.verifyBlacklist_unchanged hactive hprevMD fun hboth => hseq hboth.1⟩

/-- The follower accepts the metadata and the previous commits of an honest leader exactly if
`metadataFits`. -/
theorem honest_metadata_accepted_iff
    (hagree : Agree leaderCfg followerCfg leaderVerifier followerVerifier checkpoint leader
      follower)
    {proposal : Proposal} {prePrepare : PrePrepare} {md prevMD : ViewMetadata}
    {requests : List RequestInfo}
    (hprevMD : checkpoint.proposal.unmarshalMetadata = some prevMD)
    (hmd : leader.getMetadata leaderCfg leaderVerifier checkpoint = some md)
    (hmarshal : proposal.metadata = some (.marshal md))
    (hsequence : proposal.verificationSequence = leaderVerifier.verificationSequence)
    (hmessage : leader.proposeMessage leaderCfg checkpoint proposal = .prePrepare prePrepare)
    (hpayload : followerVerifier.verifyProposal proposal = some requests) :
    (follower.verifyProposal followerCfg followerVerifier checkpoint proposal
      prePrepare.prevCommitSignatures).1 = .ok requests ↔
      metadataFits leaderCfg leaderVerifier checkpoint prevMD = true := by
  have hread : proposal.unmarshalMetadata = some md := by
    simp [Proposal.unmarshalMetadata, hmarshal, Wire.marshal]
  rw [View.verifyProposal_ok_iff hpayload hread (verifyMetadata_of_agree hagree hmd hsequence)]
  obtain ⟨prevMD', blackList, hprevMD', hblackList, rfl⟩ := getMetadata_some hmd
  obtain rfl : prevMD = prevMD' := Option.some.inj (hprevMD.symm.trans hprevMD')
  simp only [View.proposeMessage, Message.prePrepare.injEq] at hmessage
  subst hmessage
  by_cases hrotation : leaderCfg.decisionsPerLeader = 0
  · have hinactive : followerCfg.decisionsPerLeader = 0 := by
      rw [hagree.decisionsPerLeader, hrotation]
    have hprev : verifyPrevCommitSignatures followerVerifier checkpoint []
        followerVerifier.verificationSequence = .ok [] := by
      simp [verifyPrevCommitSignatures, hprevMD, acknowledgePrepares]
    simp only [hrotation, Nat.lt_irrefl, if_false, hprev, Except.ok.injEq, exists_eq_left',
      View.verifyBlacklist_inactive hinactive hprevMD, hinactive, false_implies, and_true]
    exact blackList_empty_iff hrotation hblackList
  · have hactive : 0 < leaderCfg.decisionsPerLeader := by omega
    simp only [if_pos hactive, if_neg hrotation, hagree.commitSignaturesDigest, implies_true,
      and_true]
    exact commits_accepted_iff hagree hactive hprevMD hblackList

/-! ## A checkpoint that blacklists node `2` -/

def skippedTwo : Decision where
  proposal := { metadata := some (.marshal { latestSequence := 1, blackList := [2] }) }
  signatures := [{ signer := 1 }, { signer := 3 }, { signer := 4 }]

def secondSequence : View := .fresh 3 2 0 1

def rotatingFour (selfID : Nat) : Config :=
  { clusterOfFour selfID with leaderRotation := true, decisionsPerLeader := 1 }

def secondProposal (md : ViewMetadata) : Proposal where
  payload := [7]
  metadata := some (.marshal md)

theorem agree_secondSequence {cfg : Nat → Config} {verifier : Verifier}
    (hcfg : ∀ i j, (cfg i).nodes = (cfg j).nodes ∧
      (cfg i).decisionsPerLeader = (cfg j).decisionsPerLeader ∧
      (cfg i).commitSignaturesDigest = (cfg j).commitSignaturesDigest)
    (hverifier : ∀ sig p,
      verifier.verifyConsenterSig sig p = some (verifier.auxiliaryData sig.msg)) :
    Agree (cfg 3) (cfg 4) verifier verifier skippedTwo secondSequence secondSequence := by
  obtain ⟨hnodes, hdecisions, hdigest⟩ := hcfg 4 3
  exact ⟨hnodes, hdecisions, hdigest, rfl, rfl, rfl, rfl, rfl, rfl, fun sig _ => hverifier sig _⟩

/-- While leaders rotate node `4` accepts what node `3` proposes. -/
theorem honest_metadata_accepted_rotating :
    metadataFits (rotatingFour 3) acceptingVerifier skippedTwo
        { latestSequence := 1, blackList := [2] } = true ∧
      (secondSequence.verifyProposal (rotatingFour 4) acceptingVerifier skippedTwo
        (secondProposal { latestSequence := 2, decisionsInView := 1, blackList := [2] })
        skippedTwo.signatures).1 = .ok [] := by
  refine ⟨by decide +kernel, ?_⟩
  exact (honest_metadata_accepted_iff
    (@agree_secondSequence rotatingFour acceptingVerifier (fun _ _ => ⟨rfl, rfl, rfl⟩)
      fun _ _ => rfl)
    rfl rfl rfl rfl rfl rfl).mpr (by decide +kernel)

/-- Leaders no longer rotate, and the membership has changed: node `3` takes over the
blacklist, and node `4` does not accept one. -/
theorem inherited_blacklist_rejected :
    let verifier : Verifier := { acceptingVerifier with membershipChange := true }
    Agree (clusterOfFour 3) (clusterOfFour 4) verifier verifier skippedTwo secondSequence
      secondSequence ∧
    ∃ md prePrepare,
      secondSequence.getMetadata (clusterOfFour 3) verifier skippedTwo = some md ∧
      secondSequence.proposeMessage (clusterOfFour 3) skippedTwo (secondProposal md) =
        .prePrepare prePrepare ∧
      verifier.verifyProposal (secondProposal md) = some [] ∧
      (secondSequence.verifyProposal (clusterOfFour 4) verifier skippedTwo (secondProposal md)
        prePrepare.prevCommitSignatures).1 =
        .error (.error "rotation is inactive but blacklist is not empty") := by
  intro verifier
  refine ⟨agree_secondSequence (fun _ _ => ⟨rfl, rfl, rfl⟩) fun _ _ => rfl, ?_⟩
  exact ⟨_, _, rfl, rfl, rfl, rfl⟩

end SmartBFT
