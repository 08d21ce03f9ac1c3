import SmartBFT.Cluster.Locked
import SmartBFT.Cluster.Prepared
import SmartBFT.Foundation.Code

/-!
# Agreement

What a correct node delivers is locked (`NodeSafe.delivered`), so the rules of `LockedViews`
give one proposal for each sequence, over all views and all three ways to deliver
(`deliveries_agree`).

The code keeps these rules only as long as it is lucky.  `Cluster.careful` lists what it has
to be lucky with; each of its conditions is about something that the code leaves unchecked.
Without them a faulty leader and a fruitless sync are enough to deliver two proposals for one
sequence (`deliveries_disagree`).
-/

namespace SmartBFT

open SmartBFT.Foundation

/-! ## What is assumed of the signatures and of the synchronizer -/

namespace Node

/-- The node has produced the signature, for a proposal with the digest: it has saved the
commit with it, or its in-flight view has sent it. -/
def signed (nd : Node) (sig : Signature) (digest : String) : Bool :=
  nd.trace.any fun
    | .save (.commit commit) => decide (commit.signature = some sig ∧ commit.digest = digest)
    | .broadcast .inFlightView (.commit commit) =>
      decide (commit.signature = some sig ∧ commit.digest = digest)
    | _ => false

def builtViewData (nd : Node) (svd : SignedViewData) : Bool :=
  nd.trace.any fun
    | .viewData _ vd => decide (svd.rawViewData = .marshal vd)
    | _ => false

def decidedProposal (nd : Node) (proposal : Proposal) : Bool :=
  decide (nd.checkpoint.proposal = proposal) || nd.trace.any fun
    | .deliver decision => decide (decision.proposal = proposal)
    | _ => false

end Node

namespace Cluster

variable (c : Cluster)

def attests (s : ClusterState) (i : Nat) (done : Node → Bool) : Prop :=
  i ∈ c.nodes ∧ (c.correct i = true → done (s i) = true)

/-- The assumptions on a step: `VerifyConsenterSig` and `VerifySignature` accept only what
the named node has signed, and a sync returns only what some correct node has decided, or
nothing. -/
structure Trusted (s : ClusterState) (event : Nat × NodeInput) : Prop where
  verifyConsenterSig : ∀ sig p, event.2.verifier.accepts sig p = true →
    c.attests s sig.signer fun nd => nd.signed sig (c.digest p)
  verifySignature : ∀ svd, event.2.verifier.verifySignature svd = true →
    c.attests s svd.signer fun nd => nd.builtViewData svd
  sync : ∀ decision, (s event.1).outcome event.2.event = some (.synced decision) →
    decision.proposal.metadata = none ∨
      ∃ j, c.correct j = true ∧ (s j).decidedProposal decision.proposal = true

end Cluster

/-! ## What the code does not check -/

namespace Node

/-- The node has a reason to run the view at the sequence: it is the first view, its last
decision is of this view, or it has a record of the view below the sequence. -/
def entered (nd : Node) (view seq : Nat) : Bool :=
  decide (view = 0) ||
    (nd.checkpointMetadata.any fun md =>
      decide (md.viewId = view ∧ md.latestSequence < seq)) ||
    nd.trace.any fun action =>
      action.opening.any fun opening => decide (opening.1 = view ∧ opening.2 ≤ seq)

def checksSignatures (cfg : Config) (nd : Node) (input : NodeInput) : Bool :=
  match input.event, nd.viewChanger.pc with
  | .viewChanger .validate, .validate entries _ =>
    decide (validateNewViewMsg input.verifier nd.viewChanger.currView cfg.quorum
        nd.checkpoint entries ≠ .ok .valid) ||
      (decide ((entries.map SignedViewData.signer).Nodup) &&
        entries.all input.verifier.verifySignature)
  | _, _ => true

end Node

namespace Cluster

variable (c : Cluster)

def entersViews (s : ClusterState) (i : Nat) (input : NodeInput) : Bool :=
  ((s i).step (c.config i) input).all fun nd' => nd'.trace.all fun action =>
    decide (action ∈ (s i).trace) ||
      match action, input.event with
      | .save (.proposedRecord pp _), _ => (s i).entered pp.view pp.seq
      | .save (.newView md), .controller _ => c.nodes.any fun j =>
        c.correct j && (s j).entered md.viewId (md.latestSequence + 1)
      | _, _ => true

def commitsLocked (s : ClusterState) (i : Nat) (input : NodeInput) : Bool :=
  match input.event, (s i).viewChanger.pc with
  | .viewChanger .commitInFlight, .commitInFlight _ (some proposal) _ =>
    match Node.planInFlight (s i).checkpoint proposal with
    | .commit _ => (s i).committed (c.digest proposal) || c.locked s (c.digest proposal)
    | _ => true
  | _, _ => true

def careful (s : ClusterState) (event : Nat × NodeInput) : Bool :=
  let cfg := c.config event.1
  let nd := s event.1
  startsFresh cfg nd event.2 && nd.votesInOrder cfg event.2 && nd.readsOnce event.2 &&
    nd.restoresPrepared cfg event.2 && nd.syncsForward event.2 &&
    nd.checksSignatures cfg event.2 && c.entersViews s event.1 event.2 &&
    c.commitsLocked s event.1 event.2

def StartedAtGenesis (start : ClusterState) : Prop :=
  ∀ i, c.correct i = true → ∃ checkpoint md, Node.boot (c.config i) [] checkpoint = .ok (start i) ∧
    checkpoint.proposal.unmarshalMetadata = some md ∧ md.viewId = 0

def SignsOwn : Prop := ∀ i proposal aux, ((c.config i).signProposal proposal aux).signer = i

end Cluster

/-! ## The invariant of the correct nodes -/

def Cluster.Accepted (c : Cluster) (final : ClusterState) (sig : Signature) (p : Proposal) : Prop :=
  sig.signer ∈ c.nodes ∧ (c.correct sig.signer = true →
    (final sig.signer).committed (c.digest p) = true ∨ c.locked final (c.digest p) = true)

structure NodeSafe (c : Cluster) (final : ClusterState) (i : Nat) (nd : Node) : Prop where
  log : LogInvariant (c.config i) nd
  votes : VotesKept (c.config i) (fun _ => True) (fun _ => False) nd
  signatures : SignatureInvariant (c.config i) (c.Accepted final) nd
  coverage : CoverageInvariant (c.config i) nd
  endorsement : EndorsementInvariant (c.config i) (fun digest => c.locked final digest = true) nd
  opening : OpeningInvariant (c.Runs final) nd
  delivered : ∀ decision, .deliver decision ∈ nd.trace →
    c.locked final (c.digest decision.proposal) = true
  checkpoint : ∃ md, nd.checkpointMetadata = some md ∧
    (md.viewId = 0 ∨ c.locked final (c.digest nd.checkpoint.proposal) = true)

namespace Cluster

variable {c : Cluster} {s final : ClusterState} {i : Nat} {nd nd' : Node} {input : NodeInput}

theorem locked_of_supported (hi : c.correct i = true) (hgrown : nd.trace ⊆ (final i).trace)
    {decision : Decision}
    (h : decision.Supported (c.config i) (c.Accepted final)
      (nd.Endorses fun digest => c.locked final digest = true)) :
    c.locked final (c.digest decision.proposal) = true := by
  obtain ⟨signers, hdistinct, hquorum, hsigners⟩ := h
  by_contra hnot
  refine hnot (locked_of_signers hdistinct (config_quorum (c := c) i ▸ hquorum) fun j hj => ?_)
  rcases hsigners j hj with ⟨rfl, hendorses⟩ | ⟨sig, rfl, hmember, haccepted⟩
  · rw [c.self i, c.digests i] at *
    refine ⟨(correct_iff.mp hi).1, fun _ => ?_⟩
    rcases hendorses with ⟨commit, hmem, hdigest⟩ | hlocked
    · exact Node.committed_iff.mpr ⟨commit, hgrown hmem, hdigest⟩
    · exact absurd hlocked hnot
  · exact ⟨hmember, fun hcorrect => (haccepted hcorrect).resolve_right hnot⟩

theorem certified_of_checked {verifier : Verifier} {signed : List SignedViewData}
    {result : CheckInFlightResult} (hgrown : ∀ j, (s j).trace ⊆ (final j).trace)
    (hchecked : nd.Checked (c.config i) verifier signed result)
    (hdistinct : (signed.map SignedViewData.signer).Nodup)
    (hsigned : ∀ svd ∈ signed, c.attests s svd.signer fun nd => nd.builtViewData svd)
    {start : Nat} (hstart : nd.checkpoint.sequence ≤ start)
    (hanswer : result.noInFlight = true ∨ ∃ p, result.inFlightProposal = some p ∧
      Decision.sequence { proposal := p } ≤ start) :
    c.Certified final nd.viewChanger.currView start := by
  obtain ⟨mySequence, hsequence, hquorum, hcounted⟩ := validateNewViewMsg_valid hchecked.valid
  obtain ⟨checkpoint, messages, hact⟩ := hchecked.checked
  obtain ⟨-, hextract, hresult, hok⟩ := checkNewView_act hact
  rw [firstBy_eq_self hdistinct (by simp)] at hquorum hcounted
  have hmine := Node.sequence_of_extract hsequence
  have hmessages := extractViewDataMessages_eq hextract { nextView := 0 }
  have hentry : ∀ svd ∈ signed, ∃ vd lastDecision md, svd.rawViewData.reading = some vd ∧
      vd.nextView = nd.viewChanger.currView ∧ vd.lastDecision = some lastDecision ∧
      lastDecision.unmarshalMetadata = some md ∧ md.latestSequence ≤ start ∧
      validateInFlight vd.inFlightProposal md.latestSequence = .ok () := by
    intro svd hsvd
    obtain ⟨vd, lastDecision, md, hvd, hview, hlast, hmd, hle, hfollows, -⟩ :=
      judgeEntry_counted (hcounted svd hsvd)
    exact ⟨vd, lastDecision, md, hvd, hview, hlast, hmd, by omega, hfollows⟩
  refine ⟨signed.map fun svd =>
    (svd.signer, svd.rawViewData.reading.getD { nextView := 0 }), ?_⟩
  refine ⟨?_, ?_, ?_, ?_, ?_, ?_, result, ?_, hok, hanswer⟩
  · rw [List.map_map]
    exact hdistinct
  · intro entry hmem
    obtain ⟨svd, hsvd, rfl⟩ := List.mem_map.mp hmem
    exact (hsigned svd hsvd).1
  · rw [List.length_map, ← config_quorum i]
    exact hquorum
  · intro entry hmem hcorrect
    obtain ⟨svd, hsvd, rfl⟩ := List.mem_map.mp hmem
    have hbuilt := (hsigned svd hsvd).2 hcorrect
    simp only [Node.builtViewData, List.any_eq_true] at hbuilt
    obtain ⟨action, haction, hdata⟩ := hbuilt
    split at hdata
    · rename_i purpose vd
      rw [of_decide_eq_true hdata]
      exact ⟨purpose, hgrown _ haction⟩
    · simp at hdata
  · intro entry hmem
    obtain ⟨svd, hsvd, rfl⟩ := List.mem_map.mp hmem
    obtain ⟨vd, _, _, hvd, hview, -⟩ := hentry svd hsvd
    rw [hvd]
    exact hview
  · intro entry hmem
    obtain ⟨svd, hsvd, rfl⟩ := List.mem_map.mp hmem
    obtain ⟨vd, lastDecision, md, hvd, -, hlast⟩ := hentry svd hsvd
    rw [hvd]
    exact ⟨lastDecision, md, hlast⟩
  · rw [List.map_map, ← config_f i, ← config_quorum i]
    exact hmessages ▸ hresult

end Cluster

namespace NodeSafe

variable {c : Cluster} {s final : ClusterState} {i : Nat} {nd nd' : Node} {input : NodeInput}

theorem boot (hi : c.correct i = true) {start : ClusterState} (hstart : c.StartedAtGenesis start) :
    NodeSafe c final i (start i) := by
  obtain ⟨checkpoint, md, hboot, hmd, hview⟩ := hstart i hi
  refine ⟨.boot_empty hboot, .boot hboot, .boot (by simp) hboot, .boot hboot,
    .boot hboot, .boot hboot, ?_, md, ?_, .inl hview⟩
  all_goals obtain ⟨_, _, _, _, _, -, -, -, -, hstarted⟩ := Node.boot_ok hboot
  · simp [hstarted, Node.started]
  · simpa [hstarted, Node.started, Node.checkpointMetadata] using hmd

theorem readable (h : NodeSafe c final i nd) : ∃ md, nd.checkpointMetadata = some md := by
  obtain ⟨md, hmd, -⟩ := h.checkpoint
  exact ⟨md, hmd⟩

theorem runs_of_entered (h : NodeSafe c final i nd) {view seq : Nat}
    (hentered : nd.entered view seq = true) : c.Runs final view seq := by
  simp only [Node.entered, Bool.or_eq_true, decide_eq_true_eq, Option.any_eq_true,
    List.any_eq_true] at hentered
  rcases hentered with (hfirst | ⟨md, hmd, rfl, hlt⟩) |
    ⟨action, hmem, ⟨view', seq'⟩, hopening, rfl, hle⟩
  · exact .inl hfirst
  · obtain ⟨md', hmd', hcheckpoint⟩ := h.checkpoint
    obtain rfl := Option.some.inj (hmd.symm.trans hmd')
    rcases hcheckpoint with hfirst | hlocked
    · exact .inl hfirst
    · exact .inr ⟨md.latestSequence, hlt, .inr ⟨_, hlocked, md, hmd, rfl, rfl⟩⟩
  · exact (h.opening.opened action hmem view' seq' hopening).mono hle

theorem accepted (hall : ∀ j, c.correct j = true → NodeSafe c final j (s j))
    (hgrown : ∀ j, (s j).trace ⊆ (final j).trace) {sig : Signature} {p : Proposal}
    (h : c.attests s sig.signer fun nd => nd.signed sig (c.digest p)) :
    c.Accepted final sig p := by
  refine ⟨h.1, fun hcorrect => ?_⟩
  have hsigned := h.2 hcorrect
  simp only [Node.signed, List.any_eq_true] at hsigned
  obtain ⟨action, hmem, haction⟩ := hsigned
  split at haction
  · rename_i commit
    exact .inl (Node.committed_iff.mpr ⟨commit, hgrown _ hmem, (of_decide_eq_true haction).2⟩)
  · rename_i commit
    have hdigest := (of_decide_eq_true haction).2
    rcases (hall _ hcorrect).endorsement.sent commit hmem with ⟨own, hown, hsame⟩ | hlocked
    · exact .inl (Node.committed_iff.mpr ⟨own, hgrown _ hown, hsame.trans hdigest⟩)
    · exact .inr (hdigest ▸ hlocked)
  · simp at haction

theorem decided (h : NodeSafe c final i nd) {decision : Decision} {md : ViewMetadata}
    (hmd : decision.proposal.unmarshalMetadata = some md)
    (hdecided : nd.decidedProposal decision.proposal = true) :
    md.viewId = 0 ∨ c.locked final (c.digest decision.proposal) = true := by
  simp only [Node.decidedProposal, Bool.or_eq_true, decide_eq_true_eq, List.any_eq_true] at hdecided
  rcases hdecided with hsame | ⟨action, hmem, haction⟩
  · obtain ⟨other, hother, hcheckpoint⟩ := h.checkpoint
    rw [Node.checkpointMetadata, hsame] at hother
    obtain rfl := Option.some.inj (hmd.symm.trans hother)
    exact hsame ▸ hcheckpoint
  · split at haction
    · rename_i own
      have hsame := of_decide_eq_true haction
      exact .inr (hsame ▸ h.delivered own hmem)
    · simp at haction

theorem opening_step (hall : ∀ j, c.correct j = true → NodeSafe c final j (s j))
    (hgrown : ∀ j, (s j).trace ⊆ (final j).trace) (hi : c.correct i = true)
    (htrusted : c.Trusted s (i, input)) (henters : c.entersViews s i input = true)
    (hsignatures : (s i).checksSignatures (c.config i) input = true)
    (hobtains : Obtains (s i) nd' ((s i).outcome input.event))
    (hstep : (s i).step (c.config i) input = some nd') : OpeningInvariant (c.Runs final) nd' := by
  have h := hall i hi
  simp only [Cluster.entersViews, hstep, Option.all_some, List.all_eq_true, Bool.or_eq_true,
    decide_eq_true_eq] at henters
  refine h.opening.step h.log h.readable hobtains ?_ ?_ ?_ hstep
  · intro pp prepare hmem hnew
    exact h.runs_of_entered ((henters _ hmem).resolve_left hnew)
  · intro md event hevent hmem hnew
    have hcollected := (henters _ hmem).resolve_left hnew
    simp only [hevent, List.any_eq_true, Bool.and_eq_true] at hcollected
    obtain ⟨j, -, hj, hentered⟩ := hcollected
    exact (hall j hj).runs_of_entered hentered
  · intro signed own result hevent hpc hchecked
    have hboth : (signed.map SignedViewData.signer).Nodup ∧
        ∀ svd ∈ signed, input.verifier.verifySignature svd = true := by
      simpa [Node.checksSignatures, hevent, hpc, hchecked.valid] using hsignatures
    have hsigned := fun svd hsvd => htrusted.verifySignature svd (hboth.2 svd hsvd)
    constructor
    · exact fun hnone m hcheckpoint _ => .inr ⟨m, Nat.lt_succ_self m, .inl
        (Cluster.certified_of_checked hgrown hchecked hboth.1 hsigned hcheckpoint (.inl hnone))⟩
    · exact fun p hp m hcheckpoint hle => .inr ⟨m, Nat.lt_succ_self m, .inl
        (Cluster.certified_of_checked hgrown hchecked hboth.1 hsigned hcheckpoint
          (.inr ⟨p, hp, hle⟩))⟩

theorem delivered_step (h : NodeSafe c final i nd) (hgrown : nd.trace ⊆ (final i).trace)
    (hi : c.correct i = true) (hstep : nd.step (c.config i) input = some nd') {decision : Decision}
    (hmem : .deliver decision ∈ nd'.trace) :
    c.locked final (c.digest decision.proposal) = true := by
  rcases (Node.step_transition hstep).2.2.delivers hmem with hold | hnew
  · exact h.delivered decision hold
  · exact Cluster.locked_of_supported hi hgrown (h.endorsement.delivered h.signatures hnew)

theorem checkpoint_step (hall : ∀ j, c.correct j = true → NodeSafe c final j (s j))
    (hi : c.correct i = true) (htrusted : c.Trusted s (i, input))
    (hobtains : Obtains (s i) nd' ((s i).outcome input.event))
    (hdelivered : ∀ decision, .deliver decision ∈ nd'.trace →
      c.locked final (c.digest decision.proposal) = true)
    (hstep : (s i).step (c.config i) input = some nd') : ∃ md, nd'.checkpointMetadata = some md ∧
      (md.viewId = 0 ∨ c.locked final (c.digest nd'.checkpoint.proposal) = true) := by
  obtain ⟨md, hmd⟩ := hobtains.readable
  refine ⟨md, hmd, ?_⟩
  rcases Node.step_checkpoint hstep with hsame | hsynced | hobtained
  · obtain ⟨other, hother, hcheckpoint⟩ := (hall i hi).checkpoint
    rw [Node.checkpointMetadata, ← hsame] at hother
    obtain rfl := Option.some.inj (hmd.symm.trans hother)
    rw [hsame]
    exact hcheckpoint
  · rcases htrusted.sync _ hsynced with hnone | ⟨j, hj, hdecided⟩
    · simp only [Node.checkpointMetadata, Proposal.unmarshalMetadata, hnone,
        Option.some.injEq] at hmd
      exact .inl (hmd ▸ rfl)
    · exact (hall j hj).decided hmd hdecided
  · refine .inr (hdelivered nd'.checkpoint ?_)
    have hdeliveries := hobtains.deliveries
    rw [hobtained] at hdeliveries
    have hmem : nd'.checkpoint ∈ nd'.deliveries := by
      rw [hdeliveries]
      exact List.mem_cons_self
    exact Node.mem_deliveries.mp hmem

theorem step (hall : ∀ j, c.correct j = true → NodeSafe c final j (s j))
    (hgrown : ∀ j, (s j).trace ⊆ (final j).trace) (hi : c.correct i = true)
    (hdigest : Function.Injective c.digest) (hsigner : c.SignsOwn)
    (htrusted : c.Trusted s (i, input)) (hcareful : c.careful s (i, input) = true)
    (hstep : (s i).step (c.config i) input = some nd') : NodeSafe c final i nd' := by
  have h := hall i hi
  simp only [Cluster.careful, Bool.and_eq_true] at hcareful
  obtain ⟨⟨⟨⟨⟨⟨⟨hfresh, horder⟩, hreads⟩, hrestores⟩, hforward⟩, hsignatures⟩, henters⟩,
    hcommits⟩ := hcareful
  have hobtains := Node.step_obtains h.readable hforward hstep
  have hdelivered : ∀ decision, .deliver decision ∈ nd'.trace →
      c.locked final (c.digest decision.proposal) = true :=
    fun _ hmem => h.delivered_step (hgrown i) hi hstep hmem
  have hinjective : Function.Injective (c.config i).digest := c.digests i ▸ hdigest
  refine ⟨h.log.step hstep, ?_, ?_, ?_, ?_, ?_, hdelivered, ?_⟩
  · exact h.votes.step h.log (fun v hv _ => startsFresh_starts hfresh hv)
      (fun _ hnever => hnever.elim) hstep
  · refine h.signatures.step ?_ ?_ hstep
    · exact fun proposal aux => (hsigner i proposal aux).trans (c.self i).symm
    · exact fun sig p haccepts =>
        accepted hall hgrown (htrusted.verifyConsenterSig sig p haccepts)
  · exact h.coverage.step h.log h.votes hinjective h.readable hobtains horder hreads hrestores
      hstep
  · refine h.endorsement.step h.log h.votes.logged ?_ hstep
    intro signed proposal own hevent hpc md hplan
    simp only [Cluster.commitsLocked, hevent, hpc, hplan, Bool.or_eq_true] at hcommits
    rw [c.digests i]
    rcases hcommits with hcommitted | hlocked
    · exact .inl (Node.committed_iff.mp hcommitted)
    · exact .inr (Cluster.locked_mono hlocked hgrown)
  · exact opening_step hall hgrown hi htrusted henters hsignatures hobtains hstep
  · exact checkpoint_step hall hi htrusted hobtains hdelivered hstep

end NodeSafe

theorem Cluster.nodesSafe {c : Cluster} {start final : ClusterState}
    {events : List (Nat × NodeInput)} (hdigest : Function.Injective c.digest)
    (hsigner : c.SignsOwn) (hstart : c.StartedAtGenesis start)
    (hmeets : StepsMeet c.step
      (fun s event => c.Trusted s event ∧ c.careful s event = true) start events)
    (hrun : run c.step start events = some final) :
    ∀ i, c.correct i = true → NodeSafe c final i (final i) := by
  let safe (i : Nat) (nd : Node) : Prop := c.correct i = true → NodeSafe c final i nd
  have hinit : ∀ i, safe i (start i) := fun i hi => .boot hi hstart
  refine network_invariant (r := fun nd nd' : Node => nd.trace ⊆ nd'.trace)
    (fun nd => List.Subset.refl nd.trace) List.Subset.trans
    (fun _ _ _ _ h => Node.step_trace_subset h) ?_ hinit hmeets hrun
  intro s i input nd' hall _ hcondition hgrown hstep hi
  exact NodeSafe.step hall hgrown hi hdigest hsigner hcondition.1 hcondition.2 hstep

theorem Cluster.historiesKept {c : Cluster} {s : ClusterState}
    (hdigest : Function.Injective c.digest)
    (h : ∀ i, c.correct i = true → NodeSafe c s i (s i)) : c.HistoriesKept s where
  digest := hdigest
  votes i hi := (h i hi).votes.history
  coverage i hi := (h i hi).coverage
  opening i hi := (h i hi).opening

theorem Cluster.HistoriesKept.lockedAt {c : Cluster} {s : ClusterState} (h : c.HistoriesKept s)
    {p : Proposal} (hlocked : c.locked s (c.digest p) = true) :
    ∃ view, c.LockedAt s view (Decision.sequence { proposal := p }) p := by
  obtain ⟨voters, hvoters, hcard, hcommitted⟩ := locked_voters hlocked
  obtain ⟨k, hk, -, hcorrect⟩ := exists_correct hvoters hvoters hcard hcard
  obtain ⟨commit, hmem, hsame⟩ := Node.committed_iff.mp (hcommitted k hk hcorrect)
  have hinjective : Function.Injective (c.config k).digest := c.digests k ▸ h.digest
  have hdigest : (c.config k).digest p = commit.digest := by rw [c.digests k, hsame]
  obtain ⟨md, hmd, -, -⟩ := (h.votes k hcorrect).metadata hinjective hmem hdigest
  exact ⟨md.viewId, hlocked, md, hmd, rfl, (Node.sequence_of_metadata hmd).symm⟩

/--
At most `f` nodes are faulty, signatures and syncs can be trusted, digests do not collide, and
every step is careful.  Then what the correct nodes deliver for one sequence, in whatever view
and by whichever of the three ways, is one proposal.
-/
theorem deliveries_agree {c : Cluster} {start final : ClusterState}
    {events : List (Nat × NodeInput)} {i j : Nat} {decision decision' : Decision}
    (hdigest : Function.Injective c.digest) (hsigner : c.SignsOwn)
    (hstart : c.StartedAtGenesis start)
    (hmeets : StepsMeet c.step
      (fun s event => c.Trusted s event ∧ c.careful s event = true) start events)
    (hrun : run c.step start events = some final)
    (hi : c.correct i = true) (hj : c.correct j = true)
    (hdelivered : .deliver decision ∈ (final i).trace)
    (hdelivered' : .deliver decision' ∈ (final j).trace)
    (hsequence : decision.sequence = decision'.sequence) :
    decision.proposal = decision'.proposal := by
  have hsafe := Cluster.nodesSafe hdigest hsigner hstart hmeets hrun
  have hkept := Cluster.historiesKept hdigest hsafe
  obtain ⟨view, hlocked⟩ := hkept.lockedAt ((hsafe i hi).delivered decision hdelivered)
  obtain ⟨view', hlocked'⟩ := hkept.lockedAt ((hsafe j hj).delivered decision' hdelivered')
  have hsame : Decision.sequence { proposal := decision'.proposal } =
      Decision.sequence { proposal := decision.proposal } := hsequence.symm
  rw [hsame] at hlocked'
  exact hkept.lockedViews.agreement hlocked hlocked'

/-! ## A digest without collisions -/

def bytesCode : Code Bytes :=
  (Code.nat.comap UInt8.toNat fun _ _ h => UInt8.toNat_inj.mp h).list

def metadataCode : Code ViewMetadata :=
  ((Code.nat.pair (Code.nat.pair Code.nat)).pair (Code.nat.list.pair bytesCode)).comap
    (fun md => ((md.viewId, md.latestSequence, md.decisionsInView), md.blackList,
      md.prevCommitSignatureDigest)) (by
    rintro ⟨⟩ ⟨⟩ h
    simp_all)

def wireCode : Code (Wire ViewMetadata) :=
  (metadataCode.option.pair Code.nat).comap (fun raw => (raw.reading, raw.variant)) (by
    rintro ⟨⟩ ⟨⟩ h
    simp_all)

def proposalCode : Code Proposal :=
  ((bytesCode.pair bytesCode).pair (wireCode.option.pair Code.nat)).comap
    (fun p => ((p.header, p.payload), p.metadata, p.verificationSequence)) (by
    rintro ⟨⟩ ⟨⟩ h
    simp_all)

/-! ## A faulty leader of four -/

def collisionFree : Cluster :=
  { faultyLeader with
    config := fun i => { clusterOfFour i with digest := proposalCode.text }
    digest := proposalCode.text
    self := fun _ => rfl
    members := fun _ => rfl
    digests := fun _ => rfl }

theorem collisionFree_started : collisionFree.StartedAtGenesis nodeOfFour :=
  fun _ _ => ⟨{}, {}, rfl, rfl, rfl⟩

def acceptingOnly (signatures : List (Signature × Proposal))
    (viewData : List SignedViewData) : Verifier where
  verifyProposal _ := some []
  verifyConsenterSig sig p := if (sig, p) ∈ signatures then some none else none
  verifySignature svd := decide (svd ∈ viewData)
  verificationSequence := 0
  auxiliaryData _ := none
  membershipChange := false

structure SignedStep where
  node : Nat
  signatures : List (Signature × Proposal) := []
  viewData : List SignedViewData := []
  event : NodeEvent

def SignedStep.input (e : SignedStep) : Nat × NodeInput :=
  (e.node, ⟨acceptingOnly e.signatures e.viewData, e.event⟩)

def Cluster.trusts (c : Cluster) (s : ClusterState) (e : SignedStep) : Bool :=
  (e.signatures.all fun (sig, p) => decide (sig.signer ∈ c.nodes) &&
    (!c.correct sig.signer || (s sig.signer).signed sig (c.digest p))) &&
  (e.viewData.all fun svd => decide (svd.signer ∈ c.nodes) &&
    (!c.correct svd.signer || (s svd.signer).builtViewData svd)) &&
  match (s e.node).outcome e.event with
  | some (.synced decision) => decide (decision.proposal.metadata = none)
  | _ => true

theorem Cluster.trusted_of_trusts {c : Cluster} {s : ClusterState} {e : SignedStep}
    (h : c.trusts s e = true) : c.Trusted s e.input := by
  simp only [trusts, Bool.and_eq_true, List.all_eq_true, Bool.or_eq_true, decide_eq_true_eq,
    Bool.not_eq_true'] at h
  obtain ⟨⟨hsignatures, hviewData⟩, hsync⟩ := h
  refine ⟨fun sig p haccepts => ?_, fun svd hverified => ?_, fun decision hsynced => ?_⟩
  · have hmem : (sig, p) ∈ e.signatures := by
      by_contra hnone
      simp [SignedStep.input, Verifier.accepts, acceptingOnly, hnone] at haccepts
    obtain ⟨hmember, hsigned⟩ := hsignatures _ hmem
    refine ⟨hmember, fun hcorrect => hsigned.resolve_left ?_⟩
    simp [hcorrect]
  · obtain ⟨hmember, hbuilt⟩ := hviewData svd (of_decide_eq_true hverified)
    refine ⟨hmember, fun hcorrect => hbuilt.resolve_left ?_⟩
    simp [hcorrect]
  · have houtcome : (s e.node).outcome e.event = some (.synced decision) := hsynced
    simp only [houtcome, decide_eq_true_eq] at hsync
    exact .inl hsync

def plainSteps (i : Nat) (events : List NodeEvent) : List SignedStep :=
  events.map fun event => { node := i, event := event }

def firstDigest (payload : Bytes) : String := proposalCode.text (firstProposal payload)

/-- The node counts the commits of two others for the first proposal, and delivers it. -/
def deliverFirst (i : Nat) (payload : Bytes) (a b : Nat) : List SignedStep :=
  (commitFirst (firstDigest payload) payload a b ++
    [NodeEvent.controller (.decide {})]).map fun event =>
    { node := i
      signatures := [(⟨a, payload, []⟩, firstProposal payload),
        (⟨b, payload, []⟩, firstProposal payload)]
      event := event }

def prepareBoth : List SignedStep :=
  plainSteps 3 (acceptFirst [7]) ++
    plainSteps 2 (acceptFirst [7] ++ prepareFirst (firstDigest [7]) 1 3) ++
    plainSteps 3 (prepareFirst (firstDigest [7]) 1 2)

/-- Node 3 delivers the first proposal in view 0, and complains. -/
def deliverInView : List SignedStep :=
  deliverFirst 3 [7] 1 2 ++
    plainSteps 3 [.controller .ack, .controller .count, .controller .rotate, .complain 0 true,
      .viewChanger .startChange, .viewChanger .abortSent, .controller .abortView, .view .abort,
      .controller .viewEnded]

def joinFirst (a b : Nat) : List NodeEvent :=
  [.viewChanger (.msg a (.viewChange 1)), .viewChanger (.msg b (.viewChange 1)),
    .viewChanger .abortSent]

def readRecord : List NodeEvent :=
  [.viewChanger .readInFlight, .viewChanger .readPrepared]

def sevenSignatures : List Signature :=
  [⟨1, [7], []⟩, ⟨2, [7], []⟩, ⟨3, [7], []⟩]

def sevenViewData (signer : Nat) : SignedViewData :=
  ⟨.marshal
    { nextView := 1, lastDecision := some (firstProposal [7])
      lastDecisionSignatures := sevenSignatures, inFlightPrepared := true }, signer, []⟩

def trustedSteps (i : Nat) (viewData : List SignedViewData) (events : List NodeEvent) :
    List SignedStep :=
  events.map fun event =>
    { node := i, signatures := sevenSignatures.map fun sig => (sig, firstProposal [7])
      viewData := viewData, event := event }

def startFirst : List NodeEvent :=
  [.viewChanger .validate, .viewChanger .viewChangedSent, .controller .viewChange,
    .controller .viewEnded]

/-- The leader of view 1 has only prepared the proposal that node 3 reports, delivers it on
the way, and both start the view. -/
def deliverInViewChange : List SignedStep :=
  plainSteps 2 (joinFirst 1 3 ++ [.controller .abortView, .view .abort, .view .abort,
      .controller .viewEnded, .viewChanger .abortSent] ++ readRecord) ++
    plainSteps 3 (joinFirst 1 2 ++ readRecord) ++
    trustedSteps 2 [sevenViewData 1, sevenViewData 3]
      ([.viewChanger (.msg 3 (.viewData (sevenViewData 3))), .viewChanger (.deliver {}),
        .viewChanger (.msg 1 (.viewData (sevenViewData 1)))] ++ readRecord) ++
    trustedSteps 2 ([2, 3, 1].map sevenViewData) startFirst ++
    trustedSteps 3 ([2, 3, 1].map sevenViewData)
      (.viewChanger (.msg 2 (.newView ([2, 3, 1].map sevenViewData))) :: startFirst)

def deliverTwice : List SignedStep :=
  prepareBoth ++ deliverInView ++ deliverInViewChange

theorem deliveries_agree_over_views :
    ∃ final, run collisionFree.step nodeOfFour (deliverTwice.map SignedStep.input) = some final ∧
      (∃ decision, .deliver decision ∈ (final 2).trace) ∧
      (final 2).controller.currViewNumber = 1 ∧ (final 3).controller.currViewNumber = 1 ∧
      ∀ decision, .deliver decision ∈ (final 2).trace → decision.sequence = 1 →
        decision.proposal = firstProposal [7] := by
  have hmeets : StepsMeet collisionFree.step (fun s event => collisionFree.Trusted s event ∧
      collisionFree.careful s event = true) nodeOfFour (deliverTwice.map SignedStep.input) := by
    refine StepsMeet.map (p := fun s e => collisionFree.trusts s e = true ∧
      collisionFree.careful s e.input = true) _ (fun s e h => ?_) (by decide +kernel)
    exact ⟨Cluster.trusted_of_trusts h.1, h.2⟩
  refine exists_of_isSome (by decide +kernel) fun hrun => ⟨⟨⟨firstProposal [7], sevenSignatures⟩,
    by decide +kernel⟩, by decide +kernel, by decide +kernel,
    fun decision hdelivered hsequence => ?_⟩
  exact deliveries_agree proposalCode.text_injective (fun _ _ _ => rfl) collisionFree_started
    hmeets hrun (i := 2) (j := 3) (by decide) (by decide) hdelivered
    (by decide +kernel : Action.deliver ⟨firstProposal [7], sevenSignatures⟩ ∈ _) hsequence

def deliverOther : List SignedStep :=
  prepareBoth ++ deliverFirst 2 [7] 1 3 ++
    plainSteps 3 (viewReceives 1 (.prepare { view := 1, seq := 1, digest := "" }) ++
      [.view .abort, .view .abort, .controller (.sync {} false), .controller (.fetched none),
        .controller .viewEnded] ++ acceptFirst [9]) ++
    plainSteps 4 (acceptFirst [9] ++ prepareFirst (firstDigest [9]) 1 3) ++
    plainSteps 3 (prepareFirst (firstDigest [9]) 1 4) ++ deliverFirst 4 [9] 1 3

/-- Two correct nodes deliver different proposals for one sequence. -/
theorem deliveries_disagree :
    Function.Injective collisionFree.digest ∧ collisionFree.SignsOwn ∧
    collisionFree.StartedAtGenesis nodeOfFour ∧
    StepsMeet collisionFree.step collisionFree.Trusted nodeOfFour
      (deliverOther.map SignedStep.input) ∧
    ∃ final, run collisionFree.step nodeOfFour (deliverOther.map SignedStep.input) = some final ∧
      collisionFree.correct 2 = true ∧ collisionFree.correct 4 = true ∧
      ∃ decision decision', .deliver decision ∈ (final 2).trace ∧
        .deliver decision' ∈ (final 4).trace ∧ decision.sequence = decision'.sequence ∧
        decision.proposal ≠ decision'.proposal := by
  refine ⟨proposalCode.text_injective, fun _ _ _ => rfl, collisionFree_started, ?_, ?_⟩
  · exact StepsMeet.map (p := fun s e => collisionFree.trusts s e = true) _
      (fun s e h => Cluster.trusted_of_trusts h) (by decide +kernel)
  · exact ⟨_, Option.eq_some_of_isSome (by decide +kernel), by decide, by decide,
      ⟨firstProposal [7], [⟨1, [7], []⟩, ⟨3, [7], []⟩, ⟨2, [7], []⟩]⟩,
      ⟨firstProposal [9], [⟨1, [9], []⟩, ⟨3, [9], []⟩, ⟨4, [9], []⟩]⟩, by decide +kernel⟩

end SmartBFT
