import SmartBFT.Node.Certificate
import SmartBFT.Node.Votes

/-!
# Who stands behind a decision

A node signs a proposal in two places.  The view of the controller signs when it is
prepared, and saves its commit with the signature before it does anything else.  The view
for an in-flight proposal signs what `CheckInFlight` has picked, and saves nothing: there
the reason is that the proposal is `locked`, whatever that is taken to mean.

Every delivered decision has a quorum behind it of which each member is this node, with
such a reason, or has its signature accepted (`EndorsementInvariant.delivered`).
-/

namespace SmartBFT

open SmartBFT.Foundation

def Node.Endorses (locked : String → Prop) (nd : Node) (digest : String) : Prop :=
  (∃ commit, .save (.commit commit) ∈ nd.trace ∧ commit.digest = digest) ∨ locked digest

theorem Node.Endorses.mono {locked : String → Prop} {nd nd' : Node} {digest : String}
    (h : nd.Endorses locked digest) (hsub : nd.trace ⊆ nd'.trace) :
    nd'.Endorses locked digest := by
  rcases h with ⟨commit, hmem, hdigest⟩ | hlocked
  · exact .inl ⟨commit, hsub hmem, hdigest⟩
  · exact .inr hlocked

def Decision.Supported (cfg : Config) (accepted : Signature → Proposal → Prop)
    (endorsed : String → Prop) (decision : Decision) : Prop :=
  ∃ signers : List Nat, signers.Nodup ∧ cfg.quorum ≤ signers.length ∧
    ∀ signer ∈ signers, (signer = cfg.selfID ∧ endorsed (cfg.digest decision.proposal)) ∨
      ∃ sig, sig.signer = signer ∧ accepted sig decision.proposal

namespace Decision

variable {cfg : Config} {accepted : Signature → Proposal → Prop}
  {endorsed endorsed' : String → Prop} {decision : Decision}

theorem Certified.supported (h : decision.Certified cfg accepted)
    (hendorsed : endorsed (cfg.digest decision.proposal)) :
    decision.Supported cfg accepted endorsed := by
  refine ⟨decision.signatures.map Signature.signer, h.distinct, ?_, fun signer hsigner => ?_⟩
  · rw [List.length_map]
    exact h.quorum
  · obtain ⟨sig, hsig, rfl⟩ := List.mem_map.mp hsigner
    rcases h.accepted sig hsig with hself | haccepted
    · exact .inl ⟨hself, hendorsed⟩
    · exact .inr ⟨sig, rfl, haccepted⟩

theorem Validated.supported (h : decision.Validated cfg.quorum accepted) :
    decision.Supported cfg accepted endorsed := by
  refine ⟨(verifiedSignatures decision.signatures).map Signature.signer,
    firstBy_nodup _ _ _, ?_, fun signer hsigner => ?_⟩
  · rw [List.length_map]
    exact h.quorum
  · obtain ⟨sig, hsig, rfl⟩ := List.mem_map.mp hsigner
    exact .inr ⟨sig, rfl, h.accepted sig hsig⟩

end Decision

structure View.Holds (p : Proposal → Prop) (v : View) : Prop where
  proposal : ∀ proposal ∈ v.inFlightProposal, p proposal
  deciding : ∀ decision requests, v.pc = .deciding decision requests → p decision.proposal

namespace View.Holds

variable {cfg : Config} {p q : Proposal → Prop} {verifier : Verifier}
  {checkpoint : Decision} {v v' : View} {event : ViewEvent} {outputs : List ViewOutput}

theorem mono (h : v.Holds p) (hsub : ∀ proposal, p proposal → q proposal) : v.Holds q :=
  ⟨fun proposal hproposal => hsub _ (h.proposal proposal hproposal),
    fun decision requests hpc => hsub _ (h.deciding decision requests hpc)⟩

theorem of_pc (h : v.Holds p) (pc : ViewPc)
    (hpc : ∀ decision requests, pc ≠ .deciding decision requests) :
    View.Holds p { v with pc := pc } :=
  ⟨h.proposal, fun decision requests hdeciding => absurd hdeciding (hpc decision requests)⟩

theorem move (h : v.Holds p) (hmove : InFlightMove v v') : v'.Holds p := by
  cases hmove with
  | stop => exact ⟨h.proposal, h.deciding⟩
  | decided => exact ⟨h.proposal, by simp [View.decided]⟩
  | synced => exact h.of_pc _ (by simp)

theorem step (h : v.Holds p)
    (htransition : View.Transition cfg verifier checkpoint v event v' outputs)
    (hsave : ∀ m, .save m ∉ outputs) : v'.Holds p := by
  cases htransition with
  | queued => exact ⟨h.proposal, h.deciding⟩
  | @received _ sender m rest hpc hqueue =>
    have hsame := View.processMsg_sameProgress cfg { v with incMsgs := rest } sender m
    constructor
    · rw [hsame.inFlightProposal]
      exact h.proposal
    · rw [hsame.pc]
      exact h.deciding
  | nothingToSend => exact h
  | beginProposal => exact ⟨by simp [View.beginProposal], by simp [View.beginProposal]⟩
  | panicked => exact ⟨h.proposal, h.deciding⟩
  | rejected => exact ⟨h.proposal, by simp [View.rejectProposal]⟩
  | accepted => exact absurd List.mem_cons_self (hsave _)
  | otherPrepare => exact ⟨h.proposal, h.deciding⟩
  | otherCommit => exact ⟨h.proposal, h.deciding⟩
  | prepared => exact absurd List.mem_cons_self (hsave _)
  | @decided signatures proposal mine hpc hproposal =>
    refine ⟨h.proposal, fun decision requests hdeciding => ?_⟩
    simp only [View.decide, ViewPc.deciding.injEq] at hdeciding
    obtain ⟨rfl, -⟩ := hdeciding
    exact h.proposal proposal hproposal
  | _ => exact ⟨h.proposal, by simp⟩

theorem awaitSync (h : v.Holds p) (outputs : List ViewOutput) :
    (Node.awaitSync v outputs).Holds p := by
  rcases View.awaitSync_cases v outputs with hsame | ⟨loop, -, -, hawait⟩
  · rw [hsame]
    exact h
  · rw [hawait]
    exact h.of_pc _ (by simp)

theorem newInFlightView {proposal : Proposal} (h : p proposal) (md : ViewMetadata) :
    (Node.newInFlightView cfg proposal md).Holds p := by
  refine ⟨fun other hother => ?_, by simp [Node.newInFlightView]⟩
  obtain rfl := Option.some.inj hother
  exact h

end View.Holds

structure EndorsedView (cfg : Config) (endorsed : String → Prop) (v : View) : Prop where
  holds : v.Holds fun proposal => endorsed (cfg.digest proposal)
  stored : ∀ commit, v.Stores (.commit commit) → endorsed commit.digest

namespace EndorsedView

variable {cfg : Config} {endorsed endorsed' : String → Prop} {verifier : Verifier}
  {checkpoint : Decision} {v v' : View} {event : ViewEvent} {outputs : List ViewOutput}

theorem mono (h : EndorsedView cfg endorsed v)
    (hsub : ∀ digest, endorsed digest → endorsed' digest) : EndorsedView cfg endorsed' v :=
  ⟨h.holds.mono fun _ => hsub _, fun commit hstored => hsub _ (h.stored commit hstored)⟩

theorem move (h : EndorsedView cfg endorsed v) (hmove : InFlightMove v v') :
    EndorsedView cfg endorsed v' := by
  refine ⟨h.holds.move hmove, ?_⟩
  cases hmove <;> exact h.stored

theorem step (h : EndorsedView cfg endorsed v)
    (htransition : View.Transition cfg verifier checkpoint v event v' outputs)
    (hsave : ∀ m, .save m ∉ outputs) : EndorsedView cfg endorsed v' :=
  ⟨h.holds.step htransition hsave,
    fun commit hm => h.stored commit (htransition.stores hsave hm)⟩

theorem awaitSync (h : EndorsedView cfg endorsed v) (outputs : List ViewOutput) :
    EndorsedView cfg endorsed (Node.awaitSync v outputs) := by
  refine ⟨h.holds.awaitSync outputs, ?_⟩
  rcases View.awaitSync_cases v outputs with hsame | ⟨loop, -, -, hawait⟩
  · rw [hsame]
    exact h.stored
  · rw [hawait]
    exact h.stored

theorem newInFlightView {proposal : Proposal} (h : endorsed (cfg.digest proposal))
    (md : ViewMetadata) : EndorsedView cfg endorsed (Node.newInFlightView cfg proposal md) := by
  refine ⟨.newInFlightView h md, fun commit hstored => ?_⟩
  simp only [View.Stores, Node.newInFlightView, Option.some.injEq, Message.commit.injEq,
    reduceCtorEq, or_false] at hstored
  subst hstored
  exact h

end EndorsedView

theorem LogInvariant.commit_of_prepared {cfg : Config} {nd : Node} (h : LogInvariant cfg nd)
    (hlive : nd.panicked = none) (hphase : nd.currView.phase = .prepared)
    (hpc : nd.currView.pc.inDecide = false) {proposal : Proposal}
    (hproposal : nd.currView.inFlightProposal = some proposal) :
    ∃ commit, .commit commit ∈ nd.persisted.wal ∧ commit.digest = cfg.digest proposal := by
  obtain ⟨pp, prepare, commit, hhead, hcommit, hcarries, -⟩ := (h.view hlive).prepared hphase hpc
  have hshape := h.shape
  generalize nd.persisted = persisted at hshape hhead hcommit ⊢
  cases hshape with
  | empty hwal =>
    have hfirst := hwal _ (List.mem_of_head? hhead)
    simp [SavedMessage.ofViewChange] at hfirst
  | proposed _ hrest =>
    have hcommit := hrest (.commit commit) ((List.mem_cons.mp hcommit).resolve_left (by simp))
    simp [SavedMessage.ofViewChange] at hcommit
  | @prepared _ other _ _ saved _ _ hrecord hdigest =>
    simp only [List.head?_cons, Option.some.injEq, SavedMessage.proposedRecord.injEq] at hhead
    obtain ⟨rfl, -⟩ := hhead
    have hsame : other = proposal :=
      Option.some.inj (hrecord.carries.symm.trans (hcarries.trans hproposal))
    exact ⟨saved, by simp, hsame ▸ hdigest⟩

structure EndorsementInvariant (cfg : Config) (locked : String → Prop) (nd : Node) : Prop where
  deciding : ∀ decision requests, nd.currView.pc = .deciding decision requests →
    nd.Endorses locked (cfg.digest decision.proposal)
  inFlight : ∀ v ∈ nd.inFlightView, EndorsedView cfg (nd.Endorses locked) v
  sent : ∀ commit, .broadcast .inFlightView (.commit commit) ∈ nd.trace →
    nd.Endorses locked commit.digest

namespace EndorsementInvariant

variable {cfg : Config} {locked : String → Prop} {verifier : Verifier} {nd nd' : Node}

theorem boot {entries : List SavedMessage} {checkpoint : Decision}
    (h : Node.boot cfg entries checkpoint = .ok nd) : EndorsementInvariant cfg locked nd := by
  obtain ⟨md, start, leader, v, inFlight, -, -, -, hrestored, rfl⟩ := Node.boot_ok h
  exact ⟨by simp [Node.started, hrestored.pc], by simp [Node.started], by simp [Node.started]⟩

theorem of_same (h : EndorsementInvariant cfg locked nd) (hsub : nd.trace ⊆ nd'.trace)
    (hview : ∀ decision requests, nd'.currView.pc = .deciding decision requests →
      nd.currView.pc = .deciding decision requests)
    (hinFlight : nd'.inFlightView = nd.inFlightView)
    (hsent : ∀ commit, .broadcast .inFlightView (.commit commit) ∈ nd'.trace →
      .broadcast .inFlightView (.commit commit) ∈ nd.trace) :
    EndorsementInvariant cfg locked nd' where
  deciding decision requests hpc := (h.deciding decision requests (hview _ _ hpc)).mono hsub
  inFlight v hv := (h.inFlight v (hinFlight ▸ hv)).mono fun _ hdigest => hdigest.mono hsub
  sent commit hmem := (h.sent commit (hsent commit hmem)).mono hsub

theorem setInFlight (h : EndorsementInvariant cfg locked nd) {view : View}
    (hview : EndorsedView cfg (nd.Endorses locked) view) :
    EndorsementInvariant cfg locked { nd with inFlightView := some view } := by
  refine ⟨h.deciding, fun v hv => ?_, h.sent⟩
  obtain rfl := Option.some.inj hv
  exact hview

theorem save (h : EndorsementInvariant cfg locked nd) (m : SavedMessage) :
    EndorsementInvariant cfg locked (nd.save m) := by
  have hsub := trace_subset_save nd m
  rcases Node.save_cases nd m with ⟨text, hcase⟩ | ⟨persisted, -, hcase⟩ <;>
    rw [hcase] at hsub ⊢
  · exact h.of_same hsub (fun _ _ hpc => hpc) rfl fun _ hmem => hmem
  · exact h.of_same hsub (fun _ _ hpc => hpc) rfl fun _ hmem => by simpa [Node.record] using hmem

theorem record (h : EndorsementInvariant cfg locked nd) {action : Action}
    (haction : ∀ commit, action = .broadcast .inFlightView (.commit commit) →
      nd.Endorses locked commit.digest) :
    EndorsementInvariant cfg locked (nd.record action) := by
  have hsub : nd.trace ⊆ (nd.record action).trace := List.subset_cons_self _ _
  refine ⟨fun decision requests hpc => (h.deciding decision requests hpc).mono hsub,
    fun v hv => (h.inFlight v hv).mono fun _ hdigest => hdigest.mono hsub, fun commit hmem => ?_⟩
  rcases List.mem_cons.mp hmem with hnew | hold
  · exact (haction commit hnew.symm).mono hsub
  · exact (h.sent commit hold).mono hsub

theorem quiet (h : EndorsementInvariant cfg locked nd) (hop : QuietOp nd nd') :
    EndorsementInvariant cfg locked nd' := by
  cases hop with
  | stopView => exact { h with }
  | viewDecided => exact ⟨by simp [View.decided], h.inFlight, h.sent⟩
  | moveInFlight hview hmove => exact h.setInFlight ((h.inFlight _ hview).move hmove)
  | record haction =>
    refine h.record ?_
    rintro commit rfl
    cases haction
  | saveViewChange => exact h.save _
  | saveNewView => exact h.save _
  | _ => exact { h with }

theorem quietEffect (h : EndorsementInvariant cfg locked nd) (heffect : QuietEffect nd nd') :
    EndorsementInvariant cfg locked nd' :=
  QuietEffect.keeps (fun hop hinv => quiet hinv hop) heffect h

theorem deliver (h : EndorsementInvariant cfg locked nd) (decision : Decision)
    (answer : DeliverAnswer) : EndorsementInvariant cfg locked (nd.deliver decision answer) := by
  rcases Node.deliver_cases nd decision answer with ⟨text, hcase⟩ | hcase | hcase <;> rw [hcase]
  · exact { h with }
  · exact { h with }
  · have hrecorded : EndorsementInvariant cfg locked (nd.record (.deliver decision)) :=
      h.record (by simp)
    exact { hrecorded with }

theorem applyOutputs (h : EndorsementInvariant cfg locked nd) (origin : Origin)
    {outputs : List ViewOutput}
    (hbroadcast : origin = .inFlightView → ∀ commit, .broadcast (.commit commit) ∈ outputs →
      nd.Endorses locked commit.digest) :
    EndorsementInvariant cfg locked (nd.applyOutputs cfg origin outputs) := by
  suffices hboth : EndorsementInvariant cfg locked (nd.applyOutputs cfg origin outputs) ∧
      nd.trace ⊆ (nd.applyOutputs cfg origin outputs).trace from hboth.1
  refine Node.applyOutputs_keeps (motive := fun mid => EndorsementInvariant cfg locked mid ∧
    nd.trace ⊆ mid.trace) cfg origin ?_ ?_ ?_ ?_ ⟨h, List.Subset.refl _⟩
  · rintro a b hop ⟨hinv, hsub⟩
    exact ⟨hinv.quiet hop, List.Subset.trans hsub hop.trace_subset⟩
  · rintro m hm mid ⟨hinv, hsub⟩
    refine ⟨hinv.record fun commit heq => ?_,
      List.Subset.trans hsub (List.subset_cons_self _ _)⟩
    simp only [Action.broadcast.injEq] at heq
    obtain ⟨horigin, rfl⟩ := heq
    exact (hbroadcast horigin commit hm).mono hsub
  · rintro target m _ mid ⟨hinv, hsub⟩
    exact ⟨hinv.record (by simp), List.Subset.trans hsub (List.subset_cons_self _ _)⟩
  · rintro m _ mid ⟨hinv, hsub⟩
    exact ⟨hinv.save m, List.Subset.trans hsub (trace_subset_save mid m)⟩

theorem viewStep (h : EndorsementInvariant cfg locked nd) (hlog : LogInvariant cfg nd)
    (hlogged : ∀ m ∈ nd.persisted.wal, .save m ∈ nd.trace) (hlive : nd.panicked = none)
    {event : ViewEvent} {view : View} {outputs : List ViewOutput}
    (htransition : View.Transition cfg verifier nd.checkpoint nd.currView event view outputs) :
    EndorsementInvariant cfg locked
      ({ nd with currView := view }.applyOutputs cfg (.view view.number) outputs) := by
  refine applyOutputs ?_ _ (by simp)
  refine ⟨fun decision requests hdeciding => ?_, h.inFlight, h.sent⟩
  have hbefore : nd.currView.pc = .deciding decision requests →
      nd.Endorses locked (cfg.digest decision.proposal) := h.deciding decision requests
  simp only at hdeciding
  cases htransition with
  | queued => exact hbefore hdeciding
  | received =>
    rw [(View.processMsg_sameProgress cfg _ _ _).pc] at hdeciding
    exact hbefore hdeciding
  | nothingToSend => exact hbefore hdeciding
  | beginProposal => simp [View.beginProposal] at hdeciding
  | panicked => exact hbefore hdeciding
  | rejected => simp [View.rejectProposal] at hdeciding
  | accepted => simp [View.acceptProposal] at hdeciding
  | otherPrepare => exact hbefore hdeciding
  | otherCommit => exact hbefore hdeciding
  | prepared => simp [View.finishPrepares] at hdeciding
  | @decided signatures proposal mine hpc hproposal =>
    simp only [View.decide, ViewPc.deciding.injEq] at hdeciding
    obtain ⟨rfl, -⟩ := hdeciding
    have hphase := (hlog.view hlive).loop .prepared (by simp [hpc, ViewPc.loopPhase])
    obtain ⟨commit, hcommit, hdigest⟩ := hlog.commit_of_prepared hlive hphase
      (by simp [hpc, ViewPc.inDecide]) hproposal
    exact .inl ⟨commit, hlogged _ hcommit, hdigest⟩
  | _ => simp at hdeciding

theorem inFlightViewStep (h : EndorsementInvariant cfg locked nd) (hlog : LogInvariant cfg nd)
    {event : ViewEvent} {view view' : View} {outputs : List ViewOutput}
    (hview : nd.inFlightView = some view)
    (htransition : View.Transition cfg verifier nd.checkpoint view event view' outputs) :
    EndorsementInvariant cfg locked
      ({ nd with inFlightView := some (Node.awaitSync view' outputs) }.applyOutputs cfg
        .inFlightView outputs) := by
  have hnone := (hlog.inFlight view hview).saves_nothing htransition
  have hendorsed := h.inFlight view hview
  refine (h.setInFlight ((hendorsed.step htransition hnone).awaitSync outputs)).applyOutputs _ ?_
  intro _ commit hcommit
  exact hendorsed.stored commit (htransition.broadcasts hnone hcommit)

theorem step (h : EndorsementInvariant cfg locked nd) (hlog : LogInvariant cfg nd)
    (hlogged : ∀ m ∈ nd.persisted.wal, .save m ∈ nd.trace) {input : NodeInput}
    (hcommits : ∀ signed proposal own, input.event = .viewChanger .commitInFlight →
      nd.viewChanger.pc = .commitInFlight signed (some proposal) own →
      ∀ md, Node.planInFlight nd.checkpoint proposal = .commit md →
        nd.Endorses locked (cfg.digest proposal))
    (hstep : nd.step cfg input = some nd') : EndorsementInvariant cfg locked nd' := by
  obtain ⟨hlive, -, htransition⟩ := Node.step_transition hstep
  cases htransition with
  | quiet _ heffect => exact h.quietEffect heffect
  | view htransition => exact h.viewStep hlog hlogged (by simpa using hlive) htransition
  | inFlightView hview htransition => exact h.inFlightViewStep hlog hview htransition
  | @inFlightDeliver view decision requests verifier answer vc hview hpc =>
    have hdelivered := h.deliver decision answer
    have hkept := ((h.inFlight view hview).move (.stop view)).mono fun digest hdigest =>
      hdigest.mono (Node.deliver_trace_subset nd decision answer)
    have hmoved := hdelivered.setInFlight
      ⟨hkept.holds.of_pc .delivering (by simp), hkept.stored⟩
    exact { hmoved with }
  | @decide decision requests verifier answer c hpc =>
    have hdelivered := h.deliver decision answer
    exact ⟨by simp, hdelivered.inFlight, hdelivered.sent⟩
  | proposed => exact { h with }
  | sync _ _ _ _ heffect =>
    refine quietEffect ?_ heffect
    exact { h with }
  | restarted _ _ heffect =>
    refine quietEffect ?_ heffect
    exact ⟨by simp [View.fresh], h.inFlight, h.sent⟩
  | viewData _ _ heffect => exact (h.record (by simp)).quietEffect heffect
  | delivered _ answer _ heffect => exact (h.deliver _ answer).quietEffect heffect
  | @startInFlight signed proposal own md verifier vc hpc hplan =>
    have hendorsed := hcommits signed proposal own rfl hpc md hplan
    have hstarted := h.setInFlight (.newInFlightView hendorsed md)
    exact { hstarted with }
  | crash _ hboot =>
    obtain ⟨md, start, leader, v, inFlight, -, -, -, hrestored, rfl⟩ := Node.boot_ok hboot
    exact ⟨by simp [Node.started, hrestored.pc], by simp [Node.started], h.sent⟩

theorem delivered {accepted : Signature → Proposal → Prop}
    (h : EndorsementInvariant cfg locked nd) (hsignatures : SignatureInvariant cfg accepted nd)
    {input : NodeInput} {decision : Decision} (hdelivers : Delivers nd input decision) :
    decision.Supported cfg accepted (nd.Endorses locked) := by
  cases hdelivers with
  | decided hview =>
    exact ((hsignatures.views _ (.inl rfl)).deciding _ _ hview).supported (h.deciding _ _ hview)
  | inFlight hview hpc =>
    exact ((hsignatures.views _ (.inr hview)).deciding _ _ hpc).supported
      ((h.inFlight _ hview).holds.deciding _ _ hpc)
  | viewChanger _ hpc => exact (hsignatures.pending _ _ hpc).supported

end EndorsementInvariant

end SmartBFT
