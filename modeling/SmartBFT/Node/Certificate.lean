import SmartBFT.Node.Install
import SmartBFT.Node.Views

/-!
# The certificate of a delivered decision

Four paths lead to `Application.Deliver`.  A view collects commits of distinct
nodes other than its own, checks each signature and adds its own; this serves
`Controller.decide` and `ViewChanger.Decide`.  `deliverDecision` passes on the
whole list of signatures of somebody's view data, while `ValidateLastDecision`
has looked at the first signature of each signer only: the list may hold more
entries, which nobody has checked (`delivered_without_certificate`).

If `deliverDecision` is called with distinct signers only, then every decision
that is ever delivered has a valid certificate (`delivered_certified`).
-/

namespace SmartBFT

open SmartBFT.Foundation

structure Decision.Certified (cfg : Config) (accepted : Signature → Proposal → Prop)
    (decision : Decision) : Prop where
  quorum : cfg.quorum ≤ decision.signatures.length
  distinct : (decision.signatures.map Signature.signer).Nodup
  accepted : ∀ sig ∈ decision.signatures,
    sig.signer = cfg.selfID ∨ accepted sig decision.proposal

theorem Decision.Validated.certified {cfg : Config}
    {accepted : Signature → Proposal → Prop} {decision : Decision}
    (h : decision.Validated cfg.quorum accepted)
    (hdistinct : (decision.signatures.map Signature.signer).Nodup) :
    decision.Certified cfg accepted := by
  have hall : verifiedSignatures decision.signatures = decision.signatures :=
    firstBy_eq_self hdistinct (by simp)
  obtain ⟨-, hquorum, haccepted⟩ := h
  rw [hall] at hquorum haccepted
  exact ⟨hquorum, hdistinct, fun sig hsig => .inr (haccepted sig hsig)⟩

/-! ## The votes of a view -/

structure CommitVotes (cfg : Config) (vs : VoteSet Commit) : Prop where
  wellFormed : vs.WellFormed
  signed : ∀ vote ∈ vs.votes, vote.1 ≠ cfg.selfID ∧
    ∃ sig, vote.2.signature = some sig ∧ sig.signer = vote.1

namespace CommitVotes

variable {cfg : Config} {vs : VoteSet Commit}

theorem empty (cfg : Config) : CommitVotes cfg {} := ⟨VoteSet.wellFormed_empty, by simp⟩

theorem register (h : CommitVotes cfg vs) {sender : Nat} (hsender : sender ≠ cfg.selfID)
    (commit : Commit) : CommitVotes cfg (vs.registerVote acceptCommits sender commit) := by
  refine ⟨h.wellFormed.registerVote acceptCommits sender commit, fun vote hvote => ?_⟩
  rcases VoteSet.mem_votes_registerVote hvote with hold | ⟨rfl, hvalid, -⟩
  · exact h.signed vote hold
  · refine ⟨hsender, ?_⟩
    unfold acceptCommits at hvalid
    split at hvalid
    · simp at hvalid
    · rename_i sig hsig
      exact ⟨sig, hsig, by simpa using hvalid⟩

theorem erase (h : CommitVotes cfg vs) (i : Nat) :
    CommitVotes cfg { vs with votes := vs.votes.eraseIdx i } :=
  ⟨h.wellFormed.erase i,
    fun vote hvote => h.signed vote ((List.eraseIdx_sublist vs.votes i).subset hvote)⟩

end CommitVotes

structure Collected (cfg : Config) (accepted : Signature → Proposal → Prop)
    (commits : VoteSet Commit) (inFlightProposal : Option Proposal)
    (signatures : List Signature) : Prop where
  distinct : (signatures.map Signature.signer).Nodup
  taken : ∀ sig ∈ signatures, sig.signer ≠ cfg.selfID ∧ sig.signer ∈ commits.voted ∧
    ∀ vote ∈ commits.votes, vote.1 ≠ sig.signer
  accepted : ∀ sig ∈ signatures, ∀ proposal ∈ inFlightProposal, accepted sig proposal

namespace Collected

variable {cfg : Config} {accepted : Signature → Proposal → Prop} {vs : VoteSet Commit}
  {inFlightProposal : Option Proposal} {signatures : List Signature}

theorem signers (h : Collected cfg accepted vs inFlightProposal signatures) :
    vs.Taken (signatures.map Signature.signer) := by
  refine ⟨h.distinct, ?_, ?_⟩ <;> intro signer hsigner <;>
    obtain ⟨sig, hsig, rfl⟩ := List.mem_map.mp hsigner
  · exact (h.taken sig hsig).2.1
  · exact (h.taken sig hsig).2.2

theorem others (h : Collected cfg accepted vs inFlightProposal signatures) :
    ∀ sig ∈ signatures, sig.signer ≠ cfg.selfID := fun sig hsig => (h.taken sig hsig).1

theorem of_signers (h : vs.Taken (signatures.map Signature.signer))
    (hothers : ∀ sig ∈ signatures, sig.signer ≠ cfg.selfID)
    (haccepted : ∀ sig ∈ signatures, ∀ proposal ∈ inFlightProposal, accepted sig proposal) :
    Collected cfg accepted vs inFlightProposal signatures :=
  ⟨h.nodup, fun sig hsig => ⟨hothers sig hsig, h.marked _ (List.mem_map_of_mem hsig),
    h.gone _ (List.mem_map_of_mem hsig)⟩, haccepted⟩

end Collected

def ViewPc.collecting : ViewPc → Bool
  | .select (.processCommits _) => true
  | .syncing (.processCommits _) => true
  | .deciding _ _ => true
  | _ => false

structure ViewCertified (cfg : Config) (accepted : Signature → Proposal → Prop)
    (v : View) : Prop where
  commits : CommitVotes cfg v.commits
  nextCommits : CommitVotes cfg v.nextCommits
  mine : ∀ sig ∈ v.myProposalSig, sig.signer = cfg.selfID
  collected : ∀ signatures, v.pc = .select (.processCommits signatures) ∨
    v.pc = .syncing (.processCommits signatures) →
      Collected cfg accepted v.commits v.inFlightProposal signatures
  deciding : ∀ decision requests, v.pc = .deciding decision requests →
    decision.Certified cfg accepted

namespace View

variable {cfg : Config} {accepted : Signature → Proposal → Prop} {verifier : Verifier}
  {checkpoint : Decision} {v v' : View} {event : ViewEvent} {outputs : List ViewOutput}

def RegisteredCommit (cfg : Config) (sender : Nat) (vs vs' : VoteSet Commit) : Prop :=
  vs' = vs ∨ ∃ commit, sender ≠ cfg.selfID ∧
    vs' = vs.registerVote acceptCommits sender commit

theorem processMsg_commits (cfg : Config) (v : View) (sender : Nat) (m : Message) :
    RegisteredCommit cfg sender v.commits (v.processMsg cfg sender m).1.commits ∧
      RegisteredCommit cfg sender v.nextCommits
        (v.processMsg cfg sender m).1.nextCommits := by
  have h := processMsg_processes cfg v sender m
  generalize v.processMsg cfg sender m = result at h ⊢
  cases h with
  | @commit commit hother => exact ⟨.inr ⟨commit, hother, rfl⟩, .inl rfl⟩
  | @nextCommit commit hother => exact ⟨.inl rfl, .inr ⟨commit, hother, rfl⟩⟩
  | _ => exact ⟨.inl rfl, .inl rfl⟩

theorem RegisteredCommit.commitVotes {sender : Nat} {vs vs' : VoteSet Commit}
    (h : RegisteredCommit cfg sender vs vs') (hvotes : CommitVotes cfg vs) :
    CommitVotes cfg vs' := by
  rcases h with rfl | ⟨commit, hother, rfl⟩
  · exact hvotes
  · exact hvotes.register hother commit

theorem RegisteredCommit.collected {sender : Nat} {vs vs' : VoteSet Commit}
    {inFlightProposal : Option Proposal} {signatures : List Signature}
    (h : RegisteredCommit cfg sender vs vs')
    (hcollected : Collected cfg accepted vs inFlightProposal signatures) :
    Collected cfg accepted vs' inFlightProposal signatures := by
  rcases h with rfl | ⟨commit, -, rfl⟩
  · exact hcollected
  · exact .of_signers (hcollected.signers.registerVote acceptCommits sender commit)
      hcollected.others hcollected.accepted

end View

namespace Collected

variable {cfg : Config} {accepted : Signature → Proposal → Prop} {vs : VoteSet Commit}
  {inFlightProposal : Option Proposal} {signatures : List Signature}

theorem erase (h : Collected cfg accepted vs inFlightProposal signatures) (i : Nat) :
    Collected cfg accepted { vs with votes := vs.votes.eraseIdx i } inFlightProposal
      signatures :=
  .of_signers (h.signers.erase i) h.others h.accepted

theorem append {i sender : Nat} {commit : Commit} {signature : Signature}
    {proposal : Proposal} (hvotes : CommitVotes cfg vs)
    (h : Collected cfg accepted vs (some proposal) signatures)
    (hvote : vs.votes[i]? = some (sender, commit))
    (hsignature : commit.signature = some signature)
    (haccepted : accepted signature proposal) :
    Collected cfg accepted { vs with votes := vs.votes.eraseIdx i } (some proposal)
      (signatures ++ [signature]) := by
  obtain ⟨hother, sig, hsig, hsigner⟩ := hvotes.signed _ (List.mem_of_getElem? hvote)
  obtain rfl : signature = sig := by simpa [hsignature] using hsig
  simp only at hsigner hother
  have htaken := h.signers.append hvotes.wellFormed hvote
  refine .of_signers (by rw [List.map_append, List.map_singleton, hsigner]; exact htaken) ?_ ?_
  · intro other hmember
    rcases List.mem_append.mp hmember with hearlier | hlast
    · exact h.others other hearlier
    · obtain rfl : other = signature := by simpa using hlast
      exact hsigner ▸ hother
  · intro other hmember p hp
    rcases List.mem_append.mp hmember with hearlier | hlast
    · exact h.accepted other hearlier p hp
    · obtain rfl : other = signature := by simpa using hlast
      obtain rfl : proposal = p := by simpa using hp
      exact haccepted

theorem certified {proposal : Proposal} {mine : Signature}
    (h : Collected cfg accepted vs (some proposal) signatures)
    (hmine : mine.signer = cfg.selfID) (henough : cfg.quorum - 1 ≤ signatures.length) :
    Decision.Certified cfg accepted ⟨proposal, signatures ++ [mine]⟩ := by
  refine ⟨?_, ?_, ?_⟩
  · simp only [List.length_append, List.length_singleton]
    omega
  · rw [List.map_append, List.map_singleton]
    refine List.nodup_append.mpr ⟨h.distinct, by simp, ?_⟩
    intro a ha b hb
    obtain ⟨sig, hsig, rfl⟩ := List.mem_map.mp ha
    obtain rfl : b = mine.signer := by simpa using hb
    rw [hmine]
    exact (h.taken sig hsig).1
  · intro sig hsig
    rcases List.mem_append.mp hsig with hother | hlast
    · exact .inr (h.accepted sig hother proposal rfl)
    · obtain rfl : sig = mine := by simpa using hlast
      exact .inl hmine

end Collected

namespace ViewCertified

variable {cfg : Config} {accepted : Signature → Proposal → Prop} {verifier : Verifier}
  {checkpoint : Decision} {v v' : View} {event : ViewEvent} {outputs : List ViewOutput}

theorem of_idle (hcommits : CommitVotes cfg v.commits)
    (hnext : CommitVotes cfg v.nextCommits)
    (hmine : ∀ sig ∈ v.myProposalSig, sig.signer = cfg.selfID)
    (hpc : v.pc.collecting = false) : ViewCertified cfg accepted v where
  commits := hcommits
  nextCommits := hnext
  mine := hmine
  collected signatures h := by
    rcases h with h | h <;> simp [h, ViewPc.collecting] at hpc
  deciding decision requests h := by simp [h, ViewPc.collecting] at hpc

theorem step (h : ViewCertified cfg accepted v)
    (hsigner : ∀ proposal aux, (cfg.signProposal proposal aux).signer = cfg.selfID)
    (haccepted : ∀ sig p, verifier.accepts sig p = true → accepted sig p)
    (htransition : View.Transition cfg verifier checkpoint v event v' outputs) :
    ViewCertified cfg accepted v' := by
  cases htransition with
  | queued => exact { h with }
  | @received _ sender m rest hpc hqueue =>
    have hsame := View.processMsg_sameProgress cfg { v with incMsgs := rest } sender m
    obtain ⟨hcommits, hnext⟩ :=
      View.processMsg_commits cfg { v with incMsgs := rest } sender m
    refine ⟨hcommits.commitVotes h.commits, hnext.commitVotes h.nextCommits, ?_, ?_, ?_⟩
    · rw [hsame.myProposalSig]
      exact h.mine
    · rw [hsame.pc, hsame.inFlightProposal]
      exact fun signatures hloop => hcommits.collected (h.collected signatures hloop)
    · rw [hsame.pc]
      exact h.deciding
  | sendCommit =>
    refine ⟨h.commits, h.nextCommits, h.mine, fun signatures hloop => ?_, by simp⟩
    obtain rfl : signatures = [] := by simpa [eq_comm] using hloop
    exact ⟨by simp, by simp, by simp⟩
  | nothingToSend => exact h
  | panicked hpc =>
    exact .of_idle h.commits h.nextCommits h.mine (by simp [hpc, ViewPc.collecting])
  | otherPrepare => exact { h with }
  | otherCommit i hpc =>
    exact ⟨h.commits.erase i, h.nextCommits, h.mine,
      fun signatures hloop => (h.collected signatures hloop).erase i, h.deciding⟩
  | @countedCommit collected i sender commit signature proposal hpc hproposal hvote _ _
      hsignature haccepts =>
      refine ⟨h.commits.erase i, h.nextCommits, h.mine, fun signatures hloop => ?_, by simp⟩
      obtain rfl : signatures = collected ++ [signature] := by simpa [eq_comm] using hloop
      have hsofar := h.collected collected (.inl hpc)
      rw [hproposal] at hsofar
      simp only [hproposal]
      exact hsofar.append h.commits hvote hsignature (haccepted _ _ haccepts)
  | prepared hpc hproposal =>
    refine .of_idle h.commits h.nextCommits ?_ rfl
    intro sig hsig
    simp only [View.finishPrepares, Option.mem_def, Option.some.injEq] at hsig
    exact hsig ▸ hsigner _ _
  | @decided collected proposal mine hpc hproposal hmine henough =>
    refine ⟨h.nextCommits, CommitVotes.empty cfg, h.mine, by simp [View.decide], ?_⟩
    intro decision requests hdeciding
    simp only [View.decide, ViewPc.deciding.injEq] at hdeciding
    obtain ⟨rfl, -⟩ := hdeciding
    have hsofar := h.collected collected (.inl hpc)
    rw [hproposal] at hsofar
    exact hsofar.certified (h.mine mine hmine) henough
  | _ => exact .of_idle h.commits h.nextCommits h.mine rfl

theorem catchUp (h : ViewCertified cfg accepted v)
    (proposalSequence viewNum decisionsInView : Nat) :
    ViewCertified cfg accepted (v.catchUp proposalSequence viewNum decisionsInView) := by
  obtain ⟨_, _, _, hcaught⟩ := v.catchUp_eq proposalSequence viewNum decisionsInView
  rw [hcaught]
  exact { h with }

theorem rule (hsigner : ∀ proposal aux, (cfg.signProposal proposal aux).signer = cfg.selfID)
    (haccepted : ∀ sig p, verifier.accepts sig p = true → accepted sig p) :
    ViewRule cfg verifier (ViewCertified cfg accepted) where
  move hmove h := by
    cases hmove with
    | step htransition => exact h.step hsigner haccepted htransition
    | queued => exact { h with }
    | stop => exact { h with }
    | taken => exact .of_idle h.commits h.nextCommits h.mine rfl
    | decided => exact .of_idle h.commits h.nextCommits h.mine rfl
    | awaits hpc =>
      refine ⟨h.commits, h.nextCommits, h.mine, fun signatures hloop => ?_, by simp⟩
      refine h.collected signatures (.inl ?_)
      simpa [hpc] using hloop
    | synced hpc =>
      refine ⟨h.commits, h.nextCommits, h.mine, fun signatures hloop => ?_, by simp⟩
      refine h.collected signatures (.inr ?_)
      simpa [hpc] using hloop
  fresh _ _ _ _ := .of_idle (.empty cfg) (.empty cfg) (by simp [View.fresh]) rfl
  inFlight proposal md := by
    refine .of_idle (.empty cfg) (.empty cfg) ?_ rfl
    intro sig hsig
    simp only [Node.newInFlightView, Option.mem_def, Option.some.injEq] at hsig
    exact hsig ▸ hsigner _ _

end ViewCertified

theorem View.Transition.saved_commit {cfg : Config} {verifier : Verifier}
    {checkpoint : Decision} {v v' : View} {event : ViewEvent} {outputs : List ViewOutput}
    (h : Transition cfg verifier checkpoint v event v' outputs)
    (hsigner : ∀ proposal aux, (cfg.signProposal proposal aux).signer = cfg.selfID)
    {commit : Commit} (hsaved : .save (.commit commit) ∈ outputs) :
    ∀ sig ∈ commit.signature, sig.signer = cfg.selfID := by
  cases h with
  | received => exact nomatch processMsg_reaction cfg _ _ _ _ hsaved
  | accepted =>
    simp only [acceptProposal] at hsaved
    split at hsaved <;> simp at hsaved
  | prepared =>
    simp only [finishPrepares, List.mem_singleton, ViewOutput.save.injEq,
      SavedMessage.commit.injEq] at hsaved
    subst hsaved
    intro sig hsig
    simp only [Option.mem_def, Option.some.injEq] at hsig
    exact hsig ▸ hsigner _ _
  | _ => simp [rejectProposal, View.decide] at hsaved

/-- `deliverDecision` is called with signatures of distinct signers. -/
def deliversDistinct (nd : Node) (input : NodeInput) : Bool :=
  match input.event, nd.viewChanger.pc with
  | .viewChanger (.deliver _), .deliver decision _ =>
    decide (decision.signatures.map Signature.signer).Nodup
  | _, _ => true

/-! ### The log -/

section Log

variable {cfg : Config} {nd nd' : Node}

def OwnCommits (cfg : Config) (nd : Node) : Prop :=
  ∀ commit, .commit commit ∈ nd.persisted.wal → ∀ sig ∈ commit.signature, sig.signer = cfg.selfID

theorem OwnCommits.save (h : OwnCommits cfg nd) {m : SavedMessage}
    (hm : ∀ commit, m = .commit commit → ∀ sig ∈ commit.signature, sig.signer = cfg.selfID) :
    OwnCommits cfg (nd.save m) := by
  rcases Node.save_cases nd m with ⟨text, hcase⟩ | ⟨persisted, hsaved, hcase⟩ <;> rw [hcase]
  · exact h
  · intro commit hmem
    rcases PersistedState.mem_wal_save hsaved hmem with hold | hnew
    · exact h commit hold
    · exact hm commit hnew.symm

theorem OwnCommits.quietOp (hop : QuietOp nd nd') (h : OwnCommits cfg nd) :
    OwnCommits cfg nd' := by
  cases hop with
  | saveViewChange => exact h.save (by simp)
  | saveNewView => exact h.save (by simp)
  | _ => exact h

theorem OwnCommits.deliver (h : OwnCommits cfg nd) (decision : Decision)
    (answer : DeliverAnswer) : OwnCommits cfg (nd.deliver decision answer) := by
  rcases Node.deliver_cases nd decision answer with ⟨text, hcase⟩ | hcase | hcase <;>
    rw [hcase] <;> exact h

theorem OwnCommits.applyOutputs (h : OwnCommits cfg nd) (origin : Origin)
    {outputs : List ViewOutput}
    (hcommits : ∀ commit, .save (.commit commit) ∈ outputs →
      ∀ sig ∈ commit.signature, sig.signer = cfg.selfID) :
    OwnCommits cfg (nd.applyOutputs cfg origin outputs) :=
  Node.applyOutputs_keeps cfg origin OwnCommits.quietOp (fun _ _ _ hmid => hmid)
    (fun _ _ _ _ hmid => hmid)
    (fun _ hm _ hmid => OwnCommits.save hmid fun commit heq => hcommits commit (heq ▸ hm)) h

theorem OwnCommits.transition
    (hsigner : ∀ proposal aux, (cfg.signProposal proposal aux).signer = cfg.selfID)
    {input : NodeInput} (htransition : NodeTransition cfg nd input nd')
    (h : OwnCommits cfg nd) : OwnCommits cfg nd' := by
  have hquiet : ∀ {a b : Node}, QuietEffect a b → OwnCommits cfg a → OwnCommits cfg b :=
    fun heffect => heffect.keeps OwnCommits.quietOp
  cases htransition with
  | quiet _ heffect => exact hquiet heffect h
  | view hview =>
    refine OwnCommits.applyOutputs ?_ _ fun commit hsaved => hview.saved_commit hsigner hsaved
    exact h
  | inFlightView _ hview =>
    refine OwnCommits.applyOutputs ?_ _ fun commit hsaved => hview.saved_commit hsigner hsaved
    exact h
  | inFlightDeliver _ answer => exact h.deliver _ answer
  | decide _ answer => exact h.deliver _ answer
  | sync _ _ _ _ heffect => exact hquiet heffect h
  | restarted _ _ heffect => exact hquiet heffect h
  | viewData _ _ heffect => exact hquiet heffect h
  | delivered _ answer _ heffect => exact hquiet heffect (h.deliver _ answer)
  | crash _ hboot =>
    obtain ⟨_, _, _, _, _, -, -, -, -, rfl⟩ := Node.boot_ok hboot
    exact h
  | _ => exact h

end Log

/-! ### What is about to be delivered -/

section Pending

variable {cfg : Config} {accepted : Signature → Proposal → Prop} {verifier : Verifier}
  {nd nd' : Node}

def PendingValidated (cfg : Config) (accepted : Signature → Proposal → Prop) (nd : Node) :
    Prop :=
  ∀ decision purpose, nd.viewChanger.pc = .deliver decision purpose →
    decision.Validated cfg.quorum accepted

theorem PendingValidated.of_pc (h : PendingValidated cfg accepted nd)
    (hpc : nd'.viewChanger.pc = nd.viewChanger.pc) : PendingValidated cfg accepted nd' :=
  fun decision purpose hdeliver => h decision purpose (hpc ▸ hdeliver)

theorem PendingValidated.viewChangerOp {settled voting : Bool}
    (haccepted : ∀ sig p, verifier.accepts sig p = true → accepted sig p)
    (hop : ViewChangerOp cfg verifier settled voting nd nd')
    (h : PendingValidated cfg accepted nd) : PendingValidated cfg accepted nd' := by
  cases hop with
  | own vc hpc =>
    intro decision purpose hdeliver
    simp only at hdeliver
    rcases hpc with hplain | hsame
    · simp [hdeliver, ViewChangerPc.plain] at hplain
    · exact h decision purpose (hsame ▸ hdeliver)
  | saveViewChange => exact h.of_pc (Node.save_keepsViews nd _).pc
  | saveNewView => exact h.of_pc (Node.save_keepsViews nd _).pc
  | askAbort => simp [PendingValidated, Node.askAbortView, Node.setViewChanger]
  | enter =>
    simp [PendingValidated, Node.enterNextView, Node.beginViewData, Node.setViewChanger]
  | install => simp [PendingValidated]
  | @beginDeliver decision hvalid _ _ purpose =>
    intro other purpose' hdeliver
    simp only [Node.setViewChanger, ViewChangerPc.deliver.injEq] at hdeliver
    exact hdeliver.1 ▸ hvalid.mono haccepted
  | _ => exact h

theorem PendingValidated.viewChangerEffect {settled voting : Bool}
    (haccepted : ∀ sig p, verifier.accepts sig p = true → accepted sig p)
    (heffect : ViewChangerEffect cfg verifier settled voting nd nd')
    (h : PendingValidated cfg accepted nd) : PendingValidated cfg accepted nd' := by
  induction heffect with
  | refl => exact h
  | tail _ hop ih => exact ih.viewChangerOp haccepted hop

theorem PendingValidated.viewChangerStep
    (haccepted : ∀ sig p, verifier.accepts sig p = true → accepted sig p)
    {event : ViewChangerEvent} (hstep : nd.viewChangerStep cfg verifier event = some nd')
    (h : PendingValidated cfg accepted nd) : PendingValidated cfg accepted nd' := by
  cases Node.viewChangerStep_transition hstep with
  | effect _ heffect => exact h.viewChangerEffect haccepted heffect
  | newView hsettled own => exact h.viewChangerEffect haccepted (hsettled.effect own)
  | viewData _ heffect => exact (h.of_pc rfl).viewChangerEffect haccepted heffect
  | delivered answer _ heffect =>
    exact (h.of_pc (Node.deliver_keepsViews nd _ answer).pc).viewChangerEffect haccepted heffect
  | _ => simp [PendingValidated, Node.setViewChanger, Node.leaveInFlight]

end Pending

structure SignatureInvariant (cfg : Config) (accepted : Signature → Proposal → Prop)
    (nd : Node) : Prop where
  views : ViewRule.Holds (ViewCertified cfg accepted) nd
  log : OwnCommits cfg nd
  pending : PendingValidated cfg accepted nd

namespace SignatureInvariant

variable {cfg : Config} {accepted : Signature → Proposal → Prop} {nd nd' : Node}

theorem boot {entries : List SavedMessage} {checkpoint : Decision}
    (hlog : ∀ commit, .commit commit ∈ entries →
      ∀ sig ∈ commit.signature, sig.signer = cfg.selfID)
    (h : Node.boot cfg entries checkpoint = .ok nd) :
    SignatureInvariant cfg accepted nd := by
  obtain ⟨md, start, leader, v, inFlight, -, -, -, hrestored, rfl⟩ := Node.boot_ok h
  refine ⟨?_, hlog, by simp [PendingValidated, Node.started]⟩
  have hview : ViewCertified cfg accepted v := by
    cases hrestored with
    | nothing => exact .of_idle (.empty cfg) (.empty cfg) (by simp [View.fresh]) rfl
    | proposed =>
      exact .of_idle (.empty cfg) (.empty cfg) (by simp [View.fresh, View.resume]) rfl
    | @prepared _ _ _ _ commit signature hlast _ _ _ _ hsignature =>
      refine .of_idle (.empty cfg) (.empty cfg) (fun sig hsig => ?_) rfl
      simp only [View.resume, Option.mem_def, Option.some.injEq] at hsig
      exact hlog commit (List.mem_of_getLast? hlast) sig (hsig ▸ hsignature)
  rintro w (rfl | hw)
  · exact hview.catchUp _ _ _
  · simp [Node.started] at hw

theorem step (h : SignatureInvariant cfg accepted nd)
    (hsigner : ∀ proposal aux, (cfg.signProposal proposal aux).signer = cfg.selfID)
    {input : NodeInput}
    (haccepted : ∀ sig p, input.verifier.accepts sig p = true → accepted sig p)
    (hstep : nd.step cfg input = some nd') : SignatureInvariant cfg accepted nd' := by
  obtain ⟨-, -, htransition⟩ := Node.step_transition hstep
  refine ⟨(ViewCertified.rule hsigner haccepted).transition
    (fun _ hboot => (boot h.log hboot).views) htransition h.views,
    OwnCommits.transition hsigner htransition h.log, ?_⟩
  rcases Node.step_pc hstep with hkept | hstarted | ⟨event, -, hown⟩
  · exact PendingValidated.of_pc h.pending hkept
  · simp [PendingValidated, hstarted]
  · exact PendingValidated.viewChangerStep haccepted hown h.pending

end SignatureInvariant

structure CertificateInvariant (cfg : Config) (accepted : Signature → Proposal → Prop)
    (nd : Node) : Prop extends SignatureInvariant cfg accepted nd where
  delivered : ∀ decision, .deliver decision ∈ nd.trace → decision.Certified cfg accepted

namespace CertificateInvariant

variable {cfg : Config} {accepted : Signature → Proposal → Prop} {nd nd' : Node}

theorem boot {entries : List SavedMessage} {checkpoint : Decision}
    (hlog : ∀ commit, .commit commit ∈ entries →
      ∀ sig ∈ commit.signature, sig.signer = cfg.selfID)
    (h : Node.boot cfg entries checkpoint = .ok nd) :
    CertificateInvariant cfg accepted nd := by
  have hsignatures : SignatureInvariant cfg accepted nd := .boot hlog h
  obtain ⟨_, _, _, _, _, -, -, -, -, rfl⟩ := Node.boot_ok h
  exact ⟨hsignatures, by simp [Node.started]⟩

theorem step (h : CertificateInvariant cfg accepted nd)
    (hsigner : ∀ proposal aux, (cfg.signProposal proposal aux).signer = cfg.selfID)
    {input : NodeInput}
    (haccepted : ∀ sig p, input.verifier.accepts sig p = true → accepted sig p)
    (hmeets : deliversDistinct nd input = true) (hstep : nd.step cfg input = some nd') :
    CertificateInvariant cfg accepted nd' := by
  refine ⟨h.toSignatureInvariant.step hsigner haccepted hstep, fun decision hmem => ?_⟩
  obtain ⟨-, -, htransition⟩ := Node.step_transition hstep
  rcases htransition.delivers hmem with hold | hnew
  · exact h.delivered decision hold
  · cases hnew with
    | decided hview => exact (h.views _ (.inl rfl)).deciding decision _ hview
    | inFlight hview hpc => exact (h.views _ (.inr hview)).deciding decision _ hpc
    | viewChanger hevent hpc =>
      refine (h.pending decision _ hpc).certified ?_
      simpa [deliversDistinct, hevent, hpc] using hmeets

end CertificateInvariant

/--
A run of a node that starts with an empty log, in which `deliverDecision` is only
called with signatures of distinct signers: every decision that reaches the
application carries at least a quorum of signatures of distinct signers, each of
which is the node's own or was accepted for exactly this proposal.
-/
theorem delivered_certified {cfg : Config} {checkpoint : Decision} {start nd : Node}
    {inputs : List NodeInput}
    (hsigner : ∀ proposal aux, (cfg.signProposal proposal aux).signer = cfg.selfID)
    (hboot : Node.boot cfg [] checkpoint = .ok start)
    (hmeets : StepsMeet (Node.step cfg) (fun nd input => deliversDistinct nd input = true)
      start inputs)
    (hrun : run (Node.step cfg) start inputs = some nd) :
    ∀ decision, .deliver decision ∈ nd.trace →
      cfg.quorum ≤ decision.signatures.length ∧
      (decision.signatures.map Signature.signer).Nodup ∧
      ∀ sig ∈ decision.signatures, sig.signer = cfg.selfID ∨
        ∃ input ∈ inputs, input.verifier.accepts sig decision.proposal = true := by
  let accepted (sig : Signature) (p : Proposal) : Prop :=
    ∃ input ∈ inputs, input.verifier.accepts sig p = true
  have hinv : CertificateInvariant cfg accepted nd := by
    refine run_invariant_of_steps_meet (fun mid input mid' hmid hstep => ?_)
      (CertificateInvariant.boot (by simp) hboot) (hmeets.and_mem (List.Subset.refl _)) hrun
    exact hmid.step hsigner (fun sig p haccepts => ⟨input, hstep.2, haccepts⟩) hstep.1
  intro decision hdelivered
  have hcertified := hinv.delivered decision hdelivered
  exact ⟨hcertified.quorum, hcertified.distinct, hcertified.accepted⟩

theorem delivered_certified_first :
    ∃ nd decision, run (Node.step (clusterOfFour 2)) (nodeOfFour 2)
        (accepting (decideFirst ++ deliverNext)) = some nd ∧
      .deliver decision ∈ nd.trace ∧ 3 ≤ decision.signatures.length ∧
      (decision.signatures.map Signature.signer).Nodup := by
  obtain ⟨nd, hrun, hmem⟩ : ∃ nd, run (Node.step (clusterOfFour 2)) (nodeOfFour 2)
      (accepting (decideFirst ++ deliverNext)) = some nd ∧ .deliver ⟨firstProposal [7],
        [⟨1, [7], []⟩, ⟨3, [7], []⟩, ⟨2, [7], []⟩]⟩ ∈ nd.trace := exists_of_any (by decide +kernel)
  obtain ⟨hquorum, hdistinct, -⟩ := delivered_certified (fun _ _ => rfl) (boot_nodeOfFour 2)
    (by decide +kernel) hrun _ hmem
  exact ⟨nd, _, hrun, hmem, hquorum, hdistinct⟩

def checkingVerifier : Verifier :=
  { acceptingVerifier with
    verifyConsenterSig := fun sig p => if sig.value = p.payload then some none else none }

def paddedViewData : ViewData where
  nextView := 1
  lastDecision := some (firstProposal [7])
  lastDecisionSignatures := [⟨1, [7], []⟩, ⟨3, [7], []⟩, ⟨4, [7], []⟩, ⟨1, [9], []⟩]

def deliverPadded : List NodeInput :=
  (joinViewOne ++ [NodeEvent.viewChanger (.msg 3 (.viewData ⟨.marshal paddedViewData, 3, []⟩)),
    .viewChanger (.deliver {})]).map fun event => ⟨checkingVerifier, event⟩

/-- The decision has an entry that nobody accepts, whose signer appears twice. -/
theorem delivered_without_certificate :
    Node.boot (clusterOfFour 2) [] {} = .ok (nodeOfFour 2) ∧
      ∃ nd decision, run (Node.step (clusterOfFour 2)) (nodeOfFour 2) deliverPadded = some nd ∧
        .deliver decision ∈ nd.trace ∧
        ¬ (decision.signatures.map Signature.signer).Nodup ∧
        ∃ sig ∈ decision.signatures, sig.signer ≠ 2 ∧
          ∀ input ∈ deliverPadded, input.verifier.accepts sig decision.proposal = false := by
  refine ⟨rfl, _, ⟨firstProposal [7], paddedViewData.lastDecisionSignatures⟩,
    Option.eq_some_of_isSome (by decide +kernel), by decide +kernel, by decide, ⟨1, [9], []⟩,
    by decide, by decide, fun input hinput => ?_⟩
  obtain ⟨event, -, rfl⟩ := List.mem_map.mp hinput
  rfl

end SmartBFT
