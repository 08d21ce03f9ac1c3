import SmartBFT.View

/-!
# What a step of a view can do

`View.Transition` lists the steps of the goroutine of a view with their guards
and their results, and `View.transition_of_step` says that there are no others.
The invariants of views are proved over the list and never unfold `View.step`.
-/

namespace SmartBFT

def ViewPc.inDecide : ViewPc → Bool
  | .deciding _ _ => true
  | .delivering => true
  | _ => false

namespace View

/-! ## Processing a message -/

inductive Processes (cfg : Config) (v : View) (sender : Nat) :
    Message → View × List ViewOutput → Prop where
  | ignored (m : Message) : Processes cfg v sender m (v, [])
  | answered (m : Message) : Processes cfg v sender m (v, v.handlePrevSeqMessage sender m)
  | wrongView (m : Message) : Processes cfg v sender m (v.processWrongView m)
  | prePrepare {pp : PrePrepare} (hview : pp.view = v.number)
      (hseq : pp.seq = v.proposalSequence) :
      Processes cfg v sender (.prePrepare pp)
        ({ v with prePrepare := v.prePrepare.or (some pp) }, [])
  | nextPrePrepare {pp : PrePrepare} (hview : pp.view = v.number)
      (hseq : pp.seq = v.proposalSequence + 1) :
      Processes cfg v sender (.prePrepare pp)
        ({ v with nextPrePrepare := v.nextPrePrepare.or (some pp) }, [])
  | prepare {prepare : Prepare} (hother : sender ≠ cfg.selfID) (hview : prepare.view = v.number)
      (hseq : prepare.seq = v.proposalSequence) :
      Processes cfg v sender (.prepare prepare)
        ({ v with prepares := v.prepares.registerVote acceptPrepares sender prepare }, [])
  | nextPrepare {prepare : Prepare} (hother : sender ≠ cfg.selfID)
      (hview : prepare.view = v.number) (hseq : prepare.seq = v.proposalSequence + 1) :
      Processes cfg v sender (.prepare prepare)
        ({ v with nextPrepares := v.nextPrepares.registerVote acceptPrepares sender prepare }, [])
  | commit {commit : Commit} (hother : sender ≠ cfg.selfID) :
      Processes cfg v sender (.commit commit)
        ({ v with commits := v.commits.registerVote acceptCommits sender commit }, [])
  | nextCommit {commit : Commit} (hother : sender ≠ cfg.selfID) :
      Processes cfg v sender (.commit commit)
        ({ v with nextCommits := v.nextCommits.registerVote acceptCommits sender commit }, [])
  | noted (commit : Commit) (votes : List (Nat × Commit)) :
      Processes cfg v sender (.commit commit) ({ v with lastVotedProposalByID := votes }, [])
  | missed (commit : Commit) (votes : List (Nat × Commit)) :
      Processes cfg v sender (.commit commit)
        ({ v with lastVotedProposalByID := votes }.stop, [.sync])

theorem discoverIfSyncNeeded_processes (cfg : Config) (v : View) (sender : Nat) (m : Message) :
    Processes cfg v sender m (v.discoverIfSyncNeeded cfg sender m) := by
  unfold discoverIfSyncNeeded
  split
  · simp only
    split
    · exact .noted _ _
    · split
      · exact .missed _ _
      · exact .noted _ _
  · exact .ignored m

theorem processVote_processes {cfg : Config} {v : View} {msgForNextProposal : Bool}
    {sender : Nat} {m : Message} (hview : m.viewNumber = some v.number)
    (hseq : m.proposalSequence = some (if msgForNextProposal then v.proposalSequence + 1
      else v.proposalSequence)) :
    Processes cfg v sender m (v.processVote cfg msgForNextProposal sender m, []) := by
  unfold processVote processPrePrepare
  cases m with
  | prePrepare pp =>
    have hview : pp.view = v.number := Option.some.inj hview
    have hseq := Option.some.inj hseq
    simp only
    split
    · exact .ignored _
    · split
      · exact .ignored _
      · split <;> rename_i hnext <;> simp only [hnext, if_true] at hseq
        · exact .nextPrePrepare hview hseq
        · exact .prePrepare hview hseq
  | prepare prepare =>
    have hview : prepare.view = v.number := Option.some.inj hview
    have hseq := Option.some.inj hseq
    simp only
    split <;> rename_i hother
    · exact .ignored _
    · split <;> rename_i hnext <;> simp only [hnext, if_true] at hseq
      · exact .nextPrepare hother hview hseq
      · exact .prepare hother hview hseq
  | commit commit =>
    simp only
    split <;> rename_i hother
    · exact .ignored _
    · split
      · exact .nextCommit hother
      · exact .commit hother
  | _ => exact .ignored _

theorem processMsg_processes (cfg : Config) (v : View) (sender : Nat) (m : Message) :
    Processes cfg v sender m (v.processMsg cfg sender m) := by
  unfold processMsg
  split
  · exact .ignored m
  · split
    · split
      · exact discoverIfSyncNeeded_processes cfg v sender m
      · exact .wrongView m
    · rename_i hview
      have hview := not_not.mp hview
      split
      · exact .answered m
      · split <;> rename_i hthis
        · exact processVote_processes hview hthis
        · split <;> rename_i hnext
          · exact processVote_processes hview hnext
          · exact discoverIfSyncNeeded_processes cfg v sender m

structure SameProgress (v v' : View) : Prop where
  number : v'.number = v.number
  leaderID : v'.leaderID = v.leaderID
  proposalSequence : v'.proposalSequence = v.proposalSequence
  decisionsInView : v'.decisionsInView = v.decisionsInView
  phase : v'.phase = v.phase
  pc : v'.pc = v.pc
  incMsgs : v'.incMsgs = v.incMsgs
  myProposalSig : v'.myProposalSig = v.myProposalSig
  inFlightProposal : v'.inFlightProposal = v.inFlightProposal
  inFlightRequests : v'.inFlightRequests = v.inFlightRequests
  lastBroadcastSent : v'.lastBroadcastSent = v.lastBroadcastSent
  currPrepareSent : v'.currPrepareSent = v.currPrepareSent
  currCommitSent : v'.currCommitSent = v.currCommitSent
  prevPrepareSent : v'.prevPrepareSent = v.prevPrepareSent
  prevCommitSent : v'.prevCommitSent = v.prevCommitSent
  blacklistSupported : v'.blacklistSupported = v.blacklistSupported
  aborted : v.aborted = true → v'.aborted = true

theorem processMsg_sameProgress (cfg : Config) (v : View) (sender : Nat) (m : Message) :
    SameProgress v (v.processMsg cfg sender m).1 := by
  have h := processMsg_processes cfg v sender m
  generalize v.processMsg cfg sender m = result at h ⊢
  cases h <;> constructor <;> simp [processWrongView, stop]

/-- What processing a message does to the node: a vote of the previous sequence is
sent again, the leader is accused, or a sync is asked for. -/
inductive Reaction (v : View) : ViewOutput → Prop where
  | send (target : Nat) {m : Message}
      (h : v.prevPrepareSent = some m ∨ v.prevCommitSent = some m) :
      Reaction v (.send target m)
  | complain (viewNum : Nat) (stopView : Bool) : Reaction v (.complain viewNum stopView)
  | sync : Reaction v .sync

theorem handlePrevSeqMessage_reaction (v : View) (sender : Nat) (m : Message) :
    ∀ output ∈ v.handlePrevSeqMessage sender m, Reaction v output := by
  unfold handlePrevSeqMessage
  intro output houtput
  split at houtput
  · simp at houtput
  · split at houtput
    · simp at houtput
    · simp only [Option.mem_toList, Option.map_eq_some_iff] at houtput
      obtain ⟨m, hm, rfl⟩ := houtput
      exact .send _ (.inr hm)
  · split at houtput
    · simp at houtput
    · simp only [Option.mem_toList, Option.map_eq_some_iff] at houtput
      obtain ⟨m, hm, rfl⟩ := houtput
      exact .send _ (.inl hm)
  · simp at houtput

theorem processMsg_reaction (cfg : Config) (v : View) (sender : Nat) (m : Message) :
    ∀ output ∈ (v.processMsg cfg sender m).2, Reaction v output := by
  have h := processMsg_processes cfg v sender m
  generalize v.processMsg cfg sender m = result at h ⊢
  cases h with
  | answered => exact handlePrevSeqMessage_reaction v sender m
  | wrongView =>
    intro output houtput
    simp only [processWrongView, List.mem_cons] at houtput
    rcases houtput with rfl | houtput
    · exact .complain _ _
    · obtain rfl : output = .sync := by
        split at houtput
        · simpa using houtput
        · exact (by simpa using houtput : _ ∧ _).2
      exact .sync
  | missed => simp [Reaction.sync]
  | _ => simp

structure PrePreparesMatch (v : View) : Prop where
  current : ∀ pp ∈ v.prePrepare, pp.view = v.number ∧ pp.seq = v.proposalSequence
  next : ∀ pp ∈ v.nextPrePrepare, pp.view = v.number ∧ pp.seq = v.proposalSequence + 1

theorem processMsg_match {v : View} (h : PrePreparesMatch v) (cfg : Config) (sender : Nat)
    (m : Message) : PrePreparesMatch (v.processMsg cfg sender m).1 := by
  have hprocesses := processMsg_processes cfg v sender m
  generalize v.processMsg cfg sender m = result at hprocesses ⊢
  cases hprocesses with
  | @prePrepare pp hview hseq =>
    refine ⟨fun other hother => ?_, h.next⟩
    rcases Option.or_eq_some_iff.mp hother with hold | ⟨-, hnew⟩
    · exact h.current other hold
    · exact Option.some.inj hnew ▸ ⟨hview, hseq⟩
  | @nextPrePrepare pp hview hseq =>
    refine ⟨h.current, fun other hother => ?_⟩
    rcases Option.or_eq_some_iff.mp hother with hold | ⟨-, hnew⟩
    · exact h.next other hold
    · exact Option.some.inj hnew ▸ ⟨hview, hseq⟩
  | _ => exact ⟨h.current, h.next⟩

inductive Transition (cfg : Config) (verifier : Verifier) (checkpoint : Decision) :
    View → ViewEvent → View → List ViewOutput → Prop where
  | queued {v : View} (sender : Nat) (m : Message) (hopen : v.aborted = false) :
      Transition cfg verifier checkpoint v (.handleMessage sender m)
        { v with incMsgs := v.incMsgs ++ [(sender, m)] } []
  | ended {v : View} (hpc : v.pc = .select .run) (haborted : v.aborted = true) :
      Transition cfg verifier checkpoint v .abort { v with pc := .ended }
        [.storeSequence ⟨false, v.proposalSequence⟩]
  | left {v : View} {loop : ViewLoop} (hpc : v.pc = .select loop)
      (haborted : v.aborted = true) :
      Transition cfg verifier checkpoint v .abort
        { v with phase := .abort, pc := .select .run } []
  | received {v : View} {loop : ViewLoop} {sender : Nat} {m : Message}
      {rest : List (Nat × Message)} (hpc : v.pc = .select loop)
      (hqueue : v.incMsgs = (sender, m) :: rest) :
      Transition cfg verifier checkpoint v .recv
        ({ v with incMsgs := rest }.processMsg cfg sender m).1
        ({ v with incMsgs := rest }.processMsg cfg sender m).2
  | default {v : View} (hpc : v.pc = .select .run) (hopen : v.aborted = false)
      (hqueue : v.incMsgs = []) :
      Transition cfg verifier checkpoint v .default { v with pc := .doPhase } []
  | sendPrepare {v : View} {m : Message} (hpc : v.pc = .doPhase)
      (hphase : v.phase = .proposed) (hlast : v.lastBroadcastSent = some m) :
      Transition cfg verifier checkpoint v .doPhase
        { v with pc := .select (.processPrepares []) } [.broadcast m]
  | sendCommit {v : View} {m : Message} (hpc : v.pc = .doPhase)
      (hphase : v.phase = .prepared) (hlast : v.lastBroadcastSent = some m) :
      Transition cfg verifier checkpoint v .doPhase
        { v with pc := .select (.processCommits []) } [.broadcast m]
  | nothingToSend {v : View} (hpc : v.pc = .doPhase) :
      Transition cfg verifier checkpoint v .doPhase v [.panic "nil message"]
  | beginProposal {v : View} (hpc : v.pc = .doPhase) (hphase : v.phase = .committed) :
      Transition cfg verifier checkpoint v .doPhase v.beginProposal []
  | idle {v : View} (hpc : v.pc = .doPhase) (hphase : v.phase = .abort) :
      Transition cfg verifier checkpoint v .doPhase { v with pc := .select .run } []
  | panicked {v : View} {prePrepare : Option PrePrepare} {supported : Bool} {text : String}
      (hpc : v.pc = .select .processProposal)
      (hkept : prePrepare = v.prePrepare ∨ prePrepare = none) :
      Transition cfg verifier checkpoint v .prePrepare
        { v with prePrepare := prePrepare, blacklistSupported := supported } [.panic text]
  | rejected {v : View} {supported : Bool} (hpc : v.pc = .select .processProposal) :
      Transition cfg verifier checkpoint v .prePrepare
        { v with prePrepare := none, blacklistSupported := supported }.rejectProposal.1
        { v with prePrepare := none, blacklistSupported := supported }.rejectProposal.2
  | accepted {v : View} {pp : PrePrepare} {proposal : Proposal} {requests : List RequestInfo}
      {supported : Bool} (hpc : v.pc = .select .processProposal)
      (hpp : v.prePrepare = some pp) (hproposal : pp.proposal = some proposal)
      (hverified : { v with prePrepare := none }.verifyProposal cfg verifier checkpoint proposal
        pp.prevCommitSignatures = (.ok requests, supported)) :
      Transition cfg verifier checkpoint v .prePrepare
        ({ v with prePrepare := none, blacklistSupported := supported }.acceptProposal cfg pp
          proposal requests).1
        ({ v with prePrepare := none, blacklistSupported := supported }.acceptProposal cfg pp
          proposal requests).2
  | otherPrepare {v : View} {voterIDs : List Nat} {vote : Nat × Prepare}
      {votes : List (Nat × Prepare)} (hpc : v.pc = .select (.processPrepares voterIDs))
      (hvotes : v.prepares.votes = vote :: votes) :
      Transition cfg verifier checkpoint v .prepareVote
        { v with prepares := { v.prepares with votes := votes } } []
  | countedPrepare {v : View} {voterIDs : List Nat} {sender : Nat} {prepare : Prepare}
      {votes : List (Nat × Prepare)} {proposal : Proposal}
      (hpc : v.pc = .select (.processPrepares voterIDs))
      (hproposal : v.inFlightProposal = some proposal)
      (hvotes : v.prepares.votes = (sender, prepare) :: votes)
      (hdigest : prepare.digest = cfg.digest proposal) :
      Transition cfg verifier checkpoint v .prepareVote
        { v with
          prepares := { v.prepares with votes := votes }
          pc := .select (.processPrepares (voterIDs ++ [sender])) } []
  | otherCommit {v : View} {signatures : List Signature} (i : Nat)
      (hpc : v.pc = .select (.processCommits signatures)) :
      Transition cfg verifier checkpoint v (.commitVote i)
        { v with commits := { v.commits with votes := v.commits.votes.eraseIdx i } } []
  | countedCommit {v : View} {signatures : List Signature} {i sender : Nat}
      {commit : Commit} {signature : Signature} {proposal : Proposal}
      (hpc : v.pc = .select (.processCommits signatures))
      (hproposal : v.inFlightProposal = some proposal)
      (hvote : v.commits.votes[i]? = some (sender, commit))
      (hfew : signatures.length < cfg.quorum - 1)
      (hdigest : commit.digest = cfg.digest proposal)
      (hsignature : commit.signature = some signature)
      (haccepted : verifier.accepts signature proposal = true) :
      Transition cfg verifier checkpoint v (.commitVote i)
        { v with
          commits := { v.commits with votes := v.commits.votes.eraseIdx i }
          pc := .select (.processCommits (signatures ++ [signature])) } []
  | prepared {v : View} {voterIDs : List Nat} {proposal : Proposal}
      (hpc : v.pc = .select (.processPrepares voterIDs))
      (hproposal : v.inFlightProposal = some proposal)
      (henough : cfg.quorum - 1 ≤ voterIDs.length) :
      Transition cfg verifier checkpoint v .finish
        (v.finishPrepares cfg voterIDs proposal).1
        (v.finishPrepares cfg voterIDs proposal).2
  | decided {v : View} {signatures : List Signature} {proposal : Proposal}
      {mine : Signature} (hpc : v.pc = .select (.processCommits signatures))
      (hproposal : v.inFlightProposal = some proposal)
      (hmine : v.myProposalSig = some mine)
      (henough : cfg.quorum - 1 ≤ signatures.length) :
      Transition cfg verifier checkpoint v .finish
        (v.decide proposal signatures mine).1 (v.decide proposal signatures mine).2

variable {cfg : Config} {verifier : Verifier} {checkpoint : Decision} {v v' : View}
  {outputs : List ViewOutput}

theorem transition_of_takeAbort (h : v.takeAbort = some (v', outputs)) :
    Transition cfg verifier checkpoint v .abort v' outputs := by
  unfold takeAbort at h
  split at h
  · simp at h
  · rename_i haborted
    have haborted : v.aborted = true := by simpa using haborted
    split at h
    · rename_i hpc
      simp only [Option.some.injEq, Prod.mk.injEq] at h
      obtain ⟨rfl, rfl⟩ := h
      exact .ended hpc haborted
    · rename_i loop _ hpc
      simp only [Option.some.injEq, Prod.mk.injEq] at h
      obtain ⟨rfl, rfl⟩ := h
      exact .left hpc haborted
    · simp at h

theorem transition_of_takeMsg (h : v.takeMsg cfg = some (v', outputs)) :
    Transition cfg verifier checkpoint v .recv v' outputs := by
  unfold takeMsg at h
  split at h
  · rename_i hpc hqueue
    simp only [Option.some.injEq] at h
    have := @Transition.received cfg verifier checkpoint v _ _ _ _ hpc hqueue
    rw [h] at this
    exact this
  · simp at h

theorem broadcastLast_cases (v : View) (loop : ViewLoop) :
    v.broadcastLast loop = (v, [.panic "nil message"]) ∨
      ∃ m, v.lastBroadcastSent = some m ∧
        v.broadcastLast loop = ({ v with pc := .select loop }, [.broadcast m]) := by
  unfold broadcastLast
  split
  · exact .inl rfl
  · rename_i m hlast
    exact .inr ⟨m, hlast, rfl⟩

theorem transition_of_doPhase (h : v.doPhase = some (v', outputs)) :
    Transition cfg verifier checkpoint v .doPhase v' outputs := by
  unfold doPhase at h
  split at h
  · simp at h
  · rename_i hpc
    have hpc : v.pc = .doPhase := not_not.mp hpc
    split at h <;> rename_i hphase
    · simp only [Option.some.injEq] at h
      rcases broadcastLast_cases v (.processPrepares []) with hnil | ⟨m, hlast, hsent⟩
      · obtain ⟨rfl, rfl⟩ := Prod.mk.inj (h.symm.trans hnil)
        exact .nothingToSend hpc
      · obtain ⟨rfl, rfl⟩ := Prod.mk.inj (h.symm.trans hsent)
        exact .sendPrepare hpc hphase hlast
    · simp only [Option.some.injEq] at h
      rcases broadcastLast_cases v (.processCommits []) with hnil | ⟨m, hlast, hsent⟩
      · obtain ⟨rfl, rfl⟩ := Prod.mk.inj (h.symm.trans hnil)
        exact .nothingToSend hpc
      · obtain ⟨rfl, rfl⟩ := Prod.mk.inj (h.symm.trans hsent)
        exact .sendCommit hpc hphase hlast
    · simp only [Option.some.injEq, Prod.mk.injEq] at h
      obtain ⟨rfl, rfl⟩ := h
      exact .beginProposal hpc hphase
    · simp only [Option.some.injEq, Prod.mk.injEq] at h
      obtain ⟨rfl, rfl⟩ := h
      exact .idle hpc hphase

theorem transition_of_takePrePrepare
    (h : v.takePrePrepare cfg verifier checkpoint = some (v', outputs)) :
    Transition cfg verifier checkpoint v .prePrepare v' outputs := by
  unfold takePrePrepare at h
  split at h
  · rename_i hpc hpp
    simp only [Option.some.injEq, takeProposal] at h
    split at h
    · obtain ⟨rfl, rfl⟩ := Prod.mk.inj h
      exact .panicked hpc (.inl rfl)
    · rename_i proposal hproposal
      split at h
      · obtain ⟨rfl, rfl⟩ := Prod.mk.inj h
        exact .panicked hpc (.inr rfl)
      · obtain ⟨rfl, rfl⟩ := Prod.mk.inj h
        exact .rejected hpc
      · rename_i hverified
        obtain ⟨rfl, rfl⟩ := Prod.mk.inj h
        exact .accepted hpc hpp hproposal hverified
  · simp at h

theorem transition_of_takePrepare (h : v.takePrepare cfg = some (v', outputs)) :
    Transition cfg verifier checkpoint v .prepareVote v' outputs := by
  unfold takePrepare at h
  split at h
  · rename_i hpc hproposal hvotes
    split at h
    · simp only at h
      split at h <;> rename_i hdigest <;>
        simp only [Option.some.injEq, Prod.mk.injEq] at h <;> obtain ⟨rfl, rfl⟩ := h
      · exact .otherPrepare hpc hvotes
      · exact .countedPrepare hpc hproposal hvotes (not_not.mp hdigest)
    · simp at h
  · simp at h

theorem verifyVote_some {proposal : Proposal} {commit : Commit} {signature : Signature}
    (h : verifyVote cfg verifier proposal commit = some signature) :
    commit.digest = cfg.digest proposal ∧ commit.signature = some signature ∧
      verifier.accepts signature proposal = true := by
  unfold verifyVote at h
  split at h
  · simp at h
  · rename_i hdigest
    obtain ⟨hsignature, haccepted⟩ := Option.filter_eq_some_iff.mp h
    exact ⟨not_not.mp hdigest, hsignature, haccepted⟩

theorem transition_of_takeCommit {i : Nat}
    (h : v.takeCommit cfg verifier i = some (v', outputs)) :
    Transition cfg verifier checkpoint v (.commitVote i) v' outputs := by
  unfold takeCommit at h
  split at h
  · rename_i hpc hproposal hvote
    split at h
    · rename_i hfew
      simp only at h
      split at h <;> simp only [Option.some.injEq, Prod.mk.injEq] at h <;>
        obtain ⟨rfl, rfl⟩ := h
      · exact .otherCommit i hpc
      · rename_i hverified
        obtain ⟨hdigest, hsignature, haccepted⟩ := verifyVote_some hverified
        exact .countedCommit hpc hproposal hvote hfew hdigest hsignature haccepted
    · simp at h
  · simp at h

theorem transition_of_finish (h : v.finish cfg = some (v', outputs)) :
    Transition cfg verifier checkpoint v .finish v' outputs := by
  unfold finish at h
  split at h
  · rename_i hpc hproposal
    split at h
    · simp at h
    · rename_i henough
      simp only [Option.some.injEq] at h
      have := @Transition.prepared cfg verifier checkpoint v _ _ hpc hproposal (by omega)
      rw [h] at this
      exact this
  · rename_i hpc hproposal hmine
    split at h
    · simp at h
    · rename_i henough
      simp only [Option.some.injEq] at h
      have := @Transition.decided cfg verifier checkpoint v _ _ _ hpc hproposal hmine
        (by omega)
      rw [h] at this
      exact this
  · simp at h

theorem transition_of_step {event : ViewEvent}
    (h : v.step cfg verifier checkpoint event = some (v', outputs)) :
    Transition cfg verifier checkpoint v event v' outputs := by
  cases event with
  | handleMessage sender m =>
    simp only [step, handleMessage, Option.map_eq_some_iff] at h
    obtain ⟨view, hview, heq⟩ := h
    simp only [Prod.mk.injEq] at heq
    obtain ⟨rfl, rfl⟩ := heq
    split at hview
    · simp at hview
    · rename_i hroom
      simp only [Option.some.injEq] at hview
      subst hview
      exact .queued sender m (by simpa using (not_or.mp hroom).1)
  | abort => exact transition_of_takeAbort h
  | recv => exact transition_of_takeMsg h
  | default =>
    simp only [step, takeDefault, Option.ite_none_right_eq_some, Option.some.injEq,
      Prod.mk.injEq] at h
    obtain ⟨⟨hpc, hopen, hqueue⟩, rfl, rfl⟩ := h
    exact .default hpc hopen hqueue
  | doPhase => exact transition_of_doPhase h
  | prePrepare => exact transition_of_takePrePrepare h
  | prepareVote => exact transition_of_takePrepare h
  | commitVote i => exact transition_of_takeCommit h
  | finish => exact transition_of_finish h

theorem verifyMetadata_ok {proposal : Proposal} {md : ViewMetadata}
    (h : v.verifyMetadata verifier proposal md = .ok ()) :
    md.viewId = v.number ∧ md.latestSequence = v.proposalSequence ∧
      md.decisionsInView = v.decisionsInView := by
  unfold verifyMetadata at h
  split at h
  · simp at h
  · split at h
    · simp at h
    · split at h
      · simp at h
      · rename_i hview hseq hdecisions
        exact ⟨not_not.mp hview, not_not.mp hseq, not_not.mp hdecisions⟩

theorem verifyProposal_ok {proposal : Proposal} {prevCommits : List Signature}
    {requests : List RequestInfo} {supported : Bool}
    (h : v.verifyProposal cfg verifier checkpoint proposal prevCommits =
      (.ok requests, supported)) :
    ∃ md, proposal.unmarshalMetadata = some md ∧ md.viewId = v.number ∧
      md.latestSequence = v.proposalSequence := by
  unfold verifyProposal at h
  simp only at h
  split at h
  · simp at h
  · split at h
    · simp at h
    · rename_i md hmd
      split at h
      · simp at h
      · rename_i hmetadata
        obtain ⟨hview, hseq, -⟩ := verifyMetadata_ok hmetadata
        exact ⟨md, hmd, hview, hseq⟩

theorem Transition.number {event : ViewEvent}
    (h : Transition cfg verifier checkpoint v event v' outputs) :
    v'.number = v.number := by
  cases h with
  | received => exact (processMsg_sameProgress cfg _ _ _).number
  | _ => rfl

/-! ## The pre-prepares of a view -/

theorem Transition.prePreparesMatch {event : ViewEvent}
    (h : Transition cfg verifier checkpoint v event v' outputs)
    (hmatch : PrePreparesMatch v) : PrePreparesMatch v' := by
  cases h with
  | @received _ sender m rest =>
    exact processMsg_match (v := { v with incMsgs := rest }) ⟨hmatch.current, hmatch.next⟩
      cfg sender m
  | panicked hpc hkept =>
    refine ⟨fun other hother => ?_, hmatch.next⟩
    rcases hkept with rfl | rfl
    · exact hmatch.current other hother
    · simp at hother
  | rejected => exact ⟨by simp [rejectProposal, stop], hmatch.next⟩
  | accepted => exact ⟨by simp [acceptProposal], hmatch.next⟩
  | decided => exact ⟨hmatch.next, by simp [View.decide, startNextSeq]⟩
  | _ => exact ⟨hmatch.current, hmatch.next⟩

end View

end SmartBFT
