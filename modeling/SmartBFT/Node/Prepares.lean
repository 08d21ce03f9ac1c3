import SmartBFT.Node.Votes

/-!
# The prepares behind a commit

`processPrepares` counts prepares for the digest of the proposal, one for each other
node, and only those that reached the vote set of the view for its sequence.  The
sets for the current and for the next sequence change places at every decision.  So
whenever a node saves a commit, `quorum - 1` other nodes have sent a prepare for the
same view, sequence and digest (`PrepareInvariant`); a restart cannot change that, as
it empties the vote sets.

`sent` says what the senders have sent; the invariant holds for whatever it is, as
long as it is true of every prepare that the view receives.
-/

namespace SmartBFT

open SmartBFT.Foundation

structure PrepareVotes (cfg : Config) (sent : Nat → Prepare → Prop) (view seq : Nat)
    (vs : VoteSet Prepare) : Prop where
  wellFormed : vs.WellFormed
  sent : ∀ vote ∈ vs.votes, vote.1 ≠ cfg.selfID ∧ sent vote.1 vote.2 ∧
    vote.2.view = view ∧ vote.2.seq = seq

def Preparers (cfg : Config) (sent : Nat → Prepare → Prop) (view seq : Nat) (digest : String)
    (voters : List Nat) : Prop :=
  ∀ voter ∈ voters, voter ≠ cfg.selfID ∧ ∃ m, sent voter m ∧ m.view = view ∧ m.seq = seq ∧
    m.digest = digest

structure ViewPrepares (cfg : Config) (sent : Nat → Prepare → Prop) (v : View) : Prop where
  queued : ∀ sender m, (sender, .prepare m) ∈ v.incMsgs → sent sender m
  prepares : PrepareVotes cfg sent v.number v.proposalSequence v.prepares
  nextPrepares : PrepareVotes cfg sent v.number (v.proposalSequence + 1) v.nextPrepares
  counted : ∀ voterIDs, v.pc = .select (.processPrepares voterIDs) →
    v.prepares.Taken voterIDs ∧ ∀ proposal ∈ v.inFlightProposal,
      Preparers cfg sent v.number v.proposalSequence (cfg.digest proposal) voterIDs

namespace PrepareVotes

variable {cfg : Config} {sent : Nat → Prepare → Prop} {view seq : Nat} {vs : VoteSet Prepare}

theorem empty (cfg : Config) (sent : Nat → Prepare → Prop) (view seq : Nat) :
    PrepareVotes cfg sent view seq {} := ⟨VoteSet.wellFormed_empty, by simp⟩

theorem register (h : PrepareVotes cfg sent view seq vs) {sender : Nat} {prepare : Prepare}
    (hother : sender ≠ cfg.selfID) (hsent : sent sender prepare) (hview : prepare.view = view)
    (hseq : prepare.seq = seq) :
    PrepareVotes cfg sent view seq (vs.registerVote acceptPrepares sender prepare) := by
  refine ⟨h.wellFormed.registerVote acceptPrepares sender prepare, fun vote hvote => ?_⟩
  rcases VoteSet.mem_votes_registerVote hvote with hold | ⟨rfl, -, -⟩
  · exact h.sent vote hold
  · exact ⟨hother, hsent, hview, hseq⟩

theorem erase (h : PrepareVotes cfg sent view seq vs) (i : Nat) :
    PrepareVotes cfg sent view seq { vs with votes := vs.votes.eraseIdx i } :=
  ⟨h.wellFormed.erase i,
    fun vote hvote => h.sent vote ((List.eraseIdx_sublist vs.votes i).subset hvote)⟩

end PrepareVotes

namespace View

variable {cfg : Config} {sent : Nat → Prepare → Prop} {verifier : Verifier}
  {checkpoint : Decision} {v v' : View} {event : ViewEvent} {outputs : List ViewOutput}

def RegisteredPrepare (cfg : Config) (sender : Nat) (m : Message) (view seq : Nat)
    (vs vs' : VoteSet Prepare) : Prop :=
  vs' = vs ∨ ∃ prepare, m = .prepare prepare ∧ sender ≠ cfg.selfID ∧ prepare.view = view ∧
    prepare.seq = seq ∧ vs' = vs.registerVote acceptPrepares sender prepare

theorem RegisteredPrepare.prepareVotes {sender : Nat} {m : Message} {view seq : Nat}
    {vs vs' : VoteSet Prepare} (h : RegisteredPrepare cfg sender m view seq vs vs')
    (hsent : ∀ prepare, m = .prepare prepare → sent sender prepare)
    (hvotes : PrepareVotes cfg sent view seq vs) : PrepareVotes cfg sent view seq vs' := by
  rcases h with rfl | ⟨prepare, rfl, hother, hview, hseq, rfl⟩
  · exact hvotes
  · exact hvotes.register hother (hsent prepare rfl) hview hseq

theorem RegisteredPrepare.taken {sender : Nat} {m : Message} {view seq : Nat}
    {vs vs' : VoteSet Prepare} (h : RegisteredPrepare cfg sender m view seq vs vs')
    {voters : List Nat} (htaken : vs.Taken voters) : vs'.Taken voters := by
  rcases h with rfl | ⟨prepare, -, -, -, -, rfl⟩
  · exact htaken
  · exact htaken.registerVote acceptPrepares sender prepare

theorem processMsg_prepares (cfg : Config) (v : View) (sender : Nat) (m : Message) :
    RegisteredPrepare cfg sender m v.number v.proposalSequence v.prepares
        (v.processMsg cfg sender m).1.prepares ∧
      RegisteredPrepare cfg sender m v.number (v.proposalSequence + 1) v.nextPrepares
        (v.processMsg cfg sender m).1.nextPrepares := by
  have h := processMsg_processes cfg v sender m
  generalize v.processMsg cfg sender m = result at h ⊢
  cases h with
  | @prepare prepare hother hview hseq =>
    exact ⟨.inr ⟨prepare, rfl, hother, hview, hseq, rfl⟩, .inl rfl⟩
  | @nextPrepare prepare hother hview hseq =>
    exact ⟨.inl rfl, .inr ⟨prepare, rfl, hother, hview, hseq, rfl⟩⟩
  | _ => exact ⟨.inl rfl, .inl rfl⟩

end View

namespace ViewPrepares

variable {cfg : Config} {sent : Nat → Prepare → Prop} {verifier : Verifier}
  {checkpoint : Decision} {v v' : View} {event : ViewEvent} {outputs : List ViewOutput}

theorem of_idle (h : ViewPrepares cfg sent v) (hnumber : v'.number = v.number)
    (hsequence : v'.proposalSequence = v.proposalSequence) (hqueue : v'.incMsgs = v.incMsgs)
    (hprepares : v'.prepares = v.prepares) (hnext : v'.nextPrepares = v.nextPrepares)
    (hpc : ∀ voterIDs, v'.pc ≠ .select (.processPrepares voterIDs)) :
    ViewPrepares cfg sent v' where
  queued := by rw [hqueue]; exact h.queued
  prepares := by rw [hnumber, hsequence, hprepares]; exact h.prepares
  nextPrepares := by rw [hnumber, hsequence, hnext]; exact h.nextPrepares
  counted voterIDs heq := absurd heq (hpc voterIDs)

theorem of_empty (hqueue : v.incMsgs = []) (hprepares : v.prepares = {})
    (hnext : v.nextPrepares = {}) (hpc : v.pc = .select .run) : ViewPrepares cfg sent v where
  queued := by simp [hqueue]
  prepares := by rw [hprepares]; exact .empty cfg sent _ _
  nextPrepares := by rw [hnext]; exact .empty cfg sent _ _
  counted := by simp [hpc]

theorem step (h : ViewPrepares cfg sent v)
    (hsent : ∀ sender m, event = .handleMessage sender (.prepare m) → sent sender m)
    (htransition : View.Transition cfg verifier checkpoint v event v' outputs) :
    ViewPrepares cfg sent v' := by
  cases htransition with
  | queued sender m =>
    refine ⟨fun other prepare hmem => ?_, h.prepares, h.nextPrepares, h.counted⟩
    rcases List.mem_append.mp hmem with hold | hnew
    · exact h.queued other prepare hold
    · obtain ⟨rfl, rfl⟩ : other = sender ∧ .prepare prepare = m := by simpa using hnew
      exact hsent other prepare rfl
  | @received loop sender m rest hpc hqueue =>
    have hsame := View.processMsg_sameProgress cfg { v with incMsgs := rest } sender m
    obtain ⟨hprepares, hnext⟩ :=
      View.processMsg_prepares cfg { v with incMsgs := rest } sender m
    have hfrom : ∀ prepare, m = .prepare prepare → sent sender prepare := by
      rintro prepare rfl
      exact h.queued sender prepare (by simp [hqueue])
    constructor
    · rw [hsame.incMsgs]
      exact fun other prepare hmem => h.queued other prepare (by simp [hqueue, hmem])
    · rw [hsame.number, hsame.proposalSequence]
      exact hprepares.prepareVotes hfrom h.prepares
    · rw [hsame.number, hsame.proposalSequence]
      exact hnext.prepareVotes hfrom h.nextPrepares
    · rw [hsame.number, hsame.proposalSequence, hsame.pc, hsame.inFlightProposal]
      intro voterIDs hloop
      obtain ⟨htaken, hpreparers⟩ := h.counted voterIDs hloop
      exact ⟨hprepares.taken htaken, hpreparers⟩
  | sendPrepare =>
    refine ⟨h.queued, h.prepares, h.nextPrepares, fun voterIDs hloop => ?_⟩
    obtain rfl : voterIDs = [] := by simpa [eq_comm] using hloop
    exact ⟨.nil _, fun proposal _ voter hvoter => by simp at hvoter⟩
  | nothingToSend => exact h
  | panicked hpc => exact h.of_idle rfl rfl rfl rfl rfl (by simp [hpc])
  | @otherPrepare voterIDs vote votes hpc hvotes =>
    have hrest : votes = v.prepares.votes.eraseIdx 0 := by simp [hvotes]
    subst hrest
    refine ⟨h.queued, h.prepares.erase 0, h.nextPrepares, fun voterIDs hloop => ?_⟩
    obtain ⟨htaken, hpreparers⟩ := h.counted voterIDs hloop
    exact ⟨htaken.erase 0, hpreparers⟩
  | @countedPrepare counted sender prepare votes proposal hpc hproposal hvotes hdigest =>
    have hvote : v.prepares.votes[0]? = some (sender, prepare) := by simp [hvotes]
    have hrest : votes = v.prepares.votes.eraseIdx 0 := by simp [hvotes]
    subst hrest
    refine ⟨h.queued, h.prepares.erase 0, h.nextPrepares, fun voterIDs hloop => ?_⟩
    obtain rfl : voterIDs = counted ++ [sender] := by simpa [eq_comm] using hloop
    obtain ⟨htaken, hpreparers⟩ := h.counted counted hpc
    refine ⟨htaken.append h.prepares.wellFormed hvote, fun p hp voter hvoter => ?_⟩
    rcases List.mem_append.mp hvoter with hold | hlast
    · exact hpreparers p hp voter hold
    · obtain rfl : voter = sender := by simpa using hlast
      obtain rfl : proposal = p := by simpa [hproposal] using hp
      obtain ⟨hother, hsender, hview, hseq⟩ :=
        h.prepares.sent _ (List.mem_of_getElem? hvote)
      exact ⟨hother, prepare, hsender, hview, hseq, hdigest⟩
  | otherCommit i hpc => exact h.of_idle rfl rfl rfl rfl rfl (by simp [hpc])
  | decided =>
    exact ⟨h.queued, h.nextPrepares, .empty cfg sent _ _, by simp [View.decide]⟩
  | _ =>
    exact h.of_idle rfl rfl rfl rfl rfl (by simp [View.beginProposal, View.rejectProposal,
      View.acceptProposal, View.finishPrepares])

end ViewPrepares

structure PrepareInvariant (cfg : Config) (sent : Nat → Prepare → Prop) (nd : Node) :
    Prop where
  view : ViewPrepares cfg sent nd.currView
  saved : ∀ commit, .save (.commit commit) ∈ nd.trace → ∃ voters : List Nat, voters.Nodup ∧
    cfg.quorum - 1 ≤ voters.length ∧
    Preparers cfg sent commit.view commit.seq commit.digest voters

namespace PrepareInvariant

variable {cfg : Config} {sent : Nat → Prepare → Prop} {verifier : Verifier} {nd nd' : Node}

theorem record (h : PrepareInvariant cfg sent nd) {action : Action}
    (haction : ∀ commit, action ≠ .save (.commit commit)) :
    PrepareInvariant cfg sent (nd.record action) := by
  refine ⟨h.view, fun commit hmem => ?_⟩
  rcases List.mem_cons.mp hmem with rfl | hold
  · exact absurd rfl (haction commit)
  · exact h.saved commit hold

theorem save (h : PrepareInvariant cfg sent nd) {m : SavedMessage}
    (hm : ∀ commit, m = .commit commit → ∃ voters : List Nat, voters.Nodup ∧
      cfg.quorum - 1 ≤ voters.length ∧
      Preparers cfg sent commit.view commit.seq commit.digest voters) :
    PrepareInvariant cfg sent (nd.save m) := by
  rcases Node.save_cases nd m with ⟨text, hcase⟩ | ⟨persisted, -, hcase⟩ <;> rw [hcase]
  · exact ⟨h.view, h.saved⟩
  · refine ⟨h.view, fun commit hmem => ?_⟩
    rcases List.mem_cons.mp hmem with heq | hold
    · exact hm commit (by simpa [eq_comm] using heq)
    · exact h.saved commit hold

theorem quiet (h : PrepareInvariant cfg sent nd) (hop : QuietOp nd nd') :
    PrepareInvariant cfg sent nd' := by
  cases hop with
  | stopView =>
    exact ⟨{ h.view with }, h.saved⟩
  | viewDecided =>
    exact ⟨h.view.of_idle rfl rfl rfl rfl rfl (by simp [View.decided]), h.saved⟩
  | record haction => exact h.record (by cases haction <;> simp)
  | saveViewChange => exact h.save (by simp)
  | saveNewView => exact h.save (by simp)
  | _ => exact ⟨h.view, h.saved⟩

theorem quietEffect (h : PrepareInvariant cfg sent nd) (heffect : QuietEffect nd nd') :
    PrepareInvariant cfg sent nd' :=
  QuietEffect.keeps (fun hop hinv => quiet hinv hop) heffect h

theorem deliver (h : PrepareInvariant cfg sent nd) (decision : Decision)
    (answer : DeliverAnswer) : PrepareInvariant cfg sent (nd.deliver decision answer) := by
  rcases Node.deliver_cases nd decision answer with ⟨text, hcase⟩ | hcase | hcase <;>
    rw [hcase]
  · exact ⟨h.view, h.saved⟩
  · exact ⟨h.view, h.saved⟩
  · have hrecorded : PrepareInvariant cfg sent (nd.record (.deliver decision)) :=
      h.record (by simp)
    exact ⟨hrecorded.view, hrecorded.saved⟩

theorem applyOutputs (h : PrepareInvariant cfg sent nd) (origin : Origin)
    {outputs : List ViewOutput}
    (hcommits : ∀ commit, .save (.commit commit) ∈ outputs → ∃ voters : List Nat,
      voters.Nodup ∧ cfg.quorum - 1 ≤ voters.length ∧
      Preparers cfg sent commit.view commit.seq commit.digest voters) :
    PrepareInvariant cfg sent (nd.applyOutputs cfg origin outputs) := by
  refine Node.applyOutputs_keeps (motive := PrepareInvariant cfg sent) cfg origin
    (fun hop hinv => hinv.quiet hop) ?_ ?_ ?_ h
  · exact fun m _ mid hinv => hinv.record (by simp)
  · exact fun target m _ mid hinv => hinv.record (by simp)
  · exact fun m hm mid hinv => hinv.save fun commit heq => hcommits commit (heq ▸ hm)

theorem commit_saved (h : ViewPrepares cfg sent nd.currView) {event : ViewEvent} {view : View}
    {outputs : List ViewOutput}
    (htransition : View.Transition cfg verifier nd.checkpoint nd.currView event view outputs)
    {commit : Commit} (hsaved : .save (.commit commit) ∈ outputs) :
    ∃ voters : List Nat, voters.Nodup ∧ cfg.quorum - 1 ≤ voters.length ∧
      Preparers cfg sent commit.view commit.seq commit.digest voters := by
  rcases htransition.saves with hnone | hsaves
  · exact absurd hsaved (hnone _)
  · cases hsaves with
    | proposed _ _ _ _ _ _ _ _ hrest =>
      rcases List.mem_cons.mp hsaved with heq | hlater
      · simp at heq
      · simpa using hrest _ hlater
    | @prepared voterIDs proposal hpc hproposal henough =>
      obtain ⟨htaken, hpreparers⟩ := h.counted voterIDs hpc
      obtain rfl : commit = _ := by simpa [View.finishPrepares] using hsaved
      exact ⟨voterIDs, htaken.nodup, henough, hpreparers proposal hproposal⟩

theorem of_boot {entries : List SavedMessage} {checkpoint : Decision} {restarted : Node}
    (h : Node.boot cfg entries checkpoint = .ok restarted) :
    ViewPrepares cfg sent restarted.currView := by
  obtain ⟨md, start, leader, v, inFlight, -, -, -, hrestored, rfl⟩ := Node.boot_ok h
  obtain ⟨hqueue, hprepares, hnext⟩ : v.incMsgs = [] ∧ v.prepares = {} ∧
      v.nextPrepares = {} := by
    cases hrestored <;> exact ⟨rfl, rfl, rfl⟩
  have hpc := hrestored.pc
  simp only [Node.started]
  unfold View.catchUp
  simp only
  split <;> split <;> exact .of_empty hqueue hprepares hnext hpc

theorem step (h : PrepareInvariant cfg sent nd) (hlog : LogInvariant cfg nd)
    {input : NodeInput}
    (hsent : ∀ sender m, input.event = .view (.handleMessage sender (.prepare m)) →
      sent sender m)
    (hstep : nd.step cfg input = some nd') : PrepareInvariant cfg sent nd' := by
  obtain ⟨-, -, htransition⟩ := Node.step_transition hstep
  cases htransition with
  | quiet _ heffect => exact h.quietEffect heffect
  | @view verifier event view outputs htransition =>
    have hview := h.view.step (fun sender m heq => hsent sender m (by simp [heq])) htransition
    have hmoved : PrepareInvariant cfg sent { nd with currView := view } := ⟨hview, h.saved⟩
    exact hmoved.applyOutputs _ fun commit hsaved => commit_saved h.view htransition hsaved
  | @inFlightView verifier event view view' outputs hview htransition =>
    have hmoved : PrepareInvariant cfg sent
        { nd with inFlightView := some (Node.awaitSync view' outputs) } := ⟨h.view, h.saved⟩
    refine hmoved.applyOutputs _ fun commit hsaved => ?_
    exact absurd hsaved ((hlog.inFlight view hview).saves_nothing htransition _)
  | @inFlightDeliver view decision requests verifier answer =>
    exact ⟨(h.deliver decision answer).view, (h.deliver decision answer).saved⟩
  | @decide decision requests verifier answer =>
    exact ⟨h.view.of_idle rfl rfl rfl rfl rfl (by simp), (h.deliver decision answer).saved⟩
  | proposed =>
    refine ⟨⟨fun sender m hmem => ?_, h.view.prepares, h.view.nextPrepares,
      h.view.counted⟩, h.saved⟩
    exact h.view.queued sender m (by simpa [View.proposeMessage] using hmem)
  | @sync _ verifier response reconfig checkpoint _ heffect =>
    have hsynced : PrepareInvariant cfg sent { nd with checkpoint := checkpoint } :=
      ⟨h.view, h.saved⟩
    exact hsynced.quietEffect heffect
  | @restarted _ view seq dec leader rotation verifier _ heffect =>
    have hstarted : PrepareInvariant cfg sent
        { nd with currView := .fresh leader seq view dec } :=
      ⟨.of_empty rfl rfl rfl rfl, h.saved⟩
    exact hstarted.quietEffect heffect
  | viewData _ _ heffect => exact (h.record (by simp)).quietEffect heffect
  | delivered _ answer _ heffect => exact (h.deliver _ answer).quietEffect heffect
  | startInFlight => exact ⟨h.view, h.saved⟩
  | crash _ hboot =>
    have hview := @of_boot cfg sent _ _ _ hboot
    exact ⟨hview, h.saved⟩

theorem reachable {checkpoint : Decision} {start : Node} {inputs : List NodeInput}
    {condition : Node → NodeInput → Prop} (hboot : Node.boot cfg [] checkpoint = .ok start)
    (hsent : ∀ nd input, condition nd input → ∀ sender m,
      input.event = .view (.handleMessage sender (.prepare m)) → sent sender m)
    (hmeets : StepsMeet (Node.step cfg) condition start inputs)
    (hrun : run (Node.step cfg) start inputs = some nd) : PrepareInvariant cfg sent nd := by
  let inv (mid : Node) : Prop := LogInvariant cfg mid ∧ PrepareInvariant cfg sent mid
  have hinit : inv start := by
    refine ⟨.boot_empty hboot, of_boot hboot, ?_⟩
    obtain ⟨md, _, leader, v, inFlight, -, -, -, -, rfl⟩ := Node.boot_ok hboot
    simp [Node.started]
  have hboth : inv nd := by
    refine run_invariant_of_steps_meet (fun mid input mid' h hmeets hstep => ?_) hinit hmeets
      hrun
    exact ⟨h.1.step hstep, h.2.step h.1 (hsent mid input hmeets) hstep⟩
  exact hboth.2

end PrepareInvariant

end SmartBFT
