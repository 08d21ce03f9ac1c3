import SmartBFT.Node.InFlightDeadlock
import SmartBFT.Node.Transition

/-!
# The log of a node, and what a restart makes of it

A record of a proposal truncates the log, so the log holds at most one proposal,
at its head, and at most one commit, for that proposal; view change and new view
records may stand anywhere behind it (`LogShape`).  The in-flight record in
memory agrees with the log as long as it is there at all.

`PersistedState.Restore` looks at the last two records only.  A view change
record behind a proposal hides the proposal from it, so that a node which crashes
in the middle of a view change forgets what it has prepared
(`restart_forgets_prepared`); `restart_reports_iff` says exactly when a restart
keeps what the node would have reported.
-/

namespace SmartBFT

open SmartBFT.Foundation

/-! ## The shape of the log -/

def SavedMessage.ofViewChange : SavedMessage → Bool
  | .newView _ => true
  | .viewChange _ => true
  | _ => false

structure RecordOf (cfg : Config) (proposal : Proposal) (prePrepare : PrePrepare)
    (prepare : Prepare) : Prop where
  carries : prePrepare.proposal = some proposal
  metadata : ∃ md, proposal.unmarshalMetadata = some md ∧ md.viewId = prePrepare.view ∧
    md.latestSequence = prePrepare.seq
  answer : prepare = {
    view := prePrepare.view, seq := prePrepare.seq, digest := cfg.digest proposal }

variable {cfg : Config} {verifier : Verifier} {nd nd' : Node} {checkpoint : Decision}
  {entries wal : List SavedMessage} {inFlight : InFlightData} {m : SavedMessage}
  {proposal : Proposal} {prePrepare : PrePrepare} {prepare : Prepare} {commit : Commit}
  {prepared : Bool} {v v' view : View} {event : ViewEvent} {outputs : List ViewOutput}

theorem RecordOf.of_accepted {pp : PrePrepare} {md : ViewMetadata} (hmatch : v.PrePreparesMatch)
    (hpp : v.prePrepare = some pp) (hproposal : pp.proposal = some proposal)
    (hmd : proposal.unmarshalMetadata = some md) (hnumber : md.viewId = v.number)
    (hseq : md.latestSequence = v.proposalSequence)
    (hprepare : prepare = v.createPrepare cfg v.proposalSequence proposal) :
    RecordOf cfg proposal pp prepare := by
  obtain ⟨hppView, hppSeq⟩ := hmatch.current pp hpp
  exact ⟨hproposal, ⟨md, hmd, hnumber.trans hppView.symm, hseq.trans hppSeq.symm⟩,
    by simp [hprepare, View.createPrepare, hppView, hppSeq]⟩

inductive LogShape (cfg : Config) : PersistedState → Prop where
  | empty {wal : List SavedMessage} (hwal : ∀ m ∈ wal, m.ofViewChange = true) :
      LogShape cfg ⟨none, wal⟩
  | proposed {inFlight : InFlightData} {proposal : Proposal} {prePrepare : PrePrepare}
      {prepare : Prepare} {rest : List SavedMessage}
      (hrecord : RecordOf cfg proposal prePrepare prepare)
      (hrest : ∀ m ∈ rest, m.ofViewChange = true)
      (hinFlight : ∀ data ∈ inFlight, data = { proposal := proposal }) :
      LogShape cfg ⟨inFlight, .proposedRecord prePrepare prepare :: rest⟩
  | prepared {inFlight : InFlightData} {proposal : Proposal} {prePrepare : PrePrepare}
      {prepare : Prepare} {commit : Commit} {before after : List SavedMessage}
      (hrecord : RecordOf cfg proposal prePrepare prepare)
      (hdigest : commit.digest = cfg.digest proposal)
      (hsignature : commit.signature.isSome = true)
      (hbefore : ∀ m ∈ before, m.ofViewChange = true)
      (hafter : ∀ m ∈ after, m.ofViewChange = true)
      (hinFlight : ∀ data ∈ inFlight, data = { proposal := proposal, prepared := true }) :
      LogShape cfg
        ⟨inFlight, .proposedRecord prePrepare prepare :: (before ++ .commit commit :: after)⟩

namespace LogShape

theorem prune (h : LogShape cfg ⟨inFlight, wal⟩) : LogShape cfg ⟨none, wal⟩ := by
  cases h with
  | empty hwal => exact .empty hwal
  | proposed hrecord hrest => exact .proposed hrecord hrest (by simp)
  | prepared hrecord hdigest hsignature hbefore hafter =>
    exact .prepared hrecord hdigest hsignature hbefore hafter (by simp)

theorem append (h : LogShape cfg ⟨inFlight, wal⟩)
    (hm : m.ofViewChange = true) : LogShape cfg ⟨inFlight, wal ++ [m]⟩ := by
  have happend : ∀ {entries : List SavedMessage}, (∀ e ∈ entries, e.ofViewChange = true) →
      ∀ e ∈ entries ++ [m], e.ofViewChange = true := by
    intro entries hentries e he
    rcases List.mem_append.mp he with hold | hnew
    · exact hentries e hold
    · exact List.mem_singleton.mp hnew ▸ hm
  cases h with
  | empty hwal => exact .empty (happend hwal)
  | proposed hrecord hrest hinFlight => exact .proposed hrecord (happend hrest) hinFlight
  | prepared hrecord hdigest hsignature hbefore hafter hinFlight =>
    rw [List.cons_append, List.append_assoc, List.cons_append]
    exact .prepared hrecord hdigest hsignature hbefore (happend hafter) hinFlight

theorem addCommit {data : InFlightProposalData} (h : LogShape cfg ⟨some data, wal⟩)
    (hhead : wal.head? = some (.proposedRecord prePrepare prepare))
    (hnone : ∀ c, .commit c ∉ wal) (hproposal : prePrepare.proposal = some proposal)
    (hdigest : commit.digest = cfg.digest proposal)
    (hsignature : commit.signature.isSome = true) :
    LogShape cfg ⟨some { data with prepared := true }, wal ++ [.commit commit]⟩ := by
  cases h with
  | @proposed _ other _ _ rest hrecord hrest hinFlight =>
    simp only [List.head?_cons, Option.some.injEq, SavedMessage.proposedRecord.injEq] at hhead
    obtain ⟨rfl, rfl⟩ := hhead
    obtain rfl : proposal = other := by simpa [hproposal] using hrecord.carries
    have hnone' : ∀ m ∈ ([] : List SavedMessage), m.ofViewChange = true := by simp
    refine .prepared hrecord hdigest hsignature hrest hnone' ?_
    intro d hd
    obtain rfl := hinFlight data rfl
    simpa [eq_comm] using hd
  | @prepared _ _ _ _ other before after => exact absurd (by simp) (hnone other)

theorem eq_nil_of_getLast?
    (hentries : ∀ m ∈ entries, m.ofViewChange = true) {front : List SavedMessage}
    (hm : m.ofViewChange = false)
    (hlast : (front ++ entries).getLast? = some m) : entries = [] := by
  rcases List.eq_nil_or_concat entries with hnil | ⟨init, last, rfl⟩
  · exact hnil
  · have hlast : last = m := by simpa [← List.append_assoc] using hlast
    simp [← hlast, hentries last] at hm

theorem eq_proposed (h : LogShape cfg ⟨inFlight, wal⟩)
    (hlast : wal.getLast? = some (.proposedRecord prePrepare prepare)) :
    wal = [.proposedRecord prePrepare prepare] ∧
      ∃ proposal, RecordOf cfg proposal prePrepare prepare := by
  cases h with
  | empty hwal =>
    have := hwal _ (List.mem_of_getLast? hlast)
    simp [SavedMessage.ofViewChange] at this
  | @proposed _ proposal pp prep rest hrecord hrest =>
    rw [← List.singleton_append] at hlast
    obtain rfl := eq_nil_of_getLast? hrest rfl hlast
    rw [List.append_nil] at hlast
    simp only [List.getLast?_singleton, Option.some.injEq,
      SavedMessage.proposedRecord.injEq] at hlast
    obtain ⟨rfl, rfl⟩ := hlast
    exact ⟨rfl, proposal, hrecord⟩
  | @prepared _ _ pp prep commit before after _ _ _ _ hafter =>
    rw [← List.singleton_append, ← List.append_assoc, List.append_cons] at hlast
    obtain rfl := eq_nil_of_getLast? hafter rfl hlast
    rw [List.append_nil, List.getLast?_concat] at hlast
    simp at hlast

theorem eq_prepared (h : LogShape cfg ⟨inFlight, wal⟩)
    (hlast : wal.getLast? = some (.commit commit))
    (hsecond : secondLast wal = some (.proposedRecord prePrepare prepare)) :
    wal = [.proposedRecord prePrepare prepare, .commit commit] ∧
      ∃ proposal, RecordOf cfg proposal prePrepare prepare ∧
        commit.digest = cfg.digest proposal ∧ commit.signature.isSome = true := by
  cases h with
  | empty hwal =>
    have := hwal _ (List.mem_of_getLast? hlast)
    simp [SavedMessage.ofViewChange] at this
  | @proposed _ proposal pp prep rest hrecord hrest =>
    rw [← List.singleton_append] at hlast
    obtain rfl := eq_nil_of_getLast? hrest rfl hlast
    simp at hlast
  | @prepared _ proposal pp prep other before after hrecord hdigest hsignature hbefore hafter =>
    have hlast' := hlast
    rw [← List.singleton_append, ← List.append_assoc, List.append_cons] at hlast'
    obtain rfl := eq_nil_of_getLast? hafter rfl hlast'
    rw [secondLast, ← List.cons_append, List.dropLast_concat, ← List.singleton_append] at hsecond
    obtain rfl := eq_nil_of_getLast? hbefore rfl hsecond
    simp only [List.append_nil, List.getLast?_singleton, Option.some.injEq,
      SavedMessage.proposedRecord.injEq] at hsecond
    obtain ⟨rfl, rfl⟩ := hsecond
    obtain rfl : other = commit := by simpa using hlast
    exact ⟨rfl, proposal, hrecord, hdigest, hsignature⟩

end LogShape

/-! ## The view and the log -/

def ViewPc.loopPhase : ViewPc → Option Phase
  | .select .processProposal => some .committed
  | .select (.processPrepares _) => some .proposed
  | .select (.processCommits _) => some .prepared
  | _ => none

structure ViewLogged (wal : List SavedMessage) (v : View) : Prop where
  prePrepares : v.PrePreparesMatch
  loop : ∀ phase ∈ v.pc.loopPhase, v.phase = phase
  proposed : v.phase = .proposed → ∃ prePrepare prepare,
    wal.head? = some (.proposedRecord prePrepare prepare) ∧ (∀ c, .commit c ∉ wal) ∧
      prePrepare.proposal = v.inFlightProposal ∧ v.lastBroadcastSent = some (.prepare prepare)
  prepared : v.phase = .prepared → v.pc.inDecide = false → ∃ prePrepare prepare commit,
    wal.head? = some (.proposedRecord prePrepare prepare) ∧ .commit commit ∈ wal ∧
      prePrepare.proposal = v.inFlightProposal ∧ v.lastBroadcastSent = some (.commit commit)

namespace ViewLogged

theorem of_idle (hmatch : v.PrePreparesMatch)
    (hloop : ∀ phase ∈ v.pc.loopPhase, v.phase = phase)
    (hphase : v.phase = .committed ∨ v.phase = .abort) : ViewLogged wal v where
  prePrepares := hmatch
  loop := hloop
  proposed h := by rcases hphase with hphase | hphase <;> simp [hphase] at h
  prepared h := by rcases hphase with hphase | hphase <;> simp [hphase] at h

theorem moved (h : ViewLogged wal v) (hmatch : v'.PrePreparesMatch)
    (hphase : v'.phase = v.phase) (hproposal : v'.inFlightProposal = v.inFlightProposal)
    (hlast : v'.lastBroadcastSent = v.lastBroadcastSent)
    (hdecide : v'.pc.inDecide = false → v.pc.inDecide = false)
    (hloop : ∀ phase ∈ v'.pc.loopPhase, v.phase = phase) : ViewLogged wal v' where
  prePrepares := hmatch
  loop := by rw [hphase]; exact hloop
  proposed := by rw [hphase, hproposal, hlast]; exact h.proposed
  prepared := by
    rw [hphase, hproposal, hlast]
    exact fun hprepared hidle => h.prepared hprepared (hdecide hidle)

theorem step (h : ViewLogged wal v)
    (htransition : View.Transition cfg verifier checkpoint v event v' outputs)
    (hsave : ∀ m, .save m ∉ outputs) : ViewLogged wal v' := by
  have hmatch := htransition.prePreparesMatch h.prePrepares
  cases htransition with
  | queued => exact h.moved hmatch rfl rfl rfl id h.loop
  | ended hpc =>
    exact h.moved hmatch rfl rfl rfl (by simp [hpc, ViewPc.inDecide])
      (by simp [ViewPc.loopPhase])
  | left => exact .of_idle hmatch (by simp [ViewPc.loopPhase]) (.inr rfl)
  | @received _ sender m rest hpc hqueue =>
    have hsame := View.processMsg_sameProgress cfg { v with incMsgs := rest } sender m
    refine h.moved hmatch hsame.phase hsame.inFlightProposal hsame.lastBroadcastSent ?_ ?_
    · rw [hsame.pc]
      exact id
    · rw [hsame.pc]
      exact h.loop
  | default hpc =>
    exact h.moved hmatch rfl rfl rfl (by simp [hpc, ViewPc.inDecide])
      (by simp [ViewPc.loopPhase])
  | sendPrepare hpc hphase =>
    exact h.moved hmatch rfl rfl rfl (by simp [hpc, ViewPc.inDecide])
      (by simp [ViewPc.loopPhase, hphase])
  | sendCommit hpc hphase =>
    exact h.moved hmatch rfl rfl rfl (by simp [hpc, ViewPc.inDecide])
      (by simp [ViewPc.loopPhase, hphase])
  | nothingToSend => exact h
  | beginProposal hpc hphase =>
    exact .of_idle hmatch (by simp [View.beginProposal, ViewPc.loopPhase, hphase]) (.inl hphase)
  | idle hpc hphase => exact .of_idle hmatch (by simp [ViewPc.loopPhase]) (.inr hphase)
  | panicked => exact h.moved hmatch rfl rfl rfl id h.loop
  | rejected =>
    exact .of_idle hmatch (by simp [View.rejectProposal, ViewPc.loopPhase]) (.inr rfl)
  | accepted => exact absurd List.mem_cons_self (hsave _)
  | otherPrepare => exact h.moved hmatch rfl rfl rfl id h.loop
  | countedPrepare hpc =>
    have hphase := h.loop .proposed (by simp [hpc, ViewPc.loopPhase])
    exact h.moved hmatch rfl rfl rfl (by simp [hpc, ViewPc.inDecide])
      (by simp [ViewPc.loopPhase, hphase])
  | otherCommit => exact h.moved hmatch rfl rfl rfl id h.loop
  | countedCommit hpc =>
    have hphase := h.loop .prepared (by simp [hpc, ViewPc.loopPhase])
    exact h.moved hmatch rfl rfl rfl (by simp [hpc, ViewPc.inDecide])
      (by simp [ViewPc.loopPhase, hphase])
  | prepared => exact absurd List.mem_cons_self (hsave _)
  | decided hpc =>
    have hphase := h.loop .prepared (by simp [hpc, ViewPc.loopPhase])
    exact ⟨hmatch, by simp [View.decide, ViewPc.loopPhase],
      by simp [View.decide, View.startNextSeq, hphase],
      by simp [View.decide, ViewPc.inDecide]⟩

theorem append (h : ViewLogged wal v) (hm : m.ofViewChange = true) :
    ViewLogged (wal ++ [m]) v where
  prePrepares := h.prePrepares
  loop := h.loop
  proposed hphase := by
    obtain ⟨pp, prepare, hhead, hnone, hproposal, hlast⟩ := h.proposed hphase
    refine ⟨pp, prepare, by simp [List.head?_append, hhead], fun c hc => ?_, hproposal, hlast⟩
    rcases List.mem_append.mp hc with hold | hnew
    · exact hnone c hold
    · obtain rfl := List.mem_singleton.mp hnew
      simp [SavedMessage.ofViewChange] at hm
  prepared hphase hidle := by
    obtain ⟨pp, prepare, commit, hhead, hcommit, hproposal, hlast⟩ := h.prepared hphase hidle
    exact ⟨pp, prepare, commit, by simp [List.head?_append, hhead],
      List.mem_append_left _ hcommit, hproposal, hlast⟩

theorem of_proposed
    (hmatch : v.PrePreparesMatch) (hpc : v.pc = .select .run) (hphase : v.phase = .proposed)
    (hcarries : prePrepare.proposal = some proposal)
    (hproposal : v.inFlightProposal = some proposal)
    (hlast : v.lastBroadcastSent = some (.prepare prepare)) :
    ViewLogged [.proposedRecord prePrepare prepare] v where
  prePrepares := hmatch
  loop := by simp [hpc, ViewPc.loopPhase]
  proposed _ := ⟨prePrepare, prepare, rfl, by simp, hcarries.trans hproposal.symm, hlast⟩
  prepared := by simp [hphase]

theorem of_prepared (hmatch : v.PrePreparesMatch) (hpc : v.pc = .select .run)
    (hphase : v.phase = .prepared)
    (hhead : wal.head? = some (.proposedRecord prePrepare prepare))
    (hcarries : prePrepare.proposal = some proposal)
    (hproposal : v.inFlightProposal = some proposal)
    (hlast : v.lastBroadcastSent = some (.commit commit)) :
    ViewLogged (wal ++ [.commit commit]) v where
  prePrepares := hmatch
  loop := by simp [hpc, ViewPc.loopPhase]
  proposed := by simp [hphase]
  prepared _ _ := ⟨prePrepare, prepare, commit, by simp [List.head?_append, hhead], by simp,
    hcarries.trans hproposal.symm, hlast⟩

end ViewLogged

structure View.Accepted (cfg : Config) (v : View) (proposal : Proposal) (prepare : Prepare)
    (v' : View) : Prop where
  number : v'.number = v.number
  proposalSequence : v'.proposalSequence = v.proposalSequence
  phase : v'.phase = .proposed
  pc : v'.pc = .select .run
  inFlightProposal : v'.inFlightProposal = some proposal
  lastBroadcastSent : v'.lastBroadcastSent = some (.prepare prepare)
  currPrepareSent : v'.currPrepareSent = some (.prepare { prepare with assist := true })
  currCommitSent : v'.currCommitSent = v.currCommitSent
  prevPrepareSent : v'.prevPrepareSent = v.prevPrepareSent
  prevCommitSent : v'.prevCommitSent = v.prevCommitSent

inductive View.Saves (cfg : Config) (v : View) : View → List ViewOutput → Prop where
  | proposed {v' : View} {pp : PrePrepare} {proposal : Proposal} {prepare : Prepare}
      {md : ViewMetadata} {rest : List ViewOutput}
      (hpc : v.pc = .select .processProposal) (hpp : v.prePrepare = some pp)
      (hproposal : pp.proposal = some proposal) (hmd : proposal.unmarshalMetadata = some md)
      (hview : md.viewId = v.number) (hseq : md.latestSequence = v.proposalSequence)
      (hprepare : prepare = v.createPrepare cfg v.proposalSequence proposal)
      (haccepted : View.Accepted cfg v proposal prepare v')
      (hrest : ∀ output ∈ rest, output = .broadcast (.prePrepare pp)) :
      Saves cfg v v' (.save (.proposedRecord pp prepare) :: rest)
  | prepared {voterIDs : List Nat} {proposal : Proposal}
      (hpc : v.pc = .select (.processPrepares voterIDs))
      (hproposal : v.inFlightProposal = some proposal)
      (henough : cfg.quorum - 1 ≤ voterIDs.length) :
      Saves cfg v (v.finishPrepares cfg voterIDs proposal).1
        (v.finishPrepares cfg voterIDs proposal).2

theorem View.acceptProposal_accepted (cfg : Config) (v : View) (pp : PrePrepare)
    (proposal : Proposal) (requests : List RequestInfo) :
    View.Accepted cfg v proposal (v.createPrepare cfg v.proposalSequence proposal)
      (v.acceptProposal cfg pp proposal requests).1 := by
  constructor <;> rfl

theorem View.Transition.saves (h : Transition cfg verifier checkpoint v event v' outputs) :
    (∀ m, .save m ∉ outputs) ∨ View.Saves cfg v v' outputs := by
  cases h with
  | received => exact .inl fun m hm => nomatch processMsg_reaction cfg _ _ _ _ hm
  | @accepted pp proposal requests supported hpc hpp hproposal hverified =>
    obtain ⟨md, hmd, hview, hseq⟩ := verifyProposal_ok hverified
    have haccepted := acceptProposal_accepted cfg
      { v with prePrepare := none, blacklistSupported := supported } pp proposal requests
    refine .inr (.proposed hpc hpp hproposal hmd hview hseq rfl { haccepted with } ?_)
    intro output houtput
    split at houtput <;> simp_all
  | prepared hpc hproposal henough => exact .inr (.prepared hpc hproposal henough)
  | _ => exact .inl (by simp [rejectProposal, View.decide])

structure LogInvariant (cfg : Config) (nd : Node) : Prop where
  shape : LogShape cfg nd.persisted
  view : nd.panicked = none → ViewLogged nd.persisted.wal nd.currView
  inFlight : ∀ v ∈ nd.inFlightView, InFlightShape v

theorem InFlightShape.move {view' : View} (h : InFlightShape view)
    (hmove : InFlightMove view view') : InFlightShape view' := by
  cases hmove with
  | stop => exact h.stop
  | decided hpc => exact h.decided hpc
  | synced hpc => exact h.synced hpc

theorem InFlightShape.saves_nothing (h : InFlightShape v)
    (htransition : View.Transition cfg verifier checkpoint v event v' outputs) :
    ∀ m, .save m ∉ outputs := by
  have hplace := h.place
  rcases htransition.saves with hnone | hsaves
  · exact hnone
  · cases hsaves with
    | proposed hpc => simp [hpc, ViewPc.committing] at hplace
    | prepared hpc => simp [hpc, ViewPc.committing] at hplace

namespace LogInvariant

theorem panic (h : LogInvariant cfg nd) (text : String) : LogInvariant cfg (nd.panic text) :=
  ⟨h.shape, by simp [Node.panic], h.inFlight⟩

theorem save_ofViewChange (h : LogInvariant cfg nd)
    (hm : m.ofViewChange = true) : LogInvariant cfg (nd.save m) := by
  rcases Node.save_cases nd m with ⟨text, hcase⟩ | ⟨persisted, hsaved, hcase⟩ <;> rw [hcase]
  · exact h.panic text
  · cases PersistedState.saved_of_save hsaved with
    | proposed => simp [SavedMessage.ofViewChange] at hm
    | prepared => simp [SavedMessage.ofViewChange] at hm
    | newView => exact ⟨h.shape.append hm, fun hlive => (h.view hlive).append hm, h.inFlight⟩
    | viewChange => exact ⟨h.shape.append hm, fun hlive => (h.view hlive).append hm, h.inFlight⟩

theorem quiet (h : LogInvariant cfg nd) (hop : QuietOp nd nd') : LogInvariant cfg nd' := by
  cases hop with
  | stopView =>
    refine ⟨h.shape, fun hlive => ?_, h.inFlight⟩
    have hview := h.view hlive
    exact hview.moved ⟨hview.prePrepares.current, hview.prePrepares.next⟩ rfl rfl rfl id
      hview.loop
  | viewDecided =>
    refine ⟨h.shape, fun hlive => ?_, h.inFlight⟩
    have hview := h.view hlive
    exact .of_idle ⟨hview.prePrepares.current, hview.prePrepares.next⟩
      (by simp [View.decided, ViewPc.loopPhase]) (.inl rfl)
  | moveInFlight hview hmove =>
    refine ⟨h.shape, h.view, fun v hv => ?_⟩
    obtain rfl := Option.some.inj hv
    exact (h.inFlight _ hview).move hmove
  | saveViewChange => exact h.save_ofViewChange rfl
  | saveNewView => exact h.save_ofViewChange rfl
  | prune => exact ⟨h.shape.prune, h.view, h.inFlight⟩
  | panic text => exact h.panic text
  | _ => exact { h with }

theorem deliver (h : LogInvariant cfg nd) (decision : Decision) (answer : DeliverAnswer) :
    LogInvariant cfg (nd.deliver decision answer) := by
  rcases Node.deliver_cases nd decision answer with ⟨text, hcase⟩ | hcase | hcase <;>
    rw [hcase]
  · exact h.panic text
  · exact { h with }
  · exact { h with }

theorem applyOutputs (h : LogInvariant cfg nd) (origin : Origin) (hsave : ∀ m, .save m ∉ outputs) :
    LogInvariant cfg (nd.applyOutputs cfg origin outputs) := by
  refine Node.applyOutputs_keeps cfg origin (fun hop hinv => quiet hinv hop) ?_ ?_ ?_ h
  · exact fun m _ mid hmid => { hmid with }
  · exact fun target m _ mid hmid => { hmid with }
  · exact fun m hm => absurd hm (hsave m)

theorem saveProposed (h : LogInvariant cfg nd)
    (hrecord : RecordOf cfg proposal prePrepare prepare) (hmatch : view.PrePreparesMatch)
    (hpc : view.pc = .select .run) (hphase : view.phase = .proposed)
    (hproposal : view.inFlightProposal = some proposal)
    (hlast : view.lastBroadcastSent = some (.prepare prepare)) :
    LogInvariant cfg ({ nd with currView := view }.save
      (.proposedRecord prePrepare prepare)) := by
  rcases Node.save_cases { nd with currView := view } (.proposedRecord prePrepare prepare) with
    ⟨text, hcase⟩ | ⟨persisted, hsaved, hcase⟩ <;> rw [hcase]
  · exact ⟨h.shape, by simp [Node.panic], h.inFlight⟩
  · cases PersistedState.saved_of_save hsaved with
    | @proposed _ _ other hother =>
      obtain rfl : proposal = other := by simpa [hrecord.carries] using hother
      exact ⟨.proposed hrecord (by simp) (by simp [eq_comm]), fun _ =>
        .of_proposed hmatch hpc hphase hrecord.carries hproposal hlast, h.inFlight⟩

theorem savePrepared (h : LogInvariant cfg nd)
    (hhead : nd.persisted.wal.head? = some (.proposedRecord prePrepare prepare))
    (hnone : ∀ c, .commit c ∉ nd.persisted.wal)
    (hcarries : prePrepare.proposal = some proposal)
    (hdigest : commit.digest = cfg.digest proposal)
    (hsignature : commit.signature.isSome = true) (hmatch : view.PrePreparesMatch)
    (hpc : view.pc = .select .run) (hphase : view.phase = .prepared)
    (hproposal : view.inFlightProposal = some proposal)
    (hlast : view.lastBroadcastSent = some (.commit commit)) :
    LogInvariant cfg ({ nd with currView := view }.save (.commit commit)) := by
  rcases Node.save_cases { nd with currView := view } (.commit commit) with
    ⟨text, hcase⟩ | ⟨persisted, hsaved, hcase⟩ <;> rw [hcase]
  · exact ⟨h.shape, by simp [Node.panic], h.inFlight⟩
  · cases PersistedState.saved_of_save hsaved with
    | @prepared _ data hdata =>
      have hshape : LogShape cfg ⟨some data, nd.persisted.wal⟩ := by
        have := h.shape
        rwa [← hdata]
      exact ⟨hshape.addCommit hhead hnone hcarries hdigest hsignature, fun _ =>
        .of_prepared hmatch hpc hphase hhead hcarries hproposal hlast, h.inFlight⟩

theorem viewStep (h : LogInvariant cfg nd) (hlive : nd.panicked = none)
    (htransition : View.Transition cfg verifier nd.checkpoint nd.currView event view outputs) :
    LogInvariant cfg
      ({ nd with currView := view }.applyOutputs cfg (.view view.number) outputs) := by
  have hview := h.view hlive
  have hmatch := htransition.prePreparesMatch hview.prePrepares
  rcases htransition.saves with hnone | hsaves
  · have hmoved : LogInvariant cfg { nd with currView := view } :=
      ⟨h.shape, fun _ => hview.step htransition hnone, h.inFlight⟩
    exact hmoved.applyOutputs _ hnone
  · cases hsaves with
    | @proposed _ pp proposal prepare md rest hpc hpp hproposal hmd hnumber hseq hprepare
        haccepted hrest =>
        have hrecord :=
          RecordOf.of_accepted hview.prePrepares hpp hproposal hmd hnumber hseq hprepare
        have hsaved := h.saveProposed hrecord hmatch haccepted.pc haccepted.phase
          haccepted.inFlightProposal haccepted.lastBroadcastSent
        refine Node.applyOutputs_cons hsaved fun _ => hsaved.applyOutputs _ fun m hm => ?_
        simpa using hrest _ hm
    | @prepared voterIDs proposal hpc hproposal henough =>
      have hphase := hview.loop .proposed (by simp [hpc, ViewPc.loopPhase])
      obtain ⟨pp, prepare, hhead, hnone, hcarries, -⟩ := hview.proposed hphase
      have hsaved := h.savePrepared hhead hnone (hcarries.trans hproposal) rfl rfl hmatch rfl
        rfl hproposal rfl
      exact Node.applyOutputs_cons hsaved fun _ => hsaved

end LogInvariant

theorem ViewLogged.catchUp {wal : List SavedMessage} (h : ViewLogged wal v)
    (hcurrent : v.prePrepare = none) (hnext : v.nextPrePrepare = none)
    (proposalSequence viewNum decisionsInView : Nat) :
    ViewLogged wal (v.catchUp proposalSequence viewNum decisionsInView) := by
  obtain ⟨_, _, _, hcaught⟩ := v.catchUp_eq proposalSequence viewNum decisionsInView
  rw [hcaught]
  exact h.moved ⟨by simp [hcurrent], by simp [hnext]⟩ rfl rfl rfl id h.loop

theorem LogShape.restored {inFlight' : InFlightData} {leader seq view dec : Nat}
    (h : LogShape cfg ⟨inFlight, entries⟩)
    (hrestored : Restored entries (.fresh leader seq view dec) v inFlight') :
    LogShape cfg ⟨inFlight', entries⟩ ∧ ViewLogged entries v ∧ v.prePrepare = none ∧
      v.nextPrePrepare = none := by
  cases hrestored with
  | nothing =>
    exact ⟨h.prune, .of_idle ⟨by simp [View.fresh], by simp [View.fresh]⟩
      (by simp [View.fresh, ViewPc.loopPhase]) (.inl rfl), rfl, rfl⟩
  | @proposed _ _ restored _ hlast hproposal =>
    obtain ⟨rfl, proposal, hrecord⟩ := h.eq_proposed hlast
    obtain rfl : proposal = restored := by simpa [hrecord.carries] using hproposal
    exact ⟨.proposed hrecord (by simp) (by simp [eq_comm]),
      .of_proposed ⟨by simp [View.fresh, View.resume], by simp [View.fresh, View.resume]⟩ rfl
        rfl hproposal rfl rfl, rfl, rfl⟩
  | @prepared pp prepare restored _ commit _ hlast hsecond _ hproposal =>
    obtain ⟨rfl, proposal, hrecord, hdigest, hsignature⟩ := h.eq_prepared hlast hsecond
    obtain rfl : proposal = restored := by simpa [hrecord.carries] using hproposal
    have hnone : ∀ m ∈ ([] : List SavedMessage), m.ofViewChange = true := by simp
    have hhead : [SavedMessage.proposedRecord pp prepare].head? =
      some (.proposedRecord pp prepare) := rfl
    exact ⟨.prepared hrecord hdigest hsignature hnone hnone (by simp [eq_comm]),
      .of_prepared ⟨by simp [View.fresh, View.resume], by simp [View.fresh, View.resume]⟩ rfl
        rfl hhead hproposal rfl rfl, rfl, rfl⟩

namespace LogInvariant

theorem boot (hshape : LogShape cfg ⟨inFlight, entries⟩)
    (h : Node.boot cfg entries checkpoint = .ok nd) : LogInvariant cfg nd := by
  obtain ⟨md, start, leader, v, inFlight', -, -, -, hrestored, rfl⟩ := Node.boot_ok h
  obtain ⟨hshape', hview, hcurrent, hnext⟩ := hshape.restored hrestored
  exact ⟨hshape', fun _ => hview.catchUp hcurrent hnext _ _ _, by simp [Node.started]⟩

theorem boot_empty (h : Node.boot cfg [] checkpoint = .ok nd) :
    LogInvariant cfg nd := by
  have hshape : LogShape cfg ⟨none, []⟩ := .empty (by simp)
  exact boot hshape h

theorem inFlightViewStep (h : LogInvariant cfg nd) {view' : View}
    (hview : nd.inFlightView = some view)
    (htransition : View.Transition cfg verifier nd.checkpoint view event view' outputs) :
    LogInvariant cfg ({ nd with inFlightView := some (Node.awaitSync view' outputs)
      }.applyOutputs cfg .inFlightView outputs) := by
  have hshape := h.inFlight view hview
  have hmoved : LogInvariant cfg
      { nd with inFlightView := some (Node.awaitSync view' outputs) } := by
    refine ⟨h.shape, h.view, fun v hv => ?_⟩
    obtain rfl := Option.some.inj hv
    exact hshape.step htransition
  exact hmoved.applyOutputs _ (hshape.saves_nothing htransition)

theorem step (h : LogInvariant cfg nd) {input : NodeInput}
    (hstep : nd.step cfg input = some nd') : LogInvariant cfg nd' := by
  obtain ⟨hlive, -, htransition⟩ := Node.step_transition hstep
  have hquiet : ∀ {a b}, QuietEffect a b → LogInvariant cfg a → LogInvariant cfg b :=
    fun heffect => QuietEffect.keeps (fun hop hinv => LogInvariant.quiet hinv hop) heffect
  cases htransition with
  | quiet _ heffect => exact hquiet heffect h
  | view htransition => exact h.viewStep (by simpa using hlive) htransition
  | inFlightView hview htransition => exact h.inFlightViewStep hview htransition
  | @inFlightDeliver view decision requests verifier answer vc hview hpc =>
    have hdelivered := h.deliver decision answer
    refine ⟨hdelivered.shape, hdelivered.view, fun v hv => ?_⟩
    obtain rfl := Option.some.inj hv
    exact (h.inFlight view hview).taken hpc
  | @decide decision requests verifier answer c hpc =>
    have hdelivered := h.deliver decision answer
    refine ⟨hdelivered.shape, fun hlive' => ?_, hdelivered.inFlight⟩
    have hview := hdelivered.view hlive'
    rw [(Node.deliver_keepsRunLoop nd decision answer).currView] at hview
    exact hview.moved ⟨hview.prePrepares.current, hview.prePrepares.next⟩ rfl rfl rfl
      (by simp [ViewPc.inDecide]) (by simp [ViewPc.loopPhase])
  | proposed =>
    refine ⟨h.shape, fun hlive' => ?_, h.inFlight⟩
    have hview := h.view hlive'
    exact hview.moved ⟨hview.prePrepares.current, hview.prePrepares.next⟩ rfl rfl rfl id
      hview.loop
  | sync _ _ _ _ heffect => exact hquiet heffect { h with }
  | restarted _ _ heffect =>
    refine hquiet heffect ⟨h.shape, fun _ => ?_, h.inFlight⟩
    exact .of_idle ⟨by simp [View.fresh], by simp [View.fresh]⟩
      (by simp [View.fresh, ViewPc.loopPhase]) (.inl rfl)
  | viewData _ _ heffect => exact hquiet heffect { h with }
  | delivered _ answer _ heffect => exact hquiet heffect (h.deliver _ answer)
  | startInFlight =>
    refine ⟨h.shape, h.view, fun v hv => ?_⟩
    obtain rfl := Option.some.inj hv
    exact Node.newInFlightView_shape cfg _ _
  | crash _ hboot =>
    have hrestarted := LogInvariant.boot h.shape hboot
    exact { hrestarted with }

theorem reachable {start : Node} {inputs : List NodeInput}
    (hboot : Node.boot cfg [] checkpoint = .ok start)
    (hrun : run (Node.step cfg) start inputs = some nd) : LogInvariant cfg nd :=
  run_invariant (fun _ _ _ h hstep => h.step hstep)
    (LogInvariant.boot_empty hboot) hrun

end LogInvariant

/-! ## What a node reports after a restart -/

def Node.Reports (nd : Node) (proposal : Proposal) (prepared : Bool) : Prop :=
  getInFlight nd.persisted.inFlight nd.checkpoint.proposal
      nd.viewChanger.committedDuringViewChange = .ok (some proposal) ∧
    nd.persisted.inFlight.isInFlightPrepared = prepared

/-- The leader that `Consensus.Start` computes; `none` is a panic. -/
def Node.restartLeader (cfg : Config) (nd : Node) : Option Nat :=
  nd.checkpointMetadata.bind fun md =>
    let start := setViewAndSeq nd.persisted.wal md.viewId md.latestSequence md.decisionsInView
    getLeaderID start.view cfg.n cfg.nodes cfg.leaderRotation start.dec
      cfg.decisionsPerLeader md.blackList

/-- The proposal is the next one after the checkpoint. -/
def Node.FollowsCheckpoint (nd : Node) (proposal : Proposal) : Prop :=
  ∃ md last, proposal.unmarshalMetadata = some md ∧ nd.checkpointMetadata = some last ∧
    md.latestSequence = last.latestSequence + 1

theorem getInFlight_some {lastDecision : Proposal} {committed : Option ViewMetadata}
    (h : getInFlight inFlight lastDecision committed = .ok (some proposal)) :
    (∃ data, inFlight = some data ∧ data.proposal = proposal) ∧
      (∃ last, lastDecision.unmarshalMetadata = some last) ∧
      getInFlight inFlight lastDecision none = .ok (some proposal) := by
  cases inFlight with
  | none => simp [getInFlight, InFlightData.inFlightProposal] at h
  | some data =>
    simp only [getInFlight, InFlightData.inFlightProposal, Option.map_some] at h ⊢
    split at h
    · simp at h
    · split at h
      · simp at h
      · rename_i hlast
        simp only [Except.ok.injEq, Option.some.injEq] at h
        exact ⟨⟨data, rfl, h⟩, ⟨{}, by simp [Proposal.unmarshalMetadata, hlast]⟩,
          by simp [h]⟩
      · rename_i hlast
        split at h
        · simp at h
        · rename_i last hreading
          have hlast : lastDecision.unmarshalMetadata = some last := by
            simp [Proposal.unmarshalMetadata, hlast, hreading]
          split at h
          · simp at h
          · rename_i hdiffers
            split at h
            · simp at h
            · simp only [Except.ok.injEq, Option.some.injEq] at h
              exact ⟨⟨data, rfl, h⟩, ⟨last, hlast⟩, by simp [hdiffers, h]⟩

theorem eq_nil_of_ofViewChange
    (hentries : ∀ m ∈ entries, m.ofViewChange = true) (hview : ∀ view, .viewChange view ∉ entries)
    (hnew : ∀ md, .newView md ∉ entries) : entries = [] := by
  refine List.eq_nil_iff_forall_not_mem.mpr fun m hm => ?_
  have hkind := hentries m hm
  cases m with
  | viewChange view => exact hview view hm
  | newView md => exact hnew md hm
  | _ => simp [SavedMessage.ofViewChange] at hkind

theorem LogShape.eq_of_no_viewChange {data : InFlightProposalData}
    {wal : List SavedMessage} (h : LogShape cfg ⟨some data, wal⟩)
    (hview : ∀ view, .viewChange view ∉ wal) (hnew : ∀ md, .newView md ∉ wal) :
    ∃ prePrepare prepare, RecordOf cfg data.proposal prePrepare prepare ∧
      ((data.prepared = false ∧ wal = [.proposedRecord prePrepare prepare]) ∨
        ∃ commit signature, data.prepared = true ∧ commit.signature = some signature ∧
          wal = [.proposedRecord prePrepare prepare, .commit commit]) := by
  cases h with
  | @proposed _ proposal pp prepare rest hrecord hrest hinFlight =>
    obtain rfl := hinFlight data rfl
    obtain rfl := eq_nil_of_ofViewChange hrest (fun view hmem => hview view (by simp [hmem]))
      (fun md hmem => hnew md (by simp [hmem]))
    exact ⟨pp, prepare, hrecord, .inl ⟨rfl, rfl⟩⟩
  | @prepared _ proposal pp prepare commit before after hrecord _ hsignature hbefore hafter
      hinFlight =>
      obtain rfl := hinFlight data rfl
      obtain rfl := eq_nil_of_ofViewChange hbefore (fun view hmem => hview view (by simp [hmem]))
        (fun md hmem => hnew md (by simp [hmem]))
      obtain rfl := eq_nil_of_ofViewChange hafter (fun view hmem => hview view (by simp [hmem]))
        (fun md hmem => hnew md (by simp [hmem]))
      obtain ⟨signature, hsignature⟩ := Option.isSome_iff_exists.mp hsignature
      exact ⟨pp, prepare, hrecord, .inr ⟨commit, signature, rfl, hsignature, rfl⟩⟩

namespace Node

theorem reports_of_boot (hinv : LogInvariant cfg nd)
    (hboot : boot cfg nd.persisted.wal nd.checkpoint = .ok nd')
    (hreports : nd'.Reports proposal prepared) :
    (nd.restartLeader cfg).isSome = true ∧ (∀ view, .viewChange view ∉ nd.persisted.wal) ∧
      (prepared = true → nd.FollowsCheckpoint proposal) := by
  obtain ⟨md, start, leader, v, inFlight, hmd, rfl, hleader, hrestored, rfl⟩ := boot_ok hboot
  obtain ⟨⟨data, hdata, rfl⟩, -, -⟩ := getInFlight_some hreports.1
  obtain rfl : prepared = data.prepared := by
    rw [← hreports.2, hdata]
    rfl
  have hdata : inFlight = some data := hdata
  have hleader : (nd.restartLeader cfg).isSome = true := by
    simp [restartLeader, checkpointMetadata, hmd, hleader]
  refine ⟨hleader, ?_⟩
  cases hrestored with
  | nothing => exact nomatch hdata
  | proposed hlast =>
    obtain ⟨hwal, -⟩ := hinv.shape.eq_proposed hlast
    obtain rfl := Option.some.inj hdata
    exact ⟨by simp [hwal], by simp⟩
  | @prepared pp prepare restored proposalMD commit signature hlast hsecond hseq hcarries
      hproposalMD =>
    obtain ⟨hwal, other, hrecord, -, -⟩ := hinv.shape.eq_prepared hlast hsecond
    obtain rfl := Option.some.inj hdata
    refine ⟨by simp [hwal], fun _ => ⟨proposalMD, md, hproposalMD, hmd, ?_⟩⟩
    obtain rfl : other = restored := by simpa [hcarries] using hrecord.carries.symm
    obtain ⟨md', hmd', -, hmdSeq⟩ := hrecord.metadata
    obtain rfl : proposalMD = md' := by simpa [hproposalMD] using hmd'
    rw [hmdSeq, hseq, hwal]
    rfl

theorem boot_reports (hinv : LogInvariant cfg nd) (hreports : nd.Reports proposal prepared)
    (hnew : ∀ md, .newView md ∉ nd.persisted.wal)
    (hleader : (nd.restartLeader cfg).isSome = true)
    (hview : ∀ view, .viewChange view ∉ nd.persisted.wal)
    (hnext : prepared = true → nd.FollowsCheckpoint proposal) :
    ∃ nd', boot cfg nd.persisted.wal nd.checkpoint = .ok nd' ∧
      nd'.Reports proposal prepared := by
  obtain ⟨⟨data, hdata, rfl⟩, ⟨last, hlast⟩, hagain⟩ := getInFlight_some hreports.1
  obtain rfl : prepared = data.prepared := by
    rw [← hreports.2, hdata]
    rfl
  have hshape : LogShape cfg ⟨some data, nd.persisted.wal⟩ := hdata ▸ hinv.shape
  obtain ⟨leader, hleader⟩ := Option.isSome_iff_exists.mp hleader
  simp only [restartLeader, checkpointMetadata, hlast, Option.bind_some] at hleader
  obtain ⟨pp, prepare, hrecord, hwal⟩ := hshape.eq_of_no_viewChange hview hnew
  obtain ⟨md, hmd, -, hmdSeq⟩ := hrecord.metadata
  rw [hdata] at hagain
  obtain ⟨proposal, flag⟩ := data
  rcases hwal with ⟨hflag, hwal⟩ | ⟨commit, signature, hflag, hsignature, hwal⟩
  · simp only at hflag
    subst hflag
    rw [hwal] at hleader ⊢
    simp only [boot, hlast, hleader, newProposer, restore, List.getLast?_singleton,
      recoverProposed, restoreProposal, hrecord.carries, hmd, Except.map]
    exact ⟨_, rfl, hagain, rfl⟩
  · simp only at hflag
    subst hflag
    obtain ⟨md', last', hmd', hlast', hseq⟩ := hnext rfl
    obtain rfl : md = md' := by simpa [hmd] using hmd'
    obtain rfl : last = last' := by simpa [checkpointMetadata, hlast] using hlast'
    rw [hwal] at hleader ⊢
    have hstart : (setViewAndSeq [.proposedRecord pp prepare, .commit commit] last.viewId
      last.latestSequence last.decisionsInView).seq + 1 = pp.seq := by
        rw [← hmdSeq, hseq]
        rfl
    simp only [boot, hlast, hleader, newProposer, restore, List.getLast?_cons_cons,
      List.getLast?_singleton, recoverPrepared, secondLast, List.dropLast, View.fresh, hstart,
      lt_irrefl, if_false, hsignature, restoreProposal, hrecord.carries, hmd, Except.map]
    exact ⟨_, rfl, hagain, rfl⟩

end Node

/--
What a node would report in its view data just before a crash, it reports again
after the restart if and only if a leader can be found, no view change record
stands behind the record of the proposal, and a prepared proposal is the next one
after the checkpoint.
-/
theorem restart_reports_iff {cfg : Config} {checkpoint : Decision} {start nd : Node}
    {inputs : List NodeInput} {proposal : Proposal} {prepared : Bool}
    (hboot : Node.boot cfg [] checkpoint = .ok start)
    (hrun : run (Node.step cfg) start inputs = some nd)
    (hreports : nd.Reports proposal prepared)
    (hnew : ∀ md, .newView md ∉ nd.persisted.wal) :
    (∃ nd', Node.boot cfg nd.persisted.wal nd.checkpoint = .ok nd' ∧
        nd'.Reports proposal prepared) ↔
      (nd.restartLeader cfg).isSome = true ∧
        (∀ view, .viewChange view ∉ nd.persisted.wal) ∧
        (prepared = true → nd.FollowsCheckpoint proposal) := by
  have hinv := LogInvariant.reachable hboot hrun
  constructor
  · rintro ⟨nd', hrestarted, hagain⟩
    exact Node.reports_of_boot hinv hrestarted hagain
  · rintro ⟨hleader, hview, hnext⟩
    exact Node.boot_reports hinv hreports hnew hleader hview hnext

instance (nd : Node) (proposal : Proposal) (prepared : Bool) :
    Decidable (nd.Reports proposal prepared) :=
  inferInstanceAs (Decidable (_ ∧ _))

/-- A node that is prepared and crashes is prepared after the restart. -/
theorem restart_reports_iff_prepared :
    ∃ nd, run (Node.step (clusterOfFour 3)) (nodeOfFour 3)
        (accepting (acceptFirst [7] ++ prepareFirst "seven" 1 2)) = some nd ∧
      nd.Reports (firstProposal [7]) true ∧
      ∃ nd', Node.boot (clusterOfFour 3) nd.persisted.wal nd.checkpoint = .ok nd' ∧
        nd'.Reports (firstProposal [7]) true := by
  refine exists_of_isSome (by decide +kernel) fun hrun => ⟨by decide +kernel, ?_⟩
  refine (restart_reports_iff (boot_nodeOfFour 3) hrun (by decide +kernel) fun md hmem => ?_).mpr
    ⟨by decide +kernel, fun view hmem => ?_,
      fun _ => ⟨{ latestSequence := 1 }, {}, rfl, by decide +kernel, rfl⟩⟩ <;>
    have hother :=
      (by decide +kernel : ∀ m ∈ (_ : List SavedMessage), m.ofViewChange = false) _ hmem
  · simp [SavedMessage.ofViewChange] at hother
  · simp [SavedMessage.ofViewChange] at hother

/-- A node that is prepared, joins a view change and crashes has forgotten its
proposal after the restart. -/
theorem restart_forgets_prepared :
    Node.boot (clusterOfFour 3) [] {} = .ok (nodeOfFour 3) ∧
    ∃ nd, run (Node.step (clusterOfFour 3)) (nodeOfFour 3)
        (accepting (acceptFirst [7] ++ prepareFirst "seven" 1 2 ++
          [.viewChanger (.msg 1 (.viewChange 1)), .viewChanger (.msg 4 (.viewChange 1)),
            .viewChanger .abortSent])) = some nd ∧
      nd.Reports (firstProposal [7]) true ∧ (∀ md, .newView md ∉ nd.persisted.wal) ∧
      ∃ nd', Node.boot (clusterOfFour 3) nd.persisted.wal nd.checkpoint = .ok nd' ∧
        ¬ nd'.Reports (firstProposal [7]) true := by
  refine ⟨rfl, exists_of_isSome (by decide +kernel) fun _ => ⟨by decide +kernel,
    fun md hmem => ?_, exists_ok_of_any (by decide +kernel)⟩⟩
  have hfirst := (by decide +kernel : ∀ m ∈ (_ : List SavedMessage), m.ofViewChange = true →
    m = .viewChange 0) _ hmem rfl
  simp at hfirst

end SmartBFT
