import SmartBFT.Node.Log

/-!
# The votes of a node

A node votes by accepting a proposal, which it records before it broadcasts its
prepare, and by saving a commit.  Within one view the two happen once for each
sequence.  But `changeView` may start a view again at a sequence for which the
node has voted, a restart may do the same, and `commitInFlightProposal` sends a
commit for whatever proposal the new view message carries: a node may contradict
itself (`restart_equivocates`).

If views are started above the records of the node only, and an in-flight proposal
is committed only by nodes that have prepared it, then the node never broadcasts
two votes for one view and sequence (`never_equivocates`).
-/

namespace SmartBFT

open SmartBFT.Foundation

/-! ## The history of votes -/

def Backed (trace : List Action) : Message → Prop
  | .prepare m => ∃ prePrepare prepare, .save (.proposedRecord prePrepare prepare) ∈ trace ∧
      m.view = prepare.view ∧ m.seq = prepare.seq ∧ m.digest = prepare.digest
  | .commit m => ∃ commit, .save (.commit commit) ∈ trace ∧
      m.view = commit.view ∧ m.seq = commit.seq ∧ m.digest = commit.digest
  | .prePrepare m => ∃ prepare, .save (.proposedRecord m prepare) ∈ trace
  | _ => True

variable {cfg : Config} {scope : Nat → Prop} {covers : Message → Prop} {verifier : Verifier}
  {nd nd' : Node} {trace : List Action} {wal : List SavedMessage} {checkpoint : Decision}
  {proposal : Proposal} {pp : PrePrepare} {prepare : Prepare} {commit : Commit}
  {v v' view : View} {event : ViewEvent} {outputs : List ViewOutput} {m : Message}

theorem Backed.mono {trace' : List Action} (h : Backed trace m)
    (hsub : trace ⊆ trace') : Backed trace' m := by
  cases m with
  | prepare m =>
    obtain ⟨pp, prepare, hmem, heq⟩ := h
    exact ⟨pp, prepare, hsub hmem, heq⟩
  | commit m =>
    obtain ⟨commit, hmem, heq⟩ := h
    exact ⟨commit, hsub hmem, heq⟩
  | prePrepare m =>
    obtain ⟨prepare, hmem⟩ := h
    exact ⟨prepare, hsub hmem⟩
  | _ => trivial

def Action.Sends (action : Action) (m : Message) : Prop :=
  (∃ origin, action = .broadcast origin m) ∨ ∃ target, action = .send target m

def RecordHistory.Votes : Action → Bool
  | .save (.proposedRecord _ _) => true
  | .save (.commit _) => true
  | _ => false

structure RecordHistory (cfg : Config) (scope : Nat → Prop) (trace : List Action) : Prop where
  record : ∀ prePrepare prepare, .save (.proposedRecord prePrepare prepare) ∈ trace →
    ∃ proposal, RecordOf cfg proposal prePrepare prepare
  unique : ∀ pp prepare pp' prepare', .save (.proposedRecord pp prepare) ∈ trace →
    .save (.proposedRecord pp' prepare') ∈ trace → scope pp.view → pp.view = pp'.view →
      pp.seq = pp'.seq → pp = pp' ∧ prepare = prepare'
  commit : ∀ commit, .save (.commit commit) ∈ trace → scope commit.view →
    ∃ prePrepare prepare, .save (.proposedRecord prePrepare prepare) ∈ trace ∧
      commit.view = prePrepare.view ∧ commit.seq = prePrepare.seq ∧
      commit.digest = prepare.digest

namespace RecordHistory

theorem nil (cfg : Config) (scope : Nat → Prop) : RecordHistory cfg scope [] := by
  constructor <;> simp

theorem cons_other (h : RecordHistory cfg scope trace) {action : Action}
    (hvotes : RecordHistory.Votes action = false) :
    RecordHistory cfg scope (action :: trace) := by
  have hrecord : ∀ {pp prepare}, .save (.proposedRecord pp prepare) ∈ action :: trace →
      .save (.proposedRecord pp prepare) ∈ trace := by
    intro pp prepare hmem
    rcases List.mem_cons.mp hmem with rfl | hold
    · simp [RecordHistory.Votes] at hvotes
    · exact hold
  refine ⟨fun pp prepare hmem => h.record pp prepare (hrecord hmem),
    fun pp prepare pp' prepare' hmem hmem' =>
      h.unique pp prepare pp' prepare' (hrecord hmem) (hrecord hmem'), ?_⟩
  intro commit hmem hscope
  rcases List.mem_cons.mp hmem with rfl | hold
  · simp [RecordHistory.Votes] at hvotes
  · obtain ⟨pp, prepare, hpp, heq⟩ := h.commit commit hold hscope
    exact ⟨pp, prepare, List.mem_cons_of_mem _ hpp, heq⟩

theorem cons_record (h : RecordHistory cfg scope trace) (hrecord : RecordOf cfg proposal pp prepare)
    (hfresh : scope pp.view → ∀ pp' prepare', .save (.proposedRecord pp' prepare') ∈ trace →
      pp'.view = pp.view → pp'.seq < pp.seq) :
    RecordHistory cfg scope (.save (.proposedRecord pp prepare) :: trace) := by
  refine ⟨?_, ?_, ?_⟩
  · intro pp' prepare' hmem
    rcases List.mem_cons.mp hmem with hnew | hold
    · obtain ⟨rfl, rfl⟩ : pp' = pp ∧ prepare' = prepare := by simpa using hnew
      exact ⟨proposal, hrecord⟩
    · exact h.record pp' prepare' hold
  · intro pp₁ prepare₁ pp₂ prepare₂ hmem₁ hmem₂ hscope hview hseq
    rcases List.mem_cons.mp hmem₁ with hnew₁ | hold₁ <;>
      rcases List.mem_cons.mp hmem₂ with hnew₂ | hold₂
    · simp only [Action.save.injEq, SavedMessage.proposedRecord.injEq] at hnew₁ hnew₂
      exact ⟨hnew₁.1.trans hnew₂.1.symm, hnew₁.2.trans hnew₂.2.symm⟩
    · obtain ⟨rfl, rfl⟩ : pp₁ = pp ∧ prepare₁ = prepare := by simpa using hnew₁
      have := hfresh hscope pp₂ prepare₂ hold₂ hview.symm
      omega
    · obtain ⟨rfl, rfl⟩ : pp₂ = pp ∧ prepare₂ = prepare := by simpa using hnew₂
      have := hfresh (hview ▸ hscope) pp₁ prepare₁ hold₁ hview
      omega
    · exact h.unique pp₁ prepare₁ pp₂ prepare₂ hold₁ hold₂ hscope hview hseq
  · intro commit hmem hscope
    obtain ⟨pp', prepare', hpp, heq⟩ := h.commit commit (by simpa using hmem) hscope
    exact ⟨pp', prepare', List.mem_cons_of_mem _ hpp, heq⟩

theorem cons_commit (h : RecordHistory cfg scope trace)
    (hrecord : scope commit.view → ∃ pp prepare, .save (.proposedRecord pp prepare) ∈ trace ∧
      commit.view = pp.view ∧ commit.seq = pp.seq ∧ commit.digest = prepare.digest) :
    RecordHistory cfg scope (.save (.commit commit) :: trace) := by
  refine ⟨fun pp prepare hmem => h.record pp prepare (by simpa using hmem),
    fun pp prepare pp' prepare' hmem hmem' =>
      h.unique pp prepare pp' prepare' (by simpa using hmem) (by simpa using hmem'), ?_⟩
  intro other hmem hscope
  have hfound : ∃ pp prepare, .save (.proposedRecord pp prepare) ∈ trace ∧
      other.view = pp.view ∧ other.seq = pp.seq ∧ other.digest = prepare.digest := by
    rcases List.mem_cons.mp hmem with hnew | hold
    · obtain rfl : other = commit := by simpa using hnew
      exact hrecord hscope
    · exact h.commit other hold hscope
  obtain ⟨pp, prepare, hpp, heq⟩ := hfound
  exact ⟨pp, prepare, List.mem_cons_of_mem _ hpp, heq⟩

theorem answer (h : RecordHistory cfg scope trace)
    (hmem : .save (.proposedRecord pp prepare) ∈ trace) :
    prepare.view = pp.view ∧ prepare.seq = pp.seq := by
  obtain ⟨proposal, hrecord⟩ := h.record pp prepare hmem
  simp [hrecord.answer]

theorem prepare_unique (h : RecordHistory cfg scope trace) {m m' : Prepare}
    (hm : Backed trace (.prepare m)) (hm' : Backed trace (.prepare m')) (hscope : scope m.view)
    (hview : m.view = m'.view) (hseq : m.seq = m'.seq) : m.digest = m'.digest := by
  obtain ⟨pp, prepare, hpp, hmview, hmseq, hdigest⟩ := hm
  obtain ⟨pp', prepare', hpp', hmview', hmseq', hdigest'⟩ := hm'
  obtain ⟨hpv, hps⟩ := h.answer hpp
  obtain ⟨hpv', hps'⟩ := h.answer hpp'
  rw [hmview, hpv] at hscope
  obtain ⟨-, rfl⟩ := h.unique pp prepare pp' prepare' hpp hpp' hscope (by omega) (by omega)
  rw [hdigest, hdigest']

theorem backed_of_commit (h : RecordHistory cfg scope trace)
    (hcommit : .save (.commit commit) ∈ trace) (hscope : scope commit.view) :
    Backed trace (.prepare {
      view := commit.view, seq := commit.seq, digest := commit.digest }) := by
  obtain ⟨pp, prepare, hpp, hview, hseq, hdigest⟩ := h.commit commit hcommit hscope
  obtain ⟨hpv, hps⟩ := h.answer hpp
  exact ⟨pp, prepare, hpp, hview.trans hpv.symm, hseq.trans hps.symm, hdigest⟩

theorem commit_unique (h : RecordHistory cfg scope trace) {commit' : Commit}
    (hcommit : .save (.commit commit) ∈ trace) (hcommit' : .save (.commit commit') ∈ trace)
    (hscope : scope commit.view) (hview : commit.view = commit'.view)
    (hseq : commit.seq = commit'.seq) : commit.digest = commit'.digest :=
  h.prepare_unique (h.backed_of_commit hcommit hscope)
    (h.backed_of_commit hcommit' (hview ▸ hscope)) hscope hview hseq

end RecordHistory

/-! ## The view and its votes -/

def View.Stores (v : View) (m : Message) : Prop :=
  v.lastBroadcastSent = some m ∨ v.currPrepareSent = some m ∨ v.currCommitSent = some m ∨
    v.prevPrepareSent = some m ∨ v.prevCommitSent = some m

namespace View

theorem SameProgress.stores (h : SameProgress v v') {m : Message} (hm : v'.Stores m) :
    v.Stores m := by
  simpa only [Stores, h.lastBroadcastSent, h.currPrepareSent, h.currCommitSent,
    h.prevPrepareSent, h.prevCommitSent] using hm

theorem Transition.stores (h : Transition cfg verifier checkpoint v event v' outputs)
    (hsave : ∀ m, .save m ∉ outputs) (hm : v'.Stores m) : v.Stores m := by
  cases h with
  | @received _ sender message rest =>
    exact SameProgress.stores
      (processMsg_sameProgress cfg { v with incMsgs := rest } sender message) hm
  | beginProposal =>
    simp only [Stores, View.beginProposal, reduceCtorEq, false_or] at hm ⊢
    rcases hm with hm | hm
    · exact .inr (.inl hm)
    · exact .inr (.inr (.inl hm))
  | accepted => exact absurd List.mem_cons_self (hsave _)
  | prepared => exact absurd List.mem_cons_self (hsave _)
  | _ => exact hm

theorem Transition.broadcasts (h : Transition cfg verifier checkpoint v event v' outputs)
    (hsave : ∀ m, .save m ∉ outputs) (hm : .broadcast m ∈ outputs) :
    v.Stores m := by
  cases h with
  | received => exact nomatch processMsg_reaction cfg _ _ _ _ hm
  | sendPrepare _ _ hlast =>
    simp only [List.mem_singleton, ViewOutput.broadcast.injEq] at hm
    exact .inl (hm ▸ hlast)
  | sendCommit _ _ hlast =>
    simp only [List.mem_singleton, ViewOutput.broadcast.injEq] at hm
    exact .inl (hm ▸ hlast)
  | accepted => exact absurd List.mem_cons_self (hsave _)
  | _ => simp [rejectProposal, finishPrepares, View.decide] at hm

theorem Transition.sends (h : Transition cfg verifier checkpoint v event v' outputs)
    {target : Nat} (hm : .send target m ∈ outputs) : v.Stores m := by
  cases h with
  | @received _ sender message rest =>
    have hreaction := processMsg_reaction cfg { v with incMsgs := rest } sender message _ hm
    cases hreaction with
    | send _ hstored =>
      rcases hstored with hstored | hstored
      · exact .inr (.inr (.inr (.inl hstored)))
      · exact .inr (.inr (.inr (.inr hstored)))
  | accepted =>
    simp only [acceptProposal] at hm
    split at hm <;> simp at hm
  | _ => simp [rejectProposal, finishPrepares, View.decide] at hm

end View

structure Placed (trace : List Action) (wal : List SavedMessage) (v : View) : Prop where
  free : v.phase = .committed ∨ v.pc.inDecide = true →
    ∀ pp prepare, .save (.proposedRecord pp prepare) ∈ trace → pp.view = v.number →
      pp.seq < v.proposalSequence
  held : v.phase = .proposed ∨ v.phase = .prepared → v.pc.inDecide = false →
    ∀ pp prepare, .save (.proposedRecord pp prepare) ∈ trace → pp.view = v.number →
      pp.seq ≤ v.proposalSequence
  head : v.phase = .proposed ∨ v.phase = .prepared → v.pc.inDecide = false →
    ∀ pp prepare, wal.head? = some (.proposedRecord pp prepare) →
      pp.view = v.number ∧ pp.seq = v.proposalSequence
  stored : ∀ m, v.Stores m → Backed trace m

namespace Placed

theorem moved (h : Placed trace wal v) (hnumber : v'.number = v.number)
    (hsequence : v'.proposalSequence = v.proposalSequence) (hphase : v'.phase = v.phase)
    (hdecide : v'.pc.inDecide = v.pc.inDecide)
    (hstored : ∀ m, v'.Stores m → v.Stores m) : Placed trace wal v' where
  free := by rw [hnumber, hsequence, hphase, hdecide]; exact h.free
  held := by rw [hnumber, hsequence, hphase, hdecide]; exact h.held
  head := by rw [hnumber, hsequence, hphase, hdecide]; exact h.head
  stored m hm := h.stored m (hstored m hm)

theorem of_abort (hphase : v.phase = .abort) (hpc : v.pc.inDecide = false)
    (hstored : ∀ m, v.Stores m → Backed trace m) : Placed trace wal v :=
  ⟨by simp [hphase, hpc], by simp [hphase], by simp [hphase], hstored⟩

theorem of_free (hphase : v.phase = .committed)
    (hfree : ∀ pp prepare, .save (.proposedRecord pp prepare) ∈ trace → pp.view = v.number →
      pp.seq < v.proposalSequence)
    (hstored : ∀ m, v.Stores m → Backed trace m) : Placed trace wal v :=
  ⟨fun _ => hfree, by simp [hphase], by simp [hphase], hstored⟩

theorem step (h : Placed trace wal v) (hlogged : ViewLogged wal v)
    (htransition : View.Transition cfg verifier checkpoint v event v' outputs)
    (hsave : ∀ m, .save m ∉ outputs) : Placed trace wal v' := by
  have hstored : ∀ m, v'.Stores m → Backed trace m :=
    fun m hm => h.stored m (htransition.stores hsave hm)
  have hkeep : ∀ m, v'.Stores m → v.Stores m := fun m => htransition.stores hsave
  cases htransition with
  | left => exact .of_abort rfl rfl hstored
  | @received _ sender m rest hpc =>
    have hsame := View.processMsg_sameProgress cfg { v with incMsgs := rest } sender m
    exact h.moved hsame.number hsame.proposalSequence hsame.phase (by rw [hsame.pc]) hkeep
  | beginProposal hpc hphase => exact .of_free hphase (h.free (.inl hphase)) hstored
  | idle hpc hphase => exact .of_abort hphase rfl hstored
  | panicked => exact h.moved rfl rfl rfl rfl hkeep
  | rejected => exact .of_abort rfl rfl hstored
  | accepted => exact absurd List.mem_cons_self (hsave _)
  | prepared => exact absurd List.mem_cons_self (hsave _)
  | decided hpc =>
    have hphase := hlogged.loop .prepared (by simp [hpc, ViewPc.loopPhase])
    have hheld := h.held (.inr hphase) (by simp [hpc, ViewPc.inDecide])
    refine ⟨fun _ pp prepare hmem hview => Nat.lt_succ_of_le (hheld pp prepare hmem hview),
      ?_, ?_, hstored⟩
    · simp [View.decide, ViewPc.inDecide]
    · simp [View.decide, ViewPc.inDecide]
  | queued => exact h.moved rfl rfl rfl rfl hkeep
  | nothingToSend => exact h
  | otherPrepare => exact h.moved rfl rfl rfl rfl hkeep
  | otherCommit => exact h.moved rfl rfl rfl rfl hkeep
  | _ => exact h.moved rfl rfl rfl (by simp [*, ViewPc.inDecide]) hkeep

theorem cons_other (h : Placed trace wal v) {action : Action}
    (hvotes : RecordHistory.Votes action = false) : Placed (action :: trace) wal v := by
  have hrecord : ∀ {pp prepare}, .save (.proposedRecord pp prepare) ∈ action :: trace →
      .save (.proposedRecord pp prepare) ∈ trace := by
    intro pp prepare hmem
    rcases List.mem_cons.mp hmem with rfl | hold
    · simp [RecordHistory.Votes] at hvotes
    · exact hold
  exact ⟨fun hfree pp prepare hmem => h.free hfree pp prepare (hrecord hmem),
    fun hheld hidle pp prepare hmem => h.held hheld hidle pp prepare (hrecord hmem), h.head,
    fun m hm => (h.stored m hm).mono (List.subset_cons_self _ _)⟩

theorem append (h : Placed trace wal v) {m : SavedMessage} (hm : m.ofViewChange = true) :
    Placed trace (wal ++ [m]) v := by
  refine ⟨h.free, h.held, fun hheld hidle pp prepare hhead => ?_, h.stored⟩
  cases wal with
  | nil =>
    obtain rfl : m = .proposedRecord pp prepare := by simpa using hhead
    simp [SavedMessage.ofViewChange] at hm
  | cons first rest => exact h.head hheld hidle pp prepare (by simpa using hhead)

end Placed

theorem View.Accepted.backed (haccepted : View.Accepted cfg v proposal prepare v')
    (hstored : ∀ m, v.Stores m → Backed trace m) (hm : v'.Stores m) :
    Backed (.save (.proposedRecord pp prepare) :: trace) m := by
  have hsaved : Action.save (.proposedRecord pp prepare) ∈
      Action.save (.proposedRecord pp prepare) :: trace := List.mem_cons_self
  simp only [View.Stores, haccepted.lastBroadcastSent, haccepted.currPrepareSent,
    haccepted.currCommitSent, haccepted.prevPrepareSent, haccepted.prevCommitSent,
    Option.some.injEq] at hm
  rcases hm with rfl | rfl | hm | hm | hm
  · exact ⟨pp, prepare, hsaved, rfl, rfl, rfl⟩
  · exact ⟨pp, prepare, hsaved, rfl, rfl, rfl⟩
  · exact (hstored m (.inr (.inr (.inl hm)))).mono (List.subset_cons_self _ _)
  · exact (hstored m (.inr (.inr (.inr (.inl hm))))).mono (List.subset_cons_self _ _)
  · exact (hstored m (.inr (.inr (.inr (.inr hm))))).mono (List.subset_cons_self _ _)

theorem View.finishPrepares_backed {voterIDs : List Nat}
    (hcommit : (v.finishPrepares cfg voterIDs proposal).2 = [.save (.commit commit)])
    (hstored : ∀ m, v.Stores m → Backed trace m)
    (hm : (v.finishPrepares cfg voterIDs proposal).1.Stores m) :
    Backed (.save (.commit commit) :: trace) m := by
  have hsaved : Action.save (.commit commit) ∈ Action.save (.commit commit) :: trace :=
    List.mem_cons_self
  simp only [View.finishPrepares, List.cons.injEq, ViewOutput.save.injEq,
    SavedMessage.commit.injEq, and_true] at hcommit
  subst hcommit
  simp only [View.Stores, View.finishPrepares, Option.some.injEq] at hm
  rcases hm with rfl | hm | rfl | hm | hm
  · exact ⟨_, hsaved, rfl, rfl, rfl⟩
  · exact (hstored m (.inr (.inl hm))).mono (List.subset_cons_self _ _)
  · exact ⟨_, hsaved, rfl, rfl, rfl⟩
  · exact (hstored m (.inr (.inr (.inr (.inl hm))))).mono (List.subset_cons_self _ _)
  · exact (hstored m (.inr (.inr (.inr (.inr hm))))).mono (List.subset_cons_self _ _)

theorem Placed.proposed {wal : List SavedMessage}
    (h : Placed trace wal v) (hphase : v.phase = .committed)
    (haccepted : View.Accepted cfg v proposal prepare v') (hview : pp.view = v.number)
    (hseq : pp.seq = v.proposalSequence) :
    Placed (.save (.proposedRecord pp prepare) :: trace) [.proposedRecord pp prepare] v' := by
  refine ⟨?_, ?_, ?_, fun m => haccepted.backed h.stored⟩
  · simp [haccepted.phase, haccepted.pc, ViewPc.inDecide]
  · intro _ _ pp' prepare' hmem hview'
    rw [haccepted.proposalSequence]
    rcases List.mem_cons.mp hmem with hnew | hold
    · obtain ⟨rfl, rfl⟩ : pp' = pp ∧ prepare' = prepare := by simpa using hnew
      exact hseq.le
    · exact (h.free (.inl hphase) pp' prepare' hold (hview'.trans haccepted.number)).le
  · intro _ _ pp' prepare' hhead
    obtain ⟨rfl, rfl⟩ : pp = pp' ∧ prepare = prepare' := by simpa using hhead
    exact ⟨hview.trans haccepted.number.symm, hseq.trans haccepted.proposalSequence.symm⟩

theorem Placed.prepared {wal : List SavedMessage} {voterIDs : List Nat} (h : Placed trace wal v)
    (hphase : v.phase = .proposed) (hpc : v.pc.inDecide = false)
    (hhead : wal.head? = some (.proposedRecord pp prepare))
    (hcommit : (v.finishPrepares cfg voterIDs proposal).2 = [.save (.commit commit)]) :
    Placed (.save (.commit commit) :: trace) (wal ++ [.commit commit])
      (v.finishPrepares cfg voterIDs proposal).1 := by
  refine ⟨?_, ?_, ?_, fun m => View.finishPrepares_backed hcommit h.stored⟩
  · simp [View.finishPrepares, ViewPc.inDecide]
  · exact fun _ _ pp' prepare' hmem => h.held (.inl hphase) hpc pp' prepare' (by simpa using hmem)
  · intro _ _ pp' prepare' hhead'
    refine h.head (.inl hphase) hpc pp' prepare' ?_
    simpa [List.head?_append, hhead] using hhead'

def Node.freshFor (nd : Node) (v : View) : Bool :=
  if v.phase = .committed then
    nd.trace.all fun
      | .save (.proposedRecord pp _) =>
        decide (pp.view = v.number → pp.seq < v.proposalSequence)
      | _ => true
  else
    (nd.trace.all fun
      | .save (.proposedRecord pp _) =>
        decide (pp.view = v.number → pp.seq ≤ v.proposalSequence)
      | _ => true) &&
      match nd.persisted.wal.head? with
      | some (.proposedRecord pp _) =>
        decide (pp.view = v.number ∧ pp.seq = v.proposalSequence)
      | _ => true

def startsFresh (cfg : Config) (nd : Node) (input : NodeInput) : Bool :=
  match input.event, nd.controller.pc with
  | .controller .viewEnded, .aborting (.start view seq dec _) =>
    nd.freshFor (.fresh cfg.selfID seq view dec)
  | .crash, _ =>
    match Node.boot cfg nd.persisted.wal nd.checkpoint with
    | .ok restarted => nd.freshFor restarted.currView
    | .error _ => true
  | _, _ => true

def commitsPrepared (cfg : Config) (nd : Node) (input : NodeInput) : Bool :=
  match input.event, nd.viewChanger.pc with
  | .viewChanger .commitInFlight, .commitInFlight _ (some proposal) _ =>
    match Node.planInFlight nd.checkpoint proposal with
    | .commit md => nd.trace.any fun
        | .save (.commit commit) => decide (commit.view = md.viewId ∧
            commit.seq = md.latestSequence ∧ commit.digest = cfg.digest proposal)
        | _ => false
    | _ => true
  | _, _ => true

theorem Placed.of_freshFor (h : nd.freshFor v = true)
    (hpc : v.pc.inDecide = false) (hstored : ∀ m, v.Stores m → Backed nd.trace m) :
    Placed nd.trace nd.persisted.wal v := by
  unfold Node.freshFor at h
  split at h
  · rename_i hphase
    refine .of_free hphase (fun pp prepare hmem => ?_) hstored
    exact of_decide_eq_true (List.all_eq_true.mp h _ hmem)
  · rename_i hphase
    obtain ⟨hall, hhead⟩ := Bool.and_eq_true_iff.mp h
    refine ⟨by simp [hphase, hpc], fun _ _ pp prepare hmem => ?_,
      fun _ _ pp prepare hlog => ?_, hstored⟩
    · exact of_decide_eq_true (List.all_eq_true.mp hall _ hmem)
    · simpa [hlog] using hhead

structure VotesKept (cfg : Config) (scope : Nat → Prop) (covers : Message → Prop)
    (nd : Node) : Prop where
  history : RecordHistory cfg scope nd.trace
  sent : ∀ action ∈ nd.trace, ∀ m, action.Sends m → covers m → Backed nd.trace m
  logged : ∀ m ∈ nd.persisted.wal, .save m ∈ nd.trace
  view : nd.panicked = none → scope nd.currView.number →
    Placed nd.trace nd.persisted.wal nd.currView
  stored : nd.panicked = none → ∀ m, nd.currView.Stores m → Backed nd.trace m
  inFlight : ∀ v ∈ nd.inFlightView, ∀ m, covers m → v.Stores m → Backed nd.trace m

namespace VotesKept

theorem record (h : VotesKept cfg scope covers nd) {action : Action}
    (hvotes : RecordHistory.Votes action = false)
    (hbacked : ∀ m, action.Sends m → covers m → Backed nd.trace m) :
    VotesKept cfg scope covers (nd.record action) := by
  have hmono : ∀ {m}, Backed nd.trace m → Backed (action :: nd.trace) m :=
    fun hm => hm.mono (List.subset_cons_self _ _)
  refine ⟨h.history.cons_other hvotes, fun other hother m hsends hm => ?_,
    fun m hm => List.mem_cons_of_mem _ (h.logged m hm),
    fun hlive hscope => (h.view hlive hscope).cons_other hvotes,
    fun hlive m hm => hmono (h.stored hlive m hm),
    fun v hv m hcovers hm => hmono (h.inFlight v hv m hcovers hm)⟩
  rcases List.mem_cons.mp hother with rfl | hold
  · exact hmono (hbacked m hsends hm)
  · exact hmono (h.sent other hold m hsends hm)

theorem panic (h : VotesKept cfg scope covers nd) (text : String) :
    VotesKept cfg scope covers (nd.panic text) :=
  { h with view := by simp [Node.panic], stored := by simp [Node.panic] }

theorem save_ofViewChange (h : VotesKept cfg scope covers nd) {m : SavedMessage}
    (hm : m.ofViewChange = true) : VotesKept cfg scope covers (nd.save m) := by
  have hvotes : RecordHistory.Votes (.save m) = false := by
    cases m <;> simp_all [SavedMessage.ofViewChange, RecordHistory.Votes]
  have hrecorded := h.record hvotes (by simp [Action.Sends])
  rcases Node.save_cases nd m with ⟨text, hcase⟩ | ⟨persisted, hsaved, hcase⟩ <;> rw [hcase]
  · exact h.panic text
  · refine ⟨hrecorded.history, hrecorded.sent, fun other hother => ?_, fun hlive hscope => ?_,
      hrecorded.stored, hrecorded.inFlight⟩
    · rcases PersistedState.mem_wal_save hsaved hother with hold | rfl
      · exact List.mem_cons_of_mem _ (h.logged other hold)
      · exact List.mem_cons_self
    · cases PersistedState.saved_of_save hsaved with
      | proposed => simp [SavedMessage.ofViewChange] at hm
      | prepared => simp [SavedMessage.ofViewChange] at hm
      | newView => exact (hrecorded.view hlive hscope).append hm
      | viewChange => exact (hrecorded.view hlive hscope).append hm

theorem setView (h : VotesKept cfg scope covers nd)
    (hview : nd.panicked = none → scope view.number →
      Placed nd.trace nd.persisted.wal view)
    (hstored : nd.panicked = none → ∀ m, view.Stores m → nd.currView.Stores m) :
    VotesKept cfg scope covers { nd with currView := view } :=
  ⟨h.history, h.sent, h.logged, hview,
    fun hlive m hm => h.stored hlive m (hstored hlive m hm), h.inFlight⟩

theorem quiet (h : VotesKept cfg scope covers nd) (hop : QuietOp nd nd') :
    VotesKept cfg scope covers nd' := by
  cases hop with
  | stopView =>
    refine h.setView (fun hlive hscope => ?_) fun _ _ hm => hm
    exact (h.view hlive hscope).moved rfl rfl rfl rfl fun _ hm => hm
  | viewDecided hpc =>
    refine h.setView (fun hlive hscope => ?_) fun _ _ hm => hm
    have hview := h.view hlive hscope
    exact .of_free rfl (hview.free (.inr hpc)) hview.stored
  | moveInFlight hview hmove =>
    refine { h with inFlight := fun v hv m hcovers hm => ?_ }
    obtain rfl := Option.some.inj hv
    refine h.inFlight _ hview m hcovers ?_
    cases hmove <;> exact hm
  | record haction =>
    refine h.record ?_ ?_
    · cases haction <;> rfl
    · rintro m (⟨origin, rfl⟩ | ⟨target, rfl⟩) _ <;> cases haction <;> trivial
  | saveViewChange => exact h.save_ofViewChange rfl
  | saveNewView => exact h.save_ofViewChange rfl
  | panic text => exact h.panic text
  | _ => exact { h with }

theorem quietEffect (h : VotesKept cfg scope covers nd) (heffect : QuietEffect nd nd') :
    VotesKept cfg scope covers nd' :=
  QuietEffect.keeps (fun hop hinv => quiet hinv hop) heffect h

theorem deliver (h : VotesKept cfg scope covers nd) (decision : Decision)
    (answer : DeliverAnswer) : VotesKept cfg scope covers (nd.deliver decision answer) := by
  rcases Node.deliver_cases nd decision answer with ⟨text, hcase⟩ | hcase | hcase <;>
    rw [hcase]
  · exact h.panic text
  · exact { h with }
  · have hrecorded : VotesKept cfg scope covers (nd.record (.deliver decision)) :=
      h.record rfl (by simp [Action.Sends])
    exact { hrecorded with }

theorem applyOutputs (h : VotesKept cfg scope covers nd) (origin : Origin)
    (hsave : ∀ m, .save m ∉ outputs)
    (hbroadcast : ∀ m, .broadcast m ∈ outputs → covers m → Backed nd.trace m)
    (hsend : ∀ target m, .send target m ∈ outputs → covers m → Backed nd.trace m) :
    VotesKept cfg scope covers (nd.applyOutputs cfg origin outputs) := by
  suffices hboth : VotesKept cfg scope covers (nd.applyOutputs cfg origin outputs) ∧
      nd.trace ⊆ (nd.applyOutputs cfg origin outputs).trace from hboth.1
  refine Node.applyOutputs_keeps (motive := fun mid => VotesKept cfg scope covers mid ∧
    nd.trace ⊆ mid.trace) cfg origin ?_ ?_ ?_ ?_ ⟨h, List.Subset.refl _⟩
  · rintro a b hop ⟨hinv, hsub⟩
    exact ⟨hinv.quiet hop, List.Subset.trans hsub hop.trace_subset⟩
  · rintro m hm mid ⟨hinv, hsub⟩
    refine ⟨hinv.record rfl ?_, List.Subset.trans hsub (List.subset_cons_self _ _)⟩
    rintro other (⟨_, heq⟩ | ⟨_, heq⟩) hcovers <;> simp at heq
    exact (hbroadcast other (heq.2 ▸ hm) hcovers).mono hsub
  · rintro target m hm mid ⟨hinv, hsub⟩
    refine ⟨hinv.record rfl ?_, List.Subset.trans hsub (List.subset_cons_self _ _)⟩
    rintro other (⟨_, heq⟩ | ⟨_, heq⟩) hcovers <;> simp at heq
    exact (hsend target other (heq.2 ▸ hm) hcovers).mono hsub
  · exact fun m hm => absurd hm (hsave m)

end VotesKept

theorem Restored.stores {entries : List SavedMessage} {leader seq view dec : Nat}
    {inFlight : InFlightData} (h : Restored entries (.fresh leader seq view dec) v inFlight)
    (hlogged : ∀ m ∈ entries, .save m ∈ trace)
    (hm : v.Stores m) : Backed trace m := by
  cases h with
  | nothing => simp [View.Stores, View.fresh] at hm
  | proposed hlast =>
    obtain rfl : _ = m := by simpa [View.Stores, View.resume, View.fresh] using hm
    exact ⟨_, _, hlogged _ (List.mem_of_getLast? hlast), rfl, rfl, rfl⟩
  | prepared hlast =>
    obtain rfl : _ = m := by simpa [View.Stores, View.resume, View.fresh] using hm
    exact ⟨_, hlogged _ (List.mem_of_getLast? hlast), rfl, rfl, rfl⟩

theorem View.stores_catchUp {proposalSequence viewNum decisionsInView : Nat}
    (hm : (v.catchUp proposalSequence viewNum decisionsInView).Stores m) :
    v.Stores m := by
  obtain ⟨_, _, _, h⟩ := v.catchUp_eq proposalSequence viewNum decisionsInView
  rw [h] at hm
  exact hm

theorem Restored.pc {entries : List SavedMessage} {leader seq view dec : Nat}
    {inFlight : InFlightData} (h : Restored entries (.fresh leader seq view dec) v inFlight) :
    v.pc = .select .run := by
  cases h <;> rfl

namespace VotesKept

theorem saveProposed (h : VotesKept cfg scope covers nd) (hlive : nd.panicked = none)
    {rest : List ViewOutput} (hphase : nd.currView.phase = .committed)
    (hrecord : RecordOf cfg proposal pp prepare)
    (haccepted : View.Accepted cfg nd.currView proposal prepare view)
    (hview : pp.view = nd.currView.number) (hseq : pp.seq = nd.currView.proposalSequence)
    (hrest : ∀ output ∈ rest, output = .broadcast (.prePrepare pp)) (origin : Origin) :
    VotesKept cfg scope covers ({ nd with currView := view }.applyOutputs cfg origin
      (.save (.proposedRecord pp prepare) :: rest)) := by
  rcases Node.save_cases { nd with currView := view } (.proposedRecord pp prepare) with
    ⟨text, hcase⟩ | ⟨persisted, hsaved, hcase⟩
  · refine Node.applyOutputs_cons ?_ fun hnone => ?_
    · rw [Node.applyOutput, hcase]
      exact { h with view := by simp [Node.panic], stored := by simp [Node.panic] }
    · simp [Node.applyOutput, hcase, Node.panic] at hnone
  · have hfree : scope pp.view → ∀ pp' prepare',
        .save (.proposedRecord pp' prepare') ∈ nd.trace → pp'.view = pp.view →
          pp'.seq < pp.seq := by
      rw [hview, hseq]
      exact fun hscope => (h.view hlive hscope).free (.inl hphase)
    have hmono : ∀ {m}, Backed nd.trace m →
        Backed (.save (.proposedRecord pp prepare) :: nd.trace) m :=
      fun hm => hm.mono (List.subset_cons_self _ _)
    have hafter : VotesKept cfg scope covers
        ({ nd with currView := view }.save (.proposedRecord pp prepare)) := by
      rw [hcase]
      refine ⟨h.history.cons_record hrecord hfree, fun action haction m hsends hcovers => ?_,
        fun m hm => ?_, fun _ hscope => ?_, fun _ m => haccepted.backed (h.stored hlive),
        fun v hv m hcovers hm => hmono (h.inFlight v hv m hcovers hm)⟩
      · rcases List.mem_cons.mp haction with rfl | hold
        · simp [Action.Sends] at hsends
        · exact hmono (h.sent action hold m hsends hcovers)
      · rcases PersistedState.mem_wal_save hsaved hm with hold | rfl
        · exact List.mem_cons_of_mem _ (h.logged m hold)
        · exact List.mem_cons_self
      · cases PersistedState.saved_of_save hsaved with
        | proposed =>
          have hscope : scope nd.currView.number := haccepted.number ▸ hscope
          exact (h.view hlive hscope).proposed hphase haccepted hview hseq
    refine Node.applyOutputs_cons hafter fun _ => hafter.applyOutputs _ ?_ ?_ ?_
    · exact fun m hm => by simpa using hrest _ hm
    · intro m hm _
      obtain rfl : m = .prePrepare pp := by simpa using hrest _ hm
      rw [hcase]
      exact ⟨prepare, List.mem_cons_self⟩
    · exact fun target m hm => by simpa using hrest _ hm

theorem savePrepared (h : VotesKept cfg scope covers nd) (hlog : LogInvariant cfg nd)
    (hlive : nd.panicked = none) {voterIDs : List Nat}
    (hpc : nd.currView.pc = .select (.processPrepares voterIDs))
    (hproposal : nd.currView.inFlightProposal = some proposal) (origin : Origin) :
    VotesKept cfg scope covers (Node.applyOutputs cfg origin
      { nd with currView := (nd.currView.finishPrepares cfg voterIDs proposal).1 }
      (nd.currView.finishPrepares cfg voterIDs proposal).2) := by
  have hview := hlog.view hlive
  have hphase := hview.loop .proposed (by simp [hpc, ViewPc.loopPhase])
  have hidle : nd.currView.pc.inDecide = false := by simp [hpc, ViewPc.inDecide]
  obtain ⟨pp, prepare, hhead, -, hcarries, -⟩ := hview.proposed hphase
  have hmem := h.logged _ (List.mem_of_mem_head? hhead)
  -- the record is one of the proposal that the view has prepared
  obtain ⟨recorded, hrecord⟩ := h.history.record pp prepare hmem
  obtain rfl : recorded = proposal := by
    simpa [hrecord.carries, hproposal] using hcarries
  suffices hafter : ∀ commit, (nd.currView.finishPrepares cfg voterIDs recorded).2 =
      [.save (.commit commit)] → commit.view = nd.currView.number →
      commit.seq = nd.currView.proposalSequence → commit.digest = cfg.digest recorded →
      VotesKept cfg scope covers (Node.save
        { nd with currView := (nd.currView.finishPrepares cfg voterIDs recorded).1 }
        (.commit commit)) by
    have hsaved := hafter _ rfl rfl rfl rfl
    exact Node.applyOutputs_cons hsaved fun _ => hsaved
  intro commit hcommit hcommitView hcommitSeq hcommitDigest
  have hmono : ∀ {m}, Backed nd.trace m → Backed (.save (.commit commit) :: nd.trace) m :=
    fun hm => hm.mono (List.subset_cons_self _ _)
  rcases Node.save_cases
      { nd with currView := (nd.currView.finishPrepares cfg voterIDs recorded).1 }
      (.commit commit) with
    ⟨text, hcase⟩ | ⟨persisted, hsaved, hcase⟩ <;> rw [hcase]
  · exact { h with view := by simp [Node.panic], stored := by simp [Node.panic] }
  · refine ⟨h.history.cons_commit fun hscope => ?_, fun action haction m hsends hcovers => ?_,
      fun m hm => ?_, fun _ hscope => ?_,
      fun _ m => View.finishPrepares_backed hcommit (h.stored hlive),
      fun v hv m hcovers hm => hmono (h.inFlight v hv m hcovers hm)⟩
    · have hplaced := h.view hlive (hcommitView ▸ hscope)
      obtain ⟨hnumber, hseq⟩ := hplaced.head (.inl hphase) hidle pp prepare hhead
      exact ⟨pp, prepare, hmem, hcommitView.trans hnumber.symm, hcommitSeq.trans hseq.symm,
        by rw [hcommitDigest, hrecord.answer]⟩
    · rcases List.mem_cons.mp haction with rfl | hold
      · simp [Action.Sends] at hsends
      · exact hmono (h.sent action hold m hsends hcovers)
    · rcases PersistedState.mem_wal_save hsaved hm with hold | rfl
      · exact List.mem_cons_of_mem _ (h.logged m hold)
      · exact List.mem_cons_self
    · cases PersistedState.saved_of_save hsaved with
      | prepared => exact (h.view hlive hscope).prepared hphase hidle hhead hcommit

theorem viewStep (h : VotesKept cfg scope covers nd) (hlog : LogInvariant cfg nd)
    (hlive : nd.panicked = none) {event : ViewEvent}
    (htransition : View.Transition cfg verifier nd.checkpoint nd.currView event view outputs) :
    VotesKept cfg scope covers
      ({ nd with currView := view }.applyOutputs cfg (.view view.number) outputs) := by
  have hstored := h.stored hlive
  have hview := hlog.view hlive
  rcases htransition.saves with hnone | hsaves
  · have hmoved : VotesKept cfg scope covers { nd with currView := view } := by
      refine h.setView (fun _ hscope => ?_) fun _ m => htransition.stores hnone
      rw [htransition.number] at hscope
      exact (h.view hlive hscope).step hview htransition hnone
    exact hmoved.applyOutputs _ hnone
      (fun m hm _ => hstored m (htransition.broadcasts hnone hm))
      (fun target m hm _ => hstored m (htransition.sends hm))
  · cases hsaves with
    | @proposed _ pp proposal prepare md rest hpc hpp hproposal hmd hnumber hseq hprepare
        haccepted hrest =>
        obtain ⟨hppView, hppSeq⟩ := hview.prePrepares.current pp hpp
        have hrecord :=
          RecordOf.of_accepted hview.prePrepares hpp hproposal hmd hnumber hseq hprepare
        have hphase := hview.loop .committed (by simp [hpc, ViewPc.loopPhase])
        exact h.saveProposed hlive hphase hrecord haccepted hppView hppSeq hrest _
    | prepared hpc hproposal => exact h.savePrepared hlog hlive hpc hproposal _

theorem inFlightViewStep (h : VotesKept cfg scope covers nd) (hlog : LogInvariant cfg nd)
    {event : ViewEvent} {view' : View}
    (hview : nd.inFlightView = some view)
    (htransition : View.Transition cfg verifier nd.checkpoint view event view' outputs) :
    VotesKept cfg scope covers ({ nd with inFlightView := some (Node.awaitSync view' outputs)
      }.applyOutputs cfg .inFlightView outputs) := by
  have hnone := (hlog.inFlight view hview).saves_nothing htransition
  have hstored := h.inFlight view hview
  have hmoved : VotesKept cfg scope covers
      { nd with inFlightView := some (Node.awaitSync view' outputs) } := by
    refine { h with inFlight := fun v hv m hcovers hm => ?_ }
    obtain rfl := Option.some.inj hv
    refine hstored m hcovers (htransition.stores hnone ?_)
    unfold Node.awaitSync at hm
    split at hm
    · split at hm <;> exact hm
    · exact hm
  exact hmoved.applyOutputs _ hnone
    (fun m hm hcovers => hstored m hcovers (htransition.broadcasts hnone hm))
    (fun target m hm hcovers => hstored m hcovers (htransition.sends hm))

theorem startInFlight (h : VotesKept cfg scope covers nd) {md : ViewMetadata}
    (hprepared : ∀ m, covers (.commit m) → ∃ commit, .save (.commit commit) ∈ nd.trace ∧
      commit.view = md.viewId ∧ commit.seq = md.latestSequence ∧
      commit.digest = cfg.digest proposal) (vc : ViewChanger) :
    VotesKept cfg scope covers { nd with
      inFlightView := some (Node.newInFlightView cfg proposal md), viewChanger := vc } := by
  refine { h with inFlight := fun v hv m hcovers hm => ?_ }
  obtain rfl := Option.some.inj hv
  obtain rfl : _ = m := by simpa [View.Stores, Node.newInFlightView] using hm
  obtain ⟨commit, hcommit, hview, hseq, hdigest⟩ := hprepared _ hcovers
  exact ⟨commit, hcommit, hview.symm, hseq.symm, hdigest.symm⟩

end VotesKept

def Node.starts (cfg : Config) (nd : Node) (input : NodeInput) : Option View :=
  match input.event, nd.controller.pc with
  | .controller .viewEnded, .aborting (.start view seq dec _) =>
    some (.fresh cfg.selfID seq view dec)
  | .crash, _ =>
    match Node.boot cfg nd.persisted.wal nd.checkpoint with
    | .ok restarted => some restarted.currView
    | .error _ => none
  | _, _ => none

theorem startsFresh_starts {input : NodeInput}
    (h : startsFresh cfg nd input = true) (hv : nd.starts cfg input = some v) :
    nd.freshFor v = true := by
  unfold Node.starts at hv
  split at hv
  · rename_i hevent hpc
    obtain rfl := Option.some.inj hv
    simpa [startsFresh, hevent, hpc] using h
  · rename_i hevent
    split at hv
    · rename_i hboot
      obtain rfl := Option.some.inj hv
      simpa [startsFresh, hevent, hboot] using h
    · simp at hv
  · simp at hv

/-- Views are started above the records, and in-flight proposals are committed once
prepared. -/
def keepsVotes (cfg : Config) (nd : Node) (input : NodeInput) : Bool :=
  startsFresh cfg nd input && commitsPrepared cfg nd input

theorem commitsPrepared_commit
    (h : commitsPrepared cfg nd ⟨verifier, .viewChanger .commitInFlight⟩ = true)
    {signed : List SignedViewData} {own : Bool} {md : ViewMetadata}
    (hpc : nd.viewChanger.pc = .commitInFlight signed (some proposal) own)
    (hplan : Node.planInFlight nd.checkpoint proposal = .commit md) :
    ∃ commit, .save (.commit commit) ∈ nd.trace ∧ commit.view = md.viewId ∧
      commit.seq = md.latestSequence ∧ commit.digest = cfg.digest proposal := by
  simp only [commitsPrepared, hpc, hplan, List.any_eq_true] at h
  obtain ⟨action, hmem, haction⟩ := h
  split at haction
  · exact ⟨_, hmem, of_decide_eq_true haction⟩
  · simp at haction

namespace VotesKept

theorem crash (h : VotesKept cfg scope covers nd) {restarted : Node}
    (hboot : Node.boot cfg nd.persisted.wal nd.checkpoint = .ok restarted)
    (hfresh : scope restarted.currView.number → nd.freshFor restarted.currView = true) :
    VotesKept cfg scope covers { restarted with trace := nd.trace } := by
  obtain ⟨md, start, leader, v, inFlight, -, -, -, hrestored, rfl⟩ := Node.boot_ok hboot
  have hstored : ∀ m, (v.catchUp (start.seq + 1) start.view start.dec).Stores m →
      Backed nd.trace m :=
    fun m hm => hrestored.stores h.logged (View.stores_catchUp hm)
  refine ⟨h.history, h.sent, h.logged, fun _ hscope => .of_freshFor (hfresh hscope) ?_ hstored,
    fun _ => hstored, by simp [Node.started]⟩
  simp [Node.started, hrestored.pc, ViewPc.inDecide]

theorem boot (h : Node.boot cfg [] checkpoint = .ok nd) :
    VotesKept cfg scope covers nd := by
  obtain ⟨md, start, leader, v, inFlight, -, -, -, hrestored, rfl⟩ := Node.boot_ok h
  have hstored : ∀ m, (v.catchUp (start.seq + 1) start.view start.dec).Stores m →
      Backed [] m :=
    fun m hm => hrestored.stores (by simp) (View.stores_catchUp hm)
  refine ⟨.nil cfg scope, by simp [Node.started], by simp [Node.started],
    fun _ _ => ⟨?_, ?_, ?_, hstored⟩, fun _ => hstored, by simp [Node.started]⟩
  · simp [Node.started]
  · simp [Node.started]
  · simp [Node.started]

theorem step (h : VotesKept cfg scope covers nd) (hlog : LogInvariant cfg nd)
    {input : NodeInput}
    (hfresh : ∀ v, nd.starts cfg input = some v → scope v.number → nd.freshFor v = true)
    (hcommits : ∀ m, covers (.commit m) → commitsPrepared cfg nd input = true)
    (hstep : nd.step cfg input = some nd') : VotesKept cfg scope covers nd' := by
  obtain ⟨hlive, -, htransition⟩ := Node.step_transition hstep
  cases htransition with
  | quiet _ heffect => exact h.quietEffect heffect
  | view htransition => exact h.viewStep hlog (by simpa using hlive) htransition
  | inFlightView hview htransition => exact h.inFlightViewStep hlog hview htransition
  | @inFlightDeliver view decision requests verifier answer vc hview hpc =>
    have hdelivered := h.deliver decision answer
    refine { hdelivered with inFlight := fun v hv m hcovers hm => ?_ }
    obtain rfl := Option.some.inj hv
    refine hdelivered.inFlight view ?_ m hcovers hm
    rw [(Node.deliver_keepsInFlight nd decision answer).view, hview]
    rfl
  | @decide decision requests verifier answer c hpc =>
    have hdelivered := h.deliver decision answer
    have hsame := (Node.deliver_keepsRunLoop nd decision answer).currView
    refine ⟨hdelivered.history, hdelivered.sent, hdelivered.logged, fun hlive' hscope => ?_,
      fun hlive' m hm => hdelivered.stored hlive' m (hsame ▸ hm), hdelivered.inFlight⟩
    have hview := hdelivered.view hlive' (hsame ▸ hscope)
    rw [hsame] at hview
    exact hview.moved rfl rfl rfl (by simp [hpc, ViewPc.inDecide]) fun _ hm => hm
  | proposed =>
    refine ⟨h.history, h.sent, h.logged, fun hlive' hscope => ?_, h.stored, h.inFlight⟩
    exact (h.view hlive' hscope).moved rfl rfl rfl rfl fun _ hm => hm
  | @sync _ verifier response reconfig checkpoint _ heffect =>
    have hsynced : VotesKept cfg scope covers { nd with checkpoint := checkpoint } :=
      { h with }
    exact hsynced.quietEffect heffect
  | @restarted _ view seq dec leader rotation verifier hpc heffect =>
    refine VotesKept.quietEffect ?_ heffect
    have hstart := hfresh (.fresh cfg.selfID seq view dec) (by simp [Node.starts, hpc])
    have hnone : ∀ m, ¬ (View.fresh leader seq view dec).Stores m := by
      simp [View.Stores, View.fresh]
    refine ⟨h.history, h.sent, h.logged, fun _ hscope => ?_,
      fun _ m hm => absurd hm (hnone m), h.inFlight⟩
    exact .of_freshFor (hstart hscope) rfl fun m hm => absurd hm (hnone m)
  | viewData _ _ heffect =>
    exact (h.record rfl (by simp [Action.Sends])).quietEffect heffect
  | delivered _ answer _ heffect => exact (h.deliver _ answer).quietEffect heffect
  | startInFlight _ vc hpc hplan =>
    exact h.startInFlight
      (fun m hcovers => commitsPrepared_commit (hcommits m hcovers) hpc hplan) vc
  | crash _ hboot => exact h.crash hboot (hfresh _ (by simp [Node.starts, hboot]))

theorem reachable {start : Node} {inputs : List NodeInput}
    {condition : Node → NodeInput → Prop} (hboot : Node.boot cfg [] checkpoint = .ok start)
    (hfresh : ∀ nd input, condition nd input →
      ∀ v, nd.starts cfg input = some v → scope v.number → nd.freshFor v = true)
    (hcommits : ∀ nd input, condition nd input →
      ∀ m, covers (.commit m) → commitsPrepared cfg nd input = true)
    (hmeets : StepsMeet (Node.step cfg) condition start inputs)
    (hrun : run (Node.step cfg) start inputs = some nd) : VotesKept cfg scope covers nd := by
  let inv (mid : Node) : Prop := LogInvariant cfg mid ∧ VotesKept cfg scope covers mid
  have hinit : inv start := ⟨.boot_empty hboot, .boot hboot⟩
  have hboth : inv nd := by
    refine run_invariant_of_steps_meet (fun mid input mid' h hmeets hstep => ?_) hinit hmeets
      hrun
    exact ⟨h.1.step hstep,
      h.2.step h.1 (hfresh mid input hmeets) (hcommits mid input hmeets) hstep⟩
  exact hboth.2

end VotesKept

structure NoEquivocation (cfg : Config) (trace : List Action) : Prop where
  prepare : ∀ origin origin' m m', .broadcast origin (.prepare m) ∈ trace →
    .broadcast origin' (.prepare m') ∈ trace → m.view = m'.view → m.seq = m'.seq →
      m.digest = m'.digest
  commit : ∀ origin origin' m m', .broadcast origin (.commit m) ∈ trace →
    .broadcast origin' (.commit m') ∈ trace → m.view = m'.view → m.seq = m'.seq →
      m.digest = m'.digest
  prePrepare : ∀ origin origin' m m', .broadcast origin (.prePrepare m) ∈ trace →
    .broadcast origin' (.prePrepare m') ∈ trace → m.view = m'.view → m.seq = m'.seq →
      m.proposal.map cfg.digest = m'.proposal.map cfg.digest

theorem VotesKept.noEquivocation (h : VotesKept cfg (fun _ => True) (fun _ => True) nd) :
    NoEquivocation cfg nd.trace := by
  have hsent : ∀ {origin m}, .broadcast origin m ∈ nd.trace → Backed nd.trace m :=
    fun {origin m} hmem => h.sent _ hmem m (.inl ⟨origin, rfl⟩) trivial
  refine ⟨fun origin origin' m m' hm hm' hview hseq => ?_,
    fun origin origin' m m' hm hm' hview hseq => ?_,
    fun origin origin' m m' hm hm' hview hseq => ?_⟩
  · exact h.history.prepare_unique (hsent hm) (hsent hm') trivial hview hseq
  · obtain ⟨commit, hcommit, hmview, hmseq, hdigest⟩ := hsent hm
    obtain ⟨commit', hcommit', hmview', hmseq', hdigest'⟩ := hsent hm'
    rw [hdigest, hdigest']
    exact h.history.commit_unique hcommit hcommit' trivial (by omega) (by omega)
  · obtain ⟨prepare, hpp⟩ := hsent hm
    obtain ⟨prepare', hpp'⟩ := hsent hm'
    rw [(h.history.unique m prepare m' prepare' hpp hpp' trivial hview hseq).1]

def prepareTwice : List NodeEvent :=
  acceptFirst [7] ++ [.crash, .view .default, .view .doPhase]

def restartAfterVote : List NodeEvent :=
  acceptFirst [7] ++ viewReceives 1 (.prepare { view := 1, seq := 1, digest := "seven" }) ++
    [.view .abort, .view .abort, .controller (.sync {} false), .controller (.fetched none),
      .controller .viewEnded] ++ acceptFirst [9]

end SmartBFT
