import SmartBFT.Node.Install
import SmartBFT.Node.Transition

/-!
# The view numbers of the view changer

`realView ≤ currView ≤ nextView ≤ currView + 1` at any time, and none of them goes back
but `nextView`, which `informNewView` resets.  `processViewChangeMsg` moves `currView` on by
one.  It does so after the node has asked for the view itself, and counted enough votes for it
since it came to the current one, or found the view change in its log.
-/

namespace SmartBFT

open Foundation

def ViewChangerPc.aborting : ViewChangerPc → Bool
  | .sendAbort _ _ => true
  | _ => false

theorem ViewChangerPc.aborting_of_plain {pc : ViewChangerPc} (h : pc.plain = true) :
    pc.aborting = false := by
  cases pc <;> simp_all [plain, aborting]

structure StaysInView (nd nd' : Node) : Prop where
  currView : nd'.viewChanger.currView = nd.viewChanger.currView
  nextView : nd'.viewChanger.nextView = nd.viewChanger.nextView
  realView : nd'.viewChanger.realView = nd.viewChanger.realView ∨
    nd'.viewChanger.realView = nd.viewChanger.currView
  votes : nd'.viewChanger.viewChangeMsgs = nd.viewChanger.viewChangeMsgs
  pc : nd'.viewChanger.pc = nd.viewChanger.pc ∨ nd'.viewChanger.pc.aborting = false

namespace StaysInView

theorem trans {a b c : Node} (hab : StaysInView a b) (hbc : StaysInView b c) :
    StaysInView a c where
  currView := hbc.currView.trans hab.currView
  nextView := hbc.nextView.trans hab.nextView
  realView := by
    rcases hbc.realView with hreal | hreal
    · rw [hreal]
      exact hab.realView
    · exact .inr (hreal.trans hab.currView)
  votes := hbc.votes.trans hab.votes
  pc := by
    rcases hbc.pc with hpc | hpc
    · rw [hpc]
      exact hab.pc
    · exact .inr hpc

theorem of_keepsViews {nd nd' : Node} (h : KeepsViews nd nd') : StaysInView nd nd' :=
  ⟨h.views.currView, h.views.nextView, .inl h.views.realView, h.votes, .inl h.pc⟩

theorem of_viewChanger {nd nd' : Node} (h : nd'.viewChanger = nd.viewChanger) :
    StaysInView nd nd' :=
  of_keepsViews (.of_viewChanger h)

end StaysInView

/-! ## What does not count votes -/

namespace Node

variable {cfg : Config} {verifier : Verifier} {nd nd' : Node}

theorem viewChangerOp_staysInView {settled : Bool}
    (h : ViewChangerOp cfg verifier settled false nd nd') : StaysInView nd nd' := by
  cases h with
  | own vc hpc _ hviews hvotes =>
    refine ⟨hviews.currView, hviews.nextView, .inl hviews.realView,
      hvotes.resolve_left (by simp), hpc.symm.imp id ViewChangerPc.aborting_of_plain⟩
  | install => exact ⟨rfl, rfl, .inr rfl, rfl, .inr rfl⟩
  | saveNewView => exact .of_keepsViews (save_keepsViews nd _)
  | beginDeliver => exact ⟨rfl, rfl, .inl rfl, rfl, .inr rfl⟩
  | announce | record | sync | panic => exact .of_viewChanger rfl
  | _ hvoting => simp at hvoting

theorem viewChangerEffect_staysInView {settled : Bool}
    (h : ViewChangerEffect cfg verifier settled false nd nd') : StaysInView nd nd' := by
  induction h with
  | refl => exact .of_viewChanger rfl
  | tail _ hop ih => exact ih.trans (viewChangerOp_staysInView hop)

theorem viewChangerStep_staysInView {event : ViewChangerEvent}
    (h : nd.viewChangerStep cfg verifier event = some nd') (hevent : event.voting = false) :
    StaysInView nd nd' := by
  cases viewChangerStep_transition h with
  | effect _ heffect => exact viewChangerEffect_staysInView (hevent ▸ heffect)
  | newView hsettled own => exact viewChangerEffect_staysInView (hsettled.effect own)
  | viewData _ heffect =>
    have hbuilt := viewChangerEffect_staysInView heffect
    exact { hbuilt with }
  | delivered answer _ heffect =>
    exact (StaysInView.of_keepsViews (deliver_keepsViews nd _ answer)).trans
      (viewChangerEffect_staysInView heffect)
  | timeout =>
    exact (StaysInView.of_keepsViews (timedOut_keepsViews cfg nd)).trans
      ⟨rfl, rfl, .inl rfl, rfl, .inr rfl⟩
  | _ => exact ⟨rfl, rfl, .inl rfl, rfl, .inr rfl⟩

end Node

/-! ## The votes since the current view -/

/-- The last thing that the view changer has taken up is the view change of its log. -/
def HandlesRestore (since : List NodeInput) : Prop :=
  ∃ before restore after, since = before ++ restore :: after ∧
    restore.event = .viewChanger .restore ∧
    ∀ input ∈ after, ∀ event, input.event = .viewChanger event → event = .abortSent

theorem HandlesRestore.concat {since : List NodeInput} (h : HandlesRestore since)
    {input : NodeInput} (hinput : ∀ event, input.event = .viewChanger event → event = .abortSent) :
    HandlesRestore (since ++ [input]) := by
  obtain ⟨before, restore, after, rfl, hrestore, hafter⟩ := h
  refine ⟨before, restore, after ++ [input], by simp, hrestore, ?_⟩
  intro other hother
  rcases List.mem_append.mp hother with hmem | hlast
  · exact hafter other hmem
  · obtain rfl := List.mem_singleton.mp hlast
    exact hinput

def VotedFor (since : List NodeInput) (view voter : Nat) : Prop :=
  ∃ input ∈ since, input.event = .viewChanger (.msg voter (.viewChange (view + 1)))

def MayEnter (cfg : Config) (since : List NodeInput) (nd : Node) : Prop :=
  HandlesRestore since ∨ cfg.quorum - 1 ≤ nd.viewChanger.viewChangeMsgs.voted.length

def AbortViewThen.Caused (cfg : Config) (since : List NodeInput) (nd : Node) :
    AbortViewThen → Prop
  | .select => True
  | .joined restore => restore = true → HandlesRestore since
  | .save _ => MayEnter cfg since nd
  | .prepare => MayEnter cfg since nd

structure Progress (cfg : Config) (since : List NodeInput) (nd : Node) : Prop where
  real_le_curr : nd.viewChanger.realView ≤ nd.viewChanger.currView
  curr_le_next : nd.viewChanger.currView ≤ nd.viewChanger.nextView
  next_le_succ : nd.viewChanger.nextView ≤ nd.viewChanger.currView + 1
  announced : nd.viewChanger.nextView = nd.viewChanger.currView + 1 →
    .broadcast .viewChanger (.viewChange (nd.viewChanger.currView + 1)) ∈ nd.trace
  distinct : nd.viewChanger.viewChangeMsgs.voted.Nodup
  voters : ∀ voter ∈ nd.viewChanger.viewChangeMsgs.voted, voter ≠ cfg.selfID ∧
    VotedFor since nd.viewChanger.currView voter
  /-- with `f + 1` votes the node has joined the view change, if it is to speed up -/
  joined : cfg.speedUpViewChange = true →
    cfg.f + 1 ≤ nd.viewChanger.viewChangeMsgs.voted.length →
      nd.viewChanger.nextView = nd.viewChanger.currView + 1
  aborting : ∀ view next, nd.viewChanger.pc = .sendAbort view next →
    nd.viewChanger.nextView = nd.viewChanger.currView + 1 ∧ next.Caused cfg since nd

inductive Moves (cfg : Config) (since : List NodeInput) (nd : Node) (input : NodeInput)
    (nd' : Node) : Prop where
  | stays (hreal : nd.viewChanger.realView ≤ nd'.viewChanger.realView)
      (hcurr : nd'.viewChanger.currView = nd.viewChanger.currView)
      (hnext : nd.viewChanger.nextView ≤ nd'.viewChanger.nextView)
      (h : Progress cfg (since ++ [input]) nd')
  | informed (hevent : input.event = .viewChanger .inform)
      (hreal : nd.viewChanger.realView ≤ nd'.viewChanger.realView)
      (hcurr : nd.viewChanger.currView ≤ nd'.viewChanger.currView)
      (hnext : nd'.viewChanger.nextView = nd'.viewChanger.currView) (h : Progress cfg [] nd')
  | entered (hreal : nd'.viewChanger.realView = nd.viewChanger.realView)
      (hcurr : nd'.viewChanger.currView = nd.viewChanger.currView + 1)
      (hnext : nd'.viewChanger.nextView = nd.viewChanger.nextView)
      (hannounced : nd.viewChanger.nextView = nd.viewChanger.currView + 1)
      (hmay : MayEnter cfg since nd) (h : Progress cfg [] nd')

theorem VotedFor.concat {since : List NodeInput} {view voter : Nat} (h : VotedFor since view voter)
    (input : NodeInput) : VotedFor (since ++ [input]) view voter := by
  obtain ⟨vote, hmem, hvote⟩ := h
  exact ⟨vote, List.mem_append_left _ hmem, hvote⟩

theorem AbortViewThen.Caused.concat {cfg : Config} {since : List NodeInput} {nd nd' : Node}
    {next : AbortViewThen} (h : next.Caused cfg since nd)
    (hvotes : nd'.viewChanger.viewChangeMsgs = nd.viewChanger.viewChangeMsgs) {input : NodeInput}
    (hinput : ∀ event, input.event = .viewChanger event → event = .abortSent) :
    next.Caused cfg (since ++ [input]) nd' := by
  have hmay : MayEnter cfg since nd → MayEnter cfg (since ++ [input]) nd' := by
    rintro (hrestore | hvoted)
    · exact .inl (hrestore.concat hinput)
    · exact .inr (hvotes ▸ hvoted)
  cases next with
  | select => trivial
  | joined restore => exact fun hrestore => (h hrestore).concat hinput
  | save restore => exact hmay h
  | prepare => exact hmay h

namespace Progress

variable {cfg : Config} {since : List NodeInput} {nd nd' : Node} {input : NodeInput}

theorem staysInView (h : Progress cfg since nd) (hstays : StaysInView nd nd')
    (htrace : nd.trace ⊆ nd'.trace)
    (hquiet : nd.viewChanger.pc.aborting = true →
      ∀ event, input.event = .viewChanger event → event = .abortSent) :
    Moves cfg since nd input nd' := by
  obtain ⟨hcurr, hnext, hreal, hvotes, hpc⟩ := hstays
  have hle := h.real_le_curr
  refine .stays (by omega) hcurr (Nat.le_of_eq hnext.symm) ?_
  constructor
  · rw [hcurr]
    omega
  · rw [hcurr, hnext]
    exact h.curr_le_next
  · rw [hcurr, hnext]
    exact h.next_le_succ
  · rw [hcurr, hnext]
    exact fun hjoined => htrace (h.announced hjoined)
  · rw [hvotes]
    exact h.distinct
  · rw [hvotes, hcurr]
    exact fun voter hvoter => ⟨(h.voters voter hvoter).1, (h.voters voter hvoter).2.concat input⟩
  · rw [hvotes, hcurr, hnext]
    exact h.joined
  · intro view next hnow
    rcases hpc with hsame | hother
    · rw [hsame] at hnow
      obtain ⟨hsucc, hcaused⟩ := h.aborting view next hnow
      rw [hcurr, hnext]
      exact ⟨hsucc, hcaused.concat hvotes (hquiet (by simp [hnow, ViewChangerPc.aborting]))⟩
    · simp [hnow, ViewChangerPc.aborting] at hother

end Progress

/-! ## Counting a vote -/

structure Counting (cfg : Config) (since : List NodeInput) (nd₀ nd : Node) : Prop where
  realView : nd.viewChanger.realView = nd₀.viewChanger.realView
  currView : nd.viewChanger.currView = nd₀.viewChanger.currView
  nextView : nd.viewChanger.nextView = nd₀.viewChanger.nextView ∨
    nd.viewChanger.nextView = nd₀.viewChanger.currView + 1
  announced : nd.viewChanger.nextView = nd.viewChanger.currView + 1 →
    .broadcast .viewChanger (.viewChange (nd.viewChanger.currView + 1)) ∈ nd.trace
  distinct : nd.viewChanger.viewChangeMsgs.voted.Nodup
  voters : ∀ voter ∈ nd.viewChanger.viewChangeMsgs.voted, voter ≠ cfg.selfID ∧
    VotedFor since nd.viewChanger.currView voter

namespace Counting

variable {cfg : Config} {since : List NodeInput} {input : NodeInput} {nd₀ nd : Node}

theorem of_viewChanger {nd' : Node} (h : Counting cfg since nd₀ nd)
    (hviewChanger : nd'.viewChanger = nd.viewChanger) (htrace : nd.trace ⊆ nd'.trace) :
    Counting cfg since nd₀ nd' := by
  constructor <;> rw [hviewChanger]
  · exact h.realView
  · exact h.currView
  · exact h.nextView
  · exact fun hjoined => htrace (h.announced hjoined)
  · exact h.distinct
  · exact h.voters

theorem rest (h : Counting cfg (since ++ [input]) nd₀ nd) (h₀ : Progress cfg since nd₀)
    (hjoined : cfg.speedUpViewChange = true →
      cfg.f + 1 ≤ nd.viewChanger.viewChangeMsgs.voted.length →
        nd.viewChanger.nextView = nd.viewChanger.currView + 1)
    (haborting : ∀ view next, nd.viewChanger.pc = .sendAbort view next →
      nd.viewChanger.nextView = nd.viewChanger.currView + 1 ∧
        next.Caused cfg (since ++ [input]) nd) : Moves cfg since nd₀ input nd := by
  have hreal := h.realView
  have hcurr := h.currView
  have hnext := h.nextView
  have hreal₀ := h₀.real_le_curr
  have hcurr₀ := h₀.curr_le_next
  have hnext₀ := h₀.next_le_succ
  refine .stays (Nat.le_of_eq hreal.symm) hcurr (by omega) ?_
  exact ⟨by omega, by omega, by omega, h.announced, h.distinct, h.voters, hjoined, haborting⟩

theorem rest_aborting (h : Counting cfg (since ++ [input]) nd₀ nd) (h₀ : Progress cfg since nd₀)
    (hjoined : nd.viewChanger.nextView = nd.viewChanger.currView + 1) {next : AbortViewThen}
    (hcaused : next.Caused cfg (since ++ [input]) nd) :
    Moves cfg since nd₀ input (nd.askAbortView next) := by
  have hasked : Counting cfg (since ++ [input]) nd₀ (nd.askAbortView next) :=
    { h with }
  refine hasked.rest h₀ (fun _ _ => hjoined) ?_
  intro view other hpc
  obtain rfl : next = other := by
    simp only [Node.askAbortView, Node.setViewChanger, ViewChangerPc.sendAbort.injEq] at hpc
    exact hpc.2
  refine ⟨hjoined, ?_⟩
  cases next <;> exact hcaused

theorem join (h : Counting cfg (since ++ [input]) nd₀ nd) (h₀ : Progress cfg since nd₀)
    {change : Change} {next : AbortViewThen} {cont : Node → Node}
    (hview : nd.viewChanger.currView ≤ change.view)
    (hcaused : next.Caused cfg (since ++ [input]) nd)
    (hcont : ∀ mid, Counting cfg (since ++ [input]) nd₀ mid →
      mid.viewChanger.nextView = mid.viewChanger.currView + 1 →
      mid.viewChanger.viewChangeMsgs = nd.viewChanger.viewChangeMsgs →
      mid.viewChanger.pc = nd.viewChanger.pc → Moves cfg since nd₀ input (cont mid)) :
    Moves cfg since nd₀ input (nd.joinViewChange change next cont) := by
  unfold Node.joinViewChange
  rw [if_neg (by omega)]
  split <;> rename_i hnext
  · refine hcont nd.watchTimeout ?_ hnext rfl rfl
    exact { h with }
  · have hjoining : Counting cfg (since ++ [input]) nd₀
        ({ nd with viewChanger := { nd.viewChanger with
          nextView := nd.viewChanger.currView + 1 } }.broadcastByViewChanger
            (.viewChange (nd.viewChanger.currView + 1))) :=
      ⟨h.realView, h.currView, .inr (congrArg (· + 1) h.currView),
        fun _ => List.mem_cons_self, h.distinct, h.voters⟩
    simp only
    split
    · refine hjoining.rest_aborting h₀ rfl ?_
      cases next <;> exact hcaused
    · refine hcont _ ?_ rfl rfl rfl
      exact { hjoining with }

theorem saveViewChange (h : Counting cfg (since ++ [input]) nd₀ nd) (h₀ : Progress cfg since nd₀)
    (hjoined : nd.viewChanger.nextView = nd.viewChanger.currView + 1)
    (hmay : MayEnter cfg (since ++ [input]) nd) (restore : Bool) :
    Moves cfg since nd₀ input (nd.saveViewChange restore) := by
  unfold Node.saveViewChange
  cases restore with
  | true => exact h.rest_aborting h₀ hjoined hmay
  | false =>
    obtain ⟨hviewChanger, -⟩ :=
      Node.save_keepsViewChanger nd (.viewChange nd.viewChanger.currView)
    have hsaved := h.of_viewChanger hviewChanger (trace_subset_save nd _)
    refine hsaved.rest_aborting h₀ ?_ ?_
    · rw [hviewChanger]
      exact hjoined
    · rcases hmay with hrestore | hvoted
      · exact .inl hrestore
      · refine .inr ?_
        rw [hviewChanger]
        exact hvoted

theorem faulty_lt_quorum (cfg : Config) : cfg.f + 1 ≤ max 1 (cfg.quorum - 1) := by
  simp only [Config.f, Config.quorum, computeQuorum, maxFaulty]
  omega

theorem joinedViewChange (h : Counting cfg (since ++ [input]) nd₀ nd)
    (h₀ : Progress cfg since nd₀) {restore : Bool}
    (hready : nd.viewChanger.nextView = nd.viewChanger.currView + 1 ∨
      restore = false ∧ 0 < nd.viewChanger.viewChangeMsgs.voted.length)
    (hjoined : cfg.speedUpViewChange = true →
      cfg.f + 1 ≤ nd.viewChanger.viewChangeMsgs.voted.length →
        nd.viewChanger.nextView = nd.viewChanger.currView + 1)
    (hrestore : restore = true → HandlesRestore (since ++ [input])) :
    Moves cfg since nd₀ input (nd.joinedViewChange cfg restore) := by
  unfold Node.joinedViewChange
  split
  · have hselect : Counting cfg (since ++ [input]) nd₀ (nd.setViewChanger .select) :=
      { h with }
    exact hselect.rest h₀ hjoined (by simp [Node.setViewChanger])
  · rename_i henough
    have hmay : MayEnter cfg (since ++ [input]) nd := by
      cases restore with
      | true => exact .inl (hrestore rfl)
      | false => exact .inr (by simpa using henough)
    split
    · rename_i hspeedUp
      refine h.saveViewChange h₀ ?_ hmay restore
      rcases hready with hnext | ⟨rfl, hvoted⟩
      · exact hnext
      · have hfew := faulty_lt_quorum cfg
        exact hjoined hspeedUp (by simp only [and_true, Nat.not_lt] at henough; omega)
    · refine h.join h₀ (Nat.le_refl _) hmay fun mid hmid hnext hvotes _ => ?_
      refine hmid.saveViewChange h₀ hnext ?_ restore
      rcases hmay with hhandles | hvoted
      · exact .inl hhandles
      · exact .inr (hvotes ▸ hvoted)

theorem processViewChangeMsg (h : Counting cfg (since ++ [input]) nd₀ nd)
    (h₀ : Progress cfg since nd₀) {restore : Bool}
    (hready : restore = true ∨ 0 < nd.viewChanger.viewChangeMsgs.voted.length)
    (hjoined : cfg.speedUpViewChange = true →
      cfg.f + 1 < nd.viewChanger.viewChangeMsgs.voted.length →
        nd.viewChanger.nextView = nd.viewChanger.currView + 1)
    (hrestore : restore = true → HandlesRestore (since ++ [input])) :
    Moves cfg since nd₀ input (nd.processViewChangeMsg cfg restore) := by
  unfold Node.processViewChangeMsg
  split
  · refine h.join h₀ (Nat.le_refl _) hrestore fun mid hmid hnext _ _ => ?_
    exact hmid.joinedViewChange h₀ (.inl hnext) (fun _ _ => hnext) hrestore
  · rename_i hnot
    refine h.joinedViewChange h₀ ?_ ?_ hrestore
    · exact .inr ⟨by simpa using fun heq => hnot (.inr heq), by
        rcases hready with heq | hvoted
        · exact absurd (.inr heq) hnot
        · exact hvoted⟩
    · intro hspeedUp hvoted
      refine hjoined hspeedUp (Nat.lt_of_le_of_ne hvoted ?_)
      exact fun heq => hnot (.inl ⟨heq.symm, hspeedUp⟩)

end Counting

theorem VoteSet.voted_registerVote {α : Type} (vs : VoteSet α) (voter : Nat) (message : α) :
    (vs.registerVote (fun _ _ => true) voter message).voted =
      if voter ∈ vs.voted then vs.voted else voter :: vs.voted := by
  unfold registerVote
  simp only [Bool.not_true, Bool.false_eq_true, if_false]
  split <;> rfl

namespace Node

variable {cfg : Config} {verifier : Verifier} {nd nd' : Node}

theorem viewChangerStep_aborting {event : ViewChangerEvent}
    (h : nd.viewChangerStep cfg verifier event = some nd')
    (hpc : nd.viewChanger.pc.aborting = true) : event = .abortSent := by
  unfold viewChangerStep at h
  split at h <;> rename_i heq <;> simp only [heq, ViewChangerPc.aborting, reduceCtorEq] at hpc
  simp only [Option.ite_none_right_eq_some] at h
  exact h.1

theorem viewChangerStep_select {event : ViewChangerEvent}
    (h : nd.viewChangerStep cfg verifier event = some nd') (hvoting : event.voting = true)
    (hevent : event ≠ .abortSent) :
    nd.viewChanger.pc = .select ∧ nd.viewChangerSelect cfg verifier event = some nd' := by
  unfold viewChangerStep at h
  split at h <;> rename_i hpc
  · exact ⟨hpc, h⟩
  all_goals
    exfalso
    unfold ViewChangerEvent.voting at hvoting
    split at hvoting <;> simp_all [waitInFlightStep]

end Node

namespace Progress

variable {cfg : Config} {since : List NodeInput} {nd nd' : Node} {input : NodeInput}

theorem counting (h : Progress cfg since nd) (input : NodeInput) :
    Counting cfg (since ++ [input]) nd nd :=
  ⟨rfl, rfl, .inl rfl, h.announced, h.distinct, fun voter hvoter =>
    ⟨(h.voters voter hvoter).1, (h.voters voter hvoter).2.concat input⟩⟩

theorem startChange (h : Progress cfg since nd) {change : Change} {rest : List Change}
    (hpc : nd.viewChanger.pc = .select) :
    Moves cfg since nd input ({ nd with viewChanger := { nd.viewChanger with
      startChangeChan := rest } }.joinViewChange change .select id) := by
  by_cases hold : change.view < nd.viewChanger.currView
  · unfold Node.joinViewChange
    rw [if_pos hold]
    refine h.staysInView ⟨rfl, rfl, .inl rfl, rfl, .inl rfl⟩ (List.Subset.refl _) ?_
    simp [hpc, ViewChangerPc.aborting]
  · have hcounting : Counting cfg (since ++ [input]) nd
        { nd with viewChanger := { nd.viewChanger with startChangeChan := rest } } :=
      ⟨rfl, rfl, .inl rfl, h.announced, h.distinct, (h.counting input).voters⟩
    refine hcounting.join h (Nat.not_lt.mp hold) trivial fun mid hmid hnext _ hselect => ?_
    refine hmid.rest h (fun _ _ => hnext) ?_
    intro view next hnow
    simp [hselect, hpc] at hnow

theorem processNextView (h : Progress cfg since nd) {sender nextView : Nat}
    (hpc : nd.viewChanger.pc = .select) (hsender : sender ≠ cfg.selfID)
    (hevent : input.event = .viewChanger (.msg sender (.viewChange nextView)))
    (htrace : nd.trace ⊆ (nd.processNextView cfg sender nextView).trace) :
    Moves cfg since nd input (nd.processNextView cfg sender nextView) := by
  have hquiet : nd.viewChanger.pc.aborting = true →
      ∀ event, input.event = .viewChanger event → event = .abortSent := by
    simp [hpc, ViewChangerPc.aborting]
  unfold Node.processNextView at htrace ⊢
  simp only at htrace ⊢
  split <;> rename_i hnextView
  · have hvoted := VoteSet.voted_registerVote nd.viewChanger.viewChangeMsgs sender ()
    have hcast : VotedFor (since ++ [input]) nd.viewChanger.currView sender :=
      ⟨input, by simp, hnextView ▸ hevent⟩
    refine Counting.processViewChangeMsg ?_ h (.inr ?_) ?_ ?_
    · refine ⟨rfl, rfl, .inl rfl, h.announced, ?_, ?_⟩
      · simp only [hvoted]
        split
        · exact h.distinct
        · rename_i hnew
          exact List.nodup_cons.mpr ⟨hnew, h.distinct⟩
      · intro voter hvoter
        simp only [hvoted] at hvoter
        have hcases : voter = sender ∨ voter ∈ nd.viewChanger.viewChangeMsgs.voted := by
          split at hvoter
          · exact .inr hvoter
          · exact List.mem_cons.mp hvoter
        rcases hcases with rfl | hbefore
        · exact ⟨hsender, hcast⟩
        · exact (h.counting input).voters voter hbefore
    · simp only [hvoted]
      split
      · rename_i hmem
        exact List.length_pos_of_mem hmem
      · exact Nat.succ_pos _
    · intro hspeedUp hmany
      refine h.joined hspeedUp ?_
      simp only [hvoted] at hmany
      split at hmany
      · omega
      · simp only [List.length_cons] at hmany
        omega
    · simp
  · rw [if_neg hnextView] at htrace
    refine h.staysInView ?_ htrace hquiet
    split <;> exact ⟨rfl, rfl, .inl rfl, rfl, .inl rfl⟩

theorem of_new (hreal : nd.viewChanger.realView ≤ nd.viewChanger.currView)
    (hnext : nd.viewChanger.nextView = nd.viewChanger.currView)
    (hvotes : nd.viewChanger.viewChangeMsgs.voted = [])
    (hpc : nd.viewChanger.pc.aborting = false) : Progress cfg [] nd where
  real_le_curr := hreal
  curr_le_next := Nat.le_of_eq hnext.symm
  next_le_succ := by omega
  announced := by omega
  distinct := by simp [hvotes]
  voters := by simp [hvotes]
  joined := by simp [hvotes]
  aborting view next h := by simp [h, ViewChangerPc.aborting] at hpc

theorem inform (h : Progress cfg since nd) {view : Nat} (hpc : nd.viewChanger.pc = .select)
    (hevent : input.event = .viewChanger .inform) :
    Moves cfg since nd input ({ nd with viewChanger := { nd.viewChanger with
      informChan := none } }.informNewView view) := by
  unfold Node.informNewView
  split <;> rename_i hview
  · refine h.staysInView ⟨rfl, rfl, .inl rfl, rfl, .inl rfl⟩ (List.Subset.refl _) ?_
    simp [hpc, ViewChangerPc.aborting]
  · have hreal := h.real_le_curr
    simp only [Nat.not_lt] at hview
    refine .informed hevent (Nat.le_trans hreal hview) hview rfl ?_
    exact of_new (Nat.le_refl _) rfl rfl (by simp [hpc, ViewChangerPc.aborting])

theorem abortSent (h : Progress cfg since nd) (hevent : input.event = .viewChanger .abortSent)
    (hstep : nd.abortSent cfg = some nd') : Moves cfg since nd input nd' := by
  have hquiet : ∀ event, input.event = .viewChanger event → event = .abortSent := by
    intro event heq
    rw [hevent] at heq
    exact (NodeEvent.viewChanger.inj heq).symm
  unfold Node.abortSent at hstep
  split at hstep
  · rename_i view next hpc _
    obtain ⟨hnext, hcaused⟩ := h.aborting view next hpc
    simp only [Option.some.injEq] at hstep
    subst hstep
    have hcounting : Counting cfg (since ++ [input]) nd ({ nd with
        controller := { nd.controller with abortViewChan := some view } }.watchTimeout) :=
      ⟨rfl, rfl, .inl rfl, h.announced, h.distinct, (h.counting input).voters⟩
    cases next with
    | select =>
      exact h.staysInView ⟨rfl, rfl, .inl rfl, rfl, .inr rfl⟩ (List.Subset.refl _) fun _ => hquiet
    | joined restore =>
      exact hcounting.joinedViewChange h (.inl hnext) (fun _ _ => hnext)
        fun hrestore => (hcaused hrestore).concat hquiet
    | save restore =>
      refine hcounting.saveViewChange h hnext ?_ restore
      exact hcaused.imp (fun hrestore => hrestore.concat hquiet) id
    | prepare =>
      refine .entered rfl hnext rfl hnext hcaused ?_
      refine of_new ?_ rfl rfl rfl
      exact Nat.le_trans h.real_le_curr h.curr_le_next
  · simp at hstep

theorem step (h : Progress cfg since nd) (hcrash : input.event ≠ .crash)
    (hstep : nd.step cfg input = some nd') : Moves cfg since nd input nd' := by
  have htrace := Node.step_trace_subset hstep
  obtain ⟨-, hadmissible, -⟩ := Node.step_transition hstep
  obtain ⟨verifier, event⟩ := input
  simp only [Node.step, Option.ite_none_left_eq_some] at hstep
  have hreact := hstep.2.2
  by_cases hown : ∃ own, event = .viewChanger own
  · obtain ⟨own, rfl⟩ := hown
    have hvc : nd.viewChangerStep cfg verifier own = some nd' := hreact
    cases hvoting : own.voting with
    | false =>
      refine h.staysInView (Node.viewChangerStep_staysInView hvc hvoting) htrace ?_
      intro haborting other heq
      obtain rfl := NodeEvent.viewChanger.inj heq
      exact Node.viewChangerStep_aborting hvc haborting
    | true =>
      by_cases habort : own = .abortSent
      · subst habort
        unfold Node.viewChangerStep at hvc
        split at hvc <;> simp_all [Node.viewChangerSelect, Node.waitInFlightStep]
        exact h.abortSent rfl hvc
      · obtain ⟨hpc, hselect⟩ := Node.viewChangerStep_select hvc hvoting habort
        unfold ViewChangerEvent.voting at hvoting
        split at hvoting
        · simp only [Node.viewChangerSelect] at hselect
          split at hselect
          · simp at hselect
          · exact Option.some.inj hselect ▸ h.startChange hpc
        · rename_i sender nextView
          obtain rfl := Option.some.inj hselect
          exact h.processNextView hpc (by simpa [NodeEvent.admissible] using hadmissible) rfl
            htrace
        · obtain ⟨view, -, rfl⟩ := Option.map_eq_some_iff.mp hselect
          exact h.inform hpc rfl
        · simp only [Node.viewChangerSelect, Option.ite_none_right_eq_some] at hselect
          obtain ⟨-, hselect⟩ := hselect
          obtain rfl := Option.some.inj hselect
          have hcounting : Counting cfg (since ++ [⟨verifier, .viewChanger .restore⟩]) nd
              { nd with viewChanger := { nd.viewChanger with restore := false } } :=
            ⟨rfl, rfl, .inl rfl, h.announced, h.distinct, (h.counting _).voters⟩
          refine hcounting.processViewChangeMsg h (.inl rfl) ?_ ?_
          · exact fun hspeedUp hmany => h.joined hspeedUp (Nat.le_of_lt hmany)
          · exact fun _ => ⟨since, _, [], rfl, rfl, by simp⟩
        · exact absurd rfl habort
        · simp at hvoting
  · refine h.staysInView (.of_keepsViews (Node.react_keepsViews hreact hcrash
      fun own heq => hown ⟨own, heq⟩)) htrace ?_
    exact fun _ own heq => absurd ⟨own, heq⟩ hown

end Progress

/-- The run has led to `nd` by `since` after it had come to the view that `nd` is in. -/
def InViewSince (cfg : Config) (start : Node) (earlier since : List NodeInput) (nd : Node) :
    Prop :=
  ∃ came, run (Node.step cfg) start earlier = some came ∧
    run (Node.step cfg) came since = some nd ∧
    StepsMeet (Node.step cfg)
      (fun mid _ => mid.viewChanger.currView = nd.viewChanger.currView) came since

theorem Progress.run {cfg : Config} {start nd : Node} {inputs : List NodeInput}
    (hstart : Progress cfg [] start) (hcrash : ∀ input ∈ inputs, input.event ≠ .crash)
    (hrun : run (Node.step cfg) start inputs = some nd) :
    ∃ earlier since, inputs = earlier ++ since ∧ InViewSince cfg start earlier since nd ∧
      Progress cfg since nd := by
  induction inputs using List.reverseRecOn generalizing nd with
  | nil =>
    simp only [Foundation.run, Option.some.injEq] at hrun
    exact ⟨[], [], rfl, ⟨start, rfl, hrun ▸ rfl, trivial⟩, hrun ▸ hstart⟩
  | append_singleton inputs input ih =>
    obtain ⟨mid, hmid, hstep⟩ := run_concat.mp hrun
    obtain ⟨earlier, since, rfl, ⟨came, hcame, hsince, hmeets⟩, hprogress⟩ :=
      ih (fun other hother => hcrash other (List.mem_append_left _ hother)) hmid
    have hnew : Progress cfg [] nd → ∃ earlier' since', earlier ++ since ++ [input] =
        earlier' ++ since' ∧ InViewSince cfg start earlier' since' nd ∧
          Progress cfg since' nd := fun h =>
      ⟨earlier ++ since ++ [input], [], by simp, ⟨nd, hrun, rfl, trivial⟩, h⟩
    cases hprogress.step (hcrash input (by simp)) hstep with
    | stays _ hcurr _ h =>
      refine ⟨earlier, since ++ [input], by simp, ⟨came, hcame, ?_, ?_⟩, h⟩
      · exact run_concat.mpr ⟨mid, hsince, hstep⟩
      · rw [hcurr]
        exact hmeets.concat hsince rfl
    | informed _ _ _ _ h => exact hnew h
    | entered _ _ _ _ _ h => exact hnew h

theorem progress_of_boot {cfg : Config} {entries : List SavedMessage} {checkpoint : Decision}
    {nd : Node} (h : Node.boot cfg entries checkpoint = .ok nd) : Progress cfg [] nd := by
  obtain ⟨md, start, leader, v, inFlight, -, -, -, -, rfl⟩ := Node.boot_ok h
  exact .of_new (Nat.le_refl _) rfl rfl rfl

def countVotes : List NodeInput :=
  accepting [.viewChanger (.msg 1 (.viewChange 1)), .viewChanger (.msg 4 (.viewChange 1)),
    .viewChanger .abortSent, .controller .abortView, .view .abort, .controller .viewEnded]

end SmartBFT
