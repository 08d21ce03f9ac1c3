import SmartBFT.Node.RunLoop

/-!
# Which views are installed

`processNewViewMsg` installs the view `currView` by a call of
`Controller.ViewChanged`.  Only `processNewViewMsg` and `informNewView` write
`realView`, so the installed views increase as long as a new view message is
not processed for a view that is installed already.  Nothing in
`processNewViewMsg` checks that: a message that is replayed installs its view
again.
-/

namespace SmartBFT

open Foundation Relation

namespace Node

def announcing (nd : Node) : Option Nat :=
  match nd.viewChanger.pc with
  | .sendViewChanged view _ _ => some view
  | _ => none

def viewChangedCall (nd nd' : Node) : Option Nat :=
  if nd.announcing = none then nd'.announcing else none

def installs (cfg : Config) : Node → List NodeInput → List Nat
  | _, [] => []
  | nd, input :: inputs =>
    match nd.step cfg input with
    | none => []
    | some nd' => (nd.viewChangedCall nd').toList ++ installs cfg nd' inputs

/-- A valid new view message is processed although its view is installed. -/
def reinstalls (cfg : Config) (nd : Node) (input : NodeInput) : Bool :=
  match input.event, nd.viewChanger.pc with
  | .viewChanger .validate, .validate signed _ =>
    decide (nd.viewChanger.currView ≤ nd.viewChanger.realView) &&
      decide (validateNewViewMsg input.verifier nd.viewChanger.currView cfg.quorum
        nd.checkpoint signed = .ok .valid)
  | _, _ => false

end Node

/-! ## What leaves the view numbers alone -/

structure KeepsViews (nd nd' : Node) : Prop where
  views : nd.viewChanger.SameViews nd'.viewChanger
  pc : nd'.viewChanger.pc = nd.viewChanger.pc
  votes : nd'.viewChanger.viewChangeMsgs = nd.viewChanger.viewChangeMsgs

namespace KeepsViews

theorem refl (nd : Node) : KeepsViews nd nd := ⟨⟨rfl, rfl, rfl⟩, rfl, rfl⟩

theorem trans {a b c : Node} (hab : KeepsViews a b) (hbc : KeepsViews b c) :
    KeepsViews a c where
  views.realView := hbc.views.realView.trans hab.views.realView
  views.currView := hbc.views.currView.trans hab.views.currView
  views.nextView := hbc.views.nextView.trans hab.views.nextView
  pc := hbc.pc.trans hab.pc
  votes := hbc.votes.trans hab.votes

theorem after {a b c : Node} (hbc : KeepsViews b c) (hab : KeepsViews a b) : KeepsViews a c :=
  hab.trans hbc

theorem of_viewChanger {nd nd' : Node} (h : nd'.viewChanger = nd.viewChanger) :
    KeepsViews nd nd' := by
  constructor
  · rw [h]
    exact ⟨rfl, rfl, rfl⟩
  · rw [h]
  · rw [h]

end KeepsViews

namespace Node

variable {cfg : Config} {verifier : Verifier} {nd nd' : Node}

theorem save_keepsViews (nd : Node) (m : SavedMessage) : KeepsViews nd (nd.save m) :=
  .of_viewChanger (save_keepsViewChanger nd m).1

theorem deliver_keepsViews (nd : Node) (decision : Decision) (answer : DeliverAnswer) :
    KeepsViews nd (nd.deliver decision answer) := by
  apply KeepsViews.of_viewChanger
  rcases deliver_cases nd decision answer with ⟨text, h⟩ | h | h <;> rw [h] <;> rfl

theorem sync_keepsViews (cfg : Config) (nd : Node) : KeepsViews nd (nd.sync cfg) := by
  apply KeepsViews.of_viewChanger
  unfold sync
  split <;> rfl

theorem startViewChange_keepsViews (nd : Node) (view : Nat) (stopView : Bool) :
    KeepsViews nd (nd.startViewChange view stopView) := by
  unfold startViewChange
  split
  · exact ⟨⟨rfl, rfl, rfl⟩, rfl, rfl⟩
  · exact .refl nd

theorem timedOut_keepsViews (cfg : Config) (nd : Node) : KeepsViews nd (nd.timedOut cfg) := by
  have hwatch : KeepsViews nd { nd with viewChanger :=
    { nd.viewChanger with checkTimeout := false } } := ⟨⟨rfl, rfl, rfl⟩, rfl, rfl⟩
  exact (hwatch.trans (sync_keepsViews cfg _)).trans (startViewChange_keepsViews _ _ _)

theorem applyOutput_keepsViews (cfg : Config) (origin : Origin) (nd : Node)
    (output : ViewOutput) : KeepsViews nd (nd.applyOutput cfg origin output) := by
  cases output with
  | save m => exact save_keepsViews nd m
  | complain viewNum stopView =>
    simp only [applyOutput, complain]
    split
    · exact .of_viewChanger rfl
    · exact startViewChange_keepsViews nd viewNum stopView
  | sync => exact sync_keepsViews cfg nd
  | _ => exact .of_viewChanger rfl

theorem applyOutputs_keepsViews (cfg : Config) (origin : Origin) (nd : Node)
    (outputs : List ViewOutput) : KeepsViews nd (nd.applyOutputs cfg origin outputs) :=
  applyOutputs_induction cfg origin
    (fun output _ mid hmid => hmid.trans (applyOutput_keepsViews cfg origin mid output))
    (.refl nd)

theorem runLoopEffect_keepsViews (h : RunLoopEffect nd nd') : KeepsViews nd nd' := by
  induction h with
  | refl => exact .refl nd
  | tail _ hop ih =>
    refine ih.trans ?_
    cases hop with
    | saveNewView md => exact save_keepsViews _ _
    | inform view => exact ⟨⟨rfl, rfl, rfl⟩, rfl, rfl⟩
    | _ => exact .of_viewChanger rfl

theorem ControllerSteps.keepsViews {event : ControllerEvent}
    (h : ControllerSteps cfg verifier nd event nd') : KeepsViews nd nd' := by
  cases h.transition with
  | effect _ h => exact runLoopEffect_keepsViews h
  | decide answer c hview =>
    exact (deliver_keepsViews nd _ answer).trans (.of_viewChanger rfl)
  | ack _ h => exact (runLoopEffect_keepsViews h).after (.of_viewChanger rfl)
  | proposed => exact .of_viewChanger rfl
  | sync response reconfig hcheckpoint h =>
    exact (runLoopEffect_keepsViews h).after ⟨⟨rfl, rfl, rfl⟩, rfl, rfl⟩
  | restarted _ _ h =>
    exact (runLoopEffect_keepsViews h).after (.of_viewChanger rfl)

theorem react_keepsViews {event : NodeEvent} (h : nd.react cfg verifier event = some nd')
    (hcrash : event ≠ .crash) (hown : ∀ own, event ≠ .viewChanger own) :
    KeepsViews nd nd' := by
  cases react_steps h with
  | view => exact (applyOutputs_keepsViews cfg _ _ _).after (.of_viewChanger rfl)
  | inFlightView => exact (applyOutputs_keepsViews cfg _ _ _).after (.of_viewChanger rfl)
  | inFlightDeliver answer =>
    exact (deliver_keepsViews nd _ answer).trans ⟨⟨rfl, rfl, rfl⟩, rfl, rfl⟩
  | controller hsteps => exact hsteps.keepsViews
  | viewChanger => exact absurd rfl (hown _)
  | requestSync => exact sync_keepsViews cfg nd
  | complain viewNum stopView => exact startViewChange_keepsViews nd viewNum stopView
  | stop => exact ⟨⟨rfl, rfl, rfl⟩, rfl, rfl⟩
  | down => exact absurd rfl hcrash
  | restarted => exact absurd rfl hcrash
  | _ => exact .of_viewChanger rfl

theorem step_pc {input : NodeInput} (h : nd.step cfg input = some nd') :
    nd'.viewChanger.pc = nd.viewChanger.pc ∨ nd'.viewChanger.pc = .select ∨
      ∃ event, input.event = .viewChanger event ∧
        nd.viewChangerStep cfg input.verifier event = some nd' := by
  have hreact := react_of_step h
  obtain ⟨verifier, event⟩ := input
  by_cases hcrash : event = .crash
  · subst hcrash
    cases react_steps hreact with
    | down text => exact .inl rfl
    | restarted hboot =>
      obtain ⟨_, _, _, _, _, -, -, -, -, rfl⟩ := boot_ok hboot
      exact .inr (.inl rfl)
  · by_cases hown : ∃ own, event = .viewChanger own
    · obtain ⟨own, rfl⟩ := hown
      exact .inr (.inr ⟨own, rfl, hreact⟩)
    · exact .inl (react_keepsViews hreact hcrash fun own heq => hown ⟨own, heq⟩).pc

end Node

/-! ## What the view changer does to its view numbers -/

structure ViewsOrdered (nd : Node) : Prop where
  real_le_curr : nd.viewChanger.realView ≤ nd.viewChanger.currView
  curr_le_next : nd.viewChanger.currView ≤ nd.viewChanger.nextView
  pending : nd.viewChanger.pc.inFlight = true →
    nd.viewChanger.realView < nd.viewChanger.currView

namespace ViewsOrdered

variable {cfg : Config} {verifier : Verifier} {nd nd' : Node}

theorem of_same (h : ViewsOrdered nd) (hviews : nd.viewChanger.SameViews nd'.viewChanger)
    (hpc : nd'.viewChanger.pc = nd.viewChanger.pc) : ViewsOrdered nd' := by
  obtain ⟨hreal, hcurr, hnext⟩ := hviews
  constructor
  · rw [hreal, hcurr]
    exact h.real_le_curr
  · rw [hcurr, hnext]
    exact h.curr_le_next
  · rw [hreal, hcurr, hpc]
    exact h.pending

theorem of_views (h : ViewsOrdered nd) (hviews : nd.viewChanger.SameViews nd'.viewChanger)
    (hpc : nd'.viewChanger.pc.inFlight = false) : ViewsOrdered nd' := by
  obtain ⟨hreal, hcurr, hnext⟩ := hviews
  constructor
  · rw [hreal, hcurr]
    exact h.real_le_curr
  · rw [hcurr, hnext]
    exact h.curr_le_next
  · simp [hpc]

theorem of_boot {entries : List SavedMessage} {checkpoint : Decision}
    (h : Node.boot cfg entries checkpoint = .ok nd) : ViewsOrdered nd := by
  obtain ⟨md, start, leader, v, inFlight, -, -, -, -, rfl⟩ := Node.boot_ok h
  constructor
  · exact Nat.le_refl start.view
  · exact Nat.le_refl start.view
  · intro hpc
    exact absurd hpc (by simp [Node.started, ViewChangerPc.inFlight])

end ViewsOrdered

structure Advances (nd nd' : Node) : Prop where
  ordered : ViewsOrdered nd'
  real_le : nd.viewChanger.realView ≤ nd'.viewChanger.realView
  call : ∀ view, nd.viewChangedCall nd' = some view →
    nd.viewChanger.realView < view ∧ nd'.viewChanger.realView = view

namespace Node

variable {cfg : Config} {verifier : Verifier} {nd nd' : Node}

theorem announcing_of_pc (h : nd'.viewChanger.pc = nd.viewChanger.pc) :
    nd'.announcing = nd.announcing := by
  simp only [announcing, h]

theorem announcing_of_plain (h : nd.viewChanger.pc.plain = true) : nd.announcing = none := by
  cases hpc : nd.viewChanger.pc <;> simp_all [announcing, ViewChangerPc.plain]

theorem viewChangedCall_of_announcing (h : nd'.announcing = none ∨ nd'.announcing = nd.announcing) :
    nd.viewChangedCall nd' = none := by
  unfold viewChangedCall
  split
  · rename_i hbefore
    rcases h with h | h
    · exact h
    · exact h.trans hbefore
  · rfl

structure StaysInstalled (nd nd' : Node) : Prop where
  ordered : ViewsOrdered nd'
  real_le : nd.viewChanger.realView ≤ nd'.viewChanger.realView
  announcing : nd'.announcing = none ∨ nd'.announcing = nd.announcing

theorem StaysInstalled.advances (h : StaysInstalled nd nd') : Advances nd nd' where
  ordered := h.ordered
  real_le := h.real_le
  call view hview := by
    rw [viewChangedCall_of_announcing h.announcing] at hview
    simp at hview

theorem StaysInstalled.of_same (h : ViewsOrdered nd)
    (hviews : nd.viewChanger.SameViews nd'.viewChanger)
    (hpc : nd'.viewChanger.pc = nd.viewChanger.pc) : StaysInstalled nd nd' where
  ordered := h.of_same hviews hpc
  real_le := Nat.le_of_eq hviews.realView.symm
  announcing := .inr (announcing_of_pc hpc)

theorem StaysInstalled.of_keepsViews (h : ViewsOrdered nd) (hkeeps : KeepsViews nd nd') :
    StaysInstalled nd nd' :=
  .of_same h hkeeps.views hkeeps.pc

theorem StaysInstalled.trans {a b c : Node} (hab : StaysInstalled a b)
    (hbc : StaysInstalled b c) : StaysInstalled a c where
  ordered := hbc.ordered
  real_le := Nat.le_trans hab.real_le hbc.real_le
  announcing := by
    rcases hbc.announcing with h | h
    · exact .inl h
    · rw [h]
      exact hab.announcing

theorem viewChangerOp_staysInstalled (h : ViewsOrdered nd)
    (hop : ViewChangerOp cfg verifier false voting nd nd') : StaysInstalled nd nd' := by
  cases hop with
  | own vc hpc hstopped hviews =>
    rcases hpc with hplain | hsame
    · refine ⟨h.of_views hviews (ViewChangerPc.inFlight_of_plain hplain), ?_, ?_⟩
      · exact Nat.le_of_eq hviews.realView.symm
      · exact .inl (announcing_of_plain hplain)
    · exact .of_same h hviews hsame
  | askAbort => exact ⟨h.of_views ⟨rfl, rfl, rfl⟩ rfl, Nat.le_refl _, .inl rfl⟩
  | join => exact ⟨⟨h.real_le_curr, Nat.le_succ _, h.pending⟩, Nat.le_refl _, .inr rfl⟩
  | enter =>
    have hnext := Nat.le_trans h.real_le_curr h.curr_le_next
    refine ⟨⟨hnext, Nat.le_refl _, ?_⟩, Nat.le_refl _, .inl rfl⟩
    intro hpc
    exact absurd hpc (by simp [enterNextView, beginViewData, setViewChanger,
      ViewChangerPc.inFlight])
  | inform _ hpc hview =>
    refine ⟨⟨Nat.le_refl _, Nat.le_refl _, ?_⟩, ?_, .inr rfl⟩
    · intro hinFlight
      simp [hpc, ViewChangerPc.inFlight] at hinFlight
    · exact Nat.le_trans h.real_le_curr hview
  | install hsettled => simp at hsettled
  | saveNewView hsettled => simp at hsettled
  | saveViewChange => exact .of_keepsViews h (save_keepsViews nd _)
  | beginDeliver => exact ⟨h.of_views ⟨rfl, rfl, rfl⟩ rfl, Nat.le_refl _, .inl rfl⟩
  | _ => exact .of_keepsViews h (.of_viewChanger rfl)

theorem viewChangerEffect_staysInstalled (h : ViewsOrdered nd)
    (heffect : ViewChangerEffect cfg verifier false voting nd nd') : StaysInstalled nd nd' := by
  induction heffect with
  | refl => exact .of_keepsViews h (.refl nd)
  | tail _ hop ih => exact ih.trans (viewChangerOp_staysInstalled ih.ordered hop)

theorem saveNewView_viewChanger (cfg : Config) {mySequence : Nat} (own : Bool)
    (hsequence : extractCurrentSequence nd.checkpoint = .ok mySequence)
    (hopen : nd.viewChanger.stopped = false) :
    (nd.saveNewView cfg own).viewChanger = { nd.viewChanger with
      realView := nd.viewChanger.currView
      nvs := {}
      pc := .sendViewChanged nd.viewChanger.currView (mySequence + 1) own } := by
  obtain ⟨hview, -⟩ := save_keepsViewChanger nd
    (.newView { viewId := nd.viewChanger.currView, latestSequence := mySequence })
  simp only [saveNewView, hsequence]
  generalize nd.save _ = saved at *
  rw [← hview] at hopen ⊢
  simp only [hopen, Bool.false_eq_true, if_false]
  split <;> rfl

theorem finishNewView_staysInstalled (h : ViewsOrdered nd) (own : Bool) :
    StaysInstalled nd (nd.finishNewView own) := by
  unfold finishNewView
  split <;> exact ⟨h.of_views ⟨rfl, rfl, rfl⟩ rfl, Nat.le_refl _, .inl rfl⟩

theorem saveNewView_stopped (cfg : Config) (own : Bool) (h : ViewsOrdered nd)
    (hstop : (∃ failure, extractCurrentSequence nd.checkpoint = .error failure) ∨
      nd.viewChanger.stopped = true) : StaysInstalled nd (nd.saveNewView cfg own) := by
  unfold saveNewView
  split
  · exact .of_keepsViews h ⟨⟨rfl, rfl, rfl⟩, rfl, rfl⟩
  · rename_i mySequence hsequence
    have hstopped : nd.viewChanger.stopped = true := by
      rcases hstop with ⟨failure, hfailure⟩ | hstopped
      · simp [hsequence] at hfailure
      · exact hstopped
    obtain ⟨hview, -⟩ := save_keepsViewChanger nd
      (.newView { viewId := nd.viewChanger.currView, latestSequence := mySequence })
    simp only [hview, hstopped, if_true]
    have hsaved := StaysInstalled.of_keepsViews h (.of_viewChanger hview)
    exact hsaved.trans (finishNewView_staysInstalled hsaved.ordered own)

theorem saveNewView_advances (cfg : Config) (h : ViewsOrdered nd)
    (hpending : nd.viewChanger.realView < nd.viewChanger.currView) (own : Bool) :
    Advances nd (nd.saveNewView cfg own) := by
  cases hsequence : extractCurrentSequence nd.checkpoint with
  | error failure => exact (saveNewView_stopped cfg own h (.inl ⟨failure, hsequence⟩)).advances
  | ok mySequence =>
    cases hstopped : nd.viewChanger.stopped with
    | true => exact (saveNewView_stopped cfg own h (.inr hstopped)).advances
    | false =>
      have hinstalled := saveNewView_viewChanger cfg own hsequence hstopped
      generalize nd.saveNewView cfg own = installed at *
      constructor
      · constructor
        · rw [hinstalled]
        · rw [hinstalled]
          exact h.curr_le_next
        · simp [hinstalled, ViewChangerPc.inFlight]
      · rw [hinstalled]
        exact h.real_le_curr
      · intro view hview
        have hcall : nd.viewChanger.currView = view := by
          simp only [viewChangedCall, Option.ite_none_right_eq_some] at hview
          simpa [announcing, hinstalled] using hview.2
        rw [hinstalled, ← hcall]
        exact ⟨hpending, rfl⟩

theorem StaysInstalled.of_pending (h : ViewsOrdered nd)
    (hpending : nd.viewChanger.realView < nd.viewChanger.currView)
    (hviews : nd.viewChanger.SameViews nd'.viewChanger) (hnone : nd'.announcing = none) :
    StaysInstalled nd nd' := by
  obtain ⟨hreal, hcurr, hnext⟩ := hviews
  refine ⟨⟨?_, ?_, ?_⟩, Nat.le_of_eq hreal.symm, .inl hnone⟩
  · rw [hreal, hcurr]
    exact h.real_le_curr
  · rw [hcurr, hnext]
    exact h.curr_le_next
  · intro _
    rw [hreal, hcurr]
    exact hpending

theorem pending_of_settled {event : ViewChangerEvent} (h : ViewsOrdered nd)
    (hmeets : nd.reinstalls cfg ⟨verifier, .viewChanger event⟩ = false)
    (hsettled : nd.Settled cfg verifier event) :
    nd.viewChanger.realView < nd.viewChanger.currView := by
  cases hsettled with
  | noInFlight hpc hchecked _ =>
    simp only [reinstalls, hpc, hchecked.valid] at hmeets
    simpa using hmeets
  | decided hpc _ => exact h.pending (by rw [hpc]; rfl)
  | committed hpc => exact h.pending (by rw [hpc]; rfl)

theorem viewChangerStep_advances {event : ViewChangerEvent} (h : ViewsOrdered nd)
    (hmeets : nd.reinstalls cfg ⟨verifier, .viewChanger event⟩ = false)
    (hstep : nd.viewChangerStep cfg verifier event = some nd') : Advances nd nd' := by
  cases viewChangerStep_transition hstep with
  | effect _ heffect => exact (viewChangerEffect_staysInstalled h heffect).advances
  | read =>
    exact StaysInstalled.advances ⟨h.of_views ⟨rfl, rfl, rfl⟩ rfl, Nat.le_refl _, .inl rfl⟩
  | newView hsettled own =>
    exact saveNewView_advances cfg h (pending_of_settled h hmeets hsettled) own
  | @viewData _ lastDecision inFlight purpose _ heffect =>
    have hkeeps : KeepsViews nd
      (nd.record (.viewData purpose (nd.viewDataOf lastDecision inFlight))) :=
      .of_viewChanger rfl
    have hbuilt := viewChangerEffect_staysInstalled (h.of_same hkeeps.views hkeeps.pc) heffect
    exact ((StaysInstalled.of_keepsViews h hkeeps).trans hbuilt).advances
  | @delivered _ decision _ answer _ heffect =>
    have hdelivered := StaysInstalled.of_keepsViews h (deliver_keepsViews nd decision answer)
    exact (hdelivered.trans
      (viewChangerEffect_staysInstalled hdelivered.ordered heffect)).advances
  | beginCommit hpc hchecked _ =>
    have hpending : nd.viewChanger.realView < nd.viewChanger.currView := by
      simp only [reinstalls, hpc, hchecked.valid] at hmeets
      simpa using hmeets
    exact StaysInstalled.advances (.of_pending h hpending ⟨rfl, rfl, rfl⟩ rfl)
  | startInFlight hpc | decided hpc | synced hpc | stop hpc =>
    have hpending := h.pending (by rw [hpc]; rfl)
    exact StaysInstalled.advances (.of_pending h hpending ⟨rfl, rfl, rfl⟩ rfl)
  | timeout hpc =>
    have hkeeps := timedOut_keepsViews cfg nd
    have hpending := h.pending (by rw [hpc]; rfl)
    exact StaysInstalled.advances (.of_pending h hpending
      { hkeeps.views with } rfl)

theorem step_advances {input : NodeInput} (h : ViewsOrdered nd)
    (hcrash : input.event ≠ .crash) (hmeets : nd.reinstalls cfg input = false)
    (hstep : nd.step cfg input = some nd') : Advances nd nd' := by
  obtain ⟨verifier, event⟩ := input
  simp only [step, Option.ite_none_left_eq_some] at hstep
  obtain ⟨-, -, hreact⟩ := hstep
  by_cases hown : ∃ own, event = .viewChanger own
  · obtain ⟨own, rfl⟩ := hown
    exact viewChangerStep_advances h hmeets hreact
  · have hkeeps := react_keepsViews hreact hcrash fun own hevent => hown ⟨own, hevent⟩
    exact (StaysInstalled.of_keepsViews h hkeeps).advances

theorem installs_increasing {inputs : List NodeInput} (h : ViewsOrdered nd)
    (hcrash : ∀ input ∈ inputs, input.event ≠ .crash)
    (hmeets : StepsMeet (Node.step cfg) (fun nd input => nd.reinstalls cfg input = false)
      nd inputs) :
    (installs cfg nd inputs).Pairwise (· < ·) ∧
      ∀ view ∈ installs cfg nd inputs, nd.viewChanger.realView < view := by
  induction inputs generalizing nd with
  | nil => simp [installs]
  | cons input inputs ih =>
    rw [installs]
    cases hstep : nd.step cfg input with
    | none => simp
    | some next =>
      have hadvances := step_advances h (hcrash input List.mem_cons_self) hmeets.1 hstep
      obtain ⟨hpairwise, habove⟩ := ih hadvances.ordered
        (fun other hother => hcrash other (List.mem_cons_of_mem _ hother))
        (hmeets.2 next hstep)
      have hlater : ∀ view ∈ installs cfg next inputs, nd.viewChanger.realView < view :=
        fun view hview => Nat.lt_of_le_of_lt hadvances.real_le (habove view hview)
      simp only
      cases hcall : nd.viewChangedCall next with
      | none => exact ⟨hpairwise, hlater⟩
      | some view =>
        obtain ⟨hfresh, hreal⟩ := hadvances.call view hcall
        rw [hreal] at habove
        simp only [Option.toList_some, List.cons_append, List.nil_append]
        constructor
        · exact List.pairwise_cons.mpr ⟨habove, hpairwise⟩
        · intro other hother
          rcases List.mem_cons.mp hother with rfl | hother
          · exact hfresh
          · exact hlater other hother

end Node

def installView (view leader : Nat) (signers : List Nat) : List NodeEvent :=
  [.viewChanger (.msg leader (.newView (signers.map fun signer =>
      ⟨.marshal { nextView := view, lastDecision := some {} }, signer, []⟩))),
    .viewChanger .validate, .viewChanger .viewChangedSent]

def installViewOne : List NodeEvent := installView 1 2 [1, 2, 4]

/-- Node `4` joins view `1`, starts it, and joins view `2`. -/
def installBoth : List NodeEvent :=
  joinView 1 1 3 ++ installView 1 2 [1, 2, 3] ++
    [.controller .viewChange, .controller .viewEnded, .controller .abortView] ++
    joinView 2 1 2 ++ installView 2 3 [1, 2, 3]

end SmartBFT
