import SmartBFT.Node.Delivery
import SmartBFT.Node.Endorsement

/-!
# The views that a node takes part in

A node that accepts a proposal, or that saves a new view record, relies on the new view
message that has opened the view, which may have reached another node.  What there is to
rely on is left open here: `runs view seq` says that the view may be run at the sequence.

The view changer looks at a new view message once, and may have to commit an in-flight
proposal before it installs the view.  Until then `Node.Opens` holds: the view may be run
above whatever the checkpoint is, as soon as the in-flight proposal is decided.
-/

namespace SmartBFT

open Foundation Relation

def Node.Opens (runs : Nat → Nat → Prop) (nd : Node) (seq : Nat) : Prop :=
  ∀ m, nd.checkpoint.sequence ≤ m → seq ≤ m → runs nd.viewChanger.currView (m + 1)

namespace Node.Opens

variable {runs : Nat → Nat → Prop} {nd nd' : Node} {seq : Nat}

theorem mono (h : nd.Opens runs seq)
    (hview : nd'.viewChanger.currView = nd.viewChanger.currView)
    (hle : nd.checkpoint.sequence ≤ nd'.checkpoint.sequence) : nd'.Opens runs seq := by
  intro m hcheckpoint hseq
  rw [hview]
  exact h m (Nat.le_trans hle hcheckpoint) hseq

theorem reached (h : nd.Opens runs seq) (hseq : seq ≤ nd.checkpoint.sequence) :
    nd.Opens runs 0 :=
  fun m hcheckpoint _ => h m hcheckpoint (Nat.le_trans hseq hcheckpoint)

end Node.Opens

structure View.Awaits (opens : Nat → Prop) (v : View) : Prop where
  holds : v.Holds fun proposal => opens (Decision.sequence { proposal := proposal })
  delivering : v.pc = .delivering → opens 0

theorem View.Transition.pc_delivering {cfg : Config} {verifier : Verifier}
    {checkpoint : Decision} {v v' : View} {event : ViewEvent} {outputs : List ViewOutput}
    (h : View.Transition cfg verifier checkpoint v event v' outputs)
    (hpc : v'.pc = .delivering) : v.pc = .delivering := by
  cases h with
  | queued => exact hpc
  | received =>
    rw [(View.processMsg_sameProgress cfg _ _ _).pc] at hpc
    exact hpc
  | nothingToSend => exact hpc
  | panicked => exact hpc
  | otherPrepare => exact hpc
  | otherCommit => exact hpc
  | _ => simp [View.beginProposal, View.rejectProposal, View.acceptProposal,
      View.finishPrepares, View.decide] at hpc

namespace View.Awaits

variable {cfg : Config} {opens opens' : Nat → Prop} {verifier : Verifier}
  {checkpoint : Decision} {v v' : View} {event : ViewEvent} {outputs : List ViewOutput}

theorem mono (h : v.Awaits opens) (hsub : ∀ seq, opens seq → opens' seq) : v.Awaits opens' :=
  ⟨h.holds.mono fun _ => hsub _, fun hpc => hsub 0 (h.delivering hpc)⟩

theorem move (h : v.Awaits opens) (hmove : InFlightMove v v') : v'.Awaits opens := by
  refine ⟨h.holds.move hmove, ?_⟩
  cases hmove with
  | stop => exact h.delivering
  | decided => simp [View.decided]
  | synced => simp

theorem step (h : v.Awaits opens)
    (htransition : View.Transition cfg verifier checkpoint v event v' outputs)
    (hsave : ∀ m, .save m ∉ outputs) : v'.Awaits opens :=
  ⟨h.holds.step htransition hsave, fun hpc => h.delivering (htransition.pc_delivering hpc)⟩

theorem awaitSync (h : v.Awaits opens) (outputs : List ViewOutput) :
    (Node.awaitSync v outputs).Awaits opens := by
  refine ⟨h.holds.awaitSync outputs, ?_⟩
  rcases View.awaitSync_cases v outputs with hsame | ⟨loop, -, -, hawait⟩
  · rw [hsame]
    exact h.delivering
  · simp [hawait]

end View.Awaits

namespace Node

variable {cfg : Config} {opens : Nat → Prop} {nd nd' : Node}

theorem quietEffect_awaits (h : QuietEffect nd nd')
    (hawaits : ∀ v ∈ nd.inFlightView, v.Awaits opens) : ∀ v ∈ nd'.inFlightView, v.Awaits opens := by
  refine QuietEffect.keeps (motive := fun mid => ∀ v ∈ mid.inFlightView, v.Awaits opens) ?_ h
    hawaits
  intro a b hop hbefore
  cases hop with
  | moveInFlight hview hmove =>
    intro v hv
    obtain rfl := Option.some.inj hv
    exact (hbefore _ hview).move hmove
  | saveViewChange =>
    rcases save_cases a _ with ⟨text, hcase⟩ | ⟨persisted, -, hcase⟩ <;> rw [hcase] <;>
      exact hbefore
  | saveNewView =>
    rcases save_cases a _ with ⟨text, hcase⟩ | ⟨persisted, -, hcase⟩ <;> rw [hcase] <;>
      exact hbefore
  | _ => exact hbefore

theorem applyOutputs_awaits (cfg : Config) (origin : Origin) (outputs : List ViewOutput)
    (hawaits : ∀ v ∈ nd.inFlightView, v.Awaits opens) :
    ∀ v ∈ (nd.applyOutputs cfg origin outputs).inFlightView, v.Awaits opens := by
  refine applyOutputs_keeps (motive := fun mid => ∀ v ∈ mid.inFlightView, v.Awaits opens) cfg
    origin ?_ ?_ ?_ ?_ hawaits
  · exact fun hop => quietEffect_awaits (ReflTransGen.single hop)
  · exact fun _ _ _ hmid => hmid
  · exact fun _ _ _ _ hmid => hmid
  · intro m _ mid hmid
    rcases save_cases mid m with ⟨text, hcase⟩ | ⟨persisted, -, hcase⟩ <;> rw [hcase] <;>
      exact hmid

theorem transition_awaits {input : NodeInput} (h : NodeTransition cfg nd input nd')
    (hshape : ∀ v ∈ nd.inFlightView, InFlightShape v)
    (hown : ∀ event, input.event ≠ .viewChanger event)
    (hdelivered : ∀ v decision requests answer, input.event = .inFlightDeliver answer →
      nd.inFlightView = some v → v.pc = .deciding decision requests → opens 0)
    (hawaits : ∀ v ∈ nd.inFlightView, v.Awaits opens) :
    ∀ v ∈ nd'.inFlightView, v.Awaits opens := by
  cases h with
  | quiet _ heffect => exact quietEffect_awaits heffect hawaits
  | view => exact applyOutputs_awaits cfg _ _ hawaits
  | inFlightView hview htransition =>
    have hnone := (hshape _ hview).saves_nothing htransition
    refine applyOutputs_awaits cfg _ _ fun v hv => ?_
    obtain rfl := Option.some.inj hv
    exact ((hawaits _ hview).step htransition hnone).awaitSync _
  | @inFlightDeliver view decision requests verifier answer vc hview hpc =>
    intro v hv
    obtain rfl := Option.some.inj hv
    have hstopped := (hawaits view hview).move (.stop view)
    exact ⟨hstopped.holds.of_pc .delivering (by simp), fun _ =>
      hdelivered view decision requests answer rfl hview hpc⟩
  | decide _ answer =>
    intro v hv
    rw [(deliver_keepsInFlight nd _ answer).view] at hv
    exact hawaits v hv
  | proposed => exact hawaits
  | sync _ _ _ _ heffect => exact quietEffect_awaits heffect hawaits
  | restarted _ _ heffect => exact quietEffect_awaits heffect hawaits
  | viewData => exact absurd rfl (hown _)
  | delivered => exact absurd rfl (hown _)
  | startInFlight => exact absurd rfl (hown _)
  | crash _ hboot =>
    obtain ⟨md, start, leader, v, inFlight, -, -, -, -, rfl⟩ := boot_ok hboot
    simp [started]

end Node

/-! ## New view records -/

namespace Node

variable {cfg : Config} {verifier : Verifier} {nd nd' : Node} {md : ViewMetadata}

theorem viewChangerEffect_newView (h : ViewChangerEffect cfg verifier false voting nd nd')
    (hmem : .save (.newView md) ∈ nd'.trace) : .save (.newView md) ∈ nd.trace := by
  induction h with
  | refl => exact hmem
  | tail _ hop ih =>
    apply ih
    cases hop with
    | record haction =>
      rcases List.mem_cons.mp hmem with rfl | hold
      · nomatch haction
      · exact hold
    | saveViewChange =>
      rcases mem_trace_save hmem with hold | hnew
      · exact hold
      · simp at hnew
    | saveNewView hsettled => simp at hsettled
    | _ => exact hmem

theorem saveNewView_newView {own : Bool}
    (hmem : .save (.newView md) ∈ (nd.saveNewView cfg own).trace) :
    .save (.newView md) ∈ nd.trace ∨ md.viewId = nd.viewChanger.currView ∧
      extractCurrentSequence nd.checkpoint = .ok md.latestSequence := by
  unfold saveNewView at hmem
  split at hmem
  · exact .inl hmem
  · rename_i mySequence hsequence
    -- what follows the save leaves the history alone
    have hsaved : .save (.newView md) ∈ (nd.save (.newView {
        viewId := nd.viewChanger.currView, latestSequence := mySequence })).trace := by
      simp only [finishNewView] at hmem
      split at hmem
      · split at hmem <;> exact hmem
      · split at hmem <;> exact hmem
    rcases mem_trace_save hsaved with hold | hnew
    · exact .inl hold
    · obtain rfl : md = _ := by simpa using hnew
      exact .inr ⟨rfl, hsequence⟩

theorem react_newView {event : NodeEvent} (h : nd.react cfg verifier event = some nd')
    (hshape : ∀ v ∈ nd.inFlightView, InFlightShape v)
    (hmem : .save (.newView md) ∈ nd'.trace) :
    .save (.newView md) ∈ nd.trace ∨ (∃ own, event = .controller own) ∨
      ∃ own, event = .viewChanger own ∧ nd.Settled cfg verifier own ∧
        md.viewId = nd.viewChanger.currView ∧
        extractCurrentSequence nd.checkpoint = .ok md.latestSequence := by
  cases react_steps h with
  | view hview =>
    rcases mem_trace_applyOutputs hmem with hold | houtput
    · exact .inl hold
    · cases houtput with
      | save hsave =>
        rcases (View.transition_of_step hview).saves with hnone | hsaves
        · exact absurd hsave (hnone _)
        · cases hsaves with
          | proposed _ _ _ _ _ _ _ _ hrest =>
            rcases List.mem_cons.mp hsave with hfirst | hlater
            · simp at hfirst
            · simpa using hrest _ hlater
          | prepared => simp [View.finishPrepares] at hsave
  | @inFlightView _ view _ _ hview hmoved =>
    have hnone := (hshape view hview).saves_nothing (View.transition_of_step hmoved)
    rcases mem_trace_applyOutputs hmem with hold | houtput
    · exact .inl hold
    · cases houtput with
      | save hsave => exact absurd hsave (hnone _)
  | inFlightDeliver answer => exact .inl ((mem_trace_deliver hmem).resolve_right (by simp))
  | @controller event => exact .inr (.inl ⟨event, rfl⟩)
  | @viewChanger event _ hmoved =>
    cases viewChangerStep_transition hmoved with
    | effect _ heffect => exact .inl (viewChangerEffect_newView heffect hmem)
    | newView hsettled own =>
      rcases saveNewView_newView hmem with hold | hnew
      · exact .inl hold
      · exact .inr (.inr ⟨event, rfl, hsettled, hnew⟩)
    | viewData _ heffect =>
      have hrecorded := viewChangerEffect_newView heffect hmem
      exact .inl (by simpa [record] using hrecorded)
    | delivered answer _ heffect =>
      have hdelivered := viewChangerEffect_newView heffect hmem
      exact .inl ((mem_trace_deliver hdelivered).resolve_right (by simp))
    | timeout =>
      simp only [leaveInFlight, timedOut, setViewChanger, startViewChange, sync] at hmem
      split at hmem <;> split at hmem <;> exact .inl hmem
    | _ => exact .inl hmem
  | requestSync =>
    unfold Node.sync at hmem
    split at hmem <;> exact .inl hmem
  | complain viewNum stopView =>
    unfold startViewChange at hmem
    split at hmem <;> exact .inl hmem
  | _ => exact .inl hmem

end Node

/-- The view and the sequence that a record is about: a proposal is accepted, or a view is
opened above a sequence. -/
def Action.opening : Action → Option (Nat × Nat)
  | .save (.proposedRecord pp _) => some (pp.view, pp.seq)
  | .save (.newView md) => some (md.viewId, md.latestSequence + 1)
  | _ => none

structure OpeningInvariant (runs : Nat → Nat → Prop) (nd : Node) : Prop where
  opened : ∀ action ∈ nd.trace, ∀ view seq, action.opening = some (view, seq) → runs view seq
  pending : ∀ signed proposal own, nd.viewChanger.pc = .commitInFlight signed (some proposal) own →
    nd.Opens runs (Decision.sequence { proposal := proposal })
  waiting : ∀ own, nd.viewChanger.pc = .waitInFlight own →
    ∀ v ∈ nd.inFlightView, v.Awaits (nd.Opens runs)
  committed : ∀ own, nd.viewChanger.pc = .abortInFlight true own → nd.Opens runs 0

namespace Node

variable {cfg : Config} {nd nd' : Node}

theorem planInFlight_decided {checkpoint : Decision} {proposal : Proposal}
    (h : planInFlight checkpoint proposal = .decided) : checkpoint.proposal = proposal := by
  unfold planInFlight at h
  split at h
  · simp at h
  · simp at h
  · split at h
    · simp at h
    · split at h
      · split at h
        · assumption
        · simp at h
      · split at h <;> simp at h

theorem deliver_reaches {decision : Decision} {answer : DeliverAnswer}
    (hreadable : ∃ md, nd.checkpointMetadata = some md)
    (hobtains : Obtains nd nd' (nd.deliverOutcome decision answer)) :
    decision.sequence ≤ nd'.checkpoint.sequence := by
  obtain ⟨latest, hlatest⟩ := hreadable
  have hcheckpoint : nd.checkpoint.sequence = latest.latestSequence :=
    sequence_of_metadata hlatest
  have hle := hobtains.checkpoint_le
  have hobtained := hobtains.obtained_le
  cases hpending : decision.proposal.unmarshalMetadata with
  | none => simp [Decision.sequence, hpending]
  | some pending =>
    have hseq := sequence_of_metadata hpending
    simp only [deliverOutcome, hpending, hlatest] at hobtained
    split at hobtained
    · omega
    · exact hobtained (.delivered decision) rfl

end Node

namespace OpeningInvariant

variable {cfg : Config} {runs : Nat → Nat → Prop} {nd nd' : Node} {input : NodeInput}

theorem boot {entries : List SavedMessage} {checkpoint : Decision}
    (h : Node.boot cfg entries checkpoint = .ok nd) : OpeningInvariant runs nd := by
  obtain ⟨md, start, leader, v, inFlight, -, -, -, -, rfl⟩ := Node.boot_ok h
  constructor <;> simp [Node.started]

theorem settled (h : OpeningInvariant runs nd) {verifier : Verifier} {event : ViewChangerEvent}
    (hchecked : ∀ signed own result, event = .validate →
      nd.viewChanger.pc = .validate signed own → nd.Checked cfg verifier signed result →
        result.noInFlight = true → nd.Opens runs 0)
    (hsettled : nd.Settled cfg verifier event) : nd.Opens runs 0 := by
  cases hsettled with
  | noInFlight hpc hcheck hnone => exact hchecked _ _ _ rfl hpc hcheck hnone
  | decided hpc hplan =>
    refine (h.pending _ _ _ hpc).reached (Nat.le_of_eq ?_)
    simp only [Decision.sequence, Node.planInFlight_decided hplan]
  | committed hpc => exact h.committed _ hpc

theorem of_keeps (h : OpeningInvariant runs nd) (hkeeps : KeepsInFlight nd nd')
    (hcheckpoint : nd'.checkpoint = nd.checkpoint)
    (hopened : ∀ action ∈ nd'.trace, ∀ view seq, action.opening = some (view, seq) →
      runs view seq) : OpeningInvariant runs nd' := by
  have hle := Nat.le_of_eq (congrArg Decision.sequence hcheckpoint.symm)
  refine ⟨hopened, ?_, ?_, ?_⟩
  · intro signed proposal own hpc
    obtain ⟨hsame, hview⟩ := hkeeps.pc (by simp [hpc, ViewChangerPc.inFlight])
    exact (h.pending signed proposal own (hsame ▸ hpc)).mono hview hle
  · intro own hpc v hv
    obtain ⟨hsame, hview⟩ := hkeeps.pc (by simp [hpc, ViewChangerPc.inFlight])
    rw [hkeeps.view] at hv
    exact (h.waiting own (hsame ▸ hpc) v hv).mono fun seq hopens => hopens.mono hview hle
  · intro own hpc
    obtain ⟨hsame, hview⟩ := hkeeps.pc (by simp [hpc, ViewChangerPc.inFlight])
    exact (h.committed own (hsame ▸ hpc)).mono hview hle

theorem effect (h : OpeningInvariant runs nd) {verifier : Verifier} {settled voting : Bool}
    (heffect : ViewChangerEffect cfg verifier settled voting nd nd')
    (hopened : ∀ action ∈ nd'.trace, ∀ view seq, action.opening = some (view, seq) →
      runs view seq) : OpeningInvariant runs nd' :=
  h.of_keeps (Node.viewChangerEffect_keepsInFlight heffect)
    (KeepsDecisions.viewChangerEffect heffect).checkpoint hopened

theorem of_pc (hpc : nd.viewChanger.pc.inFlight = false)
    (hopened : ∀ action ∈ nd.trace, ∀ view seq, action.opening = some (view, seq) →
      runs view seq) : OpeningInvariant runs nd := by
  refine ⟨hopened, ?_, ?_, ?_⟩ <;> intros <;> simp_all [ViewChangerPc.inFlight]

theorem viewChangerStep (h : OpeningInvariant runs nd) {verifier : Verifier}
    {event : ViewChangerEvent} (hstep : nd.viewChangerStep cfg verifier event = some nd')
    (hbegin : ∀ signed own result proposal, event = .validate →
      nd.viewChanger.pc = .validate signed own → nd.Checked cfg verifier signed result →
        result.inFlightProposal = some proposal →
          nd.Opens runs (Decision.sequence { proposal := proposal }))
    (hopened : ∀ action ∈ nd'.trace, ∀ view seq, action.opening = some (view, seq) →
      runs view seq) : OpeningInvariant runs nd' := by
  cases Node.viewChangerStep_transition hstep with
  | effect _ heffect => exact h.effect heffect hopened
  | newView hsettled own => exact h.effect (hsettled.effect own) hopened
  | viewData hpc heffect =>
    have hkeeps := Node.viewChangerEffect_keepsInFlight heffect
    exact h.of_keeps { hkeeps with } (KeepsDecisions.viewChangerEffect heffect).checkpoint hopened
  | @delivered _ decision purpose answer hpc heffect =>
    -- the view changer delivers before it validates, so it cannot be further
    refine of_pc ?_ hopened
    by_contra hinFlight
    obtain ⟨hsame, -⟩ :=
      (Node.viewChangerEffect_keepsInFlight heffect).pc (by simpa using hinFlight)
    rw [(Node.deliver_keepsViews nd decision answer).pc, hpc] at hsame
    simp [hsame, ViewChangerPc.inFlight] at hinFlight
  | read =>
    constructor
    · exact hopened
    all_goals simp [Node.setViewChanger]
  | @beginCommit signed own result hpc hcheck hsome =>
    refine ⟨hopened, fun message proposal own' hcommit => ?_, by simp [Node.setViewChanger],
      by simp [Node.setViewChanger]⟩
    simp only [Node.setViewChanger, ViewChangerPc.commitInFlight.injEq] at hcommit
    exact hbegin signed own result proposal rfl hpc hcheck hcommit.2.1
  | @startInFlight signed proposal own md hpc hplan =>
    refine ⟨hopened, by simp [Node.setViewChanger], fun own' _ v hv => ?_,
      by simp [Node.setViewChanger]⟩
    obtain rfl := Option.some.inj hv
    exact ⟨.newInFlightView (h.pending signed proposal own hpc) md, by simp [Node.newInFlightView]⟩
  | @decided own view hpc hview hdelivering =>
    refine ⟨hopened, by simp [Node.leaveInFlight, Node.setViewChanger],
      by simp [Node.leaveInFlight, Node.setViewChanger], fun _ _ => ?_⟩
    exact (h.waiting own hpc view hview).delivering hdelivering
  | synced =>
    constructor
    · exact hopened
    all_goals simp [Node.leaveInFlight, Node.setViewChanger]
  | timeout =>
    constructor
    · exact hopened
    all_goals simp [Node.leaveInFlight, Node.setViewChanger]
  | stop =>
    constructor
    · exact hopened
    all_goals simp [Node.leaveInFlight, Node.setViewChanger]

theorem otherStep (h : OpeningInvariant runs nd) (hlog : LogInvariant cfg nd)
    (hreadable : ∃ md, nd.checkpointMetadata = some md)
    (hobtains : Obtains nd nd' (nd.outcome input.event)) (hkeeps : KeepsViews nd nd')
    (htransition : NodeTransition cfg nd input nd')
    (hown : ∀ event, input.event ≠ .viewChanger event)
    (hopened : ∀ action ∈ nd'.trace, ∀ view seq, action.opening = some (view, seq) →
      runs view seq) : OpeningInvariant runs nd' := by
  have hmono : ∀ seq, nd.Opens runs seq → nd'.Opens runs seq :=
    fun seq hopens => hopens.mono hkeeps.views.currView hobtains.checkpoint_le
  refine ⟨hopened, ?_, ?_, ?_⟩
  · exact fun signed proposal own hpc => hmono _ (h.pending signed proposal own (hkeeps.pc ▸ hpc))
  · intro own hpc
    have hbefore : ∀ v ∈ nd.inFlightView, v.Awaits (nd'.Opens runs) :=
      fun v hv => (h.waiting own (hkeeps.pc ▸ hpc) v hv).mono hmono
    refine Node.transition_awaits htransition hlog.inFlight hown ?_ hbefore
    intro v decision requests answer hevent hview hdeciding
    have houtcome : nd.outcome input.event = nd.deliverOutcome decision answer := by
      simp [hevent, Node.outcome, Node.delivering, hview, hdeciding]
    have hreached : decision.sequence ≤ nd'.checkpoint.sequence :=
      Node.deliver_reaches hreadable (houtcome ▸ hobtains)
    exact ((hbefore v hview).holds.deciding decision requests hdeciding).reached hreached
  · exact fun own hpc => hmono _ (h.committed own (hkeeps.pc ▸ hpc))

theorem step (h : OpeningInvariant runs nd) (hlog : LogInvariant cfg nd)
    (hreadable : ∃ md, nd.checkpointMetadata = some md)
    (hobtains : Obtains nd nd' (nd.outcome input.event))
    (hproposed : ∀ pp prepare, .save (.proposedRecord pp prepare) ∈ nd'.trace →
      .save (.proposedRecord pp prepare) ∉ nd.trace → runs pp.view pp.seq)
    (hcollected : ∀ md event, input.event = .controller event →
      .save (.newView md) ∈ nd'.trace → .save (.newView md) ∉ nd.trace →
        runs md.viewId (md.latestSequence + 1))
    (hchecked : ∀ signed own result, input.event = .viewChanger .validate →
      nd.viewChanger.pc = .validate signed own → nd.Checked cfg input.verifier signed result →
        (result.noInFlight = true → nd.Opens runs 0) ∧
        ∀ proposal, result.inFlightProposal = some proposal →
          nd.Opens runs (Decision.sequence { proposal := proposal }))
    (hstep : nd.step cfg input = some nd') : OpeningInvariant runs nd' := by
  obtain ⟨-, -, htransition⟩ := Node.step_transition hstep
  have hreact : nd.react cfg input.verifier input.event = some nd' := by
    simp only [Node.step, Option.ite_none_left_eq_some] at hstep
    exact hstep.2.2
  have hopened : ∀ action ∈ nd'.trace, ∀ view seq, action.opening = some (view, seq) →
      runs view seq := by
    intro action hmem view seq hopening
    by_cases hold : action ∈ nd.trace
    · exact h.opened action hold view seq hopening
    unfold Action.opening at hopening
    split at hopening
    · obtain ⟨rfl, rfl⟩ : _ = view ∧ _ = seq := by simpa using hopening
      exact hproposed _ _ hmem hold
    · rename_i md
      obtain ⟨rfl, rfl⟩ : _ = view ∧ _ = seq := by simpa using hopening
      rcases Node.react_newView hreact hlog.inFlight hmem with
        hbefore | ⟨event, hevent⟩ | ⟨event, hevent, hsettled, hview, hsequence⟩
      · exact absurd hbefore hold
      · exact hcollected md event hevent hmem hold
      · have hopens := h.settled (fun signed own result hvalidate hpc hcheck hnone =>
          (hchecked signed own result (hvalidate ▸ hevent) hpc hcheck).1 hnone) hsettled
        rw [hview]
        exact hopens _ (Nat.le_of_eq (Node.sequence_of_extract hsequence)) (Nat.zero_le _)
    · simp at hopening
  by_cases hown : ∃ event, input.event = .viewChanger event
  · obtain ⟨event, hevent⟩ := hown
    rw [hevent] at hreact
    exact h.viewChangerStep hreact (fun signed own result proposal hvalidate hpc hcheck =>
      (hchecked signed own result (hvalidate ▸ hevent) hpc hcheck).2 proposal) hopened
  have hown : ∀ event, input.event ≠ .viewChanger event :=
    fun event hevent => hown ⟨event, hevent⟩
  by_cases hcrash : input.event = .crash
  · rw [hcrash] at hreact
    simp only [Node.react, Node.crash, Option.some.injEq] at hreact
    split at hreact <;> subst hreact
    · exact h.of_keeps (.of_viewChanger rfl rfl) rfl hopened
    · rename_i hboot
      obtain ⟨md, start, leader, v, inFlight, -, -, -, -, rfl⟩ := Node.boot_ok hboot
      exact of_pc rfl hopened
  · exact h.otherStep hlog hreadable hobtains (Node.react_keepsViews hreact hcrash hown)
      htransition hown hopened

end OpeningInvariant

end SmartBFT
