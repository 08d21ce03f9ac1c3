import SmartBFT.Node.Install
import SmartBFT.ViewTransition

/-!
# The sequences that a node works on are positive

A view starts one after a sequence that the node knows: the last decision, a
sync response, a new view record, the sequence of the view that has run.  The
first sequence is therefore `1`, and so is the least sequence of a decision, unless
the view changer commits an in-flight proposal of sequence `0`.
`MutuallyExclusiveDeliver` needs this: it does not compare with a checkpoint of
sequence `0`.
-/

namespace SmartBFT

open Foundation Relation

def SavedMessage.Positive : SavedMessage → Prop
  | .proposedRecord prePrepare _ =>
    0 < prePrepare.seq ∧ ∀ p ∈ prePrepare.proposal, p.Positive
  | _ => True

def ViewOutput.Positive : ViewOutput → Prop
  | .save m => m.Positive
  | .storeSequence vs => 0 < vs.proposalSeq
  | _ => True

def ControllerPc.Positive : ControllerPc → Prop
  | .aborting (.start _ seq _ _) => 0 < seq
  | .fetching _ _ _ newProposalSequence _ => 0 < newProposalSequence
  | .informing _ newProposalSequence _ => 0 < newProposalSequence
  | _ => True

/-! ## What the view changer works on -/

def ViewChangerPc.Readable : ViewChangerPc → Prop
  | .deliver decision _ => decision.proposal.Positive
  | .commitInFlight signed proposal _ => ∃ p ∈ proposal, ∃ md, p.unmarshalMetadata = some md ∧
      md.latestSequence = nextSequence (highestLastSequence signed)
  | .sendViewChanged _ seq _ => 0 < seq
  | _ => True

theorem ViewChangerPc.readable_of_plain {pc : ViewChangerPc} (h : pc.plain = true) :
    pc.Readable := by
  cases pc <;> first | exact trivial | simp [plain] at h

namespace Node

variable {cfg : Config} {verifier : Verifier} {nd nd' : Node}

theorem viewChangerOp_readable {settled voting : Bool}
    (h : ViewChangerOp cfg verifier settled voting nd nd')
    (hreadable : nd.viewChanger.pc.Readable) : nd'.viewChanger.pc.Readable := by
  cases h with
  | own vc hpc =>
    rcases hpc with hplain | hsame
    · exact ViewChangerPc.readable_of_plain hplain
    · exact hsame ▸ hreadable
  | askAbort => exact trivial
  | enter => exact trivial
  | install => exact Nat.succ_pos _
  | saveViewChange =>
    rw [(save_keepsViews nd _).pc]
    exact hreadable
  | saveNewView =>
    rw [(save_keepsViews nd _).pc]
    exact hreadable
  | beginDeliver _ hpositive => exact hpositive
  | _ => exact hreadable

theorem viewChangerEffect_readable {settled voting : Bool}
    (h : ViewChangerEffect cfg verifier settled voting nd nd')
    (hreadable : nd.viewChanger.pc.Readable) : nd'.viewChanger.pc.Readable := by
  induction h with
  | refl => exact hreadable
  | tail _ hop ih => exact viewChangerOp_readable hop ih

theorem checked_readable {signed : List SignedViewData} {result : CheckInFlightResult}
    (h : nd.Checked cfg verifier signed result) (hsome : result.noInFlight = false) :
    ∃ p ∈ result.inFlightProposal, ∃ md, p.unmarshalMetadata = some md ∧
      md.latestSequence = nextSequence (highestLastSequence signed) := by
  obtain ⟨checkpoint, messages, hact⟩ := h.checked
  obtain ⟨-, hextract, hresult, hok⟩ := checkNewView_act hact
  cases hlatest : maxLastDecisionSequence messages with
  | error failure => simp [checkInFlight, hlatest] at hresult
  | ok latest =>
    rcases checkInFlight_cases hlatest hresult with ⟨p, rfl, -⟩ | ⟨rfl, -⟩ | rfl
    · rw [← highestLastSequence_of_extract hextract hlatest]
      exact ⟨p, rfl, checkInFlight_sequence hlatest hresult rfl⟩
    · simp at hsome
    · simp at hok

theorem viewChangerStep_readable {event : ViewChangerEvent}
    (h : nd.viewChangerStep cfg verifier event = some nd')
    (hreadable : nd.viewChanger.pc.Readable) : nd'.viewChanger.pc.Readable := by
  cases viewChangerStep_transition h with
  | effect _ h => exact viewChangerEffect_readable h hreadable
  | newView hsettled own => exact viewChangerEffect_readable (hsettled.effect own) hreadable
  | viewData _ h => exact viewChangerEffect_readable h hreadable
  | delivered answer _ h =>
    refine viewChangerEffect_readable h ?_
    rw [(deliver_keepsViews nd _ answer).pc]
    exact hreadable
  | beginCommit _ hchecked hsome => exact checked_readable hchecked hsome
  | _ => exact trivial

theorem step_readable {input : NodeInput} (h : nd.viewChanger.pc.Readable)
    (hstep : nd.step cfg input = some nd') : nd'.viewChanger.pc.Readable := by
  rcases step_pc hstep with hkept | hstarted | ⟨event, -, hown⟩
  · exact hkept ▸ h
  · rw [hstarted]
    exact trivial
  · exact viewChangerStep_readable hown h

theorem boot_readable {entries : List SavedMessage} {checkpoint : Decision}
    (h : boot cfg entries checkpoint = .ok nd) : nd.viewChanger.pc.Readable := by
  obtain ⟨md, point, leader, v, inFlight, -, -, -, -, rfl⟩ := boot_ok h
  exact trivial

theorem run_readable {entries : List SavedMessage} {checkpoint : Decision} {start : Node}
    {inputs : List NodeInput} (hboot : boot cfg entries checkpoint = .ok start)
    (hrun : run (step cfg) start inputs = some nd) : nd.viewChanger.pc.Readable :=
  @run_invariant _ _ (step cfg) (fun nd => nd.viewChanger.pc.Readable)
    (fun _ _ _ h hstep => step_readable h hstep) _ _ _ (boot_readable hboot) hrun

end Node

namespace View

structure Positive (v : View) : Prop where
  sequence : 0 < v.proposalSequence
  prePrepares : v.PrePreparesMatch
  inFlight : ∀ p ∈ v.inFlightProposal, p.Positive
  deciding : ∀ decision requests, v.pc = .deciding decision requests →
    decision.proposal.Positive

variable {cfg : Config} {verifier : Verifier} {checkpoint : Decision} {v v' : View}
  {event : ViewEvent} {outputs : List ViewOutput}

theorem Positive.of_pc (h : Positive v) {pc : ViewPc}
    (hpc : ∀ decision requests, pc ≠ .deciding decision requests) :
    Positive { v with pc := pc } where
  sequence := h.sequence
  prePrepares := ⟨h.prePrepares.current, h.prePrepares.next⟩
  inFlight := h.inFlight
  deciding decision requests heq := absurd heq (hpc decision requests)

theorem Positive.queued (h : Positive v) (incMsgs : List (Nat × Message)) :
    Positive { v with incMsgs := incMsgs } :=
  ⟨h.sequence, ⟨h.prePrepares.current, h.prePrepares.next⟩, h.inFlight, h.deciding⟩

theorem Positive.stop (h : Positive v) : Positive v.stop :=
  ⟨h.sequence, ⟨h.prePrepares.current, h.prePrepares.next⟩, h.inFlight, h.deciding⟩

theorem Positive.decided (h : Positive v) : Positive v.decided where
  sequence := h.sequence
  prePrepares := ⟨h.prePrepares.current, h.prePrepares.next⟩
  inFlight := h.inFlight
  deciding := by simp [View.decided]

theorem positive_fresh (leader : Nat) {seq : Nat} (number dec : Nat) (hseq : 0 < seq) :
    Positive (.fresh leader seq number dec) where
  sequence := hseq
  prePrepares := ⟨by simp [fresh], by simp [fresh]⟩
  inFlight := by simp [fresh]
  deciding := by simp [fresh]

theorem Positive.transition (h : Positive v)
    (htransition : Transition cfg verifier checkpoint v event v' outputs) : Positive v' := by
  have hmatch := htransition.prePreparesMatch h.prePrepares
  cases htransition with
  | queued => exact ⟨h.sequence, hmatch, h.inFlight, h.deciding⟩
  | @received _ sender m rest hpc _ =>
    have hsame := processMsg_sameProgress cfg { v with incMsgs := rest } sender m
    refine ⟨?_, hmatch, ?_, ?_⟩
    · rw [hsame.proposalSequence]
      exact h.sequence
    · rw [hsame.inFlightProposal]
      exact h.inFlight
    · rw [hsame.pc]
      simp [hpc]
  | nothingToSend => exact h
  | beginProposal =>
    exact ⟨h.sequence, hmatch, by simp [View.beginProposal], by simp [View.beginProposal]⟩
  | panicked => exact ⟨h.sequence, hmatch, h.inFlight, h.deciding⟩
  | rejected => exact ⟨h.sequence, hmatch, h.inFlight, by simp [rejectProposal]⟩
  | @accepted pp proposal _ _ _ _ _ hverified =>
    obtain ⟨md, hmd, -, hseq⟩ := verifyProposal_ok hverified
    refine ⟨h.sequence, hmatch, ?_, by simp [acceptProposal]⟩
    intro p hp
    obtain rfl : proposal = p := by simpa [acceptProposal] using hp
    exact ⟨md, hmd, hseq ▸ h.sequence⟩
  | otherPrepare => exact ⟨h.sequence, hmatch, h.inFlight, h.deciding⟩
  | otherCommit => exact ⟨h.sequence, hmatch, h.inFlight, h.deciding⟩
  | prepared => exact ⟨h.sequence, hmatch, h.inFlight, by simp [finishPrepares]⟩
  | @decided _ proposal _ _ hproposal =>
    refine ⟨Nat.succ_pos _, hmatch, h.inFlight, ?_⟩
    intro decision requests hpc
    simp only [View.decide, ViewPc.deciding.injEq] at hpc
    rw [← hpc.1]
    exact h.inFlight proposal hproposal
  | _ => exact ⟨h.sequence, hmatch, h.inFlight, by simp⟩

theorem Positive.output (h : Positive v)
    (htransition : Transition cfg verifier checkpoint v event v' outputs) :
    ∀ output ∈ outputs, output.Positive := by
  cases htransition with
  | ended => simp [ViewOutput.Positive, h.sequence]
  | @received _ sender m rest =>
    intro output houtput
    cases processMsg_reaction cfg _ sender m output houtput <;> exact trivial
  | rejected => simp [rejectProposal, ViewOutput.Positive]
  | @accepted pp proposal _ _ _ hpp hproposal hverified =>
    obtain ⟨md, hmd, -, hseq⟩ := verifyProposal_ok hverified
    intro output houtput
    simp only [acceptProposal, List.mem_cons] at houtput
    rcases houtput with rfl | houtput
    · refine ⟨(h.prePrepares.current pp hpp).2 ▸ h.sequence, ?_⟩
      intro p hp
      obtain rfl : proposal = p := by simpa [hproposal] using hp
      exact ⟨md, hmd, hseq ▸ h.sequence⟩
    · split at houtput
      · obtain rfl := List.mem_singleton.mp houtput
        exact trivial
      · simp at houtput
  | prepared => simp [finishPrepares, ViewOutput.Positive, SavedMessage.Positive]
  | decided => simp [View.decide, ViewOutput.Positive, h.sequence]
  | _ => simp [ViewOutput.Positive]

theorem positive_of_restored {entries : List SavedMessage} {inFlight : InFlightData}
    {leader seq number dec : Nat} (hseq : 0 < seq)
    (hwal : ∀ m ∈ entries, m.Positive)
    (h : Restored entries (.fresh leader seq number dec) v inFlight) : Positive v := by
  have hfresh := positive_fresh leader number dec hseq
  have hnone : ∀ w : View, w.prePrepare = none → w.nextPrePrepare = none → w.PrePreparesMatch :=
    fun w hcurrent hnext => ⟨by simp [hcurrent], by simp [hnext]⟩
  cases h with
  | nothing => exact ⟨hfresh.sequence, hnone _ rfl rfl, hfresh.inFlight, hfresh.deciding⟩
  | @proposed pp prepare proposal md hlast hproposal =>
    obtain ⟨hpp, hp⟩ := hwal _ (List.mem_of_getLast? hlast)
    refine ⟨hpp, hnone _ rfl rfl, ?_, by simp [resume, fresh]⟩
    intro p heq
    obtain rfl : proposal = p := by simpa [resume] using heq
    exact hp proposal hproposal
  | @prepared pp prepare proposal md commit signature hlast hsecond _ hproposal =>
    have hmem := List.dropLast_subset _ (List.mem_of_getLast? hsecond)
    obtain ⟨hpp, hp⟩ := hwal _ hmem
    refine ⟨hpp, hnone _ rfl rfl, ?_, by simp [resume, fresh]⟩
    intro p heq
    obtain rfl : proposal = p := by simpa [resume] using heq
    exact hp proposal hproposal

theorem positive_newInFlightView (cfg : Config) {checkpoint : Decision} {proposal : Proposal}
    {md : ViewMetadata} (hproposal : proposal.Positive)
    (hplan : Node.planInFlight checkpoint proposal = .commit md) :
    Positive (Node.newInFlightView cfg proposal md) := by
  obtain ⟨md', hmd', hpos⟩ := hproposal
  obtain rfl : md' = md := by
    simp only [Node.planInFlight, hmd'] at hplan
    split at hplan <;> grind
  refine ⟨hpos, ⟨by simp [Node.newInFlightView], by simp [Node.newInFlightView]⟩, ?_,
    by simp [Node.newInFlightView]⟩
  intro p hp
  obtain rfl : proposal = p := by simpa [Node.newInFlightView] using hp
  exact ⟨md', hmd', hpos⟩

theorem Positive.catchUp (h : Positive v) (hseq : v.prePrepare = none ∧ v.nextPrePrepare = none)
    (proposalSequence viewNum decisionsInView : Nat) :
    Positive (v.catchUp proposalSequence viewNum decisionsInView) := by
  have hmatch : ∀ w : View, w.prePrepare = v.prePrepare → w.nextPrePrepare = v.nextPrePrepare →
      w.PrePreparesMatch := fun w hcurrent hnext =>
    ⟨by simp [hcurrent, hseq.1], by simp [hnext, hseq.2]⟩
  have hsequence := h.sequence
  unfold View.catchUp
  simp only
  split
  · rename_i hbehind
    have hpos : 0 < proposalSequence := by omega
    split <;> exact ⟨hpos, hmatch _ rfl rfl, h.inFlight, h.deciding⟩
  · split <;> exact ⟨h.sequence, hmatch _ rfl rfl, h.inFlight, h.deciding⟩

end View

namespace Node

structure Positive (nd : Node) : Prop where
  view : nd.currView.Positive
  inFlightView : ∀ v ∈ nd.inFlightView, v.Positive
  sequences : 0 < nd.viewSequences.proposalSeq
  wal : ∀ m ∈ nd.persisted.wal, m.Positive
  controller : nd.controller.pc.Positive
  announced : ∀ info ∈ nd.controller.viewChange, 0 < info.seq

/-- The in-flight view that a step starts is for a proposal of a positive sequence. -/
def startsPositive (nd : Node) (input : NodeInput) : Prop :=
  ∀ signed proposal own md, input.event = .viewChanger .commitInFlight →
    nd.viewChanger.pc = .commitInFlight signed (some proposal) own →
    planInFlight nd.checkpoint proposal = .commit md → proposal.Positive

namespace Positive

variable {cfg : Config} {verifier : Verifier} {nd nd' : Node}

theorem save (h : Positive nd) {m : SavedMessage} (hm : m.Positive) : Positive (nd.save m) := by
  rcases save_cases nd m with ⟨text, hcase⟩ | ⟨persisted, hsaved, hcase⟩ <;> rw [hcase]
  · exact { h with }
  · refine ⟨h.view, h.inFlightView, h.sequences, ?_, h.controller, h.announced⟩
    intro other hother
    rcases PersistedState.mem_wal_save hsaved hother with hold | rfl
    · exact h.wal other hold
    · exact hm

theorem panic (h : Positive nd) (text : String) : Positive (nd.panic text) :=
  { h with }

theorem deliver (h : Positive nd) (decision : Decision) (answer : DeliverAnswer) :
    Positive (nd.deliver decision answer) := by
  rcases deliver_cases nd decision answer with ⟨text, hcase⟩ | hcase | hcase <;> rw [hcase] <;>
    exact { h with }

theorem sync (h : Positive nd) : Positive (nd.sync cfg) := by
  unfold Node.sync
  split <;>
    exact { h with }

theorem startViewChange (h : Positive nd) (view : Nat) (stopView : Bool) :
    Positive (nd.startViewChange view stopView) := by
  unfold Node.startViewChange
  split
  · exact { h with }
  · exact h

theorem setCurrView (h : Positive nd) {v : View} (hv : v.Positive) :
    Positive { nd with currView := v } :=
  { h with view := hv }

theorem setInFlightView (h : Positive nd) {v : View} (hv : v.Positive) :
    Positive { nd with inFlightView := some v } := by
  refine ⟨h.view, ?_, h.sequences, h.wal, h.controller, h.announced⟩
  intro other hother
  obtain rfl : v = other := by simpa using hother
  exact hv

theorem applyOutputs (h : Positive nd) (origin : Origin) {outputs : List ViewOutput}
    (houtputs : ∀ output ∈ outputs, output.Positive) :
    Positive (nd.applyOutputs cfg origin outputs) := by
  refine applyOutputs_induction cfg origin (fun output houtput mid hmid => ?_) h
  have hpositive := houtputs output houtput
  cases output with
  | save m => exact hmid.save hpositive
  | complain viewNum stopView =>
    simp only [Node.applyOutput, Node.complain]
    split
    · exact { hmid with }
    · exact hmid.startViewChange viewNum stopView
  | sync => exact hmid.sync
  | storeSequence vs =>
    exact { hmid with sequences := hpositive }
  | _ =>
    exact { hmid with }

/-! ### The run loop of the controller -/

theorem setController (h : Positive nd) {c : Controller} (hpc : c.pc.Positive)
    (hannounced : ∀ info ∈ c.viewChange, 0 < info.seq) :
    Positive { nd with controller := c } :=
  { h with controller := hpc, announced := hannounced }

theorem abortCurrView (h : Positive nd) (next : AbortThen)
    (hnext : (ControllerPc.aborting next).Positive) : Positive (nd.abortCurrView next) :=
  (h.setCurrView h.view.stop).setController hnext h.announced

theorem changeView (h : Positive nd) (view : Nat) {seq : Nat} (dec : Nat) (rotation : Bool)
    (hseq : 0 < seq) : Positive (nd.changeView cfg view seq dec rotation) := by
  have hrelinquished : Positive nd.relinquishLeaderToken :=
    h.setController h.controller h.announced
  exact changeView_cases
    (fun _ => afterChangeView_cases fun _ _ => h.setController trivial h.announced)
    (hrelinquished.abortCurrView (.start view seq dec rotation) hseq)

theorem restartView (h : Positive nd) (view : Nat) {seq : Nat} (dec : Nat) (rotation : Bool)
    (hseq : 0 < seq) : Positive (nd.restartView cfg view seq dec rotation) := by
  refine restartView_cases ?_ ?_
  · intro text _ _
    exact (h.panic text).setController trivial h.announced
  · intro leader _ _ _ _
    have hfresh := View.positive_fresh leader view dec hseq
    exact { h with view := hfresh, sequences := hseq, controller := trivial }

theorem abortView (h : Positive nd) (view : Nat) : Positive (nd.abortView view) := by
  unfold Node.abortView
  split
  · exact h
  · have hrelinquished : Positive nd.relinquishLeaderToken :=
      h.setController h.controller h.announced
    exact hrelinquished.abortCurrView .stay trivial

theorem rotateOrFinish (h : Positive nd) (decision : Decision) :
    Positive (nd.rotateOrFinish cfg decision) := by
  refine rotateOrFinish_cases (fun _ => h.panic _)
    (fun _ _ _ => h.changeView _ _ _ (Nat.succ_pos _)) ?_
  intro _ _ _
  exact finishDecide_cases fun _ _ => h.setController trivial h.announced

theorem propose (h : Positive nd) (batch : Option Batch) :
    Positive (nd.propose cfg verifier batch) := by
  have hrelinquished : Positive nd.relinquishLeaderToken :=
    h.setController h.controller h.announced
  exact propose_cases (fun _ => hrelinquished)
    (fun _ => hrelinquished.setController h.controller h.announced)
    (fun _ => hrelinquished.panic _) (fun _ _ => hrelinquished.setController trivial h.announced)

theorem beginSync (h : Positive nd) (response : Decision) (reconfig : Bool) :
    Positive (nd.beginSync response reconfig) := by
  have hentered : Positive (nd.enterSync reconfig) := { h with }
  exact beginSync_cases (fun text => hentered.panic text)
    (fun _ _ _ _ _ => { hentered with controller := Nat.succ_pos _ })
    (fun _ _ _ _ _ => { hentered with controller := Nat.succ_pos _ })

theorem maybePruneInFlight (h : Positive nd) (md : ViewMetadata) :
    Positive (nd.maybePruneInFlight md) := by
  unfold Node.maybePruneInFlight
  split
  · exact h
  · split
    · exact h.panic _
    · split
      · exact h
      · exact { h with }

theorem endSync (h : Positive nd) (view dec : Nat) {seq : Nat}
    (hseq : 0 < seq ∨ view = 0 ∧ seq = 0) : Positive (nd.endSync cfg view seq dec) := by
  have hended : Positive { nd with controller := { nd.controller with syncChan := false } } :=
    h.setController h.controller h.announced
  unfold Node.endSync
  simp only
  split
  · exact hended.changeView _ _ _ (by omega)
  · exact hended.changeView _ _ _ h.sequences

theorem informOrEnd (h : Positive nd) (controllerViewNum newViewNum dec : Nat) {seq : Nat}
    (hseq : 0 < seq) : Positive (nd.informOrEnd cfg controllerViewNum newViewNum seq dec) := by
  unfold Node.informOrEnd
  split
  · exact h.setController hseq h.announced
  · exact h.endSync _ _ (.inl hseq)

theorem fetched (h : Positive nd) (latest : Option ViewMetadata)
    (controllerViewNum newViewNum dec : Nat) {seq : Nat} (response : Option ViewAndSeq)
    (hseq : 0 < seq) :
    Positive (nd.fetched cfg latest controllerViewNum newViewNum seq dec response) := by
  have hprune : ∀ {mid : Node}, Positive mid →
      Positive (latest.elim mid mid.maybePruneInFlight) := by
    intro mid hmid
    cases latest with
    | none => exact hmid
    | some md => exact hmid.maybePruneInFlight md
  refine fetched_cases (motive := Positive) (h.endSync 0 0 (.inr ⟨rfl, rfl⟩))
    ((hprune h).informOrEnd _ _ _ hseq) ?_
  intro md view _
  exact (hprune (h.save (m := .newView md) trivial)).informOrEnd _ _ _ hseq

theorem controllerSteps (h : Positive nd) {event : ControllerEvent}
    (hsteps : ControllerSteps cfg verifier nd event nd') : Positive nd' := by
  -- the sequence that the run loop holds while it waits is positive
  have hheld := h.controller
  cases hsteps with
  | @decide decision _ answer hpc hview =>
    have hdelivered := h.deliver decision answer
    exact { hdelivered with
      view := hdelivered.view.of_pc (by simp)
      controller := trivial }
  | ack hpc hview => exact (h.setCurrView h.view.decided).setController trivial h.announced
  | rotate hpc => exact h.rotateOrFinish _
  | proposed hpc haborted hview =>
    simp only [View.handleMessage, Option.ite_none_left_eq_some, Option.some.injEq] at hview
    obtain ⟨-, rfl⟩ := hview
    exact (h.setCurrView (h.view.queued _)).setController trivial h.announced
  | fetched response hpc =>
    rw [hpc] at hheld
    exact h.fetched _ _ _ _ response hheld
  | informed hpc =>
    rw [hpc] at hheld
    refine endSync ?_ _ _ (.inl hheld)
    exact { h with }
  | informedStopped hpc =>
    rw [hpc] at hheld
    exact h.endSync _ _ (.inl hheld)
  | restarted hended hpc =>
    rw [hpc] at hheld
    exact h.restartView _ _ _ hheld
  | @viewChange info hpc hinfo =>
    have htaken : Positive { nd with controller := { nd.controller with viewChange := none } } :=
      h.setController h.controller (by simp)
    exact htaken.changeView _ _ _ (h.announced info hinfo)
  | abortView hpc =>
    refine abortView ?_ _
    exact h.setController h.controller h.announced
  | stop hpc hstopped => exact h.abortCurrView .exit trivial
  | propose batch hpc => exact h.propose batch
  | sync response reconfig hpc => exact h.beginSync response reconfig
  | _ => exact h.setController trivial h.announced

theorem viewChangerOp {settled voting : Bool} (h : Positive nd) (hpc : nd.viewChanger.pc.Readable)
    (hop : ViewChangerOp cfg verifier settled voting nd nd') : Positive nd' := by
  cases hop with
  | announce hsending =>
    rw [hsending] at hpc
    refine h.setController h.controller ?_
    intro info hinfo
    obtain rfl := Option.some.inj hinfo
    exact hpc
  | saveViewChange => exact h.save trivial
  | saveNewView => exact h.save trivial
  | _ => exact { h with }

theorem viewChangerEffect {settled voting : Bool} (h : Positive nd)
    (hpc : nd.viewChanger.pc.Readable)
    (heffect : ViewChangerEffect cfg verifier settled voting nd nd') : Positive nd' := by
  induction heffect with
  | refl => exact h
  | tail heffect hop ih => exact ih.viewChangerOp (viewChangerEffect_readable heffect hpc) hop

theorem leaveInFlight (h : Positive nd) (success own : Bool) :
    Positive (nd.leaveInFlight success own) := by
  refine ⟨h.view, ?_, h.sequences, h.wal, h.controller, h.announced⟩
  intro view hview
  obtain ⟨v, hv, rfl⟩ := Option.mem_map.mp hview
  exact (h.inFlightView v hv).stop

theorem viewChangerStep (h : Positive nd) (hpc : nd.viewChanger.pc.Readable)
    {event : ViewChangerEvent} (hstart : nd.startsPositive ⟨verifier, .viewChanger event⟩)
    (hstep : nd.viewChangerStep cfg verifier event = some nd') : Positive nd' := by
  cases viewChangerStep_transition hstep with
  | effect _ heffect => exact h.viewChangerEffect hpc heffect
  | newView hsettled own => exact h.viewChangerEffect hpc (hsettled.effect own)
  | viewData _ heffect =>
    refine viewChangerEffect ?_ ?_ heffect
    · exact { h with }
    · exact hpc
  | delivered answer _ heffect =>
    refine (h.deliver _ answer).viewChangerEffect ?_ heffect
    rw [(deliver_keepsViews nd _ answer).pc]
    exact hpc
  | read | beginCommit => exact { h with }
  | @startInFlight signed proposal own md hcommit hplan =>
    have hproposal := hstart signed proposal own md rfl hcommit hplan
    exact { h.setInFlightView (View.positive_newInFlightView cfg hproposal hplan) with }
  | @decided own view _ hview =>
    exact (h.setInFlightView (h.inFlightView view hview).decided).leaveInFlight true own
  | @synced own view loop _ hview =>
    exact (h.setInFlightView ((h.inFlightView view hview).of_pc (by simp))).leaveInFlight false own
  | @timeout own =>
    have htimedOut : ViewChangerEffect cfg verifier false false nd (nd.timedOut cfg) :=
      effect_timedOut .refl
    exact (h.viewChangerEffect hpc htimedOut).leaveInFlight false own
  | stop => exact h.leaveInFlight false _

/-! ### Steps -/

theorem boot {entries : List SavedMessage} {checkpoint : Decision}
    (hwal : ∀ m ∈ entries, m.Positive) (h : Node.boot cfg entries checkpoint = .ok nd) :
    Positive nd := by
  obtain ⟨md, start, leader, v, inFlight, -, -, -, hrestored, rfl⟩ := boot_ok h
  have hv := View.positive_of_restored (Nat.succ_pos start.seq) hwal hrestored
  have hnone : v.prePrepare = none ∧ v.nextPrePrepare = none := by
    cases hrestored <;> exact ⟨rfl, rfl⟩
  refine ⟨hv.catchUp hnone _ _ _, ?_, Nat.succ_pos _, hwal, trivial, ?_⟩
  · simp [started]
  · simp [started]

theorem step (h : Positive nd) (hpc : nd.viewChanger.pc.Readable) {input : NodeInput}
    (hstart : nd.startsPositive input) (hstep : nd.step cfg input = some nd') : Positive nd' := by
  obtain ⟨verifier, event⟩ := input
  obtain ⟨-, -, hsteps⟩ := step_steps hstep
  cases hsteps with
  | view hview =>
    have htransition := View.transition_of_step hview
    exact (h.setCurrView (h.view.transition htransition)).applyOutputs _
      (h.view.output htransition)
  | viewStopped hstopped => exact h.setCurrView h.view.decided
  | @inFlightView _ view view' outputs hview hmoved =>
    have htransition := View.transition_of_step hmoved
    have hview := h.inFlightView view hview
    have hawaited : (awaitSync view' outputs).Positive := by
      have hview' := hview.transition htransition
      unfold awaitSync
      split
      · split
        · exact hview'.of_pc (by simp)
        · exact hview'
      · exact hview'
    exact (h.setInFlightView hawaited).applyOutputs _ (hview.output htransition)
  | @inFlightDeliver view decision _ answer hview hpc hlocked =>
    have hstopped : View.Positive { view.stop with pc := .delivering } :=
      (h.inFlightView view hview).stop.of_pc (by simp)
    exact { (h.deliver decision answer).setInFlightView hstopped with }
  | @inFlightStopped view hstopped hview hpc =>
    exact h.setInFlightView (h.inFlightView view hview).decided
  | controller hsteps => exact h.controllerSteps hsteps
  | viewChanger hstep => exact h.viewChangerStep hpc hstart hstep
  | requestSync => exact h.sync
  | complain viewNum stopView => exact h.startViewChange viewNum stopView
  | stop => exact { h with }
  | down text => exact h.panic text
  | restarted hboot => exact { boot h.wal hboot with }

end Positive

end Node

end SmartBFT
