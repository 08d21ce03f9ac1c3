import SmartBFT.Node.Effects

/-!
# What the run loop of the controller can do to the node

`ControllerTransition` lists the cases of the run loop that concern a decision,
a view that is started, a proposal or a sync; all the others are sequences of a
few elementary operations (`RunLoopOp`).
-/

namespace SmartBFT

open Relation

inductive RunLoopOp : Node → Node → Prop where
  | own (nd : Node) (c : Controller) : RunLoopOp nd { nd with controller := c }
  | stopView (nd : Node) : RunLoopOp nd { nd with currView := nd.currView.stop }
  | saveNewView (nd : Node) (md : ViewMetadata) : RunLoopOp nd (nd.save (.newView md))
  | prune (nd : Node) {data : InFlightProposalData} {latest inFlightMD : ViewMetadata}
      {controllerViewNum newViewNum seq dec : Nat}
      (hpc : nd.controller.pc =
        .fetching (some latest) controllerViewNum newViewNum seq dec)
      (hdata : nd.persisted.inFlight = some data)
      (hmd : data.proposal.unmarshalMetadata = some inFlightMD)
      (hle : inFlightMD.latestSequence ≤ latest.latestSequence) :
      RunLoopOp nd { nd with persisted := { nd.persisted with inFlight := none } }
  | inform (nd : Node) (view : Nat) :
      RunLoopOp nd { nd with viewChanger := { nd.viewChanger with informChan := some view } }
  | panic (nd : Node) (text : String) : RunLoopOp nd (nd.panic text)

abbrev RunLoopEffect := ReflTransGen RunLoopOp

namespace Node

variable {cfg : Config} {verifier : Verifier} {a b : Node}

theorem runLoop_setController (h : RunLoopEffect a b) (pc : ControllerPc) :
    RunLoopEffect a (b.setController pc) :=
  h.tail (.own b _)

theorem runLoop_abortCurrView (h : RunLoopEffect a b) (next : AbortThen) :
    RunLoopEffect a (b.abortCurrView next) :=
  (h.tail (.stopView b)).tail (.own _ _)

theorem runLoop_changeView (h : RunLoopEffect a b) (view seq dec : Nat) (rotation : Bool) :
    RunLoopEffect a (b.changeView cfg view seq dec rotation) :=
  changeView_cases (fun _ => afterChangeView_cases fun _ _ => h.tail (.own b _))
    (runLoop_abortCurrView (h.tail (.own b _)) _)

theorem runLoop_abortView (h : RunLoopEffect a b) (view : Nat) :
    RunLoopEffect a (b.abortView view) := by
  unfold abortView
  split
  · exact h
  · exact runLoop_abortCurrView (h.tail (.own b _)) _

theorem runLoop_rotateOrFinish (h : RunLoopEffect a b) (decision : Decision) :
    RunLoopEffect a (b.rotateOrFinish cfg decision) := by
  refine rotateOrFinish_cases (fun _ => h.tail (.panic _ _))
    (fun _ _ _ => runLoop_changeView h _ _ _ _) ?_
  intro _ _ _
  exact finishDecide_cases fun _ _ => h.tail (.own _ _)

theorem runLoop_propose (h : RunLoopEffect a b) (batch : Option Batch) :
    RunLoopEffect a (b.propose cfg verifier batch) := by
  have hrelinquished : RunLoopEffect a b.relinquishLeaderToken := h.tail (.own b _)
  exact propose_cases (fun _ => hrelinquished) (fun _ => hrelinquished.tail (.own _ _))
    (fun _ => hrelinquished.tail (.panic _ _)) (fun _ _ => hrelinquished.tail (.own _ _))

theorem runLoop_endSync (h : RunLoopEffect a b) (view seq dec : Nat) :
    RunLoopEffect a (b.endSync cfg view seq dec) := by
  unfold endSync
  simp only
  split
  · exact runLoop_changeView (h.tail (.own b _)) _ _ _ _
  · exact runLoop_changeView (h.tail (.own b _)) _ _ _ _

theorem runLoop_informOrEnd (h : RunLoopEffect a b)
    (controllerViewNum newViewNum seq dec : Nat) :
    RunLoopEffect a (b.informOrEnd cfg controllerViewNum newViewNum seq dec) := by
  unfold informOrEnd
  split
  · exact runLoop_setController h _
  · exact runLoop_endSync h _ _ _

theorem runLoop_maybePruneInFlight {latest : ViewMetadata}
    {controllerViewNum newViewNum seq dec : Nat} (h : RunLoopEffect a b)
    (hpc : b.controller.pc = .fetching (some latest) controllerViewNum newViewNum seq dec) :
    RunLoopEffect a (b.maybePruneInFlight latest) := by
  unfold maybePruneInFlight
  split
  · exact h
  · rename_i hdata
    split
    · exact h.tail (.panic b _)
    · rename_i hmd
      split
      · exact h
      · rename_i hle
        exact h.tail (.prune b hpc hdata hmd (by omega))

theorem runLoop_prune {latest : Option ViewMetadata}
    {controllerViewNum newViewNum seq dec : Nat} (h : RunLoopEffect a b) :
    b.controller.pc = .fetching latest controllerViewNum newViewNum seq dec →
      RunLoopEffect a (latest.elim b b.maybePruneInFlight) := by
  intro hpc
  cases latest with
  | none => exact h
  | some md => exact runLoop_maybePruneInFlight h hpc

theorem runLoop_fetched {nd : Node} {latest : Option ViewMetadata}
    {controllerViewNum newViewNum seq dec : Nat}
    (hpc : nd.controller.pc = .fetching latest controllerViewNum newViewNum seq dec)
    (response : Option ViewAndSeq) :
    RunLoopEffect nd
      (nd.fetched cfg latest controllerViewNum newViewNum seq dec response) := by
  refine fetched_cases (motive := RunLoopEffect nd) (runLoop_endSync .refl 0 0 0)
    (runLoop_informOrEnd (runLoop_prune .refl hpc) _ _ _ _) ?_
  intro md view _
  have hsaved : RunLoopEffect nd (nd.save (.newView md)) :=
    ReflTransGen.single (.saveNewView nd _)
  have hpc' := (save_keepsRunLoop nd (.newView md)).pc.trans hpc
  exact runLoop_informOrEnd (runLoop_prune hsaved hpc') _ _ _ _

end Node

inductive ControllerTransition (cfg : Config) :
    Node → ControllerEvent → Node → Prop where
  | effect {nd nd' : Node} (event : ControllerEvent) (h : RunLoopEffect nd nd') :
      ControllerTransition cfg nd event nd'
  | decide {nd : Node} {decision : Decision} {requests : List RequestInfo}
      (answer : DeliverAnswer) (c : Controller)
      (hview : nd.currView.pc = .deciding decision requests) :
      ControllerTransition cfg nd (.decide answer)
        { nd.deliver decision answer with
          currView := { nd.currView with pc := .delivering }
          controller := c }
  | ack {nd nd' : Node} (hview : nd.currView.pc = .delivering)
      (h : RunLoopEffect { nd with currView := nd.currView.decided } nd') :
      ControllerTransition cfg nd .ack nd'
  | proposed {nd : Node} {proposal : Proposal} {view : View} (c : Controller)
      (hpc : nd.controller.pc = .proposing proposal)
      (hview : nd.currView.handleMessage cfg nd.currView.leaderID
        (nd.currView.proposeMessage cfg nd.checkpoint proposal) = some view) :
      ControllerTransition cfg nd .proposed { nd with currView := view, controller := c }
  | sync {nd nd' : Node} (response : Decision) (reconfig : Bool) {checkpoint : Decision}
      (hcheckpoint : checkpoint = nd.checkpoint ∨ checkpoint = response)
      (h : RunLoopEffect { nd with
        checkpoint := checkpoint
        viewChanger := { nd.viewChanger with
          stopped := nd.viewChanger.stopped || reconfig } } nd') :
      ControllerTransition cfg nd (.sync response reconfig) nd'
  | restarted {nd nd' : Node} {view seq dec leader : Nat} {rotation : Bool}
      (hpc : nd.controller.pc = .aborting (.start view seq dec rotation))
      (hended : nd.currView.pc = .ended)
      (h : RunLoopEffect { nd with
        currView := .fresh leader seq view dec
        viewSequences := ⟨true, seq⟩ } nd') :
      ControllerTransition cfg nd .viewEnded nd'

namespace Node

variable {cfg : Config} {verifier : Verifier} {nd nd' : Node}

theorem transition_of_beginSync (response : Decision) (reconfig : Bool) :
    ControllerTransition cfg nd (.sync response reconfig)
      (nd.beginSync response reconfig) := by
  refine beginSync_cases ?_ ?_ ?_
  · intro text
    exact .sync response reconfig (.inl rfl) ((ReflTransGen.single (.own _ _)).tail (.panic _ _))
  · intro _ _ _ _ _
    exact .sync response reconfig (.inr rfl) (ReflTransGen.single (.own _ _))
  · intro _ _ _ _ _
    exact .sync response reconfig (.inl rfl) (ReflTransGen.single (.own _ _))

theorem transition_of_restartView {view seq dec : Nat} {rotation : Bool}
    (hpc : nd.controller.pc = .aborting (.start view seq dec rotation))
    (hended : nd.currView.pc = .ended) :
    ControllerTransition cfg nd .viewEnded (nd.restartView cfg view seq dec rotation) := by
  refine restartView_cases ?_ ?_
  · intro text _ _
    exact .effect _ ((ReflTransGen.single (.panic nd text)).tail (.own _ _))
  · intro leader _ _ _ _
    exact .restarted hpc hended (ReflTransGen.single (.own _ _))

theorem ControllerSteps.transition {event : ControllerEvent}
    (h : ControllerSteps cfg verifier nd event nd') :
    ControllerTransition cfg nd event nd' := by
  have hown : ∀ c, RunLoopEffect nd { nd with controller := c } := fun c =>
    ReflTransGen.single (.own nd c)
  cases h with
  | decide answer hpc hview =>
    rw [(deliver_keepsRunLoop nd _ answer).currView]
    exact .decide answer _ hview
  | ack hpc hview => exact .ack hview (ReflTransGen.single (.own _ _))
  | rotate hpc => exact .effect _ (runLoop_rotateOrFinish .refl _)
  | proposed hpc haborted hview => exact .proposed _ hpc hview
  | fetched response hpc => exact .effect _ (runLoop_fetched hpc response)
  | informed hpc => exact .effect _ (runLoop_endSync (ReflTransGen.single (.inform nd _)) _ _ _)
  | informedStopped hpc => exact .effect _ (runLoop_endSync .refl _ _ _)
  | restarted hended hpc => exact transition_of_restartView hpc hended
  | viewChange hpc hinfo => exact .effect _ (runLoop_changeView (hown _) _ _ _ _)
  | abortView hpc => exact .effect _ (runLoop_abortView (hown _) _)
  | stop hpc hstopped => exact .effect _ (runLoop_abortCurrView .refl _)
  | propose batch hpc => exact .effect _ (runLoop_propose .refl _)
  | sync response reconfig hpc => exact transition_of_beginSync response reconfig
  | _ => exact .effect _ (hown _)

end Node

end SmartBFT
