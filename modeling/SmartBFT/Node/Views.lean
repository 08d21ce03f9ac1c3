import SmartBFT.Node.InFlightDeadlock
import SmartBFT.Node.Transition

/-!
# What a node does to its views

A node runs one view at a time, and for a while a second one in which it commits an in-flight
proposal.  `ViewMove` lists what can happen to either.  `ViewRule.transition` turns it into a
rule: what every move keeps, and what holds of new and of restored views, holds of the views
of the node after every step.
-/

namespace SmartBFT

def Node.HasView (nd : Node) (v : View) : Prop :=
  v = nd.currView ∨ nd.inFlightView = some v

/-- A step of the goroutine of the view, a message that is queued for it, a call to stop it,
or the return of one of its own calls. -/
inductive ViewMove (cfg : Config) (verifier : Verifier) : View → View → Prop where
  | step {checkpoint : Decision} {v v' : View} {event : ViewEvent} {outputs : List ViewOutput}
      (h : View.Transition cfg verifier checkpoint v event v' outputs) :
      ViewMove cfg verifier v v'
  | queued (v : View) (incMsgs : List (Nat × Message)) :
      ViewMove cfg verifier v { v with incMsgs := incMsgs }
  | stop (v : View) : ViewMove cfg verifier v v.stop
  | taken {v : View} {decision : Decision} {requests : List RequestInfo}
      (hpc : v.pc = .deciding decision requests) :
      ViewMove cfg verifier v { v with pc := .delivering }
  | decided {v : View} (hpc : v.pc.inDecide = true) : ViewMove cfg verifier v v.decided
  | awaits {v : View} {loop : ViewLoop} (hpc : v.pc = .select loop) :
      ViewMove cfg verifier v { v with pc := .syncing loop }
  | synced {v : View} {loop : ViewLoop} (hpc : v.pc = .syncing loop) :
      ViewMove cfg verifier v { v with pc := .select loop }

structure ViewRule (cfg : Config) (verifier : Verifier) (p : View → Prop) : Prop where
  move : ∀ {v v' : View}, ViewMove cfg verifier v v' → p v → p v'
  fresh : ∀ leader seq number dec, p (.fresh leader seq number dec)
  inFlight : ∀ proposal md, p (Node.newInFlightView cfg proposal md)

namespace ViewRule

variable {cfg : Config} {verifier : Verifier} {p : View → Prop} {nd nd' : Node}

abbrev Holds (p : View → Prop) (nd : Node) : Prop := ∀ v, nd.HasView v → p v

theorem Holds.of_views (h : Holds p nd) (hview : nd'.currView = nd.currView)
    (hinFlight : nd'.inFlightView = nd.inFlightView) : Holds p nd' := by
  intro v hv
  apply h v
  rwa [Node.HasView, hview, hinFlight] at hv

theorem Holds.of_currView (h : Holds p nd) (hview : p nd'.currView)
    (hinFlight : nd'.inFlightView = nd.inFlightView) : Holds p nd' := by
  rintro v (rfl | hv)
  · exact hview
  · exact h v (.inr (hinFlight ▸ hv))

theorem Holds.of_inFlightView (h : Holds p nd) (hview : nd'.currView = nd.currView)
    {v : View} (hinFlight : nd'.inFlightView = some v) (hv : p v) : Holds p nd' := by
  rintro w (rfl | hw)
  · exact hview ▸ h _ (.inl rfl)
  · obtain rfl : v = w := Option.some.inj (hinFlight.symm.trans hw)
    exact hv

theorem Holds.save (h : Holds p nd) (m : SavedMessage) : Holds p (nd.save m) := by
  rcases Node.save_cases nd m with ⟨text, hcase⟩ | ⟨persisted, -, hcase⟩ <;> rw [hcase] <;>
    exact h.of_views rfl rfl

theorem Holds.deliver (h : Holds p nd) (decision : Decision) (answer : DeliverAnswer) :
    Holds p (nd.deliver decision answer) := by
  rcases Node.deliver_cases nd decision answer with ⟨text, hcase⟩ | hcase | hcase <;>
    rw [hcase] <;> exact h.of_views rfl rfl

theorem quietOp (rule : ViewRule cfg verifier p) (hop : QuietOp nd nd') (h : Holds p nd) :
    Holds p nd' := by
  cases hop with
  | stopView => exact h.of_currView (rule.move (.stop _) (h _ (.inl rfl))) rfl
  | viewDecided hpc => exact h.of_currView (rule.move (.decided hpc) (h _ (.inl rfl))) rfl
  | moveInFlight hview hmove =>
    refine h.of_inFlightView rfl rfl (rule.move ?_ (h _ (.inr hview)))
    cases hmove with
    | stop => exact .stop _
    | decided hpc => exact .decided (by rw [hpc]; rfl)
    | synced hpc => exact .synced hpc
  | saveViewChange => exact h.save _
  | saveNewView => exact h.save _
  | _ => exact h.of_views rfl rfl

theorem applyOutputs (rule : ViewRule cfg verifier p) (origin : Origin)
    (outputs : List ViewOutput) (h : Holds p nd) :
    Holds p (nd.applyOutputs cfg origin outputs) :=
  Node.applyOutputs_keeps cfg origin rule.quietOp
    (fun _ _ _ h => Holds.of_views h rfl rfl) (fun _ _ _ _ h => Holds.of_views h rfl rfl)
    (fun m _ _ h => Holds.save h m) h

theorem awaitSync (rule : ViewRule cfg verifier p) {v : View} (hv : p v)
    (outputs : List ViewOutput) : p (Node.awaitSync v outputs) := by
  rcases View.awaitSync_cases v outputs with hsame | ⟨loop, hpc, -, hawait⟩
  · rwa [hsame]
  · rw [hawait]
    exact rule.move (.awaits hpc) hv

theorem transition {input : NodeInput} (rule : ViewRule cfg input.verifier p)
    (hboot : ∀ restarted, Node.boot cfg nd.persisted.wal nd.checkpoint = .ok restarted →
      Holds p restarted)
    (htransition : NodeTransition cfg nd input nd') (h : Holds p nd) : Holds p nd' := by
  have hcurrent : p nd.currView := h _ (.inl rfl)
  have hquiet : ∀ {a b : Node}, Relation.ReflTransGen QuietOp a b → Holds p a → Holds p b :=
    fun heffect => QuietEffect.keeps rule.quietOp heffect
  cases htransition with
  | quiet _ heffect => exact hquiet heffect h
  | @view _ _ view _ hview =>
    have hmoved : Holds p { nd with currView := view } :=
      h.of_currView (rule.move (.step hview) hcurrent) rfl
    exact rule.applyOutputs _ _ hmoved
  | @inFlightView _ _ view view' outputs hview hmove =>
    have hmoved := rule.awaitSync (rule.move (.step hmove) (h view (.inr hview))) outputs
    have hnode : Holds p { nd with inFlightView := some (Node.awaitSync view' outputs) } :=
      h.of_inFlightView rfl rfl hmoved
    exact rule.applyOutputs _ _ hnode
  | @inFlightDeliver view _ _ _ answer vc hview hpc =>
    have hstopped := rule.move (.stop view) (h view (.inr hview))
    exact (h.deliver _ answer).of_inFlightView rfl rfl (rule.move (.taken hpc) hstopped)
  | decide _ answer c hpc =>
    exact (h.deliver _ answer).of_currView (rule.move (.taken hpc) hcurrent) rfl
  | proposed => exact h.of_currView (rule.move (.queued _ _) hcurrent) rfl
  | sync _ _ _ _ heffect => exact hquiet heffect (h.of_views rfl rfl)
  | restarted _ _ heffect =>
    exact hquiet heffect (h.of_currView (rule.fresh _ _ _ _) rfl)
  | viewData _ _ heffect => exact hquiet heffect (h.of_views rfl rfl)
  | delivered _ answer _ heffect => exact hquiet heffect (h.deliver _ answer)
  | startInFlight => exact h.of_inFlightView rfl rfl (rule.inFlight _ _)
  | crash _ hrestarted => exact (hboot _ hrestarted).of_views rfl rfl

end ViewRule

end SmartBFT
