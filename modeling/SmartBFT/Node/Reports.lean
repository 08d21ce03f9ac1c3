import SmartBFT.Node.Install
import SmartBFT.Node.Log

/-!
# What view data can report

`prepareViewDataMsg` reads the in-flight proposal and panics when its metadata cannot be
read, before it reads the flag and builds the view data.  So the in-flight proposal of
every view data message that a node builds has metadata that can be read
(`viewData_readable`): this is what `CheckInFlight` relies on.
-/

namespace SmartBFT

open SmartBFT.Foundation

namespace Node

variable {cfg : Config} {verifier : Verifier} {nd nd' : Node} {lastDecision : Decision}
  {inFlight : Option Proposal} {purpose : ViewDataFor}

theorem viewChangerEffect_reading {settled voting : Bool}
    (h : ViewChangerEffect cfg verifier settled voting nd nd')
    (hpc : nd'.viewChanger.pc = .readPrepared lastDecision inFlight purpose) :
    nd.viewChanger.pc = .readPrepared lastDecision inFlight purpose := by
  induction h with
  | refl => exact hpc
  | tail _ hop ih =>
    apply ih
    cases hop with
    | own vc hown =>
      simp only at hpc
      rcases hown with hplain | hsame
      · simp [hpc, ViewChangerPc.plain] at hplain
      · exact hsame ▸ hpc
    | saveViewChange | saveNewView =>
      rw [(save_keepsViews _ _).pc] at hpc
      exact hpc
    | askAbort | enter | install | beginDeliver =>
      simp [askAbortView, enterNextView, beginViewData, setViewChanger] at hpc
    | _ => exact hpc

theorem viewChangerStep_reading {event : ViewChangerEvent}
    (h : nd.viewChangerStep cfg verifier event = some nd')
    (hpc : nd'.viewChanger.pc = .readPrepared lastDecision inFlight purpose) :
    nd.viewChanger.pc = .readPrepared lastDecision inFlight purpose ∨
      getInFlight nd.persisted.inFlight lastDecision.proposal
        nd.viewChanger.committedDuringViewChange = .ok inFlight := by
  cases viewChangerStep_transition h with
  | effect _ heffect => exact .inl (viewChangerEffect_reading heffect hpc)
  | newView hsettled own => exact .inl (viewChangerEffect_reading (hsettled.effect own) hpc)
  | read _ hread =>
    simp only [setViewChanger, ViewChangerPc.readPrepared.injEq] at hpc
    obtain ⟨rfl, rfl, rfl⟩ := hpc
    exact .inr hread
  | viewData _ heffect =>
    have hreading := viewChangerEffect_reading heffect hpc
    exact .inl hreading
  | delivered answer hdeliver heffect =>
    have hreading := viewChangerEffect_reading heffect hpc
    rw [(deliver_keepsViews nd _ answer).pc, hdeliver] at hreading
    simp at hreading
  | _ => simp [setViewChanger, leaveInFlight] at hpc

end Node

structure ReportInvariant (nd : Node) : Prop where
  read : ∀ lastDecision inFlight purpose,
    nd.viewChanger.pc = .readPrepared lastDecision inFlight purpose →
      ∀ p ∈ inFlight, ∃ md, p.HasMetadata md
  built : ∀ purpose vd, .viewData purpose vd ∈ nd.trace →
    ∀ p ∈ vd.inFlightProposal, ∃ md, p.HasMetadata md

namespace ReportInvariant

variable {cfg : Config} {nd nd' : Node}

theorem step (h : ReportInvariant nd) {input : NodeInput}
    (hstep : nd.step cfg input = some nd') : ReportInvariant nd' := by
  obtain ⟨-, -, htransition⟩ := Node.step_transition hstep
  constructor
  · intro lastDecision inFlight purpose hpc
    rcases Node.step_pc hstep with hkept | hstarted | ⟨event, -, hown⟩
    · exact h.read lastDecision inFlight purpose (hkept ▸ hpc)
    · simp [hstarted] at hpc
    · rcases Node.viewChangerStep_reading hown hpc with hsame | hread
      · exact h.read lastDecision inFlight purpose hsame
      · rintro p hp
        obtain rfl := Option.mem_def.mp hp
        obtain ⟨_, md, -, -, hmd⟩ := getInFlight_readable hread
        exact ⟨md, hmd⟩
  · intro purpose vd hmem
    rcases htransition.mem_trace hmem with hold | hnew
    · exact h.built purpose vd hold
    · cases hnew with
      | quiet hquiet => exact absurd rfl (hquiet.ne_viewData purpose vd)
      | view _ haction => nomatch haction
      | inFlightView _ _ haction => nomatch haction
      | viewData _ hpc => exact h.read _ _ _ hpc

theorem reachable {checkpoint : Decision} {start : Node} {inputs : List NodeInput}
    (hboot : Node.boot cfg [] checkpoint = .ok start)
    (hrun : run (Node.step cfg) start inputs = some nd) : ReportInvariant nd := by
  refine run_invariant (fun _ _ _ h hstep => h.step hstep) ?_ hrun
  obtain ⟨_, _, _, _, _, -, -, -, -, rfl⟩ := Node.boot_ok hboot
  exact ⟨by simp [Node.started], by simp [Node.started]⟩

end ReportInvariant

end SmartBFT
