import SmartBFT.HeartbeatMonitor.Runs
import SmartBFT.Foundation.Network

/-!
# Monitors that talk to each other

Each node runs a monitor, and a response of a correct node is delivered only if its
monitor has sent it.
-/

namespace SmartBFT

open Foundation

namespace HeartbeatMonitor

def loggedStep (cfg : MonitorConfig) (s : HeartbeatMonitor × List MonitorEntry)
    (input : MonitorInput) : Option (HeartbeatMonitor × List MonitorEntry) :=
  (s.1.step cfg input).map fun hm => (hm, s.2 ++ [(s.1, input)])

def delivers (cfg : MonitorConfig) (faulty : Finset Nat)
    (s : Nat → HeartbeatMonitor × List MonitorEntry) (i : Nat) (input : MonitorInput) : Bool :=
  match input.event with
  | .select (.inc sender (.heartBeatResponse view)) =>
    sender ∈ faulty || (s sender).2.any fun y =>
      (y.actions cfg).contains (.sendHeartBeatResponse i view)
  | _ => true

def runMonitors (cfg : MonitorConfig) (faulty : Finset Nat) (events : List (Nat × MonitorInput)) :
    Option (Nat → HeartbeatMonitor × List MonitorEntry) :=
  run (networkStep (fun _ => loggedStep cfg) (delivers cfg faulty)) (fun _ => ({}, [])) events

/-- Every report in the current role is of a faulty node or was sent by its monitor. -/
structure Informed (cfg : MonitorConfig) (faulty : Finset Nat)
    (s' : Nat → HeartbeatMonitor × List MonitorEntry) (i : Nat)
    (t : HeartbeatMonitor × List MonitorEntry) : Prop where
  started : t.1.running → t.1.started
  collects : Collects cfg t.2 t.1
  answers : ∀ y ∈ t.2, ∀ target view,
    .sendHeartBeatResponse target view ∈ y.actions cfg → view = y.1.view
  reports : ∀ x ∈ inRole t.2, ∀ report, x.report? = some report →
    t.1.view < report.2 ∧ (report.1 ∈ faulty ∨ ∃ y ∈ (s' report.1).2,
      .sendHeartBeatResponse i report.2 ∈ y.actions cfg)

variable {cfg : MonitorConfig} {faulty : Finset Nat} {i : Nat} {input : MonitorInput}
  {mid s s' : Nat → HeartbeatMonitor × List MonitorEntry}
  {t : HeartbeatMonitor × List MonitorEntry}

theorem event_of_report {x : MonitorEntry} {report : Nat × Nat} (h : x.report? = some report) :
    x.2.event = .select (.inc report.1 (.heartBeatResponse report.2)) ∧ x.1.view < report.2 := by
  simp only [MonitorEntry.report?] at h
  split at h
  next hevent =>
      obtain ⟨hview, hreport⟩ := Option.ite_none_right_eq_some.mp h
      obtain rfl := Option.some.inj hreport
      exact ⟨hevent, hview⟩
  · simp at h

theorem Informed.step (h : Informed cfg faulty s' i (mid i))
    (hguard : delivers cfg faulty mid i input) (hgrown : ∀ j, (mid j).2 <+: (s' j).2)
    (hstep : loggedStep cfg (mid i) input = some t) :
    Informed cfg faulty s' i t := by
  obtain ⟨hm, hm', rfl⟩ := Option.map_eq_some_iff.mp hstep
  obtain ⟨acts, hreact⟩ := react_of_step hm'
  have hnext := advances h.started hreact
  refine ⟨hnext.started, h.collects.concat hnext, fun y hy => ?_, fun x hx report hreport => ?_⟩
  · rcases List.mem_append.mp hy with hy | hy
    · exact h.answers y hy
    · obtain rfl := List.mem_singleton.mp hy
      exact hnext.answer
  · cases hrole : MonitorEntry.changesRole ((mid i).1, input) with
    | true => simp [inRole, since_concat, hrole] at hx
    | false =>
      simp only [inRole, since_concat, hrole, Bool.false_eq_true, if_false] at hx
      rw [hnext.view hrole]
      rcases List.mem_append.mp hx with hx | hx
      · exact h.reports x hx report hreport
      · obtain rfl := List.mem_singleton.mp hx
        obtain ⟨hevent, hview⟩ := event_of_report hreport
        refine ⟨hview, ?_⟩
        dsimp only at hevent
        simp only [delivers, hevent, Bool.or_eq_true, decide_eq_true_eq, List.any_eq_true,
          List.contains_iff_mem] at hguard
        rcases hguard with hfaulty | ⟨y, hy, hsent⟩
        · exact .inl hfaulty
        · exact .inr ⟨y, (hgrown _).subset hy, hsent⟩

theorem loggedStep_grows {a b : HeartbeatMonitor × List MonitorEntry}
    (h : loggedStep cfg a input = some b) : a.2 <+: b.2 := by
  obtain ⟨hm, -, rfl⟩ := Option.map_eq_some_iff.mp h
  exact List.prefix_append _ _

/-- A leader that has asked for a sync because of responses is behind: a correct node has been in
a later view, as long as no more nodes are faulty than are tolerated. -/
theorem later_view_of_syncReq {events : List (Nat × MonitorInput)}
    (hfaulty : faulty.card ≤ (computeQuorum cfg.numberOfNodes).2)
    (hrun : runMonitors cfg faulty events = some s)
    (hleader : (s i).1.follower = false) (hsync : (s i).1.syncReq) :
    ∃ j ∉ faulty, ∃ y ∈ (s j).2, (s i).1.view < y.1.view := by
  have hany : StepsMeet (networkStep (fun _ => loggedStep cfg) (delivers cfg faulty))
      (fun _ _ => True) (fun _ => ({}, [])) events := StepsMeet.of_forall fun _ _ => trivial
  have hall : ∀ j, Informed cfg faulty s j (s j) := by
    refine network_invariant (r := fun a b => a.2 <+: b.2) (fun _ => List.prefix_rfl)
      List.IsPrefix.trans (fun _ _ _ _ => loggedStep_grows) ?_ ?_ hany hrun
    · intro mid j input t h hguard _ hgrown hstep
      exact (h j).step hguard hgrown hstep
    · exact fun j => ⟨fun h => h, Collects.init, by simp, by simp [inRole, since]⟩
  obtain ⟨j, hreporter, hj⟩ := Finset.exists_mem_notMem_of_card_lt_card
    (hfaulty.trans_lt ((hall i).collects.enough hleader hsync))
  simp only [reporters, List.mem_toFinset, List.mem_map, List.mem_filterMap] at hreporter
  obtain ⟨report, ⟨x, hx, hreport⟩, rfl⟩ := hreporter
  obtain ⟨hlater, hsent⟩ := (hall i).reports x hx report hreport
  obtain ⟨y, hy, hanswer⟩ := hsent.resolve_left hj
  exact ⟨report.1, hj, y, hy, (hall report.1).answers y hy _ _ hanswer ▸ hlater⟩

/-- Node `1` leads view `3` when node `2` is in view `4` already; node `4` is faulty. -/
def outdatedLeader : List (Nat × MonitorInput) :=
  (leadViewThree.map fun input => (1, input)) ++
    [(2, ⟨none, .start true⟩), (2, monitorInput (.commandChan ⟨4, 2, true, false⟩)),
     (2, monitorInput (.inc 1 (.heartBeat ⟨3, 5⟩))),
     (1, monitorInput (.inc 4 (.heartBeatResponse 7))),
     (1, monitorInput (.inc 2 (.heartBeatResponse 4)))]

theorem later_view_of_outdatedLeader :
    ∃ s, runMonitors fourMonitors {4} outdatedLeader = some s ∧ (s 1).1.syncReq ∧
      ∃ j ∉ ({4} : Finset Nat), ∃ y ∈ (s j).2, (s 1).1.view < y.1.view :=
  exists_of_isSome (by decide) fun hrun =>
    ⟨by decide, later_view_of_syncReq (by decide) hrun (by decide) (by decide)⟩

end HeartbeatMonitor

end SmartBFT
