import SmartBFT.Foundation.Network
import SmartBFT.Node.Votes

/-!
# Clusters

The nodes of a cluster run side by side, and a message reaches a node if its sender
has sent it: the network may delay, reorder, duplicate and lose messages, but it
cannot invent one.  Nothing is assumed about what a faulty node sends.

Each correct node is a run of `Node.step`, in which every message comes from where it
says it does (`Cluster.run_node`).
-/

namespace SmartBFT

open SmartBFT.Foundation

def NodeEvent.received : NodeEvent → Option (Nat × Message)
  | .view (.handleMessage sender m) => some (sender, m)
  | .inFlightView (.handleMessage sender m) => some (sender, m)
  | .viewChanger (.msg sender m) => some (sender, m)
  | _ => none

/-- At most `f` of the nodes are faulty, and all agree on the membership and on the
digest. -/
structure Cluster where
  nodes : List Nat
  faulty : Finset Nat
  config : Nat → Config
  digest : Proposal → String
  distinct : nodes.Nodup
  few : faulty.card ≤ (computeQuorum nodes.length).2
  self : ∀ i, (config i).selfID = i
  members : ∀ i, (config i).nodes = nodes
  digests : ∀ i, (config i).digest = digest

abbrev ClusterState := Nat → Node

namespace Cluster

variable (c : Cluster)

def quorum : Nat := (computeQuorum c.nodes.length).1

def f : Nat := (computeQuorum c.nodes.length).2

def correct (i : Nat) : Bool := decide (i ∈ c.nodes ∧ i ∉ c.faulty)

def sent (s : ClusterState) (sender target : Nat) (m : Message) : Bool :=
  decide (sender ∈ c.nodes) && (decide (sender ∈ c.faulty) ||
    (s sender).trace.any fun
      | .broadcast _ m' => decide (m' = m)
      | .send target' m' => decide (target' = target ∧ m' = m)
      | _ => false)

/-- Correct nodes take steps, and channels authenticate senders. -/
def allows (s : ClusterState) (i : Nat) (input : NodeInput) : Bool :=
  c.correct i && match input.event.received with
  | some (sender, m) => c.sent s sender i m
  | none => true

def step : ClusterState → Nat × NodeInput → Option ClusterState :=
  networkStep (fun i => Node.step (c.config i)) c.allows

def Started (start : ClusterState) : Prop :=
  ∀ i, c.correct i = true → ∃ checkpoint,
    Node.boot (c.config i) [] checkpoint = .ok (start i)

def MaySend (s : ClusterState) (i : Nat) (m : Message) : Prop :=
  i ∈ c.nodes ∧ (c.correct i = true → ∃ action ∈ (s i).trace, action.Sends m)

variable {c}

theorem correct_iff {i : Nat} : c.correct i = true ↔ i ∈ c.nodes ∧ i ∉ c.faulty := by
  simp [correct]

theorem config_quorum (i : Nat) : (c.config i).quorum = c.quorum := by
  rw [Config.quorum, Config.n, c.members i, quorum]

theorem config_f (i : Nat) : (c.config i).f = c.f := by
  rw [Config.f, Config.n, c.members i, f]

theorem two_mul_quorum (c : Cluster) : c.nodes.length + c.f < 2 * c.quorum :=
  computeQuorum_two_mul rfl

theorem f_lt_quorum (c : Cluster) : c.f < c.quorum := computeQuorum_faulty_lt rfl

theorem card_nodes (c : Cluster) : c.nodes.toFinset.card = c.nodes.length :=
  List.toFinset_card_of_nodup c.distinct

theorem exists_correct {a b : Finset Nat} (ha : a ⊆ c.nodes.toFinset)
    (hb : b ⊆ c.nodes.toFinset) (hacard : c.quorum ≤ a.card) (hbcard : c.quorum ≤ b.card) :
    ∃ i, i ∈ a ∧ i ∈ b ∧ c.correct i = true := by
  have hmany := c.two_mul_quorum
  have hlarge : c.nodes.toFinset.card + c.f < a.card + b.card := by
    rw [c.card_nodes]
    omega
  obtain ⟨i, hia, hib, hfaulty⟩ := exists_correct_mem_inter ha hb c.few hlarge
  exact ⟨i, hia, hib, correct_iff.mpr ⟨List.mem_toFinset.mp (ha hia), hfaulty⟩⟩

theorem maySend_of_sent {s final : ClusterState} {sender target : Nat} {m : Message}
    (h : c.sent s sender target m = true) (hgrown : ∀ j, (s j).trace ⊆ (final j).trace) :
    c.MaySend final sender m := by
  simp only [sent, Bool.and_eq_true, Bool.or_eq_true, decide_eq_true_eq,
    List.any_eq_true] at h
  refine ⟨h.1, fun hcorrect => ?_⟩
  rcases h.2 with hfaulty | ⟨action, hmem, haction⟩
  · exact absurd hfaulty (correct_iff.mp hcorrect).2
  · refine ⟨action, hgrown sender hmem, ?_⟩
    split at haction
    · exact of_decide_eq_true haction ▸ .inl ⟨_, rfl⟩
    · exact (of_decide_eq_true haction).2 ▸ .inr ⟨_, rfl⟩
    · simp at haction

theorem maySend_of_allows {s final : ClusterState} {i : Nat} {input : NodeInput}
    (h : c.allows s i input = true) (hgrown : ∀ j, (s j).trace ⊆ (final j).trace)
    {sender : Nat} {m : Message} (hm : input.event.received = some (sender, m)) :
    c.MaySend final sender m := by
  simp only [allows, hm, Bool.and_eq_true] at h
  exact maySend_of_sent h.2 hgrown

theorem run_node {condition : ClusterState → Nat × NodeInput → Prop}
    {start final : ClusterState} {events : List (Nat × NodeInput)} {i : Nat}
    {p : Node → NodeInput → Prop}
    (hmeets : ∀ s input, c.allows s i input = true → condition s (i, input) →
      (∀ j, (s j).trace ⊆ (final j).trace) → p (s i) input)
    (hsteps : StepsMeet c.step condition start events)
    (hrun : run c.step start events = some final) :
    StepsMeet (Node.step (c.config i)) p (start i) (eventsOf i events) ∧
      run (Node.step (c.config i)) (start i) (eventsOf i events) = some (final i) :=
  network_project (r := fun nd nd' : Node => nd.trace ⊆ nd'.trace)
    (fun nd => List.Subset.refl nd.trace) List.Subset.trans
    (fun _ _ _ _ h => Node.step_trace_subset h) hmeets hsteps hrun

end Cluster

end SmartBFT
