import SmartBFT.Foundation.Relay
import SmartBFT.Node.Step

/-!
# Nodes that help those that lag behind

A node that is ahead answers a view change message for an earlier view by broadcasting one
for this view itself, unless it has seen a later one from the sender.  What it broadcasts is
an ordinary message, which the other nodes that are ahead answer in turn: two of them that
have seen no later message from each other go on for ever (`help_goes_around`).
`help_ends_iff` says which exchanges end.
-/

namespace SmartBFT

open SmartBFT.Foundation

/-! ## The table of the next views -/

namespace NextViews

variable (nv : NextViews) (next sender other : Nat)

theorem get_registerNext :
    (nv.registerNext next sender).get other =
      if other = sender then max (nv.get sender) next else nv.get other := by
  unfold registerNext
  split <;> rename_i hle
  · split <;> rename_i hother
    · rw [hother, Nat.max_eq_left hle]
    · rfl
  · by_cases hother : other = sender
    · have hlater : nv.get sender ≤ next := by omega
      rw [if_pos hother, Nat.max_eq_right hlater]
      simp [get, hother]
    · have hbeq : (other == sender) = false := by simpa using hother
      rw [if_neg hother]
      simp [get, List.lookup_cons, hbeq]

theorem sendRecv_registerNext :
    (nv.registerNext next sender).sendRecv next sender = decide (nv.get sender ≤ next) := by
  rw [sendRecv, get_registerNext, if_pos rfl]
  by_cases hle : nv.get sender ≤ next
  · simp [hle]
  · have hne : next ≠ max (nv.get sender) next := by omega
    simp [hle, hne]

theorem get_registerNext_le_iff :
    (nv.registerNext next sender).get other ≤ next ↔ nv.get other ≤ next := by
  rw [get_registerNext]
  split <;> rename_i hother
  · rw [hother]
    omega
  · rfl

end NextViews

/-! ## Nodes that are ahead -/

/-- The node waits for messages, has started the view change after its last view, and takes
`view` for one that others still have to leave. -/
structure Node.Ahead (nd : Node) (view : Nat) : Prop where
  live : nd.panicked = none
  idle : nd.viewChanger.pc = .select
  started : nd.viewChanger.nextView = nd.viewChanger.currView + 1
  behind : nd.viewChanger.realView < view
  reached : view ≤ nd.viewChanger.currView

def Node.answered (nd : Node) (sender view : Nat) : Node :=
  let registered := { nd with viewChanger := { nd.viewChanger with
    nvs := nd.viewChanger.nvs.registerNext view sender } }
  if nd.viewChanger.nvs.get sender ≤ view then
    registered.broadcastByViewChanger (.viewChange view)
  else registered

namespace Node.Ahead

variable {nd : Node} {cfg : Config} {sender view : Nat}

theorem step (h : nd.Ahead view) (hsender : sender ≠ cfg.selfID) (verifier : Verifier) :
    nd.step cfg ⟨verifier, .viewChanger (.msg sender (.viewChange view))⟩ =
      some (nd.answered sender view) := by
  have hreached := h.reached
  have hother : view ≠ nd.viewChanger.currView + 1 := by omega
  have hbelow : view < nd.viewChanger.currView + 1 := by omega
  simp [Node.step, h.live, NodeEvent.admissible, hsender, Node.react, Node.viewChangerStep,
    h.idle, Node.viewChangerSelect, Node.processNextView, hother, hbelow, h.started, h.behind,
    NextViews.sendRecv_registerNext, Node.answered]

end Node.Ahead

theorem Node.answered_viewChanger (nd : Node) (sender view : Nat) :
    (nd.answered sender view).viewChanger = { nd.viewChanger with
      nvs := nd.viewChanger.nvs.registerNext view sender } := by
  unfold answered
  simp only
  split <;> rfl

theorem Node.Ahead.answered {nd : Node} {view : Nat} (h : nd.Ahead view) (sender : Nat) :
    (nd.answered sender view).Ahead view := by
  have hpanicked : (nd.answered sender view).panicked = nd.panicked := by
    unfold Node.answered
    simp only
    split <;> rfl
  exact ⟨hpanicked.trans h.live, by rw [nd.answered_viewChanger]; exact h.idle,
    by rw [nd.answered_viewChanger]; exact h.started,
    by rw [nd.answered_viewChanger]; exact h.behind,
    by rw [nd.answered_viewChanger]; exact h.reached⟩

def Node.broadcasts (nd nd' : Node) (m : Message) : Nat :=
  nd'.trace.count (.broadcast .viewChanger m) - nd.trace.count (.broadcast .viewChanger m)

theorem Node.broadcasts_answered (nd : Node) (sender view : Nat) :
    nd.broadcasts (nd.answered sender view) (.viewChange view) =
      if nd.viewChanger.nvs.get sender ≤ view then 1 else 0 := by
  unfold answered broadcasts
  simp only
  split
  · simp [broadcastByViewChanger, record]
  · simp

/-- A view change message for `view`, a pair of sender and target, is handed to its target,
and what the target broadcasts is on its way to all other nodes.  Nodes that are not `ahead`
answer nothing. -/
def deliverViewChange (cfg : Nat → Config) (verifier : Verifier) (ahead : List Nat) (view : Nat)
    (s : Nat → Node) (m : Nat × Nat) : (Nat → Node) × Multiset (Nat × Nat) :=
  if m.2 ∈ ahead then
    match (s m.2).step (cfg m.2) ⟨verifier, .viewChanger (.msg m.1 (.viewChange view))⟩ with
    | none => (s, 0)
    | some nd' => (Function.update s m.2 nd',
        (s m.2).broadcasts nd' (.viewChange view) •
          (((cfg m.2).nodes.filter (· ≠ m.2)).map (Prod.mk m.2) : Multiset (Nat × Nat)))
  else (s, 0)

def Helps (ahead : List Nat) (view : Nat) (s : Nat → Node) (sender i : Nat) : Prop :=
  i ∈ ahead ∧ i ≠ sender ∧ (s i).viewChanger.nvs.get sender ≤ view

section Exchange

variable {cfg : Nat → Config} {verifier : Verifier} {nodes ahead : List Nat} {view : Nat}
  {s : Nat → Node} {m : Nat × Nat}

theorem deliverViewChange_ahead (hself : ∀ i, (cfg i).selfID = i)
    (hahead : ∀ i ∈ ahead, (s i).Ahead view) (hm : m.2 ∈ ahead ∧ m.2 ≠ m.1) :
    deliverViewChange cfg verifier ahead view s m =
      (Function.update s m.2 ((s m.2).answered m.1 view),
        (if (s m.2).viewChanger.nvs.get m.1 ≤ view then 1 else 0) •
          (((cfg m.2).nodes.filter (· ≠ m.2)).map (Prod.mk m.2) : Multiset (Nat × Nat))) := by
  have hsender : m.1 ≠ (cfg m.2).selfID := by
    rw [hself]
    exact hm.2.symm
  simp only [deliverViewChange, hm.1, if_true, (hahead m.2 hm.1).step hsender,
    Node.broadcasts_answered]

theorem deliverViewChange_ignored (hself : ∀ i, (cfg i).selfID = i)
    (hm : ¬(m.2 ∈ ahead ∧ m.2 ≠ m.1)) :
    deliverViewChange cfg verifier ahead view s m = (s, 0) := by
  unfold deliverViewChange
  split <;> rename_i hmem
  · have hown : m.1 = (cfg m.2).selfID := by
      rw [hself]
      by_contra hne
      exact hm ⟨hmem, fun heq => hne heq.symm⟩
    have hrefused : (s m.2).step (cfg m.2)
        ⟨verifier, .viewChanger (.msg m.1 (.viewChange view))⟩ = none := by
      simp [Node.step, NodeEvent.admissible, hown]
    rw [hrefused]
  · rfl

theorem deliverViewChange_keeps (hself : ∀ i, (cfg i).selfID = i)
    (hahead : ∀ i ∈ ahead, (s i).Ahead view) :
    ∀ i ∈ ahead, ((deliverViewChange cfg verifier ahead view s m).1 i).Ahead view := by
  intro i hi
  by_cases hm : m.2 ∈ ahead ∧ m.2 ≠ m.1
  · rw [deliverViewChange_ahead hself hahead hm]
    by_cases htarget : i = m.2
    · subst htarget
      simpa using (hahead m.2 hi).answered m.1
    · simpa [Function.update_of_ne htarget] using hahead i hi
  · rw [deliverViewChange_ignored hself hm]
    exact hahead i hi

theorem helps_deliverViewChange (hself : ∀ i, (cfg i).selfID = i)
    (hahead : ∀ i ∈ ahead, (s i).Ahead view) :
    Helps ahead view (deliverViewChange cfg verifier ahead view s m).1 = Helps ahead view s := by
  by_cases hm : m.2 ∈ ahead ∧ m.2 ≠ m.1
  · rw [deliverViewChange_ahead hself hahead hm]
    funext sender i
    by_cases htarget : i = m.2
    · subst htarget
      simp [Helps, Node.answered_viewChanger, NextViews.get_registerNext_le_iff]
    · simp [Helps, Function.update_of_ne htarget]
  · rw [deliverViewChange_ignored hself hm]

theorem answers_deliverViewChange (hself : ∀ i, (cfg i).selfID = i)
    (hnodes : ∀ i, (cfg i).nodes = nodes) (hahead : ∀ i ∈ ahead, (s i).Ahead view) :
    Answers (deliverViewChange cfg verifier ahead view) s =
      Relays nodes (Helps ahead view s) := by
  funext m' m
  unfold Answers Relays Helps
  by_cases hm : m.2 ∈ ahead ∧ m.2 ≠ m.1
  · rw [deliverViewChange_ahead hself hahead hm, hnodes]
    by_cases hseen : (s m.2).viewChanger.nvs.get m.1 ≤ view
    · obtain ⟨sender, target⟩ := m'
      simp only [hseen, if_true, one_smul, Multiset.mem_coe, List.mem_map, List.mem_filter,
        decide_eq_true_eq, Prod.mk.injEq, hm.1, hm.2, ne_eq, not_false_eq_true, true_and,
        eq_iff_iff]
      constructor
      · rintro ⟨other, hother, rfl, rfl⟩
        exact ⟨rfl, hother⟩
      · rintro ⟨rfl, hother⟩
        exact ⟨target, hother, rfl, rfl⟩
    · simp [hseen]
  · rw [deliverViewChange_ignored hself hm]
    simp only [Multiset.notMem_zero, false_iff, eq_iff_iff]
    rintro ⟨⟨hmem, hne, -⟩, -⟩
    exact hm ⟨hmem, hne⟩

theorem ends_iff_acc_relays (hself : ∀ i, (cfg i).selfID = i)
    (hnodes : ∀ i, (cfg i).nodes = nodes) (hahead : ∀ i ∈ ahead, (s i).Ahead view)
    (inFlight : Multiset (Nat × Nat)) :
    Ends (deliverViewChange cfg verifier ahead view) (s, inFlight) ↔
      ∀ m ∈ inFlight, Acc (Relays nodes (Helps ahead view s)) m := by
  have hanswers : ∀ s : Nat → Node, (∀ i ∈ ahead, (s i).Ahead view) →
      Answers (deliverViewChange cfg verifier ahead view) s =
        Relays nodes (Helps ahead view s) :=
    fun s hs => answers_deliverViewChange hself hnodes hs
  have hkeeps : ∀ (s : Nat → Node) (m : Nat × Nat), (∀ i ∈ ahead, (s i).Ahead view) →
      ∀ i ∈ ahead, ((deliverViewChange cfg verifier ahead view s m).1 i).Ahead view :=
    fun s m hs => deliverViewChange_keeps hself hs
  have hsame : ∀ (s : Nat → Node) (m : Nat × Nat), (∀ i ∈ ahead, (s i).Ahead view) →
      Answers (deliverViewChange cfg verifier ahead view)
          (deliverViewChange cfg verifier ahead view s m).1 =
        Answers (deliverViewChange cfg verifier ahead view) s := by
    intro s m hs
    rw [hanswers _ (hkeeps s m hs), hanswers s hs, helps_deliverViewChange hself hs]
  have hirrefl : ∀ m, m ∉ (deliverViewChange cfg verifier ahead view s m).2 := by
    intro m hm
    have hown : Relays nodes (Helps ahead view s) m m := hanswers s hahead ▸ hm
    exact hown.2.2.2 rfl
  rw [ends_iff hkeeps hsame hirrefl hahead, hanswers s hahead]

theorem acc_relays_helps_iff (hahead : ahead ⊆ nodes) :
    Acc (Relays nodes (Helps ahead view s)) m ↔
      (Helps ahead view s m.1 m.2 → LeadsToNoCircle (Helps ahead view s) m.2) :=
  acc_relays_iff (fun _ _ h => hahead h.1) fun _ _ h => h.2.1

end Exchange

/-- The exchange of view change messages for a view, among any nodes that are ahead of it,
ends exactly if no message in flight is answered by a node from which helpers lead to a
circle of nodes that help one another. -/
theorem help_ends_iff {cfg : Nat → Config} {verifier : Verifier} {nodes ahead : List Nat}
    {view : Nat} {s : Nat → Node} (hself : ∀ i, (cfg i).selfID = i)
    (hnodes : ∀ i, (cfg i).nodes = nodes) (hmembers : ahead ⊆ nodes)
    (hahead : ∀ i ∈ ahead, (s i).Ahead view) (inFlight : Multiset (Nat × Nat)) :
    Ends (deliverViewChange cfg verifier ahead view) (s, inFlight) ↔
      ∀ m ∈ inFlight, Helps ahead view s m.1 m.2 →
        LeadsToNoCircle (Helps ahead view s) m.2 := by
  rw [ends_iff_acc_relays hself hnodes hahead]
  exact forall₂_congr fun m _ => acc_relays_helps_iff hmembers

/-! ## Nodes `2`, `3` and `4` of four -/

def aheadOfFour (seen : List (Nat × Nat)) (i : Nat) : Node :=
  let nd := nodeOfFour i
  { nd with viewChanger := { nd.viewChanger with
      realView := 0, currView := 2, nextView := 3, nvs := ⟨seen⟩ } }

theorem aheadOfFour_ahead (seen : List (Nat × Nat)) (i : Nat) :
    (aheadOfFour seen i).Ahead 1 :=
  ⟨rfl, rfl, rfl, Nat.zero_lt_one, Nat.le_succ 1⟩

theorem clusterOfFour_selfID (i : Nat) : (clusterOfFour i).selfID = i := rfl

theorem clusterOfFour_nodes (i : Nat) : (clusterOfFour i).nodes = [1, 2, 3, 4] := rfl

/-- All have had the messages of one another for view `3`: each helps node `1`, and no node
that helps it. -/
theorem help_ends_of_four :
    Ends (deliverViewChange clusterOfFour acceptingVerifier [2, 3, 4] 1)
      (aheadOfFour [(2, 3), (3, 3), (4, 3)], {(1, 2), (1, 3), (1, 3)}) := by
  refine (help_ends_iff clusterOfFour_selfID clusterOfFour_nodes (by decide)
    (fun i _ => aheadOfFour_ahead _ i) _).mpr ?_
  have hsender : ∀ {sender i}, Helps [2, 3, 4] 1 (aheadOfFour [(2, 3), (3, 3), (4, 3)]) sender i →
      sender ∉ [2, 3, 4] := by
    rintro sender i ⟨-, -, hseen⟩ hmem
    simp only [List.mem_cons, List.not_mem_nil, or_false] at hmem
    rcases hmem with rfl | rfl | rfl <;> exact absurd (show 3 ≤ 1 from hseen) (by decide)
  intro m _ _ i _ hcircle
  obtain ⟨j, hfirst, -⟩ := Relation.TransGen.head'_iff.mp hcircle
  obtain ⟨k, -, hlast⟩ := Relation.TransGen.tail'_iff.mp hcircle
  exact hsender hfirst hlast.1

/-- Nodes `2` and `3` have had no message of each other: they answer the help of each other
for ever. -/
theorem help_goes_around :
    (∀ i ∈ [2, 3, 4], (aheadOfFour [] i).Ahead 1) ∧
      ∃ exchange : Nat → (Nat → Node) × Multiset (Nat × Nat),
        exchange 0 = (aheadOfFour [], {(1, 2)}) ∧
        ∀ k, Delivers (deliverViewChange clusterOfFour acceptingVerifier [2, 3, 4] 1)
          (exchange (k + 1)) (exchange k) := by
  refine ⟨fun i _ => aheadOfFour_ahead [] i, ?_⟩
  by_contra hends
  have hends : Ends (deliverViewChange clusterOfFour acceptingVerifier [2, 3, 4] 1)
      (aheadOfFour [], {(1, 2)}) := hends
  rw [ends_iff_acc_relays clusterOfFour_selfID clusterOfFour_nodes
    fun i _ => aheadOfFour_ahead [] i] at hends
  have hhelps : ∀ sender i, i ∈ [2, 3, 4] → i ≠ sender →
      Helps [2, 3, 4] 1 (aheadOfFour []) sender i :=
    fun sender i hi hne => ⟨hi, hne, Nat.zero_le 1⟩
  refine (acc_relays_helps_iff (by decide)).mp (hends (1, 2) (Multiset.mem_singleton_self _))
    (hhelps 1 2 (by decide) (by decide)) 2 .refl ?_
  exact (Relation.TransGen.single (hhelps 2 3 (by decide) (by decide))).tail
    (hhelps 3 2 (by decide) (by decide))

end SmartBFT
