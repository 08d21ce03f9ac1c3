import Mathlib.Data.Finset.Card
import SmartBFT.Blacklist
import SmartBFT.Election

/-!
# What an update does to the blacklist

A proposal of a new view adds the leaders of the views that were skipped, one of the same
view removes the nodes that were observed again.

`pruneBlacklist` counts how often a node is listed and not by how many: one signer that lists
a node often enough frees it alone.  `computeUpdate` replays the election of every skipped
view with the number of decisions of the last one, although a view in which nothing was
decided is led by the node elected for `0` decisions; so it can blacklist a node that has led
nothing, and it can list one node twice.
-/

namespace SmartBFT

/-! ## Nodes that are observed again -/

def observers (preparesFrom : List (Nat × PreparesFrom)) (node : Nat) : Finset Nat :=
  ((preparesFrom.filter fun entry => node ∈ entry.2.ids).map Prod.fst).toFinset

/-- A node that is still a member is dropped only if more than `f` signers list it, any other
stays, and the order stays. -/
structure FreesObserved (prevBlacklist : List Nat) (preparesFrom : List (Nat × PreparesFrom))
    (f : Nat) (nodes result : List Nat) : Prop where
  dropped : ∀ node ∈ prevBlacklist, node ∈ nodes → node ∉ result →
    f + 1 ≤ (observers preparesFrom node).card
  kept : ∀ node ∈ prevBlacklist, node ∈ nodes →
    (observers preparesFrom node).card ≤ f → node ∈ result
  order : result.Sublist prevBlacklist

section Prune

variable {prevBlacklist nodes : List Nat} {preparesFrom preparesFrom' : List (Nat × PreparesFrom)}
  {f node : Nat}

theorem mem_pruneBlacklist :
    node ∈ pruneBlacklist prevBlacklist preparesFrom f nodes ↔
      node ∈ prevBlacklist ∧ node ∈ nodes ∧ countAcks preparesFrom node ≤ f := by
  simp [pruneBlacklist]

theorem pruneBlacklist_sublist :
    (pruneBlacklist prevBlacklist preparesFrom f nodes).Sublist prevBlacklist :=
  List.filter_sublist

theorem countAcks_perm (h : preparesFrom.Perm preparesFrom') (node : Nat) :
    countAcks preparesFrom node = countAcks preparesFrom' node :=
  (h.map _).sum_nat

end Prune

/-- The order of the map never matters; the right nodes are freed exactly if no node that is
listed more than `f` times is listed by `f` signers or fewer. -/
theorem pruneBlacklist_frees_observed_iff (prevBlacklist : List Nat)
    (preparesFrom : List (Nat × PreparesFrom)) (f : Nat) (nodes : List Nat) :
    (∀ preparesFrom', preparesFrom'.Perm preparesFrom →
      pruneBlacklist prevBlacklist preparesFrom' f nodes =
        pruneBlacklist prevBlacklist preparesFrom f nodes) ∧
    (FreesObserved prevBlacklist preparesFrom f nodes
        (pruneBlacklist prevBlacklist preparesFrom f nodes) ↔
      ∀ node ∈ prevBlacklist, node ∈ nodes → f < countAcks preparesFrom node →
        f < (observers preparesFrom node).card) := by
  refine ⟨?_, ?_, ?_⟩
  · intro preparesFrom' hperm
    unfold pruneBlacklist
    simp only [countAcks_perm hperm]
  · intro hfrees node hprev hnode hcount
    refine hfrees.dropped node hprev hnode fun hstays => ?_
    have := (mem_pruneBlacklist.mp hstays).2.2
    omega
  · intro hcount
    have hdropped : ∀ node ∈ prevBlacklist, node ∈ nodes →
        node ∉ pruneBlacklist prevBlacklist preparesFrom f nodes →
        f + 1 ≤ (observers preparesFrom node).card := by
      intro node hprev hnode hgone
      refine hcount node hprev hnode ?_
      by_contra hfew
      exact hgone (mem_pruneBlacklist.mpr ⟨hprev, hnode, by omega⟩)
    refine ⟨hdropped, ?_, pruneBlacklist_sublist⟩
    intro node hprev hnode hfew
    by_contra hgone
    have := hdropped node hprev hnode hgone
    omega

theorem pruneBlacklist_frees_observed_three :
    pruneBlacklist [3, 4] [(1, ⟨[3, 3]⟩), (2, ⟨[3, 4]⟩)] 1 [1, 2, 3, 4] = [4] ∧
      FreesObserved [3, 4] [(1, ⟨[3, 3]⟩), (2, ⟨[3, 4]⟩)] 1 [1, 2, 3, 4] [4] := by
  refine ⟨by decide, ?_⟩
  exact (pruneBlacklist_frees_observed_iff [3, 4] [(1, ⟨[3, 3]⟩), (2, ⟨[3, 4]⟩)] 1
    [1, 2, 3, 4]).2.mpr (by decide)

/-- One signer frees a node by listing it twice. -/
theorem pruneBlacklist_frees_listed_twice :
    pruneBlacklist [3] [(1, ⟨[3, 3]⟩)] 1 [1, 2, 3, 4] = [] ∧
      ¬FreesObserved [3] [(1, ⟨[3, 3]⟩)] 1 [1, 2, 3, 4]
        (pruneBlacklist [3] [(1, ⟨[3, 3]⟩)] 1 [1, 2, 3, 4]) := by
  refine ⟨by decide, fun hfrees => ?_⟩
  have hobservers := hfrees.dropped 3 (by decide) (by decide) (by decide)
  revert hobservers
  decide

namespace Blacklist

variable {bl : Blacklist}

/-! ## The leaders of the skipped views -/

def skippedViews (bl : Blacklist) : List Nat :=
  List.range' bl.prevMD.viewId (bl.currView - bl.prevMD.viewId)

theorem mem_skippedViews {view : Nat} :
    view ∈ bl.skippedViews ↔ bl.prevMD.viewId ≤ view ∧ view < bl.currView := by
  simp only [skippedViews, List.mem_range'_1]
  omega

/-- The nodes that an update appends: the replayed leaders, without the current one. -/
def skippedLeaders (bl : Blacklist) : List Nat :=
  (bl.skippedViews.filterMap bl.skippedLeader).filter fun leader =>
    decide (leader ≠ bl.currentLeader)

theorem mem_skippedLeaders {leader : Nat} :
    leader ∈ bl.skippedLeaders ↔ leader ≠ bl.currentLeader ∧
      ∃ view, bl.prevMD.viewId ≤ view ∧ view < bl.currView ∧
        bl.skippedLeader view = some leader := by
  simp only [skippedLeaders, List.mem_filter, List.mem_filterMap, mem_skippedViews,
    decide_eq_true_eq]
  constructor
  · rintro ⟨⟨view, ⟨hfrom, hto⟩, hleader⟩, hcurrent⟩
    exact ⟨hcurrent, view, hfrom, hto, hleader⟩
  · rintro ⟨hcurrent, view, hfrom, hto, hleader⟩
    exact ⟨⟨view, ⟨hfrom, hto⟩, hleader⟩, hcurrent⟩

theorem addSkipped_eq_some_iff {views newBlacklist result : List Nat} :
    bl.addSkipped views newBlacklist = some result ↔
      (∀ view ∈ views, (bl.skippedLeader view).isSome = true) ∧
      result = newBlacklist ++ (views.filterMap bl.skippedLeader).filter
        (fun leader => decide (leader ≠ bl.currentLeader)) := by
  induction views generalizing newBlacklist with
  | nil => simpa [addSkipped] using eq_comm
  | cons view views ih =>
    rw [addSkipped]
    cases hleader : bl.skippedLeader view with
    | none => simp [hleader]
    | some leaderID =>
      simp only
      split <;> rename_i hcurrent
      · simp [ih, hleader, hcurrent]
      · simp [ih, hleader, hcurrent]

theorem computeUpdate_eq_some_iff {result : List Nat} (h : bl.prevMD.viewId ≠ bl.currView) :
    bl.computeUpdate = some result ↔
      (∀ view ∈ bl.skippedViews, (bl.skippedLeader view).isSome = true) ∧
      result = (bl.prevMD.blackList ++ bl.skippedLeaders).drop
        ((bl.prevMD.blackList ++ bl.skippedLeaders).length - bl.f) := by
  simp only [computeUpdate, if_pos h, Option.map_eq_some_iff]
  constructor
  · rintro ⟨updated, hupdated, rfl⟩
    obtain ⟨hsome, rfl⟩ := addSkipped_eq_some_iff.mp hupdated
    exact ⟨hsome, rfl⟩
  · rintro ⟨hsome, rfl⟩
    exact ⟨_, addSkipped_eq_some_iff.mpr ⟨hsome, rfl⟩, rfl⟩

/-! ## Who has led the skipped views -/

def countedDecisions (bl : Blacklist) : Nat :=
  bl.prevMD.decisionsInView + if bl.prevMD.latestSequence = 0 then 0 else 1

/-- The leader of a skipped view as `ViewChanger.getLeader` and `Controller.changeView` elect
it: nothing was decided in the views after that of the last decision. -/
def actualLeader (bl : Blacklist) (view : Nat) : Option Nat :=
  getLeaderID view bl.n bl.nodes bl.leaderRotation
    (if view = bl.prevMD.viewId then bl.countedDecisions else 0) bl.decisionsPerLeader
    bl.prevMD.blackList

def leaderAt (bl : Blacklist) (slot : Nat) : Option Nat :=
  firstNotBlacklisted bl.n bl.nodes slot bl.prevMD.blackList

def turn (bl : Blacklist) : Nat := bl.countedDecisions / bl.decisionsPerLeader

theorem skippedLeader_eq (hrotation : bl.leaderRotation = true) (view : Nat) :
    bl.skippedLeader view = bl.leaderAt (view + bl.turn) := by
  simp [skippedLeader, getLeaderID, hrotation, leaderAt, turn, countedDecisions]

theorem actualLeader_first (hrotation : bl.leaderRotation = true) :
    bl.actualLeader bl.prevMD.viewId = bl.leaderAt (bl.prevMD.viewId + bl.turn) := by
  simp [actualLeader, getLeaderID, hrotation, leaderAt, turn]

theorem actualLeader_later (hrotation : bl.leaderRotation = true) {view : Nat}
    (hview : bl.prevMD.viewId < view) : bl.actualLeader view = bl.leaderAt view := by
  simp [actualLeader, getLeaderID, hrotation, leaderAt, hview.ne']

theorem exists_actualLeader_iff (hrotation : bl.leaderRotation = true)
    (hview : bl.prevMD.viewId < bl.currView) {leader : Option Nat} :
    (∃ view, bl.prevMD.viewId ≤ view ∧ view < bl.currView ∧
        leader = bl.actualLeader view) ↔
      leader = bl.leaderAt (bl.prevMD.viewId + bl.turn) ∨
        ∃ view, bl.prevMD.viewId < view ∧ view < bl.currView ∧ leader = bl.leaderAt view := by
  constructor
  · rintro ⟨view, hfrom, hto, hleader⟩
    rcases hfrom.eq_or_lt with rfl | hlater
    · exact .inl (hleader.trans (actualLeader_first hrotation))
    · exact .inr ⟨view, hlater, hto, hleader.trans (actualLeader_later hrotation hlater)⟩
  · rintro (hleader | ⟨view, hlater, hto, hleader⟩)
    · exact ⟨_, le_rfl, hview, hleader.trans (actualLeader_first hrotation).symm⟩
    · exact ⟨view, hlater.le, hto, hleader.trans (actualLeader_later hrotation hlater).symm⟩

/-- For each skipped view after the first, the leader of its slot moved on by the turns of the
first view is the current leader, or has led one of the skipped views. -/
def SlotsLed (bl : Blacklist) : Prop :=
  ∀ view, bl.prevMD.viewId < view → view < bl.currView →
    bl.leaderAt (view + bl.turn) = some bl.currentLeader ∨
    bl.leaderAt (view + bl.turn) = bl.leaderAt (bl.prevMD.viewId + bl.turn) ∨
    ∃ other, bl.prevMD.viewId < other ∧ other < bl.currView ∧
      bl.leaderAt (view + bl.turn) = bl.leaderAt other

/-- Before the first rotation each skipped view has its own slot. -/
theorem slotsLed_of_turn_zero (h : bl.turn = 0) : bl.SlotsLed :=
  fun view hfrom hto => .inr (.inr ⟨view, hfrom, hto, by rw [h, Nat.add_zero]⟩)

theorem slotsLed_of_one_view (h : bl.currView = bl.prevMD.viewId + 1) : bl.SlotsLed :=
  fun view hfrom hto => absurd hfrom (by omega)

end Blacklist

/-- What an update appends has led a skipped view exactly if the slots of these views were led.
This is so if the first view has not rotated its leader, or is the only one that was skipped.
The sums of views and turns are those of the source below `2 ^ 64` (`getLeaderIDUint64_eq`). -/
theorem blacklisted_led_iff {bl : Blacklist} {result : List Nat}
    (hrotation : bl.leaderRotation = decide (0 < bl.decisionsPerLeader))
    (hturn : 1 ≤ bl.decisionsPerLeader) (hview : bl.prevMD.viewId < bl.currView)
    (hupdate : bl.computeUpdate = some result) :
    result = (bl.prevMD.blackList ++ bl.skippedLeaders).drop
        ((bl.prevMD.blackList ++ bl.skippedLeaders).length - bl.f) ∧
    ((∀ leader ∈ bl.skippedLeaders, ∃ view, bl.prevMD.viewId ≤ view ∧ view < bl.currView ∧
        bl.actualLeader view = some leader) ↔ bl.SlotsLed) ∧
    (bl.turn = 0 ∨ bl.currView = bl.prevMD.viewId + 1 → bl.SlotsLed) := by
  have hrotating : bl.leaderRotation = true :=
    hrotation.trans (decide_eq_true (Nat.lt_of_lt_of_le Nat.one_pos hturn))
  obtain ⟨hsome, hresult⟩ := (Blacklist.computeUpdate_eq_some_iff hview.ne).mp hupdate
  refine ⟨hresult, ⟨?_, ?_⟩,
    fun h => h.elim Blacklist.slotsLed_of_turn_zero Blacklist.slotsLed_of_one_view⟩
  · intro hled view hfrom hto
    obtain ⟨leader, hleader⟩ := Option.isSome_iff_exists.mp
      (hsome view (Blacklist.mem_skippedViews.mpr ⟨hfrom.le, hto⟩))
    have hslot := (Blacklist.skippedLeader_eq hrotating view).symm.trans hleader
    by_cases hcurrent : leader = bl.currentLeader
    · exact .inl (hslot.trans (congrArg some hcurrent))
    · obtain ⟨other, hother, hbelow, hactual⟩ := hled leader
        (Blacklist.mem_skippedLeaders.mpr ⟨hcurrent, view, hfrom.le, hto, hleader⟩)
      exact .inr ((Blacklist.exists_actualLeader_iff hrotating hview).mp
        ⟨other, hother, hbelow, hslot.trans hactual.symm⟩)
  · intro hslots leader hleader
    obtain ⟨hcurrent, view, hfrom, hto, hskipped⟩ := Blacklist.mem_skippedLeaders.mp hleader
    rw [Blacklist.skippedLeader_eq hrotating] at hskipped
    have hled : bl.leaderAt (view + bl.turn) = bl.leaderAt (bl.prevMD.viewId + bl.turn) ∨
        ∃ other, bl.prevMD.viewId < other ∧ other < bl.currView ∧
          bl.leaderAt (view + bl.turn) = bl.leaderAt other := by
      rcases hfrom.eq_or_lt with rfl | hlater
      · exact .inl rfl
      · refine (hslots view hlater hto).resolve_left fun hleads => hcurrent ?_
        exact Option.some.inj (hskipped.symm.trans hleads)
    obtain ⟨other, hother, hbelow, hactual⟩ :=
      (Blacklist.exists_actualLeader_iff hrotating hview).mpr hled
    exact ⟨other, hother, hbelow, hactual.symm.trans hskipped⟩

/-- Four nodes that take turns of one decision.  The last decision is of view `0`, and the
views from there to `view` are skipped. -/
def skippedUpTo (view leader decisionsInView : Nat) : Blacklist where
  currentLeader := leader
  leaderRotation := true
  prevMD := { latestSequence := 2, decisionsInView := decisionsInView }
  n := 4
  nodes := [1, 2, 3, 4]
  currView := view
  preparesFrom := []
  f := 1
  decisionsPerLeader := 1

theorem blacklisted_led_two :
    (skippedUpTo 3 4 0).computeUpdate = some [3] ∧
      ∀ leader ∈ (skippedUpTo 3 4 0).skippedLeaders, ∃ view,
        (skippedUpTo 3 4 0).prevMD.viewId ≤ view ∧ view < (skippedUpTo 3 4 0).currView ∧
        (skippedUpTo 3 4 0).actualLeader view = some leader := by
  refine ⟨by decide, ?_⟩
  refine (@blacklisted_led_iff (skippedUpTo 3 4 0) [3] rfl (by decide) (by decide)
    (by decide)).2.1.mpr ?_
  intro view hfrom hto
  have hview : view = 1 ∨ view = 2 := by
    simp only [skippedUpTo] at hfrom hto
    omega
  rcases hview with rfl | rfl
  · exact .inr (.inr ⟨2, by decide, by decide, by decide⟩)
  · exact .inl (by decide)

/-- Node `3` led view `0` and node `2` view `1`, but node `4` is blacklisted. -/
theorem bystander_blacklisted :
    (skippedUpTo 2 3 1).leaderAt 2 = some (skippedUpTo 2 3 1).currentLeader ∧
      (skippedUpTo 2 3 1).computeUpdate = some [4] ∧ 4 ∈ (skippedUpTo 2 3 1).skippedLeaders ∧
      (skippedUpTo 2 3 1).actualLeader 0 = some 3 ∧ (skippedUpTo 2 3 1).actualLeader 1 = some 2 ∧
      ¬∃ view, (skippedUpTo 2 3 1).prevMD.viewId ≤ view ∧ view < (skippedUpTo 2 3 1).currView ∧
        (skippedUpTo 2 3 1).actualLeader view = some 4 := by
  refine ⟨by decide, by decide, by decide, by decide, by decide, ?_⟩
  rintro ⟨view, -, hto, hleader⟩
  have hview : view = 0 ∨ view = 1 := by
    simp only [skippedUpTo] at hto
    omega
  rcases hview with rfl | rfl
  · exact absurd hleader (by decide)
  · exact absurd hleader (by decide)

end SmartBFT
