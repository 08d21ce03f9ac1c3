import Mathlib.Data.List.Count
import Mathlib.Data.List.Sort
import Mathlib.Data.Nat.ModEq
import SmartBFT.Foundation.Rotation
import SmartBFT.Util

/-!
# The election of leaders

`getLeaderID` of `internal/bft/util.go` over the sorted nodes of `pkg/consensus/consensus.go`.
With rotation the leader is the first node that is not blacklisted, in cyclic order from a
slot that moves on with the view and, once every `decisionsPerLeader` decisions, within it.
-/

namespace SmartBFT

variable {view decisionsInView decisionsPerLeader : Nat} {nodes : List Nat}

open SmartBFT.Foundation

/-! ## The first node that is not blacklisted -/

theorem firstNotBlacklisted_eq_find? (nodes : List Nat) (start : Nat) (blacklist : List Nat) :
    firstNotBlacklisted nodes.length nodes start blacklist =
      (nodes.rotate start).find? (fun node => decide (node ∉ blacklist)) := by
  rw [← findSome?_slots_eq_find?]
  unfold firstNotBlacklisted
  congr 1
  funext i
  cases nodes[(start + i) % nodes.length]? with
  | none => rfl
  | some node => by_cases hnode : node ∈ blacklist <;> simp [Option.filter, hnode]

theorem getLeaderID_eq_find? (view : Nat) (nodes : List Nat)
    (decisionsInView decisionsPerLeader : Nat) (blacklist : List Nat) :
    getLeaderID view nodes.length nodes true decisionsInView decisionsPerLeader blacklist =
      (nodes.rotate (view + decisionsInView / decisionsPerLeader)).find?
        (fun node => decide (node ∉ blacklist)) := by
  simp [getLeaderID, firstNotBlacklisted_eq_find?]

theorem getLeaderID_mem {leader : Nat} {blacklist : List Nat} {leaderRotation : Bool}
    (h : getLeaderID view nodes.length nodes leaderRotation decisionsInView decisionsPerLeader
      blacklist = some leader) : leader ∈ nodes ∧ (leaderRotation = true → leader ∉ blacklist) := by
  cases leaderRotation with
  | false => exact ⟨List.mem_of_getElem? h, by simp⟩
  | true =>
    rw [getLeaderID_eq_find?] at h
    refine ⟨List.mem_rotate.mp (List.mem_of_find?_eq_some h), fun _ => ?_⟩
    simpa using List.find?_some h

theorem getLeaderID_isSome {blacklist : List Nat} {node : Nat} (hnode : node ∈ nodes)
    (hfree : node ∉ blacklist) (view : Nat) (leaderRotation : Bool)
    (decisionsInView decisionsPerLeader : Nat) :
    (getLeaderID view nodes.length nodes leaderRotation decisionsInView decisionsPerLeader
      blacklist).isSome = true := by
  cases leaderRotation with
  | false =>
    have hpos : 0 < nodes.length := List.length_pos_of_mem hnode
    simp [getLeaderID, Nat.mod_lt _ hpos]
  | true =>
    rw [getLeaderID_eq_find?, List.find?_isSome]
    exact ⟨node, List.mem_rotate.mpr hnode, by simpa using hfree⟩

theorem getLeaderID_empty (hnodes : 0 < nodes.length)
    (view decisionsInView decisionsPerLeader : Nat) :
    getLeaderID view nodes.length nodes true decisionsInView decisionsPerLeader [] =
      nodes[(view + decisionsInView / decisionsPerLeader) % nodes.length]? := by
  have hfind : ∀ xs : List Nat, xs.find? (fun node => decide (node ∉ ([] : List Nat))) =
      xs[0]? := by
    intro xs
    cases xs <;> simp
  rw [getLeaderID_eq_find?, hfind, List.getElem?_rotate hnodes, Nat.zero_add]

/-! ## The sums of the source -/

/-- `getLeaderID` with the sums of the source, which are `uint64`. -/
def getLeaderIDUint64 (view n : Nat) (nodes : List Nat) (leaderRotation : Bool)
    (decisionsInView decisionsPerLeader : Nat) (blacklist : List Nat) : Option Nat :=
  if !leaderRotation then nodes[view % n]?
  else
    (List.range nodes.length).findSome? fun i =>
      let index := ((view + decisionsInView / decisionsPerLeader) % 2 ^ 64 + i) % 2 ^ 64
      match nodes[index % n]? with
      | none => none
      | some node => if node ∈ blacklist then none else some node

theorem getLeaderIDUint64_eq {n : Nat}
    (hbound : view + decisionsInView / decisionsPerLeader + nodes.length < 2 ^ 64)
    (leaderRotation : Bool) (blacklist : List Nat) :
    getLeaderIDUint64 view n nodes leaderRotation decisionsInView decisionsPerLeader blacklist =
      getLeaderID view n nodes leaderRotation decisionsInView decisionsPerLeader blacklist := by
  have hsearch : ∀ {f g : Nat → Option Nat} {xs : List Nat}, (∀ i ∈ xs, f i = g i) →
      xs.findSome? f = xs.findSome? g := by
    intro f g xs
    induction xs with
    | nil => intro _; rfl
    | cons x xs ih =>
      intro h
      rw [List.findSome?_cons, List.findSome?_cons, h x List.mem_cons_self,
        ih fun i hi => h i (List.mem_cons_of_mem _ hi)]
  unfold getLeaderIDUint64 getLeaderID firstNotBlacklisted
  congr 1
  apply hsearch
  intro i hi
  have hi := List.mem_range.mp hi
  have hstart : view + decisionsInView / decisionsPerLeader < 2 ^ 64 := by omega
  have hslot : view + decisionsInView / decisionsPerLeader + i < 2 ^ 64 := by omega
  rewrite [Nat.mod_eq_of_lt hstart, Nat.mod_eq_of_lt hslot]
  rfl

/-! ## The nodes in order -/

def sortNodes (nodes : List Nat) : List Nat := nodes.insertionSort (· ≤ ·)

theorem sortNodes_perm (nodes : List Nat) : (sortNodes nodes).Perm nodes :=
  List.perm_insertionSort _ _

theorem sortNodes_eq_of_perm {nodes' : List Nat} (h : nodes.Perm nodes') :
    sortNodes nodes = sortNodes nodes' := by
  have hperm : (sortNodes nodes).Perm (sortNodes nodes') :=
    (sortNodes_perm nodes).trans (h.trans (sortNodes_perm nodes').symm)
  exact hperm.eq_of_pairwise' (List.pairwise_insertionSort _ _) (List.pairwise_insertionSort _ _)

/-! ## Turns -/

section Turns

variable {nodes : List Nat} {view decisionsPerLeader : Nat}

theorem getLeaderID_changes_iff (hnodup : nodes.Nodup) (htwo : 2 ≤ nodes.length)
    (decisionsInView : Nat) :
    getLeaderID view nodes.length nodes true (decisionsInView + 1) decisionsPerLeader [] ≠
        getLeaderID view nodes.length nodes true decisionsInView decisionsPerLeader [] ↔
      decisionsPerLeader ∣ decisionsInView + 1 := by
  have hpos : 0 < nodes.length := by omega
  rw [getLeaderID_empty hpos, getLeaderID_empty hpos, Nat.succ_div]
  by_cases hdvd : decisionsPerLeader ∣ decisionsInView + 1
  · simp only [hdvd, if_true, iff_true]
    -- the next slot holds another node
    intro hsame
    have hslot := (List.getElem?_inj (Nat.mod_lt _ hpos) hnodup).mp hsame
    have hone : 1 % nodes.length = 0 % nodes.length :=
      Nat.ModEq.add_left_cancel' (view + decisionsInView / decisionsPerLeader) hslot
    rw [Nat.mod_eq_of_lt (by omega), Nat.zero_mod] at hone
    omega
  · simp [hdvd]

theorem map_getLeaderID_turns (hturn : 1 ≤ decisionsPerLeader) (k : Nat) :
    (List.range' (k * decisionsPerLeader) (nodes.length * decisionsPerLeader)).map
        (fun decisionsInView => getLeaderID view nodes.length nodes true decisionsInView
          decisionsPerLeader []) =
      ((nodes.rotate (view + k)).flatMap (List.replicate decisionsPerLeader)).map some := by
  rcases Nat.eq_zero_or_pos nodes.length with hnone | hpos
  · simp [List.length_eq_zero_iff.mp hnone]
  · have hslots : (List.range' k nodes.length).map
        (fun turn => nodes[(view + turn) % nodes.length]?) =
        (nodes.rotate (view + k)).map some := by
      rw [List.range'_eq_map_range, List.map_map, ← map_slots_eq_rotate]
      simp [Function.comp_def, Nat.add_assoc]
    simp only [getLeaderID_empty hpos]
    rw [map_div_range' (fun turn => nodes[(view + turn) % nodes.length]?) hturn, hslots,
      List.flatMap_map]
    simp [List.map_flatMap]

end Turns

/-! ## The law -/

def leaderOf (nodes blacklist : List Nat) (view decisionsPerLeader decisionsInView : Nat) :
    Option Nat :=
  getLeaderIDUint64 view nodes.length nodes true decisionsInView decisionsPerLeader blacklist

/-- No sum of `getLeaderID` wraps. -/
def Unwrapped (nodes : List Nat) (view decisionsPerLeader decisionsInView : Nat) : Prop :=
  view + decisionsInView / decisionsPerLeader + nodes.length < 2 ^ 64

theorem leaderOf_eq (h : Unwrapped nodes view decisionsPerLeader decisionsInView)
    (blacklist : List Nat) :
    leaderOf nodes blacklist view decisionsPerLeader decisionsInView =
      getLeaderID view nodes.length nodes true decisionsInView decisionsPerLeader blacklist :=
  getLeaderIDUint64_eq h true blacklist

/-- With rotation the leader is the first node in cyclic order from its slot that is not
blacklisted; without a blacklist the turns are all of one length, and every node has its own.
Without rotation the leader goes with the view.  None of this depends on the order in which
the nodes were configured. -/
theorem leader_election {nodes : List Nat} (hnodes : 1 ≤ nodes.length) (hnodup : nodes.Nodup)
    (view : Nat) {decisionsPerLeader : Nat} (hturn : 1 ≤ decisionsPerLeader) :
    (∀ decisionsInView blacklist, Unwrapped nodes view decisionsPerLeader decisionsInView →
      (∃ node ∈ nodes, node ∉ blacklist) →
      ∃ leader, leaderOf nodes blacklist view decisionsPerLeader decisionsInView =
          some leader ∧ leader ∉ blacklist ∧
        ∃ i < nodes.length,
          nodes[(view + decisionsInView / decisionsPerLeader + i) % nodes.length]? =
            some leader ∧
          ∀ j < i, ∀ node,
            nodes[(view + decisionsInView / decisionsPerLeader + j) % nodes.length]? =
              some node → node ∈ blacklist) ∧
    (2 ≤ nodes.length → ∀ decisionsInView,
      Unwrapped nodes view decisionsPerLeader (decisionsInView + 1) →
      (leaderOf nodes [] view decisionsPerLeader (decisionsInView + 1) ≠
          leaderOf nodes [] view decisionsPerLeader decisionsInView ↔
        decisionsPerLeader ∣ decisionsInView + 1)) ∧
    (∀ k, (∀ decisionsInView ∈
          List.range' (k * decisionsPerLeader) (nodes.length * decisionsPerLeader),
        Unwrapped nodes view decisionsPerLeader decisionsInView) →
      ∀ node ∈ nodes,
        ((List.range' (k * decisionsPerLeader) (nodes.length * decisionsPerLeader)).map
          (leaderOf nodes [] view decisionsPerLeader)).count (some node) =
            decisionsPerLeader) ∧
    (∀ decisionsInView blacklist, ∃ leader,
      nodes[view % nodes.length]? = some leader ∧
      getLeaderIDUint64 view nodes.length nodes false decisionsInView decisionsPerLeader
        blacklist = some leader) ∧
    ∀ nodes', nodes'.Perm nodes → ∀ leaderRotation decisionsInView blacklist,
      getLeaderIDUint64 view nodes'.length (sortNodes nodes') leaderRotation decisionsInView
          decisionsPerLeader blacklist =
        getLeaderIDUint64 view nodes.length (sortNodes nodes) leaderRotation decisionsInView
          decisionsPerLeader blacklist := by
  refine ⟨?_, ?_, ?_, ?_, ?_⟩
  · rintro decisionsInView blacklist hbound ⟨node, hnode, hfree⟩
    obtain ⟨leader, hleader⟩ := Option.isSome_iff_exists.mp
      (getLeaderID_isSome hnode hfree view true decisionsInView decisionsPerLeader)
    refine ⟨leader, (leaderOf_eq hbound blacklist).trans hleader,
      (getLeaderID_mem hleader).2 rfl, ?_⟩
    rw [getLeaderID_eq_find?] at hleader
    obtain ⟨-, i, hi, hslot, hbefore⟩ := find?_rotate_eq_some hleader
    refine ⟨i, hi, hslot, fun j hj other hother => ?_⟩
    simpa using hbefore j hj other hother
  · intro htwo decisionsInView hbound
    have hdiv : decisionsInView / decisionsPerLeader ≤
        (decisionsInView + 1) / decisionsPerLeader := Nat.div_le_div_right (by omega)
    have hbefore : Unwrapped nodes view decisionsPerLeader decisionsInView := by
      unfold Unwrapped at hbound ⊢
      omega
    rw [leaderOf_eq hbound, leaderOf_eq hbefore]
    exact getLeaderID_changes_iff hnodup htwo decisionsInView
  · intro k hbound node hnode
    have hleaders : (List.range' (k * decisionsPerLeader)
        (nodes.length * decisionsPerLeader)).map (leaderOf nodes [] view decisionsPerLeader) =
        ((nodes.rotate (view + k)).flatMap (List.replicate decisionsPerLeader)).map some := by
      rw [← map_getLeaderID_turns hturn]
      exact List.map_congr_left fun decisionsInView hin => leaderOf_eq (hbound _ hin) []
    rw [hleaders, List.count_map_of_injective _ _ (Option.some_injective _)]
    exact count_turns hnodup hnode decisionsPerLeader (view + k)
  · intro decisionsInView blacklist
    have hslot : view % nodes.length < nodes.length := Nat.mod_lt _ hnodes
    refine ⟨nodes[view % nodes.length], List.getElem?_eq_getElem hslot, ?_⟩
    simp [getLeaderIDUint64, List.getElem?_eq_getElem hslot]
  · intro nodes' hperm leaderRotation decisionsInView blacklist
    rw [sortNodes_eq_of_perm hperm, hperm.length_eq]

theorem leader_election_of_four :
    (∃ leader, leaderOf [1, 2, 3, 4] [1, 2] 5 2 6 = some leader ∧ leader ∉ [1, 2]) ∧
      ((List.range' (3 * 2) (4 * 2)).map (leaderOf [1, 2, 3, 4] [] 5 2)).count (some 3) = 2 := by
  obtain ⟨hfirst, -, hturns, -, -⟩ :=
    @leader_election [1, 2, 3, 4] (by decide) (by decide) 5 2 (by decide)
  constructor
  · obtain ⟨leader, hleader, hfree, -⟩ := hfirst 6 [1, 2] (by unfold Unwrapped; decide)
      ⟨3, by decide, by decide⟩
    exact ⟨leader, hleader, hfree⟩
  · refine hturns 3 (fun decisionsInView hin => ?_) 3 (by decide)
    obtain ⟨i, hi, rfl⟩ := List.mem_range'.mp hin
    unfold Unwrapped
    simp only [List.length_cons, List.length_nil] at hi ⊢
    omega

/-- The only node of a cluster leads all the time. -/
theorem single_node_leads_on :
    (1 : Nat) ∣ 0 + 1 ∧ Unwrapped [1] 0 1 1 ∧
      leaderOf [1] [] 0 1 (0 + 1) = leaderOf [1] [] 0 1 0 := by
  refine ⟨by decide, ?_, by decide⟩
  unfold Unwrapped
  decide

end SmartBFT
