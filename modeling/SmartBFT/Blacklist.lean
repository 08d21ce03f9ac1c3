import Mathlib.Algebra.GroupWithZero.Nat
import SmartBFT.Util

/-!
# The blacklist of leaders that were skipped

The type `blacklist` of `internal/bft/util.go`.  A Go map from node to value is
an association list with one entry a key here.
-/

namespace SmartBFT

/-- `m[key] = value`. -/
def setEntry {α : Type} (m : List (Nat × α)) (key : Nat) (value : α) :
    List (Nat × α) :=
  (key, value) :: m.filter fun entry => entry.1 ≠ key

def countAcks (preparesFrom : List (Nat × PreparesFrom)) (node : Nat) : Nat :=
  (preparesFrom.map fun entry => entry.2.ids.count node).sum

/-- Drops the nodes that are gone and those that more than `f` observed. -/
def pruneBlacklist (prevBlacklist : List Nat)
    (preparesFrom : List (Nat × PreparesFrom)) (f : Nat) (nodes : List Nat) :
    List Nat :=
  prevBlacklist.filter fun node =>
    decide (node ∈ nodes) && !decide (f < countAcks preparesFrom node)

structure Blacklist where
  currentLeader : Nat
  leaderRotation : Bool
  prevMD : ViewMetadata
  n : Nat
  nodes : List Nat
  currView : Nat
  preparesFrom : List (Nat × PreparesFrom)
  f : Nat
  decisionsPerLeader : Nat

namespace Blacklist

/-- The leader of a view that was skipped; `none` is a panic. -/
def skippedLeader (bl : Blacklist) (view : Nat) : Option Nat :=
  let offset := if bl.prevMD.latestSequence = 0 then 0 else 1
  getLeaderID view bl.n bl.nodes bl.leaderRotation
    (bl.prevMD.decisionsInView + offset) bl.decisionsPerLeader bl.prevMD.blackList

/-- The loop over the views from that of the last decision to the current one. -/
def addSkipped (bl : Blacklist) : List Nat → List Nat → Option (List Nat)
  | [], newBlacklist => some newBlacklist
  | view :: views, newBlacklist =>
    match bl.skippedLeader view with
    | none => none
    | some leaderID =>
      if leaderID = bl.currentLeader then bl.addSkipped views newBlacklist
      else bl.addSkipped views (newBlacklist ++ [leaderID])

def computeUpdate (bl : Blacklist) : Option (List Nat) :=
  let viewBeforeViewChanges := bl.prevMD.viewId
  let updated :=
    if viewBeforeViewChanges ≠ bl.currView then
      bl.addSkipped
        (List.range' viewBeforeViewChanges (bl.currView - viewBeforeViewChanges))
        bl.prevMD.blackList
    else some (pruneBlacklist bl.prevMD.blackList bl.preparesFrom bl.f bl.nodes)
  -- too big a list loses the items at its beginning
  updated.map fun newBlacklist => newBlacklist.drop (newBlacklist.length - bl.f)

end Blacklist

end SmartBFT
