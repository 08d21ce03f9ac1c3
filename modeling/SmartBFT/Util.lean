import SmartBFT.Types

/-!
# Quorums, leaders, vote sets and the in-flight record

The helpers of `internal/bft/util.go` on which the view, the view changer and
the controller are built.
-/

namespace SmartBFT

/-! ## Quorums and leaders -/

/-- The number of Byzantine nodes that a cluster of `n` nodes tolerates. -/
def maxFaulty (n : Nat) : Nat := (n - 1) / 3

/--
`computeQuorum` returns `(q, f)`.  The source rounds `(n + f + 1) / 2` up in
floating point, which is exact for every cluster size that fits `2 ^ 52`.
-/
def computeQuorum (n : Nat) : Nat × Nat :=
  let f := maxFaulty n
  ((n + f + 2) / 2, f)

theorem computeQuorum_two_mul {n q f : Nat} (h : computeQuorum n = (q, f)) :
    n + f < 2 * q := by
  simp only [computeQuorum, Prod.mk.injEq] at h
  omega

theorem computeQuorum_faulty_lt {n q f : Nat} (h : computeQuorum n = (q, f)) :
    f < q := by
  simp only [computeQuorum, maxFaulty, Prod.mk.injEq] at h
  omega

/-- The first node in cyclic order from slot `start` that is not blacklisted;
`none` is the panic on a blacklist with every node. -/
def firstNotBlacklisted (n : Nat) (nodes : List Nat) (start : Nat)
    (blacklist : List Nat) : Option Nat :=
  (List.range nodes.length).findSome? fun i =>
    match nodes[(start + i) % n]? with
    | none => none
    | some node => if node ∈ blacklist then none else some node

def getLeaderID (view n : Nat) (nodes : List Nat) (leaderRotation : Bool)
    (decisionsInView decisionsPerLeader : Nat) (blacklist : List Nat) :
    Option Nat :=
  if !leaderRotation then nodes[view % n]?
  else firstNotBlacklisted n nodes (view + decisionsInView / decisionsPerLeader)
    blacklist

/-! ## Vote sets -/

/-- At most one vote for each voter; `votes` is the channel, oldest first. -/
structure VoteSet (α : Type) where
  voted : List Nat := []
  votes : List (Nat × α) := []
  deriving DecidableEq, Repr

namespace VoteSet

variable {α : Type}

def registerVote (validVote : Nat → α → Bool) (vs : VoteSet α) (voter : Nat)
    (message : α) : VoteSet α :=
  if !validVote voter message then vs
  else if voter ∈ vs.voted then vs
  else { voted := voter :: vs.voted, votes := vs.votes ++ [(voter, message)] }

structure WellFormed (vs : VoteSet α) : Prop where
  nodup : (vs.votes.map Prod.fst).Nodup
  marked : ∀ vote ∈ vs.votes, vote.1 ∈ vs.voted

theorem wellFormed_empty : WellFormed ({} : VoteSet α) :=
  ⟨by simp, by simp⟩

theorem mem_votes_registerVote {validVote : Nat → α → Bool} {vs : VoteSet α}
    {voter : Nat} {message : α} {vote : Nat × α}
    (h : vote ∈ (vs.registerVote validVote voter message).votes) :
    vote ∈ vs.votes ∨
      (vote = (voter, message) ∧ validVote voter message = true ∧ voter ∉ vs.voted) := by
  unfold registerVote at h
  split at h
  · exact .inl h
  · rename_i hvalid
    split at h
    · exact .inl h
    · rename_i hnew
      simp only [List.mem_append, List.mem_singleton] at h
      rcases h with h | h
      · exact .inl h
      · exact .inr ⟨h, by simpa using hvalid, hnew⟩

theorem mem_voted_registerVote {validVote : Nat → α → Bool} {vs : VoteSet α}
    {voter other : Nat} {message : α} (h : other ∈ vs.voted) :
    other ∈ (vs.registerVote validVote voter message).voted := by
  unfold registerVote
  split
  · exact h
  · split
    · exact h
    · exact List.mem_cons_of_mem _ h

theorem WellFormed.registerVote {vs : VoteSet α} (h : vs.WellFormed)
    (validVote : Nat → α → Bool) (voter : Nat) (message : α) :
    (vs.registerVote validVote voter message).WellFormed := by
  unfold VoteSet.registerVote
  split
  · exact h
  · split
    · exact h
    · rename_i hnew
      refine ⟨?_, ?_⟩
      · rw [List.map_append, List.map_singleton]
        refine List.nodup_append.mpr ⟨h.nodup, by simp, ?_⟩
        intro a ha b hb hab
        simp only [List.mem_singleton] at hb
        obtain ⟨vote, hvote, rfl⟩ := List.mem_map.mp ha
        exact hnew (hb ▸ hab ▸ h.marked vote hvote)
      · intro vote hvote
        simp only [List.mem_append, List.mem_singleton] at hvote
        rcases hvote with hvote | rfl
        · exact List.mem_cons_of_mem _ (h.marked vote hvote)
        · exact List.mem_cons_self

theorem eraseIdx_votes_ne {vs : VoteSet α} (h : vs.WellFormed) {i voter : Nat} {message : α}
    (hvote : vs.votes[i]? = some (voter, message)) :
    ∀ vote ∈ vs.votes.eraseIdx i, vote.1 ≠ voter := by
  intro vote hmem heq
  obtain ⟨j, hj, hget⟩ := List.mem_eraseIdx_iff_getElem?.mp hmem
  have hfst : (vs.votes.map Prod.fst)[j]? = (vs.votes.map Prod.fst)[i]? := by
    simp [List.getElem?_map, hget, hvote, heq]
  exact hj ((List.getElem?_inj (by
    have := (List.getElem?_eq_some_iff.mp hget).1
    simpa using this) h.nodup).mp hfst)

theorem WellFormed.erase {vs : VoteSet α} (h : vs.WellFormed) (i : Nat) :
    WellFormed { vs with votes := vs.votes.eraseIdx i } := by
  have hsub := List.eraseIdx_sublist vs.votes i
  exact ⟨h.nodup.sublist (hsub.map _), fun vote hvote => h.marked vote (hsub.subset hvote)⟩

structure Taken (vs : VoteSet α) (voters : List Nat) : Prop where
  nodup : voters.Nodup
  marked : ∀ voter ∈ voters, voter ∈ vs.voted
  gone : ∀ voter ∈ voters, ∀ vote ∈ vs.votes, vote.1 ≠ voter

namespace Taken

variable {vs : VoteSet α} {voters : List Nat}

theorem nil (vs : VoteSet α) : vs.Taken [] := ⟨by simp, by simp, by simp⟩

theorem registerVote (h : vs.Taken voters) (validVote : Nat → α → Bool) (voter : Nat)
    (message : α) : (vs.registerVote validVote voter message).Taken voters := by
  refine ⟨h.nodup, fun other hother => mem_voted_registerVote (h.marked other hother), ?_⟩
  intro other hother vote hvote
  rcases mem_votes_registerVote hvote with hold | ⟨rfl, -, hnew⟩
  · exact h.gone other hother vote hold
  · rintro rfl
    exact hnew (h.marked _ hother)

theorem erase (h : vs.Taken voters) (i : Nat) :
    Taken { vs with votes := vs.votes.eraseIdx i } voters :=
  ⟨h.nodup, h.marked, fun voter hvoter vote hvote =>
    h.gone voter hvoter vote ((List.eraseIdx_sublist vs.votes i).subset hvote)⟩

theorem append (h : vs.Taken voters) (hvs : vs.WellFormed) {i voter : Nat} {message : α}
    (hvote : vs.votes[i]? = some (voter, message)) :
    Taken { vs with votes := vs.votes.eraseIdx i } (voters ++ [voter]) := by
  have hmem : (voter, message) ∈ vs.votes := List.mem_of_getElem? hvote
  refine ⟨List.nodup_append.mpr ⟨h.nodup, by simp, ?_⟩, ?_, ?_⟩
  · intro a ha b hb heq
    obtain rfl : b = voter := by simpa using hb
    exact h.gone a ha _ hmem heq.symm
  · intro other hother
    rcases List.mem_append.mp hother with hold | hlast
    · exact h.marked other hold
    · obtain rfl : other = voter := by simpa using hlast
      exact hvs.marked _ hmem
  · intro other hother
    rcases List.mem_append.mp hother with hold | hlast
    · exact (h.erase i).gone other hold
    · obtain rfl : other = voter := by simpa using hlast
      exact eraseIdx_votes_ne hvs hvote

end Taken

end VoteSet

/-! ## The highest next view seen from each node -/

structure NextViews where
  n : List (Nat × Nat) := []
  deriving DecidableEq, Repr

namespace NextViews

def get (nv : NextViews) (sender : Nat) : Nat :=
  (nv.n.lookup sender).getD 0

def registerNext (nv : NextViews) (next sender : Nat) : NextViews :=
  if next ≤ nv.get sender then nv else ⟨(sender, next) :: nv.n⟩

def sendRecv (nv : NextViews) (next sender : Nat) : Bool :=
  next == nv.get sender

end NextViews

/-! ## The in-flight record -/

structure InFlightProposalData where
  proposal : Proposal
  prepared : Bool := false
  deriving DecidableEq, Repr

abbrev InFlightData := Option InFlightProposalData

namespace InFlightData

def inFlightProposal (ifp : InFlightData) : Option Proposal := ifp.map (·.proposal)

def isInFlightPrepared (ifp : InFlightData) : Bool :=
  match ifp with
  | none => false
  | some data => data.prepared

def storeProposal (prop : Proposal) : InFlightData := some { proposal := prop }

/-- `none` is the panic on a record without a proposal. -/
def storePrepares (ifp : InFlightData) : Option InFlightData :=
  match ifp with
  | none => none
  | some data => some (some { data with prepared := true })

end InFlightData

/-- The sequence that the current view works on, as other goroutines see it. -/
structure ViewSequence where
  viewActive : Bool
  proposalSeq : Nat
  deriving DecidableEq, Repr

end SmartBFT
