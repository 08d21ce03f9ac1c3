import SmartBFT.View

/-!
# The persisted state

`internal/bft/state.go`, `ProposalMaker.NewProposer` of `util.go` and
`setViewAndSeq` of `pkg/consensus/consensus.go`: what a node writes to its
write-ahead log, and what it makes of the log when it starts again.

The log holds the records from the last truncation point on; a record of a
proposal is the only truncation point.
-/

namespace SmartBFT

variable {v v' : View} {entries : List SavedMessage} {inFlight : InFlightData}

/-! ## Saving -/

structure PersistedState where
  inFlight : InFlightData := none
  wal : List SavedMessage := []
  deriving DecidableEq, Repr

namespace PersistedState

def storeProposal (ps : PersistedState) (prePrepare : PrePrepare) :
    Except Failure PersistedState :=
  match prePrepare.proposal with
  | none => .error (.panic "nil proposal")
  | some proposal => .ok { ps with inFlight := InFlightData.storeProposal proposal }

def storePrepared (ps : PersistedState) : Except Failure PersistedState :=
  match ps.inFlight.storePrepares with
  | none => .error (.panic "stored prepares but proposal is not initialized")
  | some inFlight => .ok { ps with inFlight := inFlight }

def append (ps : PersistedState) (m : SavedMessage) (truncateTo : Bool) :
    PersistedState :=
  { ps with wal := if truncateTo then [m] else ps.wal ++ [m] }

def save (ps : PersistedState) (m : SavedMessage) : Except Failure PersistedState :=
  match m with
  | .proposedRecord prePrepare _ =>
    (ps.storeProposal prePrepare).map fun ps => ps.append m true
  | .commit _ => ps.storePrepared.map fun ps => ps.append m false
  | .newView _ => .ok (ps.append m false)
  | .viewChange _ => .ok (ps.append m false)

inductive Saved (ps : PersistedState) : SavedMessage → PersistedState → Prop where
  | proposed {prePrepare : PrePrepare} (prepare : Prepare) {proposal : Proposal}
      (h : prePrepare.proposal = some proposal) :
      Saved ps (.proposedRecord prePrepare prepare)
        ⟨some { proposal := proposal }, [.proposedRecord prePrepare prepare]⟩
  | prepared (commit : Commit) {data : InFlightProposalData} (h : ps.inFlight = some data) :
      Saved ps (.commit commit)
        ⟨some { data with prepared := true }, ps.wal ++ [.commit commit]⟩
  | newView (md : ViewMetadata) :
      Saved ps (.newView md) ⟨ps.inFlight, ps.wal ++ [.newView md]⟩
  | viewChange (nextView : Nat) :
      Saved ps (.viewChange nextView) ⟨ps.inFlight, ps.wal ++ [.viewChange nextView]⟩

end PersistedState

theorem except_map_ok {ε α β : Type} {x : Except ε α} {f : α → β} {r : β}
    (h : x.map f = .ok r) : ∃ a, x = .ok a ∧ f a = r := by
  cases x with
  | error e => simp [Except.map] at h
  | ok a => exact ⟨a, rfl, by simpa [Except.map] using h⟩

namespace PersistedState

theorem saved_of_save {ps ps' : PersistedState} {m : SavedMessage}
    (h : ps.save m = .ok ps') : Saved ps m ps' := by
  cases m with
  | proposedRecord prePrepare prepare =>
    obtain ⟨mid, hstored, rfl⟩ := except_map_ok h
    unfold storeProposal at hstored
    split at hstored
    · simp at hstored
    · rename_i hproposal
      simp only [Except.ok.injEq] at hstored
      subst hstored
      exact .proposed prepare hproposal
  | commit commit =>
    obtain ⟨mid, hstored, rfl⟩ := except_map_ok h
    unfold storePrepared InFlightData.storePrepares at hstored
    cases hdata : ps.inFlight with
    | none => simp [hdata] at hstored
    | some data =>
      simp only [hdata, Except.ok.injEq] at hstored
      subst hstored
      exact .prepared commit hdata
  | newView md =>
    simp only [save, Except.ok.injEq] at h
    exact h ▸ .newView md
  | viewChange nextView =>
    simp only [save, Except.ok.injEq] at h
    exact h ▸ .viewChange nextView

end PersistedState

/-- Only a record of a proposal truncates the log. -/
def truncates : SavedMessage → Bool
  | .proposedRecord _ _ => true
  | _ => false

def logged (wal : List SavedMessage) (m : SavedMessage) : List SavedMessage :=
  ((⟨none, wal⟩ : PersistedState).append m (truncates m)).wal

namespace PersistedState

theorem logged_of_save {ps ps' : PersistedState} {m : SavedMessage} (h : ps.save m = .ok ps') :
    ps'.wal = logged ps.wal m := by
  cases saved_of_save h <;> rfl

theorem mem_wal_save {ps ps' : PersistedState} {m other : SavedMessage}
    (h : ps.save m = .ok ps') (hmem : other ∈ ps'.wal) : other ∈ ps.wal ∨ other = m := by
  rw [logged_of_save h] at hmem
  unfold logged append at hmem
  split at hmem
  · exact .inr (by simpa using hmem)
  · simpa using hmem

end PersistedState

/-! ## Restoring -/

def loadNewViewIfApplicable (entries : List SavedMessage) : Option ViewAndSeq :=
  match entries.getLast? with
  | some (.newView md) => some ⟨md.viewId, md.latestSequence⟩
  | _ => none

def loadViewChangeIfApplicable (entries : List SavedMessage) : Option Nat :=
  match entries.getLast? with
  | some (.viewChange nextView) => some nextView
  | _ => none

/-- The view takes its numbers and its proposal from a pre-prepare of the log. -/
def View.resume (v : View) (prePrepare : PrePrepare) (proposal : Proposal)
    (md : ViewMetadata) (phase : Phase) (lastBroadcastSent : Message)
    (myProposalSig : Option Signature) : View :=
  { v with
    inFlightProposal := some proposal
    lastBroadcastSent := some lastBroadcastSent
    myProposalSig := myProposalSig
    phase := phase
    number := prePrepare.view
    proposalSequence := prePrepare.seq
    decisionsInView := md.decisionsInView }

/-- The part that `recoverProposed` and `recoverPrepared` share. -/
def restoreProposal (v : View) (prePrepare : PrePrepare) (phase : Phase)
    (lastBroadcastSent : Message) (myProposalSig : Option Signature) :
    Except Failure (View × Proposal) :=
  match prePrepare.proposal with
  | none => .error (.panic "nil proposal")
  | some proposal =>
    match proposal.unmarshalMetadata with
    | none => .error (.panic "Failed to unmarshal proposal metadata")
    | some md =>
      .ok (v.resume prePrepare proposal md phase lastBroadcastSent myProposalSig, proposal)

def recoverProposed (v : View) (prePrepare : PrePrepare) (prepare : Prepare) :
    Except Failure (View × InFlightData) :=
  (restoreProposal v prePrepare .proposed (.prepare prepare) v.myProposalSig).map
    fun (v, proposal) => (v, InFlightData.storeProposal proposal)

def secondLast (entries : List SavedMessage) : Option SavedMessage :=
  entries.dropLast.getLast?

def recoverPrepared (v : View) (commit : Commit) (entries : List SavedMessage) :
    Except Failure (View × InFlightData) :=
  match secondLast entries with
  | none =>
    .error (.error "last message is a commit, but expected to also have a matching pre-prepare")
  | some (.proposedRecord prePrepare _) =>
    if v.proposalSequence < prePrepare.seq then
      .error (.error "last proposal sequence persisted into WAL is greater than last committed sequence")
    else if prePrepare.seq < v.proposalSequence then .ok (v, none)
    else
      match commit.signature with
      | none => .error (.panic "nil signature")
      | some signature =>
        (restoreProposal v prePrepare .prepared (.commit commit) (some signature)).map
          fun (v, proposal) =>
            (v, some { proposal := proposal, prepared := true })
  | some _ => .error (.error "expected second last message to be a pre-prepare")

/-- `Restore`, on the empty in-flight record of a node that starts. -/
def restore (entries : List SavedMessage) (v : View) :
    Except Failure (View × InFlightData) :=
  let v := { v with phase := .committed }
  match entries.getLast? with
  | none => .ok (v, none)
  | some (.proposedRecord prePrepare prepare) => recoverProposed v prePrepare prepare
  | some (.commit commit) => recoverPrepared v commit entries
  | some (.newView _) => .ok (v, none)
  | some (.viewChange _) => .ok (v, none)

theorem restoreProposal_ok {prePrepare : PrePrepare} {phase : Phase} {m : Message}
    {signature : Option Signature} {proposal : Proposal}
    (h : restoreProposal v prePrepare phase m signature = .ok (v', proposal)) :
    ∃ md, prePrepare.proposal = some proposal ∧ proposal.unmarshalMetadata = some md ∧
      v' = v.resume prePrepare proposal md phase m signature := by
  unfold restoreProposal at h
  split at h
  · simp at h
  · rename_i hproposal
    split at h
    · simp at h
    · rename_i md hmd
      simp only [Except.ok.injEq, Prod.mk.injEq] at h
      obtain ⟨rfl, rfl⟩ := h
      exact ⟨md, hproposal, hmd, rfl⟩

inductive Restored (entries : List SavedMessage) (v : View) : View → InFlightData → Prop where
  | nothing : Restored entries v { v with phase := .committed } none
  | proposed {prePrepare : PrePrepare} {prepare : Prepare} {proposal : Proposal}
      {md : ViewMetadata}
      (hlast : entries.getLast? = some (.proposedRecord prePrepare prepare))
      (hproposal : prePrepare.proposal = some proposal)
      (hmd : proposal.unmarshalMetadata = some md) :
      Restored entries v
        ({ v with phase := .committed }.resume prePrepare proposal md .proposed
          (.prepare prepare) v.myProposalSig)
        (some { proposal := proposal })
  | prepared {prePrepare : PrePrepare} {prepare : Prepare} {proposal : Proposal}
      {md : ViewMetadata} {commit : Commit} {signature : Signature}
      (hlast : entries.getLast? = some (.commit commit))
      (hsecond : secondLast entries = some (.proposedRecord prePrepare prepare))
      (hseq : prePrepare.seq = v.proposalSequence)
      (hproposal : prePrepare.proposal = some proposal)
      (hmd : proposal.unmarshalMetadata = some md)
      (hsignature : commit.signature = some signature) :
      Restored entries v
        ({ v with phase := .committed }.resume prePrepare proposal md .prepared
          (.commit commit) (some signature))
        (some { proposal := proposal, prepared := true })

theorem recoverPrepared_restored {commit : Commit}
    (hlast : entries.getLast? = some (.commit commit))
    (h : recoverPrepared { v with phase := .committed } commit entries = .ok (v', inFlight)) :
    Restored entries v v' inFlight := by
  unfold recoverPrepared at h
  split at h
  · simp at h
  · rename_i hsecond
    split at h
    · simp at h
    · rename_i hahead
      split at h
      · simp only [Except.ok.injEq, Prod.mk.injEq] at h
        obtain ⟨rfl, rfl⟩ := h
        exact .nothing
      · rename_i hbehind
        split at h
        · simp at h
        · rename_i hsignature
          obtain ⟨⟨w, proposal⟩, hrestored, heq⟩ := except_map_ok h
          obtain ⟨md, hproposal, hmd, rfl⟩ := restoreProposal_ok hrestored
          simp only [Prod.mk.injEq] at heq
          obtain ⟨rfl, rfl⟩ := heq
          exact .prepared hlast hsecond (by simp only at hahead hbehind; omega) hproposal hmd
            hsignature
  · simp at h

theorem restored_of_restore (h : restore entries v = .ok (v', inFlight)) :
    Restored entries v v' inFlight := by
  unfold restore at h
  simp only at h
  split at h
  · simp only [Except.ok.injEq, Prod.mk.injEq] at h
    obtain ⟨rfl, rfl⟩ := h
    exact .nothing
  · rename_i hlast
    obtain ⟨⟨w, proposal⟩, hrestored, heq⟩ := except_map_ok h
    obtain ⟨md, hproposal, hmd, rfl⟩ := restoreProposal_ok hrestored
    simp only [Prod.mk.injEq] at heq
    obtain ⟨rfl, rfl⟩ := heq
    exact .proposed hlast hproposal hmd
  · rename_i hlast
    exact recoverPrepared_restored hlast h
  · simp only [Except.ok.injEq, Prod.mk.injEq] at h
    obtain ⟨rfl, rfl⟩ := h
    exact .nothing
  · simp only [Except.ok.injEq, Prod.mk.injEq] at h
    obtain ⟨rfl, rfl⟩ := h
    exact .nothing

/-- The end of `NewProposer`: the view is never behind what was asked for. -/
def View.catchUp (v : View) (proposalSequence viewNum decisionsInView : Nat) : View :=
  let v :=
    if v.proposalSequence < proposalSequence then
      { v with proposalSequence := proposalSequence, decisionsInView := decisionsInView }
    else v
  if v.number < viewNum then
    { v with number := viewNum, decisionsInView := decisionsInView }
  else v

theorem View.catchUp_eq (v : View) (proposalSequence viewNum decisionsInView : Nat) :
    ∃ seq view dec, v.catchUp proposalSequence viewNum decisionsInView =
      { v with proposalSequence := seq, number := view, decisionsInView := dec } := by
  unfold catchUp
  simp only
  split <;> split <;> exact ⟨_, _, _, rfl⟩

@[simp]
theorem View.catchUp_pc (v : View) (proposalSequence viewNum decisionsInView : Nat) :
    (v.catchUp proposalSequence viewNum decisionsInView).pc = v.pc := by
  obtain ⟨_, _, _, h⟩ := v.catchUp_eq proposalSequence viewNum decisionsInView
  rw [h]

@[simp]
theorem View.catchUp_phase (v : View) (proposalSequence viewNum decisionsInView : Nat) :
    (v.catchUp proposalSequence viewNum decisionsInView).phase = v.phase := by
  obtain ⟨_, _, _, h⟩ := v.catchUp_eq proposalSequence viewNum decisionsInView
  rw [h]

@[simp]
theorem View.catchUp_leaderID (v : View) (proposalSequence viewNum decisionsInView : Nat) :
    (v.catchUp proposalSequence viewNum decisionsInView).leaderID = v.leaderID := by
  obtain ⟨_, _, _, h⟩ := v.catchUp_eq proposalSequence viewNum decisionsInView
  rw [h]

def View.fresh (leader proposalSequence viewNum decisionsInView : Nat) : View where
  number := viewNum
  leaderID := leader
  proposalSequence := proposalSequence
  decisionsInView := decisionsInView

/-- `NewProposer` when it is called for the first time; later calls return
`View.fresh`. -/
def newProposer (entries : List SavedMessage)
    (leader proposalSequence viewNum decisionsInView : Nat) :
    Except Failure (View × InFlightData) :=
  (restore entries (.fresh leader proposalSequence viewNum decisionsInView)).map
    fun (v, inFlight) => (v.catchUp proposalSequence viewNum decisionsInView, inFlight)

theorem newProposer_restored {leader proposalSequence viewNum decisionsInView : Nat}
    (h : newProposer entries leader proposalSequence viewNum decisionsInView = .ok (v, inFlight)) :
    ∃ w, Restored entries (.fresh leader proposalSequence viewNum decisionsInView) w
        inFlight ∧
      v = w.catchUp proposalSequence viewNum decisionsInView := by
  obtain ⟨⟨w, inFlight'⟩, hrestored, heq⟩ := except_map_ok h
  simp only [Prod.mk.injEq] at heq
  obtain ⟨rfl, rfl⟩ := heq
  exact ⟨w, restored_of_restore hrestored, rfl⟩

/-- Where a node starts: view, last sequence, decisions in the view, and whether
the view changer is told to restore a view change. -/
structure StartPoint where
  view : Nat
  seq : Nat
  dec : Nat
  restoreViewChange : Bool := false
  deriving DecidableEq, Repr

def setViewAndSeq (entries : List SavedMessage) (view seq dec : Nat) : StartPoint :=
  let start : StartPoint := { view := view, seq := seq, dec := if seq = 0 then 0 else dec + 1 }
  let start :=
    match loadViewChangeIfApplicable entries with
    | none => start
    | some nextView =>
      if view ≤ nextView then { start with view := nextView, restoreViewChange := true }
      else start
  match loadNewViewIfApplicable entries with
  | none => start
  | some viewSeq =>
    if seq ≤ viewSeq.seq then { start with view := viewSeq.view, seq := viewSeq.seq, dec := 0 }
    else start

end SmartBFT
