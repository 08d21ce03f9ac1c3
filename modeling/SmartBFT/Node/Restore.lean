import SmartBFT.Node.Log
import SmartBFT.Node.Silence

/-!
# Whether a restart can read the log

The view, the view changer and the controller append to one log.  A commit that
the view saves after the view changer has saved its own record is not preceded by
its proposal any more, and `recoverPrepared` refuses it
(`restore_fails_after_viewChange`).  `restore_ok_iff` says exactly which reachable
logs can be restored.
-/

namespace SmartBFT

open SmartBFT.Foundation

variable {cfg : Config} {nd : Node}

/-- A log that ends with a commit ends with the proposal and the commit, and the
proposal is not ahead of the sequence. -/
def CommitAtItsPlace (wal : List SavedMessage) (proposalSequence : Nat) : Prop :=
  ∀ commit, wal.getLast? = some (.commit commit) →
    ∃ prePrepare prepare, secondLast wal = some (.proposedRecord prePrepare prepare) ∧
      prePrepare.seq ≤ proposalSequence

theorem RecordOf.restoreProposal {proposal : Proposal} {prePrepare : PrePrepare}
    {prepare : Prepare} (h : RecordOf cfg proposal prePrepare prepare) (v : View)
    (phase : Phase) (m : Message) (signature : Option Signature) :
    ∃ v', restoreProposal v prePrepare phase m signature = .ok (v', proposal) := by
  obtain ⟨md, hmd, -, -⟩ := h.metadata
  simp [SmartBFT.restoreProposal, h.carries, hmd]

theorem LogInvariant.restore_ok (h : LogInvariant cfg nd) (v : View)
    (hplace : CommitAtItsPlace nd.persisted.wal v.proposalSequence) :
    ∃ restored, restore nd.persisted.wal v = .ok restored := by
  unfold restore
  split
  · exact ⟨_, rfl⟩
  · rename_i prePrepare prepare hlast
    obtain ⟨-, proposal, hrecord⟩ := h.shape.eq_proposed hlast
    obtain ⟨v', hv'⟩ := hrecord.restoreProposal { v with phase := .committed } .proposed
      (.prepare prepare) v.myProposalSig
    exact ⟨_, by rw [recoverProposed, hv']; rfl⟩
  · rename_i commit hlast
    obtain ⟨prePrepare, prepare, hsecond, hseq⟩ := hplace commit hlast
    obtain ⟨-, proposal, hrecord, -, hsignature⟩ := h.shape.eq_prepared hlast hsecond
    obtain ⟨signature, hsignature⟩ := Option.isSome_iff_exists.mp hsignature
    obtain ⟨v', hv'⟩ := hrecord.restoreProposal { v with phase := .committed } .prepared
      (.commit commit) (some signature)
    have hnot : ¬ v.proposalSequence < prePrepare.seq := by omega
    simp only [recoverPrepared, hsecond, if_neg hnot]
    by_cases hbehind : prePrepare.seq < v.proposalSequence
    · exact ⟨_, if_pos hbehind⟩
    · rw [if_neg hbehind]
      simp only [hsignature, hv']
      exact ⟨_, rfl⟩
  · exact ⟨_, rfl⟩
  · exact ⟨_, rfl⟩

theorem commitAtItsPlace_of_restore {wal : List SavedMessage} {v : View}
    {restored : View × InFlightData} (h : restore wal v = .ok restored) :
    CommitAtItsPlace wal v.proposalSequence := by
  intro commit hlast
  simp only [restore, hlast, recoverPrepared] at h
  split at h
  · simp at h
  · rename_i prePrepare prepare hsecond
    refine ⟨prePrepare, prepare, hsecond, ?_⟩
    split at h
    · simp at h
    · omega
  · simp at h

/--
In every state that a node reaches, `Restore` of a view succeeds if and only if a
commit at the end of the log comes right after its proposal, and this proposal is
not ahead of the sequence at which the view starts.
-/
theorem restore_ok_iff {checkpoint : Decision} {start : Node} {inputs : List NodeInput}
    (hboot : Node.boot cfg [] checkpoint = .ok start)
    (hrun : run (Node.step cfg) start inputs = some nd) (v : View) :
    (∃ restored, restore nd.persisted.wal v = .ok restored) ↔
      CommitAtItsPlace nd.persisted.wal v.proposalSequence := by
  constructor
  · rintro ⟨restored, hrestored⟩
    exact commitAtItsPlace_of_restore hrestored
  · intro hplace
    exact (LogInvariant.reachable hboot hrun).restore_ok v hplace

/-- A node that is prepared and crashes can read its log. -/
theorem restore_ok_iff_prepared :
    ∃ nd restored, run (Node.step (clusterOfFour 3)) (nodeOfFour 3)
        (accepting (acceptFirst [7] ++ prepareFirst "seven" 1 2)) = some nd ∧
      nd.checkpointMetadata = some {} ∧
      restore nd.persisted.wal (.fresh 1 1 0 0) = .ok restored := by
  have hreached : (run (Node.step (clusterOfFour 3)) (nodeOfFour 3)
      (accepting (acceptFirst [7] ++ prepareFirst "seven" 1 2))).any (fun nd =>
        decide (nd.checkpointMetadata = some {} ∧ secondLast nd.persisted.wal =
          some (.proposedRecord { view := 0, seq := 1, proposal := some (firstProposal [7]) }
            { view := 0, seq := 1, digest := "seven" }))) = true := by
    decide +kernel
  obtain ⟨nd, hrun, hmd, hproposed⟩ := exists_of_any hreached
  have hplace : CommitAtItsPlace nd.persisted.wal 1 :=
    fun _ _ => ⟨_, _, hproposed, Nat.le_refl 1⟩
  obtain ⟨restored, hrestored⟩ :=
    (restore_ok_iff (boot_nodeOfFour 3) hrun (.fresh 1 1 0 0)).mpr hplace
  exact ⟨nd, restored, hrun, hmd, hrestored⟩

/-- The view saves its commit after the view changer has saved its record. -/
theorem restore_fails_after_viewChange :
    Node.boot (clusterOfFour 3) [] {} = .ok (nodeOfFour 3) ∧
    ∃ nd, run (Node.step (clusterOfFour 3)) (nodeOfFour 3) (accepting collectDuringViewChange) =
        some nd ∧
      nd.checkpointMetadata = some {} ∧
      restore nd.persisted.wal (.fresh 1 1 0 0) =
        .error (.error "expected second last message to be a pre-prepare") :=
  ⟨rfl, _, Option.eq_some_of_isSome (by decide +kernel), by decide +kernel, by rfl⟩

end SmartBFT
