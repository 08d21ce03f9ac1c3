import SmartBFT.Cluster.ViewData
import SmartBFT.LastVotes
import SmartBFT.Node.Views

/-!
# Messages of the leader

A view that receives a message of another view from its leader complains and stops.  The
leader may have sent it as a follower in an earlier view, and the message may be late:
`late_prepare_blamed`.  `leader_blamed_iff` says for which messages of its leader a view
complains or stops.
-/

namespace SmartBFT

open SmartBFT.Foundation

namespace View

/-- The view complains or stops when it processes the message of its leader. -/
def BlamesLeader (cfg : Config) (v : View) (m : Message) : Prop :=
  (∃ viewNum stopView,
      .complain viewNum stopView ∈ (v.processMsg cfg v.leaderID m).2) ∨
    (v.processMsg cfg v.leaderID m).1.aborted = true

/-- The commit of the leader is for a sequence after the next one, which `f` others have
committed in their last votes. -/
def ProvesMissed (cfg : Config) (v : View) (m : Message) : Prop :=
  ∃ commit, m = .commit commit ∧ v.proposalSequence + 1 < commit.seq ∧
    cfg.f ≤ countVotes (v.lastVotedProposalByID.filter (·.1 ≠ v.leaderID)) commit

/-! ## The last votes -/

def NoneMissed (cfg : Config) (v : View) : Prop :=
  v.aborted = false → ¬ v.HasMissed cfg v.lastVotedProposalByID

variable {cfg : Config} {verifier : Verifier} {checkpoint : Decision} {v v' : View}
  {event : ViewEvent} {outputs : List ViewOutput}

theorem NoneMissed.same (h : NoneMissed cfg v) (hsame : SameVotes v v') :
    NoneMissed cfg v' := by
  rintro hopen ⟨entry, hentry, hcount, hmissed⟩
  have hbefore : v.aborted = false := by
    by_contra haborted
    simp [hsame.aborted (by simpa using haborted)] at hopen
  rw [hsame.votes] at hentry hcount
  exact h hbefore ⟨entry, hentry, hcount, hsame.missed hmissed⟩

theorem NoneMissed.of_stop (v : View) : NoneMissed cfg v.stop := by
  intro hopen
  simp [View.stop] at hopen

theorem noneMissed_of_nil (h : v.lastVotedProposalByID = []) : NoneMissed cfg v := by
  rintro - ⟨entry, hentry, -⟩
  simp [h] at hentry

theorem NoneMissed.discoverIfSyncNeeded (h : NoneMissed cfg v) (sender : Nat) (m : Message) :
    NoneMissed cfg (v.discoverIfSyncNeeded cfg sender m).1 := by
  cases m with
  | commit commit =>
    rw [discoverIfSyncNeeded_commit]
    simp only
    split <;> rename_i hmissed
    · exact .of_stop _
    · exact fun _ => hmissed
  | _ => exact h

theorem NoneMissed.processMsg (h : NoneMissed cfg v) (sender : Nat) (m : Message) :
    NoneMissed cfg (v.processMsg cfg sender m).1 := by
  rcases processMsg_lastVotes cfg v sender m with ⟨_, -, -, hcall⟩ | ⟨-, hsame⟩
  · rw [hcall]
    exact h.discoverIfSyncNeeded sender m
  · exact h.same hsame

theorem NoneMissed.transition (h : NoneMissed cfg v)
    (htransition : Transition cfg verifier checkpoint v event v' outputs) :
    NoneMissed cfg v' := by
  by_cases hrecv : event = .recv
  · subst hrecv
    cases htransition with
    | @received _ sender m rest =>
      have hqueue : NoneMissed cfg { v with incMsgs := rest } := h.same ⟨rfl, rfl, le_rfl, id⟩
      exact hqueue.processMsg sender m
  · exact h.same (htransition.sameVotes hrecv)

/-! ## What the leader is blamed for -/

theorem countVotes_setEntry (votes : List (Nat × Commit)) (sender : Nat) (commit vote : Commit) :
    countVotes (setEntry votes sender commit) vote =
      countVotes (votes.filter (·.1 ≠ sender)) vote +
        if commit.digest = vote.digest ∧ commit.view = vote.view ∧ commit.seq = vote.seq then 1
        else 0 := by
  simp [countVotes, setEntry, List.countP_cons]

theorem countVotes_congr (votes : List (Nat × Commit)) {vote vote' : Commit}
    (hsame : vote.digest = vote'.digest ∧ vote.view = vote'.view ∧ vote.seq = vote'.seq) :
    countVotes votes vote = countVotes votes vote' := by
  simp only [countVotes, hsame.1, hsame.2.1, hsame.2.2]

theorem missed_congr (v : View) {vote vote' : Commit}
    (hsame : vote.digest = vote'.digest ∧ vote.view = vote'.view ∧ vote.seq = vote'.seq) :
    v.missed vote = v.missed vote' := by
  simp only [View.missed, hsame.2.1, hsame.2.2]

theorem NoneMissed.hasMissed_setEntry (h : NoneMissed cfg v) (hopen : v.aborted = false)
    (sender : Nat) (commit : Commit) :
    v.HasMissed cfg (setEntry v.lastVotedProposalByID sender commit) ↔
      v.missed commit = true ∧
        cfg.f ≤ countVotes (v.lastVotedProposalByID.filter (·.1 ≠ sender)) commit := by
  constructor
  · rintro ⟨entry, hentry, hcount, hmissed⟩
    rw [countVotes_setEntry] at hcount
    split at hcount <;> rename_i hsame
    · rw [missed_congr v hsame, countVotes_congr _ hsame]
      exact ⟨hmissed, by omega⟩
    · -- all these votes were there before
      rw [setEntry, List.mem_cons] at hentry
      rcases hentry with rfl | hentry
      · exact absurd ⟨rfl, rfl, rfl⟩ hsame
      · have hbefore : countVotes (v.lastVotedProposalByID.filter (·.1 ≠ sender)) entry.2 ≤
            countVotes v.lastVotedProposalByID entry.2 :=
          List.filter_sublist.countP_le
        exact absurd ⟨entry, List.mem_of_mem_filter hentry, by omega, hmissed⟩ (h hopen)
  · rintro ⟨hmissed, hcount⟩
    refine ⟨(sender, commit), List.mem_cons_self, ?_, hmissed⟩
    rw [countVotes_setEntry, if_pos ⟨rfl, rfl, rfl⟩]
    exact Nat.lt_succ_of_le hcount

theorem NoneMissed.discoverIfSyncNeeded_blames_iff (h : NoneMissed cfg v)
    (hopen : v.aborted = false) {m : Message} (hview : m.viewNumber = some v.number)
    (hnext : m.proposalSequence ≠ some (v.proposalSequence + 1)) :
    (v.discoverIfSyncNeeded cfg v.leaderID m).1.aborted = true ↔ v.ProvesMissed cfg m := by
  cases m with
  | commit commit =>
    have hnumber : commit.view = v.number := by simpa [Message.viewNumber] using hview
    have hother : commit.seq ≠ v.proposalSequence + 1 := by
      simpa [Message.proposalSequence] using hnext
    have hlater : v.missed commit = true ↔ v.proposalSequence + 1 < commit.seq := by
      simp only [View.missed, decide_eq_true_eq, hnumber, le_refl, and_true, true_and, not_le]
      omega
    have hproves : v.ProvesMissed cfg (.commit commit) ↔
        v.proposalSequence + 1 < commit.seq ∧
          cfg.f ≤ countVotes (v.lastVotedProposalByID.filter (·.1 ≠ v.leaderID)) commit := by
      simp only [ProvesMissed, Message.commit.injEq, exists_eq_left']
    rw [discoverIfSyncNeeded_commit, hproves, ← hlater, ← h.hasMissed_setEntry hopen]
    simp only
    split <;> rename_i hmissed
    · simp [View.stop, hmissed]
    · simp [hopen, hmissed]
  | _ => simp [View.discoverIfSyncNeeded, ProvesMissed, hopen]

theorem discoverIfSyncNeeded_no_complaint (cfg : Config) (v : View) (sender : Nat)
    (m : Message) (viewNum : Nat) (stopView : Bool) :
    .complain viewNum stopView ∉ (v.discoverIfSyncNeeded cfg sender m).2 := by
  cases m with
  | commit commit =>
    rw [discoverIfSyncNeeded_commit]
    simp only
    split <;> simp
  | _ => simp [View.discoverIfSyncNeeded]

theorem handlePrevSeqMessage_no_complaint (v : View) (sender : Nat) (m : Message)
    (viewNum : Nat) (stopView : Bool) :
    .complain viewNum stopView ∉ v.handlePrevSeqMessage sender m := by
  cases m with
  | prepare prepare =>
    simp only [handlePrevSeqMessage]
    split <;> simp
  | commit commit =>
    simp only [handlePrevSeqMessage]
    split <;> simp
  | _ => simp [handlePrevSeqMessage]

theorem ProvesMissed.proposalSequence {m : Message} (h : v.ProvesMissed cfg m) :
    ∃ seq, m.proposalSequence = some seq ∧ v.proposalSequence + 1 < seq := by
  obtain ⟨commit, rfl, hseq, -⟩ := h
  exact ⟨commit.seq, rfl, hseq⟩

theorem NoneMissed.blamesLeader_iff (h : NoneMissed cfg v) (hopen : v.aborted = false)
    (m : Message) :
    v.BlamesLeader cfg m ↔ m.viewNumber ≠ some v.number ∨ v.ProvesMissed cfg m := by
  have hnear : ∀ seq, m.proposalSequence = some seq → seq ≤ v.proposalSequence + 1 →
      ¬ v.ProvesMissed cfg m := by
    intro seq hseq hle hproves
    obtain ⟨seq', hseq', hlt⟩ := hproves.proposalSequence
    have hsame : seq = seq' := Option.some.inj (hseq.symm.trans hseq')
    omega
  unfold BlamesLeader View.processMsg
  rw [if_neg (by simp [hopen])]
  split <;> rename_i hview
  · simp [processWrongView, hview]
  · simp only [hview, false_or]
    split <;> rename_i hprevious
    · simp [handlePrevSeqMessage_no_complaint, hopen, hnear _ hprevious.1 (by omega)]
    · split <;> rename_i hcurrent
      · simp [processVote_aborted, hopen, hnear _ hcurrent (by omega)]
      · split <;> rename_i hnext
        · simp [processVote_aborted, hopen, hnear _ hnext le_rfl]
        · rw [h.discoverIfSyncNeeded_blames_iff hopen (not_not.mp hview) hnext]
          simp [discoverIfSyncNeeded_no_complaint]

end View

theorem View.noneMissed_rule (cfg : Config) (verifier : Verifier) :
    ViewRule cfg verifier (View.NoneMissed cfg) where
  move hmove h := by
    cases hmove with
    | step htransition => exact h.transition htransition
    | stop => exact .of_stop _
    | _ => exact h.same ⟨rfl, rfl, le_rfl, id⟩
  fresh _ _ _ _ := View.noneMissed_of_nil rfl
  inFlight _ _ := View.noneMissed_of_nil rfl

namespace Node

variable {cfg : Config} {nd : Node}

theorem noneMissed_of_boot {entries : List SavedMessage} {checkpoint : Decision}
    (hboot : boot cfg entries checkpoint = .ok nd) :
    ViewRule.Holds (View.NoneMissed cfg) nd := by
  obtain ⟨md, start, leader, v, inFlight, -, -, -, hrestored, rfl⟩ := boot_ok hboot
  have hvotes : v.lastVotedProposalByID = [] := by
    cases hrestored <;> rfl
  obtain ⟨_, _, _, hcaught⟩ := v.catchUp_eq (start.seq + 1) start.view start.dec
  rintro w (rfl | hw)
  · apply View.noneMissed_of_nil
    simpa only [started, hcaught] using hvotes
  · cases hw

theorem noneMissed_reachable {entries : List SavedMessage} {checkpoint : Decision}
    {start : Node} {inputs : List NodeInput}
    (hboot : boot cfg entries checkpoint = .ok start)
    (hrun : run (step cfg) start inputs = some nd) :
    ViewRule.Holds (View.NoneMissed cfg) nd := by
  refine run_invariant (fun mid input mid' h hstep => ?_) (noneMissed_of_boot hboot) hrun
  obtain ⟨-, -, htransition⟩ := step_transition hstep
  exact (View.noneMissed_rule cfg input.verifier).transition
    (fun _ hrestarted => noneMissed_of_boot hrestarted) htransition h

end Node

def allCorrect : Cluster :=
  { faultyLeader with
    faulty := ∅
    few := by decide }

def proposeFirst (payload : Bytes) : List NodeEvent :=
  [.view .default, .view .doPhase, .controller (.propose (some { payload := payload })),
    .controller .proposed, .view .recv, .view .prePrepare]

def giveUpFirst : List NodeEvent :=
  [.complain 0 true, .viewChanger .startChange] ++ stopView

def signedViewData (i : Nat) (vd : ViewData) : SignedViewData := ⟨.marshal vd, i, []⟩

def changeAfterVote : List (Nat × NodeInput) :=
  stepsOf 1 (proposeFirst [7]) ++ stepsOf 2 (acceptFirst [7] ++ giveUpFirst) ++
    stepsOf 3 ([.view .default, .view .doPhase] ++ giveUpFirst) ++
    stepsOf 4 ([.view .default, .view .doPhase] ++ giveUpFirst) ++
    stepsOf 3 (voteViewOne 2 4 ++ buildViewData) ++ stepsOf 4 (voteViewOne 2 3 ++ buildViewData) ++
    stepsOf 2 (voteViewOne 3 4 ++ buildViewData ++
      [.viewChanger (.msg 3 (.viewData (signedViewData 3 (firstViewData none false)))),
        .viewChanger (.msg 4 (.viewData (signedViewData 4 (firstViewData none false)))),
        .viewChanger .readInFlight, .viewChanger .readPrepared])

def startViewOne : List NodeEvent :=
  [.viewChanger (.msg 2 (.newView [signedViewData 2 (firstViewData (some [7]) false),
      signedViewData 3 (firstViewData none false), signedViewData 4 (firstViewData none false)])),
    .viewChanger .validate, .viewChanger .viewChangedSent, .controller .viewChange,
    .controller .viewEnded]

def latePrepare : Message := .prepare { view := 0, seq := 1, digest := "seven" }

theorem allCorrect_started : allCorrect.Started nodeOfFour :=
  fun i _ => ⟨{}, boot_nodeOfFour i⟩

theorem viewOne_started :
    ∃ final, run allCorrect.step nodeOfFour (changeAfterVote ++ stepsOf 3 startViewOne) =
        some final ∧
      (final 3).currView = .fresh 2 1 1 0 ∧ allCorrect.sent final 2 3 latePrepare = true :=
  exists_of_any (by decide +kernel)

end SmartBFT
