import SmartBFT.Foundation.Tally
import SmartBFT.ViewVotes

/-!
# Commits that a view has missed

A view keeps the latest commit of each node among those that are not for its sequence or one
next to it (`lastVotedProposalByID` of `internal/bft/view.go`), and is never rid of them while
it goes on.  When another one arrives it counts what these commits are for, by ranging over two
maps, and stops and asks for a sync if more than `f` of them are for a proposal that it has
missed.

`View.syncs_iff_voted` says when this happens in any run of a view.
-/

namespace SmartBFT

open SmartBFT.Foundation

structure ProposalInfo where
  digest : String
  view : Nat
  seq : Nat
  deriving DecidableEq, Repr

def Commit.info (commit : Commit) : ProposalInfo :=
  ⟨commit.digest, commit.view, commit.seq⟩

namespace View

def MissedProposal (v : View) (info : ProposalInfo) : Prop :=
  v.number < info.view ∨ info.view = v.number ∧ v.proposalSequence < info.seq

def OutOfWindow (v : View) (sender : Nat) (commit : Commit) : Prop :=
  v.aborted = false ∧
    (commit.view ≠ v.number ∧ sender ≠ v.leaderID ∨
      commit.view = v.number ∧ commit.seq + 1 ≠ v.proposalSequence ∧
        commit.seq ≠ v.proposalSequence ∧ commit.seq ≠ v.proposalSequence + 1)

instance (v : View) (sender : Nat) (commit : Commit) :
    Decidable (v.OutOfWindow sender commit) :=
  inferInstanceAs (Decidable (_ ∧ (_ ∨ _)))

def outOfWindow (step : View × ViewInput) : Option (Nat × Commit) :=
  match received step with
  | some (sender, .commit commit) =>
    if step.1.OutOfWindow sender commit then some (sender, commit) else none
  | _ => none

/-- The cases in which the loop over the counts goes on. -/
def disregards (v : View) (threshold : Nat) (info : ProposalInfo) (count : Nat) : Bool :=
  Decidable.decide (count < threshold ∨ info.view < v.number ∨
    info.seq ≤ v.proposalSequence ∧ info.view = v.number)

/-- `discoverIfSyncNeeded` with its loops: the table of the latest commits is ranged over in the
order `table`, and the counts in the order `infos`. -/
def discoverInOrder (cfg : Config) (v : View) (sender : Nat) (commit : Commit)
    (table : List (Nat × Commit)) (infos : List ProposalInfo) :
    Option (View × List ViewOutput) :=
  let threshold := cfg.f + 1
  let votes := setEntry v.lastVotedProposalByID sender commit
  if votes.length < threshold then some ({ v with lastVotedProposalByID := votes }, [])
  else if table.Perm votes then
    let countsByVotes := tally (table.map fun vote => vote.2.info)
    if infos.Perm countsByVotes.keys then
      match rangeFind (fun info count => !v.disregards threshold info count) countsByVotes
          infos with
      | some _ => some ({ v with lastVotedProposalByID := votes }.stop, [.sync])
      | none => some ({ v with lastVotedProposalByID := votes }, [])
    else none
  else none

/-! ## The table -/

def HasMissed (cfg : Config) (v : View) (votes : List (Nat × Commit)) : Prop :=
  ∃ entry ∈ votes, cfg.f < countVotes votes entry.2 ∧ v.missed entry.2 = true

instance (cfg : Config) (v : View) (votes : List (Nat × Commit)) :
    Decidable (v.HasMissed cfg votes) :=
  inferInstanceAs (Decidable (∃ entry ∈ votes, _ ∧ _))

theorem not_hasMissed_of_length {cfg : Config} {v : View} {votes : List (Nat × Commit)}
    (hfew : votes.length < cfg.f + 1) : ¬ v.HasMissed cfg votes := by
  rintro ⟨entry, -, hcount, -⟩
  have hle : countVotes votes entry.2 ≤ votes.length := List.countP_le_length
  omega

theorem discoverIfSyncNeeded_commit (cfg : Config) (v : View) (sender : Nat)
    (commit : Commit) :
    v.discoverIfSyncNeeded cfg sender (.commit commit) =
      let votes := setEntry v.lastVotedProposalByID sender commit
      if v.HasMissed cfg votes then
        ({ v with lastVotedProposalByID := votes }.stop, [.sync])
      else ({ v with lastVotedProposalByID := votes }, []) := by
  simp only [discoverIfSyncNeeded]
  generalize setEntry v.lastVotedProposalByID sender commit = votes
  have hany : (votes.any fun entry => Decidable.decide (cfg.f + 1 ≤ countVotes votes entry.2) &&
      View.missed { v with lastVotedProposalByID := votes } entry.2) = true ↔
      v.HasMissed cfg votes := by
    simp only [HasMissed, View.missed, List.any_eq_true, Bool.and_eq_true, decide_eq_true_eq,
      Nat.succ_le_iff]
  by_cases hmissed : v.HasMissed cfg votes
  · have hlength : ¬ votes.length < cfg.f + 1 := fun hfew => not_hasMissed_of_length hfew hmissed
    rw [if_neg hlength, if_pos (hany.mpr hmissed), if_pos hmissed]
  · rw [if_neg fun h => hmissed (hany.mp h), if_neg hmissed]
    split <;> rfl

structure SameVotes (v v' : View) : Prop where
  votes : v'.lastVotedProposalByID = v.lastVotedProposalByID
  number : v'.number = v.number
  proposalSequence : v.proposalSequence ≤ v'.proposalSequence
  aborted : v.aborted = true → v'.aborted = true

variable {cfg : Config} {verifier : Verifier} {checkpoint : Decision} {v v' : View}
  {event : ViewEvent} {outputs : List ViewOutput}

theorem SameVotes.missed (h : SameVotes v v') {vote : Commit}
    (hmissed : v'.missed vote = true) : v.missed vote = true := by
  have hle := h.proposalSequence
  simp only [View.missed, decide_eq_true_eq, h.number] at hmissed ⊢
  omega

theorem processVote_registers (cfg : Config) (v : View) (msgForNextProposal : Bool)
    (sender : Nat) (m : Message) :
    ∃ prePrepare nextPrePrepare prepares nextPrepares commits nextCommits,
      v.processVote cfg msgForNextProposal sender m = { v with
        prePrepare := prePrepare
        nextPrePrepare := nextPrePrepare
        prepares := prepares
        nextPrepares := nextPrepares
        commits := commits
        nextCommits := nextCommits } := by
  cases m with
  | prePrepare pp =>
    simp only [processVote, processPrePrepare]
    split
    · exact ⟨_, _, _, _, _, _, rfl⟩
    · split
      · exact ⟨_, _, _, _, _, _, rfl⟩
      · split <;> exact ⟨_, _, _, _, _, _, rfl⟩
  | prepare prepare =>
    simp only [processVote]
    split
    · exact ⟨_, _, _, _, _, _, rfl⟩
    · split <;> exact ⟨_, _, _, _, _, _, rfl⟩
  | commit commit =>
    simp only [processVote]
    split
    · exact ⟨_, _, _, _, _, _, rfl⟩
    · split <;> exact ⟨_, _, _, _, _, _, rfl⟩
  | _ => exact ⟨_, _, _, _, _, _, rfl⟩

theorem processVote_sameVotes (cfg : Config) (v : View) (msgForNextProposal : Bool)
    (sender : Nat) (m : Message) :
    SameVotes v (v.processVote cfg msgForNextProposal sender m) := by
  obtain ⟨_, _, _, _, _, _, hcase⟩ := processVote_registers cfg v msgForNextProposal sender m
  rw [hcase]
  exact ⟨rfl, rfl, le_rfl, id⟩

theorem processVote_aborted (cfg : Config) (v : View) (msgForNextProposal : Bool)
    (sender : Nat) (m : Message) :
    (v.processVote cfg msgForNextProposal sender m).aborted = v.aborted := by
  obtain ⟨_, _, _, _, _, _, hcase⟩ := processVote_registers cfg v msgForNextProposal sender m
  rw [hcase]

theorem processMsg_of_outOfWindow {sender : Nat} {commit : Commit}
    (h : v.OutOfWindow sender commit) :
    v.processMsg cfg sender (.commit commit) =
      v.discoverIfSyncNeeded cfg sender (.commit commit) := by
  obtain ⟨hopen, ⟨hview, hsender⟩ | ⟨hview, hprevious, hthis, hnext⟩⟩ := h
  · simp [processMsg, Message.viewNumber, hopen, hview, hsender]
  · have hother : ¬ (commit.seq = v.proposalSequence - 1 ∧ 0 < v.proposalSequence) := by omega
    simp [processMsg, Message.viewNumber, Message.proposalSequence, hopen, hview, hother, hthis,
      hnext]

theorem processMsg_sameVotes {sender : Nat} {m : Message}
    (h : ∀ commit, m = .commit commit → ¬ v.OutOfWindow sender commit) :
    SameVotes v (v.processMsg cfg sender m).1 := by
  have hdiscover : (∀ commit, m ≠ .commit commit) →
      SameVotes v (v.discoverIfSyncNeeded cfg sender m).1 := by
    intro hkind
    cases m with
    | commit commit => exact absurd rfl (hkind commit)
    | _ => exact ⟨rfl, rfl, le_rfl, id⟩
  unfold processMsg
  split
  · exact ⟨rfl, rfl, le_rfl, id⟩
  · rename_i hopen
    split
    · rename_i hview
      split
      · rename_i hsender
        refine hdiscover ?_
        rintro commit rfl
        refine h commit rfl ⟨by simpa using hopen, .inl ⟨?_, hsender⟩⟩
        simpa [Message.viewNumber] using hview
      · exact ⟨rfl, rfl, le_rfl, fun _ => rfl⟩
    · rename_i hview
      split
      · exact ⟨rfl, rfl, le_rfl, id⟩
      · rename_i hprevious
        split
        · exact processVote_sameVotes cfg v false sender m
        · rename_i hthis
          split
          · exact processVote_sameVotes cfg v true sender m
          · rename_i hnext
            refine hdiscover ?_
            rintro commit rfl
            simp only [Message.viewNumber, Message.proposalSequence, ne_eq, not_not,
              Option.some.injEq] at hview hprevious hthis hnext
            exact h commit rfl ⟨by simpa using hopen, .inr ⟨hview, by omega, hthis, hnext⟩⟩

theorem processMsg_lastVotes (cfg : Config) (v : View) (sender : Nat) (m : Message) :
    (∃ commit, m = .commit commit ∧ v.OutOfWindow sender commit ∧
      v.processMsg cfg sender m = v.discoverIfSyncNeeded cfg sender m) ∨
    ((∀ commit, m = .commit commit → ¬ v.OutOfWindow sender commit) ∧
      SameVotes v (v.processMsg cfg sender m).1) := by
  by_cases h : ∃ commit, m = .commit commit ∧ v.OutOfWindow sender commit
  · obtain ⟨commit, rfl, hout⟩ := h
    exact .inl ⟨commit, rfl, hout, processMsg_of_outOfWindow hout⟩
  · have hnone : ∀ commit, m = .commit commit → ¬ v.OutOfWindow sender commit :=
      fun commit hm hout => h ⟨commit, hm, hout⟩
    exact .inr ⟨hnone, processMsg_sameVotes hnone⟩

theorem Transition.sameVotes (h : Transition cfg verifier checkpoint v event v' outputs)
    (hrecv : event ≠ .recv) : SameVotes v v' := by
  cases h with
  | received => exact absurd rfl hrecv
  | rejected => exact ⟨rfl, rfl, le_rfl, fun _ => rfl⟩
  | decided => exact ⟨rfl, rfl, Nat.le_succ _, id⟩
  | _ => exact ⟨rfl, rfl, le_rfl, id⟩

/-! ## The latest commits -/

def voteInfo (vote : Nat × Commit) : Option ProposalInfo := some vote.2.info

def lastVotes (commits : List (Nat × Commit)) : List (Nat × Commit) :=
  firstBy Prod.fst commits.reverse []

abbrev Voted (f : Nat) (commits : List (Nat × Commit)) (info : ProposalInfo) : Prop :=
  Carried Prod.fst voteInfo f commits.reverse info

variable {commits table : List (Nat × Commit)} {infos : List ProposalInfo} {sender : Nat}
  {commit : Commit}

theorem setEntry_lastVotes (commits : List (Nat × Commit)) (sender : Nat) (commit : Commit) :
    setEntry (lastVotes commits) sender commit = lastVotes (commits ++ [(sender, commit)]) := by
  have hrest : (firstBy Prod.fst commits.reverse []).filter (fun vote => vote.1 ≠ sender) =
      firstBy Prod.fst commits.reverse [sender] := filter_firstBy (by simp)
  simp only [setEntry, lastVotes, List.reverse_append, List.reverse_singleton,
    List.singleton_append, firstBy, List.not_mem_nil, if_false, hrest]

theorem missed_iff : v.missed commit = true ↔ v.MissedProposal commit.info := by
  simp only [missed, MissedProposal, Commit.info, decide_eq_true_eq]
  omega

theorem countVotes_eq (votes : List (Nat × Commit)) (commit : Commit) :
    countVotes votes commit = (votes.filterMap voteInfo).count commit.info := by
  rw [countVotes, List.count_filterMap]
  refine List.countP_congr fun vote _ => ?_
  simp [voteInfo, Commit.info]

theorem hasMissed_lastVotes :
    v.HasMissed cfg (lastVotes commits) ↔
      ∃ info, v.MissedProposal info ∧ Voted cfg.f commits info := by
  constructor
  · rintro ⟨vote, -, hcount, hmissed⟩
    rw [countVotes_eq] at hcount
    exact ⟨vote.2.info, missed_iff.mp hmissed, carried_iff.mpr hcount⟩
  · rintro ⟨info, hmissed, hvoted⟩
    have hcount := carried_iff.mp hvoted
    have hmem := List.count_pos_iff.mp (Nat.lt_of_le_of_lt (Nat.zero_le _) hcount)
    obtain ⟨vote, hvote, hinfo⟩ := List.mem_filterMap.mp hmem
    obtain rfl := Option.some.inj hinfo
    refine ⟨vote, hvote, ?_, missed_iff.mpr hmissed⟩
    rw [countVotes_eq]
    exact hcount

theorem disregards_eq_false_iff {info : ProposalInfo} {count : Nat} :
    (!v.disregards (cfg.f + 1) info count) = true ↔
      cfg.f < count ∧ v.MissedProposal info := by
  simp only [disregards, MissedProposal, Bool.not_eq_true', decide_eq_false_iff_not]
  omega

theorem discoverInOrder_eq {result : View × List ViewOutput}
    (hvotes : v.lastVotedProposalByID = lastVotes commits)
    (h : v.discoverInOrder cfg sender commit table infos = some result) :
    result = v.discoverIfSyncNeeded cfg sender (.commit commit) := by
  rw [discoverIfSyncNeeded_commit]
  simp only [discoverInOrder] at h
  rw [hvotes, setEntry_lastVotes] at h ⊢
  split at h
  · rename_i hfew
    cases h
    rw [if_neg (not_hasMissed_of_length hfew)]
  · simp only [Option.ite_none_right_eq_some] at h
    obtain ⟨htable, hinfos, h⟩ := h
    rw [← List.filterMap_eq_map] at hinfos h
    have hwanted : ∀ info count, (!v.disregards (cfg.f + 1) info count) = true ↔
        cfg.f < count ∧ v.MissedProposal info := fun _ _ => disregards_eq_false_iff
    split at h
    · rename_i info hfound
      cases h
      obtain ⟨hvoted, hmissed⟩ := hit_of_rangeFind_carried htable hwanted hfound
      rw [if_pos (hasMissed_lastVotes.mpr ⟨info, hmissed, hvoted⟩)]
    · rename_i hfound
      cases h
      rw [if_neg]
      rintro hmissed
      obtain ⟨info, hmissed, hvoted⟩ := hasMissed_lastVotes.mp hmissed
      exact not_carried_of_rangeFind htable hwanted hinfos hfound hmissed hvoted

theorem exists_discoverInOrder (cfg : Config) (v : View) (sender : Nat) (commit : Commit) :
    ∃ table infos result, v.discoverInOrder cfg sender commit table infos = some result := by
  let table := setEntry v.lastVotedProposalByID sender commit
  refine ⟨table, (tally (table.map fun vote => vote.2.info)).keys, ?_⟩
  simp only [discoverInOrder, table, List.Perm.refl, if_true]
  split
  · exact ⟨_, rfl⟩
  · split
    · exact ⟨_, rfl⟩
    · exact ⟨_, rfl⟩

variable {input : ViewInput} {inputs : List ViewInput}

theorem advance_sameVotes
    (hinput : ∀ verifier checkpoint, input ≠ .event verifier checkpoint .recv)
    (h : v.advance cfg input = some v') : SameVotes v v' := by
  cases input with
  | event verifier checkpoint event =>
    obtain ⟨⟨w, outputs⟩, hstep, rfl⟩ := Option.map_eq_some_iff.mp h
    refine (transition_of_step hstep).sameVotes ?_
    rintro rfl
    exact hinput verifier checkpoint rfl
  | queue incMsgs => exact Option.some.inj h ▸ ⟨rfl, rfl, le_rfl, id⟩
  | stop => exact Option.some.inj h ▸ ⟨rfl, rfl, le_rfl, fun _ => rfl⟩
  | decided =>
    simp only [advance, Option.ite_none_right_eq_some, Option.some.injEq] at h
    exact h.2 ▸ ⟨rfl, rfl, le_rfl, id⟩
  | taken | awaits | synced =>
    simp only [advance] at h
    split at h
    · exact Option.some.inj h ▸ ⟨rfl, rfl, le_rfl, id⟩
    · simp at h

theorem discoverIfSyncNeeded_table (cfg : Config) (v : View) (sender : Nat) (commit : Commit) :
    (v.discoverIfSyncNeeded cfg sender (.commit commit)).1.lastVotedProposalByID =
      setEntry v.lastVotedProposalByID sender commit := by
  rw [discoverIfSyncNeeded_commit]
  simp only
  split
  · rfl
  · rfl

theorem discoverIfSyncNeeded_outcome (hopen : v.aborted = false) {w : View}
    (h : v.discoverIfSyncNeeded cfg sender (.commit commit) = (w, outputs)) :
    v.HasMissed cfg (setEntry v.lastVotedProposalByID sender commit) ∧
        w.aborted = true ∧ outputs = [.sync] ∨
      ¬ v.HasMissed cfg (setEntry v.lastVotedProposalByID sender commit) ∧
        w.aborted = false ∧ outputs = [] := by
  rw [discoverIfSyncNeeded_commit] at h
  simp only at h
  split at h
  · rename_i hmissed
    cases h
    exact .inl ⟨hmissed, rfl, rfl⟩
  · rename_i hmissed
    cases h
    exact .inr ⟨hmissed, hopen, rfl⟩

theorem lastVotes_advance (hvotes : v.lastVotedProposalByID = lastVotes commits)
    (h : v.advance cfg input = some v') :
    v'.lastVotedProposalByID = lastVotes (commits ++ [(v, input)].filterMap outOfWindow) := by
  by_cases hinput : ∃ verifier checkpoint, input = .event verifier checkpoint .recv
  · obtain ⟨verifier, checkpoint, rfl⟩ := hinput
    obtain ⟨⟨w, outputs⟩, hstep, rfl⟩ := Option.map_eq_some_iff.mp h
    cases transition_of_step hstep with
    | @received _ sender m rest hpc hqueue =>
      have hreceived : received (v, .event verifier checkpoint .recv) = some (sender, m) := by
        simp [received, hqueue]
      rcases processMsg_lastVotes cfg { v with incMsgs := rest } sender m with
        ⟨commit, rfl, hout, hcall⟩ | ⟨hnone, hsame⟩
      · have hcommit : outOfWindow (v, .event verifier checkpoint .recv) =
            some (sender, commit) := by
          simp only [outOfWindow, hreceived]
          exact if_pos hout
        rw [hcall, discoverIfSyncNeeded_table, List.filterMap_cons_some hcommit,
          List.filterMap_nil, ← setEntry_lastVotes, ← hvotes]
      · have hother : outOfWindow (v, .event verifier checkpoint .recv) = none := by
          simp only [outOfWindow, hreceived]
          cases m with
          | commit commit => exact if_neg (hnone commit rfl)
          | _ => rfl
        rw [List.filterMap_cons_none hother, List.filterMap_nil, List.append_nil, ← hvotes]
        exact hsame.votes
  · have hreceived : received (v, input) = none := by
      cases input with
      | event verifier checkpoint event =>
        cases event with
        | recv => exact absurd ⟨verifier, checkpoint, rfl⟩ hinput
        | _ => rfl
      | _ => rfl
    have hother : outOfWindow (v, input) = none := by
      simp only [outOfWindow, hreceived]
    rw [List.filterMap_cons_none hother, List.filterMap_nil, List.append_nil, ← hvotes]
    exact (advance_sameVotes (by simpa using hinput) h).votes

theorem lastVotes_run (hstart : v.lastVotedProposalByID = [])
    (hrun : run (advance cfg) v inputs = some v') :
    v'.lastVotedProposalByID =
      lastVotes ((trail (advance cfg) v inputs).filterMap outOfWindow) := by
  refine @run_trail_invariant View ViewInput (advance cfg)
    (fun log w => w.lastVotedProposalByID = lastVotes (log.filterMap outOfWindow))
    (fun log w input w' hw hstep => ?_) v v' inputs [] hstart hrun
  rw [List.filterMap_append]
  exact lastVotes_advance hw hstep

theorem discoverIfSyncNeeded_of_step {w : View}
    (hcall : outOfWindow (v, .event verifier checkpoint .recv) = some (sender, commit))
    (hstep : v.step cfg verifier checkpoint .recv = some (w, outputs)) :
    { v with incMsgs := v.incMsgs.tail }.OutOfWindow sender commit ∧
      { v with incMsgs := v.incMsgs.tail }.discoverIfSyncNeeded cfg sender (.commit commit) =
        (w, outputs) := by
  cases transition_of_step hstep with
  | @received _ sender' m rest hpc hqueue =>
    have hreceived : received (v, .event verifier checkpoint .recv) = some (sender', m) := by
      simp [received, hqueue]
    rw [hqueue, List.tail_cons]
    cases m with
    | commit commit' =>
      simp only [outOfWindow, hreceived, Option.ite_none_right_eq_some, Option.some.injEq,
        Prod.mk.injEq] at hcall
      obtain ⟨hout, rfl, rfl⟩ := hcall
      have hcaller : { v with incMsgs := rest }.OutOfWindow sender' commit' := hout
      exact ⟨hcaller, (processMsg_of_outOfWindow hcaller).symm⟩
    | _ => simp [outOfWindow, hreceived] at hcall

/-- In every run of a view, a call of `discoverIfSyncNeeded` for a commit stops the view and
asks for a sync if and only if the latest commits outside of the window of more than `f` senders
are for one proposal that the view has missed.  So one of these senders is not faulty, and the
orders of the maps do not matter. -/
theorem syncs_iff_voted {w : View} (hstart : v.lastVotedProposalByID = [])
    (hrun : run (advance cfg) v inputs = some v')
    (hcall : outOfWindow (v', .event verifier checkpoint .recv) = some (sender, commit))
    (hstep : v'.step cfg verifier checkpoint .recv = some (w, outputs)) :
    let commits := (trail (advance cfg) v inputs).filterMap outOfWindow ++ [(sender, commit)]
    let caller := { v' with incMsgs := v'.incMsgs.tail }
    (w.aborted = true ∧ outputs = [.sync] ↔
        ∃ info, v'.MissedProposal info ∧ Voted cfg.f commits info) ∧
      (w.aborted = true ∧ outputs = [.sync] ∨ w.aborted = false ∧ outputs = []) ∧
      (∀ faulty : Finset Nat, faulty.card ≤ cfg.f → .sync ∈ outputs →
        ∃ honest ∉ faulty, ∃ info, v'.MissedProposal info ∧
          firstChoice Prod.fst voteInfo commits.reverse honest = some info) ∧
      (∃ table infos result, caller.discoverInOrder cfg sender commit table infos = some result) ∧
      ∀ table infos result, caller.discoverInOrder cfg sender commit table infos = some result →
        result = (w, outputs) := by
  intro commits caller
  obtain ⟨hout, hresult⟩ := discoverIfSyncNeeded_of_step hcall hstep
  have htable := lastVotes_run hstart hrun
  have hvotes : caller.lastVotedProposalByID =
      lastVotes ((trail (advance cfg) v inputs).filterMap outOfWindow) := htable
  have horder : ∀ table infos result,
      caller.discoverInOrder cfg sender commit table infos = some result →
        result = (w, outputs) :=
    fun table infos result h => (discoverInOrder_eq hvotes h).trans hresult
  have hmissed : caller.HasMissed cfg (setEntry caller.lastVotedProposalByID sender commit) ↔
      ∃ info, v'.MissedProposal info ∧ Voted cfg.f commits info := by
    rw [hvotes, setEntry_lastVotes]
    exact hasMissed_lastVotes
  have houtcome := discoverIfSyncNeeded_outcome hout.1 hresult
  rw [hmissed] at houtcome
  rcases houtcome with ⟨⟨info, hlater, hvoted⟩, haborted, rfl⟩ | ⟨hnone, haborted, rfl⟩
  · refine ⟨⟨fun _ => ⟨info, hlater, hvoted⟩, fun _ => ⟨haborted, rfl⟩⟩, .inl ⟨haborted, rfl⟩,
      fun faulty hfaulty _ => ?_, exists_discoverInOrder cfg caller sender commit, horder⟩
    obtain ⟨honest, hcorrect, hchoice⟩ := hvoted.exists_notMem hfaulty
    exact ⟨honest, hcorrect, info, hlater, hchoice⟩
  · refine ⟨?_, .inr ⟨haborted, rfl⟩, by simp, exists_discoverInOrder cfg caller sender commit,
      horder⟩
    simp [hnone]

end View

def missedCommit (seq : Nat) : Commit where
  view := 0
  seq := seq
  digest := "seven"
  signature := none

def missedCommits : List ViewInput :=
  viewInputs (viewReceives 3 (.commit (missedCommit 9)) ++
    viewReceives 3 (.commit (missedCommit 5)) ++
    [.view (.handleMessage 4 (.commit (missedCommit 5)))])

theorem syncs_iff_voted_latest :
    ∃ v w, run (View.advance (clusterOfFour 2)) (View.fresh 1 1 0 0) missedCommits = some v ∧
      v.step (clusterOfFour 2) acceptingVerifier {} .recv = some (w, [.sync]) ∧
      ∃ info, v.MissedProposal info ∧ View.Voted (clusterOfFour 2).f
        ((trail (View.advance (clusterOfFour 2)) (View.fresh 1 1 0 0) missedCommits).filterMap
          View.outOfWindow ++ [(4, missedCommit 5)]) info := by
  have hreached : (run (View.advance (clusterOfFour 2)) (View.fresh 1 1 0 0) missedCommits).any
      (fun v => decide (
        View.outOfWindow (v, .event acceptingVerifier {} .recv) = some (4, missedCommit 5) ∧
        (v.step (clusterOfFour 2) acceptingVerifier {} .recv).any (fun result => decide (
          result.1.aborted = true ∧ result.2 = [.sync])) = true)) = true := by
    decide +kernel
  obtain ⟨v, hrun, hcall, hcalled⟩ := exists_of_any hreached
  obtain ⟨⟨w, outputs⟩, hstep, haborted, rfl⟩ := exists_of_any hcalled
  have hvoted := (View.syncs_iff_voted rfl hrun hcall hstep).1.mp ⟨haborted, rfl⟩
  exact ⟨v, w, hrun, hstep, hvoted⟩

end SmartBFT
