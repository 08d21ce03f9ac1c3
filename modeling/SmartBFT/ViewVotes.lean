import SmartBFT.Foundation.Ballot
import SmartBFT.Node.Step
import SmartBFT.ViewTransition

/-!
# The votes of a view

A view (`internal/bft/view.go`) collects prepares and commits for its sequence and, ahead of
time, for the next one.  Either kind has two vote sets, which change places when a sequence is
decided.  Each pair is two ballots that are held one after another (`VoteKind.ballots`,
`advance_prepareVotes`, `advance_commitVotes`), so that what is known of ballots holds of the
votes: the first vote of each sender counts, once, and for its own sequence
(`votes_counted_once`).
-/

namespace SmartBFT

open SmartBFT.Foundation

/-- A step of the goroutine of a view, or what others do to it: messages are queued, the view
is stopped, a decision is taken from it, and its calls of the decider and of the synchronizer
return. -/
inductive ViewInput where
  | event (verifier : Verifier) (checkpoint : Decision) (event : ViewEvent)
  | queue (incMsgs : List (Nat × Message))
  | stop
  | taken
  | decided
  | awaits
  | synced

namespace View

def advance (cfg : Config) (v : View) : ViewInput → Option View
  | .event verifier checkpoint event => (v.step cfg verifier checkpoint event).map Prod.fst
  | .queue incMsgs => some { v with incMsgs := incMsgs }
  | .stop => some v.stop
  | .taken =>
    match v.pc with
    | .deciding _ _ => some { v with pc := .delivering }
    | _ => none
  | .decided => if v.pc.inDecide then some v.decided else none
  | .awaits =>
    match v.pc with
    | .select loop => some { v with pc := .syncing loop }
    | _ => none
  | .synced =>
    match v.pc with
    | .syncing loop => some { v with pc := .select loop }
    | _ => none

def received : View × ViewInput → Option (Nat × Message)
  | (v, .event _ _ .recv) => v.incMsgs.head?
  | _ => none

structure NoVotes (v : View) : Prop where
  prepares : v.prepares = {}
  nextPrepares : v.nextPrepares = {}
  commits : v.commits = {}
  nextCommits : v.nextCommits = {}

end View

structure VoteKind (α : Type) where
  ofMessage : Message → Option α
  view : α → Nat
  seq : α → Nat
  validVote : Nat → α → Bool
  current : View → VoteSet α
  next : View → VoteSet α
  /-- the place of the vote that a case of a `select` takes -/
  place : ViewEvent → Option Nat

def prepareVotes : VoteKind Prepare where
  ofMessage
    | .prepare prepare => some prepare
    | _ => none
  view := Prepare.view
  seq := Prepare.seq
  validVote := acceptPrepares
  current := View.prepares
  next := View.nextPrepares
  place
    | .prepareVote => some 0
    | _ => none

def commitVotes : VoteKind Commit where
  ofMessage
    | .commit commit => some commit
    | _ => none
  view := Commit.view
  seq := Commit.seq
  validVote := acceptCommits
  current := View.commits
  next := View.nextCommits
  place
    | .commitVote i => some i
    | _ => none

namespace VoteKind

variable {α : Type}

def wellFormed (kind : VoteKind α) (cfg : Config) (v : View) (sender : Nat) (m : Message) :
    Option (Nat × α) :=
  match kind.ofMessage m with
  | none => none
  | some vote =>
    if v.aborted = false ∧ kind.view vote = v.number ∧ sender ≠ cfg.selfID ∧
        kind.validVote sender vote = true then some (sender, vote)
    else none

def processed (kind : VoteKind α) (cfg : Config) (step : View × ViewInput) :
    Option (Nat × α) :=
  match View.received step with
  | none => none
  | some (sender, m) => kind.wellFormed cfg step.1 sender m

def castAt (kind : VoteKind α) (cfg : Config) (seq : Nat) (step : View × ViewInput) :
    Option (Nat × α) :=
  match kind.processed cfg step with
  | none => none
  | some vote =>
    if kind.seq vote.2 = seq ∧
        (seq = step.1.proposalSequence ∨ seq = step.1.proposalSequence + 1) then some vote
    else none

def takenAt (kind : VoteKind α) (seq : Nat) : View × ViewInput → Option (Nat × α)
  | (v, .event _ _ event) =>
    match kind.place event with
    | none => none
    | some i => if v.proposalSequence = seq then (kind.current v).votes[i]? else none
  | _ => none

def cast (kind : VoteKind α) (cfg : Config) (seq : Nat) (steps : List (View × ViewInput)) :
    List (Nat × α) :=
  steps.filterMap (kind.castAt cfg seq)

def taken (kind : VoteKind α) (seq : Nat) (steps : List (View × ViewInput)) :
    List (Nat × α) :=
  steps.filterMap (kind.takenAt seq)

structure CountedOnce (kind : VoteKind α) (cfg : Config) (steps : List (View × ViewInput))
    (v : View) : Prop where
  right : ∀ seq, ∀ vote ∈ kind.taken seq steps,
    kind.view vote.2 = v.number ∧ kind.seq vote.2 = seq ∧ vote.1 ≠ cfg.selfID
  once : ∀ seq, ((kind.taken seq steps).map Prod.fst).Nodup
  /-- the first vote of each sender was taken or waits, and there are no other votes -/
  current : (kind.taken v.proposalSequence steps ++ (kind.current v).votes).Perm
    (firstBy Prod.fst (kind.cast cfg v.proposalSequence steps) [])
  next : (kind.next v).votes.Perm
    (firstBy Prod.fst (kind.cast cfg (v.proposalSequence + 1) steps) [])
  /-- the channels have a place for each node, and one for a node that has not voted -/
  room : (∀ step ∈ steps, ∀ entry ∈ View.received step, entry.1 ∈ cfg.nodes) →
    ∀ voter ∈ cfg.nodes,
      (voter ∉ (kind.current v).voted → (kind.current v).votes.length < cfg.n) ∧
      (voter ∉ (kind.next v).voted → (kind.next v).votes.length < cfg.n)

/-! ## The vote sets as ballots -/

def ballot (vs : VoteSet α) : Ballot Nat (Nat × α) where
  voted := vs.voted
  waiting := vs.votes

def ballots (kind : VoteKind α) (v : View) : Ballots Nat (Nat × α) where
  seq := v.proposalSequence
  current := ballot (kind.current v)
  next := ballot (kind.next v)

def castAction (kind : VoteKind α) : Option (Nat × α) → BallotAction (Nat × α)
  | none => .rest
  | some vote => .cast (kind.seq vote.2) vote

def action (kind : VoteKind α) (cfg : Config) (step : View × ViewInput) :
    BallotAction (Nat × α) :=
  match step with
  | (_, .event _ _ .recv) => kind.castAction (kind.processed cfg step)
  | (v, .event _ _ .finish) =>
    match v.pc with
    | .select (.processCommits _) => .switch
    | _ => .rest
  | (_, .event _ _ event) =>
    match kind.place event with
    | none => .rest
    | some i => .take i
  | _ => .rest

structure Lawful (kind : VoteKind α) : Prop where
  recv : kind.place .recv = none
  finish : kind.place .finish = none
  advance : ∀ {cfg : Config} {v v' : View} {input : ViewInput},
    v.advance cfg input = some v' →
      kind.ballots v' = (kind.ballots v).step Prod.fst (kind.action cfg (v, input))

section Lawful

variable {kind : VoteKind α} {cfg : Config} {seq : Nat} {steps : List (View × ViewInput)}
  {v v' : View} {input : ViewInput}

theorem castFor_action : Ballots.castFor seq (kind.ballots v, kind.action cfg (v, input)) =
    kind.castAt cfg seq (v, input) := by
  cases input with
  | event verifier checkpoint event =>
    cases event with
    | recv =>
      simp only [action, castAt]
      cases kind.processed cfg (v, .event verifier checkpoint .recv) <;> rfl
    | finish =>
      simp only [action, castAt, processed, View.received]
      split <;> rfl
    | _ =>
      simp only [action, castAt, processed, View.received]
      split <;> rfl
  | _ => rfl

theorem takenFor_action (h : kind.Lawful) :
    Ballots.takenFor seq (kind.ballots v, kind.action cfg (v, input)) =
      kind.takenAt seq (v, input) := by
  cases input with
  | event verifier checkpoint event =>
    cases event with
    | recv =>
      simp only [action, takenAt, h.recv]
      cases kind.processed cfg (v, .event verifier checkpoint .recv) <;> rfl
    | finish =>
      simp only [action, takenAt, h.finish]
      split <;> rfl
    | _ =>
      simp only [action, takenAt]
      split <;> rfl
  | _ => rfl

def log (kind : VoteKind α) (cfg : Config) (steps : List (View × ViewInput)) :
    List (Ballots Nat (Nat × α) × BallotAction (Nat × α)) :=
  steps.map fun step => (kind.ballots step.1, kind.action cfg step)

theorem casts_log : Ballots.casts seq (kind.log cfg steps) = kind.cast cfg seq steps := by
  rw [Ballots.casts, log, List.filterMap_map, cast]
  exact List.filterMap_congr fun step _ => castFor_action

theorem takens_log (h : kind.Lawful) :
    Ballots.takens seq (kind.log cfg steps) = kind.taken seq steps := by
  rw [Ballots.takens, log, List.filterMap_map, taken]
  exact List.filterMap_congr fun step _ => takenFor_action h

structure Followed (kind : VoteKind α) (cfg : Config) (steps : List (View × ViewInput))
    (v : View) : Prop where
  tallied : Ballots.Tallied Prod.fst (kind.log cfg steps) (kind.ballots v)
  number : ∀ step ∈ steps, step.1.number = v.number

theorem Followed.step (h : kind.Followed cfg steps v) (hlawful : kind.Lawful)
    (hnumber : v'.number = v.number) (hadvance : v.advance cfg input = some v') :
    kind.Followed cfg (steps ++ [(v, input)]) v' := by
  refine ⟨?_, fun step hmem => ?_⟩
  · rw [hlawful.advance hadvance, log, List.map_append]
    exact h.tallied.step _
  · rcases List.mem_append.mp hmem with hold | hlast
    · exact (h.number step hold).trans hnumber.symm
    · obtain rfl := List.mem_singleton.mp hlast
      exact hnumber.symm

theorem mem_cast {vote : Nat × α} (h : vote ∈ kind.cast cfg seq steps) :
    ∃ step ∈ steps, ∃ m, View.received step = some (vote.1, m) ∧
      kind.view vote.2 = step.1.number ∧ kind.seq vote.2 = seq ∧ vote.1 ≠ cfg.selfID := by
  obtain ⟨step, hmem, hcast⟩ := List.mem_filterMap.mp h
  simp only [castAt, processed, wellFormed] at hcast
  split at hcast
  · simp at hcast
  · rename_i other hprocessed
    split at hprocessed
    · simp at hprocessed
    · rename_i sender m hreceived
      split at hprocessed
      · simp at hprocessed
      · simp only [Option.ite_none_right_eq_some, Option.some.injEq] at hcast hprocessed
        obtain ⟨⟨hseq, -⟩, rfl⟩ := hcast
        obtain ⟨⟨-, hview, hsender, -⟩, rfl⟩ := hprocessed
        exact ⟨step, hmem, m, hreceived, hview, hseq, hsender⟩

theorem Followed.countedOnce (h : kind.Followed cfg steps v) (hlawful : kind.Lawful) :
    kind.CountedOnce cfg steps v := by
  have hcurrent := h.tallied.current
  have hnext := h.tallied.next
  have htaken := h.tallied.taken
  simp only [casts_log, takens_log hlawful] at hcurrent hnext htaken
  have hknown : (∀ step ∈ steps, ∀ entry ∈ View.received step, entry.1 ∈ cfg.nodes) →
      ∀ seq, ∀ vote ∈ kind.cast cfg seq steps, vote.1 ∈ cfg.nodes := by
    intro hnodes seq vote hvote
    obtain ⟨step, hmem, m, hreceived, -⟩ := mem_cast hvote
    exact hnodes step hmem _ hreceived
  refine ⟨fun seq vote hvote => ?_, fun seq => ?_, hcurrent.counted, ?_, ?_⟩
  · have hmem := (firstBy_sublist _ _ _).subset ((htaken seq).subset hvote)
    obtain ⟨step, hstep, -, -, hview, hseq, hsender⟩ := mem_cast hmem
    exact ⟨hview.trans (h.number step hstep), hseq, hsender⟩
  · obtain ⟨votes, hperm, hsublist⟩ := htaken seq
    exact (hperm.map _).nodup_iff.mp ((firstBy_nodup _ _ _).sublist (hsublist.map _))
  · exact hnext.counted
  · intro hnodes voter hvoter
    exact ⟨hcurrent.room (hknown hnodes _) hvoter, hnext.room (hknown hnodes _) hvoter⟩

end Lawful

end VoteKind

/-! ## Processing a message -/

namespace View

variable {cfg : Config} {v v' : View} {sender : Nat} {m : Message}

structure SameBallots (v v' : View) : Prop where
  proposalSequence : v'.proposalSequence = v.proposalSequence
  prepares : v'.prepares = v.prepares
  nextPrepares : v'.nextPrepares = v.nextPrepares
  commits : v'.commits = v.commits
  nextCommits : v'.nextCommits = v.nextCommits

theorem SameBallots.discoverIfSyncNeeded :
    SameBallots v (v.discoverIfSyncNeeded cfg sender m).1 := by
  unfold View.discoverIfSyncNeeded
  split
  · simp only
    split
    · exact ⟨rfl, rfl, rfl, rfl, rfl⟩
    · split <;> exact ⟨rfl, rfl, rfl, rfl, rfl⟩
  · exact ⟨rfl, rfl, rfl, rfl, rfl⟩

theorem SameBallots.processPrePrepare {pp : PrePrepare} {next : Bool} :
    SameBallots v (v.processPrePrepare pp next sender) := by
  unfold View.processPrePrepare
  split
  · exact ⟨rfl, rfl, rfl, rfl, rfl⟩
  · split
    · exact ⟨rfl, rfl, rfl, rfl, rfl⟩
    · split <;> exact ⟨rfl, rfl, rfl, rfl, rfl⟩

theorem processMsg_cases (cfg : Config) (v : View) (sender : Nat) (m : Message) :
    (SameBallots v (v.processMsg cfg sender m).1 ∧
      ¬ (v.aborted = false ∧ m.viewNumber = some v.number ∧
        (m.proposalSequence = some v.proposalSequence ∨
          m.proposalSequence = some (v.proposalSequence + 1)))) ∨
    (v.aborted = false ∧ m.viewNumber = some v.number ∧ ∃ next : Bool,
      m.proposalSequence = some (if next then v.proposalSequence + 1 else v.proposalSequence) ∧
      (v.processMsg cfg sender m).1 = v.processVote cfg next sender m) := by
  unfold processMsg
  split
  · rename_i haborted
    exact .inl ⟨⟨rfl, rfl, rfl, rfl, rfl⟩, by simp [haborted]⟩
  · rename_i hopen
    split
    · rename_i hview
      refine .inl ⟨?_, fun h => hview h.2.1⟩
      split
      · exact .discoverIfSyncNeeded
      · exact ⟨rfl, rfl, rfl, rfl, rfl⟩
    · rename_i hview
      split
      · rename_i hprev
        refine .inl ⟨⟨rfl, rfl, rfl, rfl, rfl⟩, fun h => ?_⟩
        rcases h.2.2 with hseq | hseq <;> rw [hprev.1, Option.some.injEq] at hseq <;> omega
      · split
        · rename_i hseq
          exact .inr ⟨by simpa using hopen, not_not.mp hview, false, hseq, rfl⟩
        · split
          · rename_i hseq
            exact .inr ⟨by simpa using hopen, not_not.mp hview, true, hseq, rfl⟩
          · rename_i hthis hnext
            exact .inl ⟨.discoverIfSyncNeeded, fun h => h.2.2.elim hthis hnext⟩

end View

namespace VoteKind

variable {α : Type} {kind : VoteKind α} {cfg : Config} {v v' : View} {sender : Nat} {m : Message}
variable {verifier : Verifier} {checkpoint : Decision}

structure Registers (kind : VoteKind α) : Prop where
  same : ∀ {v v' : View}, View.SameBallots v v' → kind.ballots v' = kind.ballots v
  ofMessage : ∀ {m : Message} {vote : α}, kind.ofMessage m = some vote →
    m.viewNumber = some (kind.view vote) ∧ m.proposalSequence = some (kind.seq vote)
  vote : ∀ {cfg : Config} {v : View} {next : Bool} {sender : Nat} {m : Message} {vote : α},
    kind.ofMessage m = some vote → sender ≠ cfg.selfID →
    kind.ballots (v.processVote cfg next sender m) =
      if next then { kind.ballots v with
        next := ballot ((kind.next v).registerVote kind.validVote sender vote) }
      else { kind.ballots v with
        current := ballot ((kind.current v).registerVote kind.validVote sender vote) }
  own : ∀ {cfg : Config} {v : View} {next : Bool} {m : Message} {vote : α},
    kind.ofMessage m = some vote →
    kind.ballots (v.processVote cfg next cfg.selfID m) = kind.ballots v
  other : ∀ {cfg : Config} {v : View} {next : Bool} {sender : Nat} {m : Message},
    kind.ofMessage m = none →
    kind.ballots (v.processVote cfg next sender m) = kind.ballots v

theorem ballot_registerVote {vs : VoteSet α} {validVote : Nat → α → Bool} {voter : Nat}
    {message : α} (hvalid : validVote voter message = true) :
    ballot (vs.registerVote validVote voter message) =
      (ballot vs).cast Prod.fst (voter, message) := by
  by_cases hvoted : voter ∈ vs.voted <;>
    simp [VoteSet.registerVote, Ballot.cast, ballot, hvalid, hvoted]

theorem registerVote_of_invalid {vs : VoteSet α} {validVote : Nat → α → Bool} {voter : Nat}
    {message : α} (hvalid : validVote voter message = false) :
    vs.registerVote validVote voter message = vs := by
  simp [VoteSet.registerVote, hvalid]

theorem Registers.processMsg (h : kind.Registers) :
    kind.ballots (v.processMsg cfg sender m).1 =
      (kind.ballots v).step Prod.fst (kind.castAction (kind.wellFormed cfg v sender m)) := by
  cases hmessage : kind.ofMessage m with
  | none =>
    have hwell : kind.wellFormed cfg v sender m = none := by simp [wellFormed, hmessage]
    rw [hwell]
    rcases View.processMsg_cases cfg v sender m with ⟨hsame, -⟩ | ⟨-, -, next, -, hnew⟩
    · exact h.same hsame
    · rw [hnew]
      exact h.other hmessage
  | some vote =>
    obtain ⟨hviewNumber, hsequence⟩ := h.ofMessage hmessage
    by_cases hwell : v.aborted = false ∧ kind.view vote = v.number ∧ sender ≠ cfg.selfID ∧
        kind.validVote sender vote = true
    · have hvote : kind.wellFormed cfg v sender m = some (sender, vote) := by
        simp [wellFormed, hmessage, hwell]
      obtain ⟨hopen, hview, hother, hvalid⟩ := hwell
      rw [hvote]
      rcases View.processMsg_cases cfg v sender m with
        ⟨hsame, hclosed⟩ | ⟨-, -, next, hseq, hnew⟩
      · rw [h.same hsame]
        have hnot : ¬ (kind.seq vote = v.proposalSequence ∨
            kind.seq vote = v.proposalSequence + 1) := by
          simpa [hopen, hviewNumber, hview, hsequence] using hclosed
        obtain ⟨hthis, hnext⟩ := not_or.mp hnot
        simp [castAction, Ballots.step, ballots, hthis, hnext]
      · rw [hnew, h.vote hmessage hother]
        rw [hsequence, Option.some.injEq] at hseq
        cases next with
        | false =>
          simp only [Bool.false_eq_true, if_false] at hseq ⊢
          simp [castAction, Ballots.step, ballots, hseq, ballot_registerVote hvalid]
        | true =>
          simp only [if_true] at hseq ⊢
          simp [castAction, Ballots.step, ballots, hseq, ballot_registerVote hvalid]
    · have hnone : kind.wellFormed cfg v sender m = none := by
        simp only [wellFormed, hmessage, hwell, if_false]
      rw [hnone]
      rcases View.processMsg_cases cfg v sender m with
        ⟨hsame, -⟩ | ⟨hopen, hview, next, -, hnew⟩
      · exact h.same hsame
      · rw [hnew]
        rw [hviewNumber, Option.some.injEq] at hview
        by_cases hself : sender = cfg.selfID
        · subst hself
          exact h.own hmessage
        · have hinvalid : kind.validVote sender vote = false := by
            simpa [hopen, hview, hself] using hwell
          rw [h.vote hmessage hself, registerVote_of_invalid hinvalid,
            registerVote_of_invalid hinvalid]
          cases next <;> rfl

theorem same_prepareVotes (h : View.SameBallots v v') :
    prepareVotes.ballots v' = prepareVotes.ballots v := by
  simp [ballots, prepareVotes, h.proposalSequence, h.prepares, h.nextPrepares]

theorem same_commitVotes (h : View.SameBallots v v') :
    commitVotes.ballots v' = commitVotes.ballots v := by
  simp [ballots, commitVotes, h.proposalSequence, h.commits, h.nextCommits]

theorem registers_prepareVotes : prepareVotes.Registers where
  same := same_prepareVotes
  ofMessage {m vote} hmessage := by
    cases m <;> cases hmessage
    exact ⟨rfl, rfl⟩
  vote {cfg v next sender m vote} hmessage hother := by
    cases m <;> cases hmessage
    simp only [View.processVote, hother, if_false]
    cases next <;> rfl
  own {cfg v next m vote} hmessage := by
    cases m <;> cases hmessage
    simp only [View.processVote, if_true]
  other {cfg v next sender m} hmessage := by
    cases m with
    | prePrepare pp => exact same_prepareVotes .processPrePrepare
    | prepare prepare => cases hmessage
    | commit commit =>
      simp only [View.processVote]
      split
      · rfl
      · split <;> rfl
    | _ => rfl

theorem registers_commitVotes : commitVotes.Registers where
  same := same_commitVotes
  ofMessage {m vote} hmessage := by
    cases m <;> cases hmessage
    exact ⟨rfl, rfl⟩
  vote {cfg v next sender m vote} hmessage hother := by
    cases m <;> cases hmessage
    simp only [View.processVote, hother, if_false]
    cases next <;> rfl
  own {cfg v next m vote} hmessage := by
    cases m <;> cases hmessage
    simp only [View.processVote, if_true]
  other {cfg v next sender m} hmessage := by
    cases m with
    | prePrepare pp => exact same_commitVotes .processPrePrepare
    | commit commit => cases hmessage
    | prepare prepare =>
      simp only [View.processVote]
      split
      · rfl
      · split <;> rfl
    | _ => rfl

theorem sameBallots_of_transition {event : ViewEvent} {outputs : List ViewOutput}
    (h : View.Transition cfg verifier checkpoint v event v' outputs) (hrecv : event ≠ .recv)
    (hprepare : event ≠ .prepareVote) (hcommit : ∀ i, event ≠ .commitVote i)
    (hfinish : event = .finish → ∀ signatures, v.pc ≠ .select (.processCommits signatures)) :
    View.SameBallots v v' := by
  cases h with
  | received => exact absurd rfl hrecv
  | otherPrepare => exact absurd rfl hprepare
  | countedPrepare => exact absurd rfl hprepare
  | otherCommit i => exact absurd rfl (hcommit i)
  | countedCommit => exact absurd rfl (hcommit _)
  | decided hpc => exact absurd hpc (hfinish rfl _)
  | _ => exact ⟨rfl, rfl, rfl, rfl, rfl⟩

theorem number_advance {input : ViewInput} (h : v.advance cfg input = some v') :
    v'.number = v.number := by
  cases input with
  | event verifier checkpoint event =>
    obtain ⟨⟨w, outputs⟩, hstep, rfl⟩ := Option.map_eq_some_iff.mp h
    exact (View.transition_of_step hstep).number
  | queue incMsgs => exact Option.some.inj h ▸ rfl
  | stop => exact Option.some.inj h ▸ rfl
  | decided =>
    simp only [View.advance, Option.ite_none_right_eq_some, Option.some.injEq] at h
    exact h.2 ▸ rfl
  | taken | awaits | synced =>
    simp only [View.advance] at h
    split at h
    · exact Option.some.inj h ▸ rfl
    · simp at h

theorem received_action {rest : List (Nat × Message)} (hqueue : v.incMsgs = (sender, m) :: rest) :
    kind.action cfg (v, .event verifier checkpoint .recv) =
      kind.castAction (kind.wellFormed cfg v sender m) := by
  simp [action, processed, View.received, hqueue]

theorem finish_action {signatures : List Signature}
    (hpc : v.pc = .select (.processCommits signatures)) :
    kind.action cfg (v, .event verifier checkpoint .finish) = .switch := by
  simp [action, hpc]

theorem action_of_place_none {event : ViewEvent} (hrecv : event ≠ .recv) (hfinish : event ≠ .finish)
    (h : kind.place event = none) :
    kind.action cfg (v, .event verifier checkpoint event) = .rest := by
  cases event with
  | recv => exact absurd rfl hrecv
  | finish => exact absurd rfl hfinish
  | _ => simp only [action, h]

theorem sameBallots_advance {input : ViewInput}
    (hinput : ∀ verifier checkpoint event, input ≠ .event verifier checkpoint event)
    (h : v.advance cfg input = some v') : View.SameBallots v v' := by
  cases input with
  | event verifier checkpoint event => exact absurd rfl (hinput verifier checkpoint event)
  | queue incMsgs => exact Option.some.inj h ▸ ⟨rfl, rfl, rfl, rfl, rfl⟩
  | stop => exact Option.some.inj h ▸ ⟨rfl, rfl, rfl, rfl, rfl⟩
  | decided =>
    simp only [View.advance, Option.ite_none_right_eq_some, Option.some.injEq] at h
    exact h.2 ▸ ⟨rfl, rfl, rfl, rfl, rfl⟩
  | taken | awaits | synced =>
    simp only [View.advance] at h
    split at h
    · exact Option.some.inj h ▸ ⟨rfl, rfl, rfl, rfl, rfl⟩
    · simp at h

theorem Registers.lawful (h : kind.Registers)
    (hplace : ∀ event, event ≠ .prepareVote → (∀ i, event ≠ .commitVote i) →
      kind.place event = none)
    (htake : ∀ {cfg : Config} {verifier : Verifier} {checkpoint : Decision} {v v' : View}
      {event : ViewEvent} {outputs : List ViewOutput},
      View.Transition cfg verifier checkpoint v event v' outputs →
      (event = .prepareVote ∨ ∃ i, event = .commitVote i) →
      kind.ballots v' =
        (kind.ballots v).step Prod.fst (kind.action cfg (v, .event verifier checkpoint event)))
    (hdecide : ∀ (v : View) (proposal : Proposal) (signatures : List Signature)
      (mine : Signature), kind.ballots (v.decide proposal signatures mine).1 =
        (kind.ballots v).step Prod.fst .switch) : kind.Lawful where
  recv := hplace .recv (by simp) (by simp)
  finish := hplace .finish (by simp) (by simp)
  advance {cfg v v' input} hadvance := by
    cases input with
    | event verifier checkpoint event =>
      obtain ⟨⟨w, outputs⟩, hstep, rfl⟩ := Option.map_eq_some_iff.mp hadvance
      have htransition := View.transition_of_step hstep
      by_cases hrecv : event = .recv
      · subst hrecv
        cases htransition with
        | @received _ _ _ rest hpc hqueue =>
          have hrest : kind.ballots { v with incMsgs := rest } = kind.ballots v :=
            h.same ⟨rfl, rfl, rfl, rfl, rfl⟩
          rw [received_action hqueue, ← hrest]
          exact h.processMsg
      · by_cases hfinish : event = .finish
        · subst hfinish
          cases htransition with
          | prepared hpc hproposal henough =>
            simp only [action, hpc]
            exact h.same ⟨rfl, rfl, rfl, rfl, rfl⟩
          | decided hpc hproposal hmine henough =>
            rw [finish_action hpc]
            exact hdecide _ _ _ _
        · by_cases htaken : event = .prepareVote ∨ ∃ i, event = .commitVote i
          · exact htake htransition htaken
          · obtain ⟨hprepare, hcommit⟩ := not_or.mp htaken
            rw [action_of_place_none hrecv hfinish
              (hplace event hprepare (not_exists.mp hcommit))]
            exact h.same (sameBallots_of_transition htransition hrecv hprepare
              (not_exists.mp hcommit) fun hsame => absurd hsame hfinish)
    | _ => exact h.same (sameBallots_advance (by simp) hadvance)

theorem lawful_prepareVotes : prepareVotes.Lawful := by
  refine registers_prepareVotes.lawful ?_ ?_ fun _ _ _ _ => rfl
  · intro event hprepare hcommit
    cases event with
    | prepareVote => exact absurd rfl hprepare
    | _ => rfl
  · intro cfg verifier checkpoint v v' event outputs htransition hevent
    rcases hevent with rfl | ⟨i, rfl⟩
    · cases htransition with
      | otherPrepare hpc hvotes =>
        simp [action, prepareVotes, ballots, ballot, Ballots.step, hvotes]
      | countedPrepare hpc hproposal hvotes hdigest =>
        simp [action, prepareVotes, ballots, ballot, Ballots.step, hvotes]
    · cases htransition <;> rfl

theorem lawful_commitVotes : commitVotes.Lawful := by
  refine registers_commitVotes.lawful ?_ ?_ fun _ _ _ _ => rfl
  · intro event hprepare hcommit
    cases event with
    | commitVote i => exact absurd rfl (hcommit i)
    | _ => rfl
  · intro cfg verifier checkpoint v v' event outputs htransition hevent
    rcases hevent with rfl | ⟨i, rfl⟩
    · cases htransition <;> rfl
    · cases htransition <;> rfl

theorem Lawful.countedOnce (hlawful : kind.Lawful) {v₀ : View} {inputs : List ViewInput}
    (hcurrent : kind.current v₀ = {}) (hnext : kind.next v₀ = {})
    (hrun : run (View.advance cfg) v₀ inputs = some v) :
    kind.CountedOnce cfg (trail (View.advance cfg) v₀ inputs) v := by
  have hstart : kind.Followed cfg [] v₀ := by
    refine ⟨?_, by simp⟩
    simp only [ballots, hcurrent, hnext]
    exact .start _ _
  have hfollowed : kind.Followed cfg ([] ++ trail (View.advance cfg) v₀ inputs) v :=
    run_trail_invariant (fun _ _ _ _ h hadvance =>
      h.step hlawful (number_advance hadvance) hadvance) hstart hrun
  exact hfollowed.countedOnce hlawful

end VoteKind

/--
Along every run of a view that starts without votes, each prepare and each commit that is taken
while a sequence is decided is for this sequence and this view and comes from another node, and
at most one of each sender is taken.  The first well-formed vote of each other node that the
view processes for its sequence, or had processed for it when it was in the sequence before, was
taken or waits in the vote set of the sequence, once, and those for the next sequence wait in
the next vote set.  If all messages are from the known nodes, a vote that is registered finds
room in its channel.
-/
theorem votes_counted_once {cfg : Config} {v₀ v : View} {inputs : List ViewInput}
    (hstart : v₀.NoVotes) (hrun : run (View.advance cfg) v₀ inputs = some v) :
    prepareVotes.CountedOnce cfg (trail (View.advance cfg) v₀ inputs) v ∧
      commitVotes.CountedOnce cfg (trail (View.advance cfg) v₀ inputs) v :=
  ⟨VoteKind.lawful_prepareVotes.countedOnce hstart.prepares hstart.nextPrepares hrun,
    VoteKind.lawful_commitVotes.countedOnce hstart.commits hstart.nextCommits hrun⟩

/-- The events of the view alone, with a verifier that accepts everything. -/
def viewInputs (events : List NodeEvent) : List ViewInput :=
  events.filterMap fun event =>
    match event with
    | .view event => some (.event acceptingVerifier {} event)
    | _ => none

def earlyPrepare : Prepare := { view := 0, seq := 2, digest := "other" }

theorem votes_counted_once_early :
    ∃ v, run (View.advance (clusterOfFour 2)) (View.fresh 1 1 0 0)
        (viewInputs (viewReceives 4 (.prepare earlyPrepare) ++ decideFirst)) = some v ∧
      v.proposalSequence = 2 ∧ v.prepares.votes = [(4, earlyPrepare)] ∧
      prepareVotes.CountedOnce (clusterOfFour 2)
        (trail (View.advance (clusterOfFour 2)) (View.fresh 1 1 0 0)
          (viewInputs (viewReceives 4 (.prepare earlyPrepare) ++ decideFirst))) v :=
  exists_of_isSome (by decide +kernel) fun hrun =>
    ⟨by decide +kernel, by decide +kernel, (votes_counted_once ⟨rfl, rfl, rfl, rfl⟩ hrun).1⟩

end SmartBFT
