import SmartBFT.Blacklist

/-!
# The view

`internal/bft/view.go`.  The goroutine of a view is a state machine: `ViewPc`
says at which `select` or in which call it stands, and `View.step` takes one
of the cases that are ready there.  What the view does to the rest of the node
(broadcasts, records saved, complaints, sync requests) is returned as a list of
`ViewOutput`s in the order of the calls.

The queue `incMsgs` is kept because the `default` case of `View.run` is taken
only while it is empty.  A commit vote is taken from its vote set and verified
in one step: the goroutines of `voteVerifier` may finish in any order, so any
queued vote may be the next one.
-/

namespace SmartBFT

/-- The configuration of a node.  `digest` and `commitSignaturesDigest` are the
hashes of the source; `signProposal` and `sign` are `api.Signer`. -/
structure Config where
  selfID : Nat
  nodes : List Nat
  leaderRotation : Bool := false
  decisionsPerLeader : Nat := 0
  inMsgQSize : Nat := 200
  speedUpViewChange : Bool := false
  digest : Proposal → String
  commitSignaturesDigest : List Signature → Bytes
  signProposal : Proposal → Option (Wire PreparesFrom) → Signature
  sign : Wire ViewData → Bytes

namespace Config

def n (cfg : Config) : Nat := cfg.nodes.length

def quorum (cfg : Config) : Nat := (computeQuorum cfg.n).1

def f (cfg : Config) : Nat := (computeQuorum cfg.n).2

end Config

inductive Phase where
  | committed
  | proposed
  | prepared
  | abort
  deriving DecidableEq, Repr

/-- The `select` loops of the view, with their local variables. -/
inductive ViewLoop where
  | run
  | processProposal
  | processPrepares (voterIDs : List Nat)
  | processCommits (signatures : List Signature)
  deriving DecidableEq, Repr

inductive ViewPc where
  | select (loop : ViewLoop)
  /-- the `default` case of `run` was taken, `doPhase` has not yet begun -/
  | doPhase
  /-- in `Sync.Sync`, called by `discoverIfSyncNeeded` from the given loop -/
  | syncing (loop : ViewLoop)
  /-- in `Decider.Decide`, the decision has not been taken yet -/
  | deciding (decision : Decision) (requests : List RequestInfo)
  /-- in `Decider.Decide`, the decision was taken -/
  | delivering
  | ended
  deriving DecidableEq, Repr

structure View where
  number : Nat
  leaderID : Nat
  proposalSequence : Nat
  decisionsInView : Nat := 0
  phase : Phase := .committed
  lastVotedProposalByID : List (Nat × Commit) := []
  incMsgs : List (Nat × Message) := []
  myProposalSig : Option Signature := none
  inFlightProposal : Option Proposal := none
  inFlightRequests : List RequestInfo := []
  lastBroadcastSent : Option Message := none
  currPrepareSent : Option Message := none
  currCommitSent : Option Message := none
  prevPrepareSent : Option Message := none
  prevCommitSent : Option Message := none
  prePrepare : Option PrePrepare := none
  prepares : VoteSet Prepare := {}
  commits : VoteSet Commit := {}
  nextPrePrepare : Option PrePrepare := none
  nextPrepares : VoteSet Prepare := {}
  nextCommits : VoteSet Commit := {}
  blacklistSupported : Bool := false
  /-- `abortChan` is closed -/
  aborted : Bool := false
  pc : ViewPc := .select .run
  deriving DecidableEq, Repr

/-- What a view does to the rest of the node. -/
inductive ViewOutput where
  | broadcast (m : Message)
  | send (target : Nat) (m : Message)
  | save (m : SavedMessage)
  | complain (viewNum : Nat) (stopView : Bool)
  | sync
  | storeSequence (vs : ViewSequence)
  | panic (text : String)
  deriving DecidableEq, Repr

/-! ## Messages -/

/-- `none` stands for the `math.MaxUint64` of a message of another kind. -/
def Message.viewNumber : Message → Option Nat
  | .prePrepare m => some m.view
  | .prepare m => some m.view
  | .commit m => some m.view
  | _ => none

def Message.proposalSequence : Message → Option Nat
  | .prePrepare m => some m.seq
  | .prepare m => some m.seq
  | .commit m => some m.seq
  | _ => none

/-- The sender needs to match the signer of the inner signature. -/
def acceptCommits (sender : Nat) (commit : Commit) : Bool :=
  match commit.signature with
  | none => false
  | some signature => signature.signer == sender

def acceptPrepares (_ : Nat) (_ : Prepare) : Bool := true

/-! ## Verification of a proposal -/

/-- The auxiliary data of a commit: a message without ids has no bytes. -/
def PreparesFrom.marshal (prpf : PreparesFrom) : Option (Wire PreparesFrom) :=
  if prpf.ids = [] then none else some (.marshal prpf)

/-- `proto.Unmarshal(aux, prpf)`: no bytes give the zero value. -/
def unmarshalPreparesFrom (aux : Option (Wire PreparesFrom)) : Option PreparesFrom :=
  match aux with
  | none => some {}
  | some raw => raw.reading

/-- The loop of `verifyPrevCommitSignatures`: every signature has to be
accepted, also a repeated one. -/
def acknowledgePrepares (verifier : Verifier) (prevProp : Proposal) :
    List Signature → List (Nat × PreparesFrom) →
      Except Failure (List (Nat × PreparesFrom))
  | [], prepareAcknowledgements => .ok prepareAcknowledgements
  | sig :: sigs, prepareAcknowledgements =>
    match verifier.verifyConsenterSig sig prevProp with
    | none => .error (.error "failed verifying consenter signature")
    | some aux =>
      match unmarshalPreparesFrom aux with
      | none => .error (.error "failed unmarshaling auxiliary input")
      | some prpf =>
        acknowledgePrepares verifier prevProp sigs
          (setEntry prepareAcknowledgements sig.signer prpf)

def verifyPrevCommitSignatures (verifier : Verifier) (checkpoint : Decision)
    (prevCommitSignatures : List Signature) (currVerificationSeq : Nat) :
    Except Failure (List (Nat × PreparesFrom)) :=
  match checkpoint.proposal.unmarshalMetadata with
  | none =>
    .error (.panic "Couldn't unmarshal the previous persisted proposal metadata")
  | some _ =>
    if checkpoint.proposal.verificationSequence ≠ currVerificationSeq then .ok []
    else acknowledgePrepares verifier checkpoint.proposal prevCommitSignatures []

def witnessesBlacklisting (verifier : Verifier) (f : Nat)
    (myLastCommitSignatures : List Signature) : Bool :=
  decide (f < myLastCommitSignatures.countP fun sig =>
    (verifier.auxiliaryData sig.msg).isSome)

/-- Whether blacklisting is supported; a positive answer is remembered. -/
def View.blacklistingSupported (v : View) (verifier : Verifier) (f : Nat)
    (myLastCommitSignatures : List Signature) : Bool :=
  v.blacklistSupported || witnessesBlacklisting verifier f myLastCommitSignatures

/-- `verifyBlacklist` up to the point where the signatures are counted; the
answer is `some` when the remaining checks are skipped. -/
def View.verifyUnchangedBlacklist (cfg : Config) (verifier : Verifier)
    (checkpoint : Decision) (prevMD : ViewMetadata) (currVerificationSeq : Nat)
    (pendingBlacklist : List Nat) : Option (Except Failure Unit) :=
  if cfg.decisionsPerLeader = 0 then
    if 0 < pendingBlacklist.length then
      some (.error (.error "rotation is inactive but blacklist is not empty"))
    else some (.ok ())
  else if checkpoint.proposal.verificationSequence ≠ currVerificationSeq then
    if prevMD.blackList ≠ pendingBlacklist then
      some (.error (.error "blacklist changed during reconfiguration"))
    else some (.ok ())
  else if verifier.membershipChange then
    if prevMD.blackList ≠ pendingBlacklist then
      some (.error (.error "blacklist changed during membership change"))
    else some (.ok ())
  else none

/-- Returns the new value of `blacklistSupported` as well. -/
def View.verifyBlacklist (cfg : Config) (verifier : Verifier) (checkpoint : Decision)
    (v : View) (prevCommitSignatures : List Signature) (currVerificationSeq : Nat)
    (pendingBlacklist : List Nat)
    (prepareAcknowledgements : List (Nat × PreparesFrom)) :
    Except Failure Unit × Bool :=
  match checkpoint.proposal.unmarshalMetadata with
  | none =>
    (.error (.panic "Couldn't unmarshal the previous persisted proposal metadata"),
      v.blacklistSupported)
  | some prevMD =>
    match verifyUnchangedBlacklist cfg verifier checkpoint prevMD currVerificationSeq
        pendingBlacklist with
    | some result => (result, v.blacklistSupported)
    | none =>
      let supported := v.blacklistingSupported verifier cfg.f checkpoint.signatures
      if supported &&
          decide (prevCommitSignatures.length < checkpoint.signatures.length) then
        (.error (.error "too few previous commits are included in pre-prepare"),
          supported)
      else
        let bl : Blacklist := {
          currentLeader := v.leaderID
          leaderRotation := decide (0 < cfg.decisionsPerLeader)
          n := cfg.n
          prevMD := prevMD
          decisionsPerLeader := cfg.decisionsPerLeader
          preparesFrom := prepareAcknowledgements
          f := cfg.f
          nodes := cfg.nodes
          currView := v.number }
        match bl.computeUpdate with
        | none => (.error (.panic "all nodes are blacklisted"), supported)
        | some expectedBlacklist =>
          if pendingBlacklist ≠ expectedBlacklist then
            (.error (.error "proposed blacklist differs from expected blacklist"),
              supported)
          else (.ok (), supported)

/-- The checks of `verifyProposal` on the metadata alone. -/
def View.verifyMetadata (v : View) (verifier : Verifier) (proposal : Proposal)
    (md : ViewMetadata) : Except Failure Unit :=
  if md.viewId ≠ v.number then .error (.error "invalid view number")
  else if md.latestSequence ≠ v.proposalSequence then
    .error (.error "invalid proposal sequence")
  else if md.decisionsInView ≠ v.decisionsInView then
    .error (.error "invalid decisions in view")
  else if proposal.verificationSequence ≠ verifier.verificationSequence then
    .error (.error "verification sequence mismatch")
  else .ok ()

def View.verifyProposal (cfg : Config) (verifier : Verifier) (checkpoint : Decision)
    (v : View) (proposal : Proposal) (prevCommits : List Signature) :
    Except Failure (List RequestInfo) × Bool :=
  let failed (failure : Failure) := (Except.error failure, v.blacklistSupported)
  match verifier.verifyProposal proposal with
  | none => failed (.error "bad proposal")
  | some requests =>
    match proposal.unmarshalMetadata with
    | none => failed (.error "unable to unmarshal the proposal metadata")
    | some md =>
      match v.verifyMetadata verifier proposal md with
      | .error failure => failed failure
      | .ok () =>
        let expectedSeq := verifier.verificationSequence
        match verifyPrevCommitSignatures verifier checkpoint prevCommits
            expectedSeq with
        | .error failure => failed failure
        | .ok acks =>
          match v.verifyBlacklist cfg verifier checkpoint prevCommits expectedSeq
              md.blackList acks with
          | (.error failure, supported) => (.error failure, supported)
          | (.ok (), supported) =>
            if cfg.commitSignaturesDigest prevCommits ≠
                  md.prevCommitSignatureDigest ∧ 0 < cfg.decisionsPerLeader then
              (.error (.error "prev commit signatures received from leader mismatches the metadata digest"),
                supported)
            else (.ok requests, supported)

/-! ## Incoming messages -/

namespace View

variable (cfg : Config) (verifier : Verifier) (checkpoint : Decision) (v : View)

def handlePrevSeqMessage (sender : Nat) (m : Message) : List ViewOutput :=
  match m with
  | .prePrepare _ => []
  | .commit commit =>
    if commit.assist then [] else (v.prevCommitSent.map (.send sender)).toList
  | .prepare prepare =>
    if prepare.assist then [] else (v.prevPrepareSent.map (.send sender)).toList
  | _ => []

def countVotes (votes : List (Nat × Commit)) (vote : Commit) : Nat :=
  votes.countP fun entry =>
    decide (entry.2.digest = vote.digest ∧ entry.2.view = vote.view ∧
      entry.2.seq = vote.seq)

/-- The vote is for another view or a sequence that this node has missed. -/
def missed (vote : Commit) : Bool :=
  decide (v.number ≤ vote.view ∧
    ¬ (vote.seq ≤ v.proposalSequence ∧ vote.view = v.number))

def stop : View := { v with aborted := true }

def discoverIfSyncNeeded (sender : Nat) (m : Message) : View × List ViewOutput :=
  match m with
  | .commit commit =>
    let votes := setEntry v.lastVotedProposalByID sender commit
    let v := { v with lastVotedProposalByID := votes }
    let threshold := cfg.f + 1
    if votes.length < threshold then (v, [])
    else if votes.any fun entry =>
        decide (threshold ≤ countVotes votes entry.2) && v.missed entry.2 then
      (v.stop, [.sync])
    else (v, [])
  | _ => (v, [])

def processPrePrepare (pp : PrePrepare) (msgForNextProposal : Bool) (sender : Nat) : View :=
  if pp.proposal.isNone then v
  else if sender ≠ v.leaderID then v
  else if msgForNextProposal then
    { v with nextPrePrepare := v.nextPrePrepare.or (some pp) }
  else { v with prePrepare := v.prePrepare.or (some pp) }

/-- A message of this view for this sequence or the next one. -/
def processVote (msgForNextProposal : Bool) (sender : Nat) (m : Message) : View :=
  match m with
  | .prePrepare pp => v.processPrePrepare pp msgForNextProposal sender
  | .prepare prepare =>
    if sender = cfg.selfID then v
    else if msgForNextProposal then
      { v with nextPrepares := v.nextPrepares.registerVote acceptPrepares sender prepare }
    else { v with prepares := v.prepares.registerVote acceptPrepares sender prepare }
  | .commit commit =>
    if sender = cfg.selfID then v
    else if msgForNextProposal then
      { v with nextCommits := v.nextCommits.registerVote acceptCommits sender commit }
    else { v with commits := v.commits.registerVote acceptCommits sender commit }
  | _ => v

/-- A message of another view from the leader: complain, sync if the leader is
ahead, and stop. -/
def processWrongView (m : Message) : View × List ViewOutput :=
  let ahead :=
    match m.viewNumber with
    | none => true
    | some msgViewNum => decide (v.number < msgViewNum)
  (v.stop, .complain v.number false :: if ahead then [.sync] else [])

def processMsg (sender : Nat) (m : Message) : View × List ViewOutput :=
  if v.aborted then (v, [])
  else if m.viewNumber ≠ some v.number then
    if sender ≠ v.leaderID then v.discoverIfSyncNeeded cfg sender m
    else v.processWrongView m
  else if m.proposalSequence = some (v.proposalSequence - 1) ∧
      0 < v.proposalSequence then
    (v, v.handlePrevSeqMessage sender m)
  else if m.proposalSequence = some v.proposalSequence then
    (v.processVote cfg false sender m, [])
  else if m.proposalSequence = some (v.proposalSequence + 1) then
    (v.processVote cfg true sender m, [])
  else v.discoverIfSyncNeeded cfg sender m

/-! ## The phases -/

def createPrepare (seq : Nat) (proposal : Proposal) : Prepare where
  seq := seq
  view := v.number
  digest := cfg.digest proposal

/-- `processProposal` before its loop. -/
def beginProposal : View :=
  { v with
    prevPrepareSent := v.currPrepareSent
    prevCommitSent := v.currCommitSent
    currPrepareSent := none
    currCommitSent := none
    inFlightProposal := none
    inFlightRequests := []
    lastBroadcastSent := none
    pc := .select .processProposal }

/-- `processProposal` after its loop, for a proposal that was verified. -/
def acceptProposal (pp : PrePrepare) (proposal : Proposal) (requests : List RequestInfo) :
    View × List ViewOutput :=
  let prepare := v.createPrepare cfg v.proposalSequence proposal
  ({ v with
      lastBroadcastSent := some (.prepare prepare)
      currPrepareSent := some (.prepare { prepare with assist := true })
      inFlightProposal := some proposal
      inFlightRequests := requests
      phase := .proposed
      pc := .select .run },
    .save (.proposedRecord pp prepare) ::
      if cfg.selfID = v.leaderID then [.broadcast (.prePrepare pp)] else [])

/-- `processProposal` after its loop, for a proposal that was not. -/
def rejectProposal : View × List ViewOutput :=
  ({ v.stop with phase := .abort, pc := .select .run },
    [.complain v.number false, .sync])

def takeProposal (pp : PrePrepare) : View × List ViewOutput :=
  match pp.proposal with
  | none => (v, [.panic "nil proposal"])
  | some proposal =>
    let v := { v with prePrepare := none }
    match v.verifyProposal cfg verifier checkpoint proposal
        pp.prevCommitSignatures with
    | (.error (.panic text), supported) =>
      ({ v with blacklistSupported := supported }, [.panic text])
    | (.error (.error _), supported) =>
      { v with blacklistSupported := supported }.rejectProposal
    | (.ok requests, supported) =>
      { v with blacklistSupported := supported }.acceptProposal cfg pp proposal
        requests

/-- `processPrepares` after its loop. -/
def finishPrepares (voterIDs : List Nat) (proposal : Proposal) : View × List ViewOutput :=
  let signature := cfg.signProposal proposal (PreparesFrom.marshal { ids := voterIDs })
  let commit : Commit := {
    view := v.number
    seq := v.proposalSequence
    digest := cfg.digest proposal
    signature := some signature }
  ({ v with
      myProposalSig := some signature
      currCommitSent := some (.commit { commit with assist := true })
      lastBroadcastSent := some (.commit commit)
      phase := .prepared
      pc := .select .run },
    [.save (.commit commit)])

def startNextSeq : View :=
  { v with
    proposalSequence := v.proposalSequence + 1
    decisionsInView := v.decisionsInView + 1
    prePrepare := v.nextPrePrepare
    nextPrePrepare := none
    prepares := v.nextPrepares
    nextPrepares := {}
    commits := v.nextCommits
    nextCommits := {} }

/-- `prepared` from the end of `processCommits` to the call of the decider. -/
def decide (proposal : Proposal) (signatures : List Signature) (mine : Signature) :
    View × List ViewOutput :=
  ({ v.startNextSeq with
      pc := .deciding ⟨proposal, signatures ++ [mine]⟩ v.inFlightRequests },
    [.storeSequence ⟨true, v.proposalSequence⟩])

def decided : View := { v with phase := .committed, pc := .select .run }

end View

/-! ## Proposing -/

def collectPreparesFrom (verifier : Verifier) :
    List Signature → List (Nat × PreparesFrom) → Option (List (Nat × PreparesFrom))
  | [], preparesFrom => some preparesFrom
  | sig :: sigs, preparesFrom =>
    match unmarshalPreparesFrom (verifier.auxiliaryData sig.msg) with
    | none => none
    | some prpf =>
      collectPreparesFrom verifier sigs (setEntry preparesFrom sig.signer prpf)

namespace View

variable (cfg : Config) (verifier : Verifier) (checkpoint : Decision) (v : View)

def updatedBlacklist (prevSigs : List Signature) (prevMD : ViewMetadata) : Option (List Nat) :=
  if cfg.decisionsPerLeader = 0 then some []
  else
    match collectPreparesFrom verifier prevSigs [] with
    | none => none
    | some preparesFrom =>
      Blacklist.computeUpdate {
        currentLeader := v.leaderID
        leaderRotation := Decidable.decide (0 < cfg.decisionsPerLeader)
        currView := v.number
        prevMD := prevMD
        nodes := cfg.nodes
        f := cfg.f
        n := cfg.n
        preparesFrom := preparesFrom
        decisionsPerLeader := cfg.decisionsPerLeader }

/-- `GetMetadata`; `none` is a panic. -/
def getMetadata : Option ViewMetadata :=
  match checkpoint.proposal.unmarshalMetadata with
  | none => none
  | some prevMD =>
    let blackList :=
      if verifier.verificationSequence = checkpoint.proposal.verificationSequence ∧
          verifier.membershipChange = false then
        v.updatedBlacklist cfg verifier checkpoint.signatures prevMD
      else some prevMD.blackList
    blackList.map fun blackList => {
      viewId := v.number
      latestSequence := v.proposalSequence
      decisionsInView := v.decisionsInView
      blackList := blackList
      prevCommitSignatureDigest :=
        if cfg.decisionsPerLeader = 0 then []
        else cfg.commitSignaturesDigest checkpoint.signatures }

def proposeMessage (proposal : Proposal) : Message :=
  .prePrepare {
    view := v.number
    seq := v.proposalSequence
    proposal := some proposal
    prevCommitSignatures :=
      if 0 < cfg.decisionsPerLeader then checkpoint.signatures else [] }

end View

/-! ## One step of the goroutine -/

/-- The cases of the `select` statements, and the calls between them.
`handleMessage` is the only one that another goroutine takes. -/
inductive ViewEvent where
  | handleMessage (sender : Nat) (m : Message)
  | abort
  | recv
  | default
  | doPhase
  | prePrepare
  | prepareVote
  | commitVote (i : Nat)
  | finish
  deriving DecidableEq, Repr

namespace View

variable (cfg : Config) (verifier : Verifier) (checkpoint : Decision) (v : View)

def handleMessage (sender : Nat) (m : Message) : Option View :=
  if v.aborted ∨ cfg.inMsgQSize ≤ v.incMsgs.length then none
  else some { v with incMsgs := v.incMsgs ++ [(sender, m)] }

/-- `case <-v.abortChan`. -/
def takeAbort : Option (View × List ViewOutput) :=
  if !v.aborted then none
  else
    match v.pc with
    | .select .run =>
      some ({ v with pc := .ended }, [.storeSequence ⟨false, v.proposalSequence⟩])
    | .select _ => some ({ v with phase := .abort, pc := .select .run }, [])
    | _ => none

/-- `case msg := <-v.incMsgs`. -/
def takeMsg : Option (View × List ViewOutput) :=
  match v.pc, v.incMsgs with
  | .select _, (sender, m) :: rest =>
    some ({ v with incMsgs := rest }.processMsg cfg sender m)
  | _, _ => none

/-- The `default` case of `run`. -/
def takeDefault : Option (View × List ViewOutput) :=
  if v.pc = .select .run ∧ v.aborted = false ∧ v.incMsgs = [] then
    some ({ v with pc := .doPhase }, [])
  else none

def broadcastLast (loop : ViewLoop) : View × List ViewOutput :=
  match v.lastBroadcastSent with
  | none => (v, [.panic "nil message"])
  | some m => ({ v with pc := .select loop }, [.broadcast m])

def doPhase : Option (View × List ViewOutput) :=
  if v.pc ≠ .doPhase then none
  else
    match v.phase with
    | .proposed => some (v.broadcastLast (.processPrepares []))
    | .prepared => some (v.broadcastLast (.processCommits []))
    | .committed => some (v.beginProposal, [])
    | .abort => some ({ v with pc := .select .run }, [])

/-- `case msg := <-v.prePrepare`. -/
def takePrePrepare : Option (View × List ViewOutput) :=
  match v.pc, v.prePrepare with
  | .select .processProposal, some pp => some (v.takeProposal cfg verifier checkpoint pp)
  | _, _ => none

/-- `case vote := <-v.prepares.votes`. -/
def takePrepare : Option (View × List ViewOutput) :=
  match v.pc, v.inFlightProposal, v.prepares.votes with
  | .select (.processPrepares voterIDs), some proposal, (sender, prepare) :: votes =>
    if voterIDs.length < cfg.quorum - 1 then
      let v := { v with prepares := { v.prepares with votes := votes } }
      if prepare.digest ≠ cfg.digest proposal then some (v, [])
      else some ({ v with pc := .select (.processPrepares (voterIDs ++ [sender])) }, [])
    else none
  | _, _, _ => none

/-- `verifyVote`: the signature of a commit that is accepted. -/
def verifyVote (proposal : Proposal) (commit : Commit) : Option Signature :=
  if commit.digest ≠ cfg.digest proposal then none
  else commit.signature.filter fun signature => verifier.accepts signature proposal

/-- `case vote := <-v.commits.votes`, its verification, and
`case signature := <-signatureCollector.validVotes`. -/
def takeCommit (i : Nat) : Option (View × List ViewOutput) :=
  match v.pc, v.inFlightProposal, v.commits.votes[i]? with
  | .select (.processCommits signatures), some proposal, some (_, commit) =>
    if signatures.length < cfg.quorum - 1 then
      let v := { v with commits := { v.commits with votes := v.commits.votes.eraseIdx i } }
      match verifyVote cfg verifier proposal commit with
      | none => some (v, [])
      | some signature =>
        some ({ v with pc := .select (.processCommits (signatures ++ [signature])) }, [])
    else none
  | _, _, _ => none

def finish : Option (View × List ViewOutput) :=
  match v.pc, v.inFlightProposal, v.myProposalSig with
  | .select (.processPrepares voterIDs), some proposal, _ =>
    if voterIDs.length < cfg.quorum - 1 then none
    else some (v.finishPrepares cfg voterIDs proposal)
  | .select (.processCommits signatures), some proposal, some mine =>
    if signatures.length < cfg.quorum - 1 then none
    else some (v.decide proposal signatures mine)
  | _, _, _ => none

def step : ViewEvent → Option (View × List ViewOutput)
  | .handleMessage sender m => (v.handleMessage cfg sender m).map fun v => (v, [])
  | .abort => v.takeAbort
  | .recv => v.takeMsg cfg
  | .default => v.takeDefault
  | .doPhase => v.doPhase
  | .prePrepare => v.takePrePrepare cfg verifier checkpoint
  | .prepareVote => v.takePrepare cfg
  | .commitVote i => v.takeCommit cfg verifier i
  | .finish => v.finish cfg

end View

end SmartBFT
