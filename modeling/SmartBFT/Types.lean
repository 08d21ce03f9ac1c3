import Mathlib.Data.List.Basic

/-!
# Messages, records and proposals

The data of `smartbftprotos/messages.proto` and `pkg/types/types.go`.  View
numbers, sequences and node identifiers are `uint64` in the source and
natural numbers here: a sum that the code forms adds one to a counter of this
node or to the sequence of a decision, far below `2 ^ 64`.  The exception is the
sequence after the last decision of another node, which need not be a decision at
all: `nextSequence` wraps.

The two proposal types of the source (`protos.Proposal` with a `uint64`
verification sequence and `types.Proposal` with an `int64` one) carry the
same fields and are converted back and forth by casts; they are one type
here, as are the two signature types.  `proto.Equal` is equality.
-/

namespace SmartBFT

abbrev Bytes := List UInt8

/--
A byte string as the protobuf runtime sees it.  `reading` is what
`proto.Unmarshal` makes of it, `none` when it returns an error.  `variant`
tells apart the byte strings with one reading (field order, unknown fields);
`0` is the one that `proto.Marshal` writes.
-/
structure Wire (α : Type) where
  reading : Option α
  variant : Nat := 0
  deriving DecidableEq, Repr

def Wire.marshal {α : Type} (value : α) : Wire α := ⟨some value, 0⟩

@[simp] theorem Wire.reading_marshal {α : Type} (value : α) :
    (Wire.marshal value).reading = some value := rfl

def nextSequence (sequence : Nat) : Nat := (sequence + 1) % UInt64.size

theorem nextSequence_le (sequence : Nat) : nextSequence sequence ≤ sequence + 1 :=
  Nat.mod_le _ _

theorem nextSequence_of_lt {sequence : Nat} (h : sequence + 1 < UInt64.size) :
    nextSequence sequence = sequence + 1 := Nat.mod_eq_of_lt h

structure ViewMetadata where
  viewId : Nat := 0
  latestSequence : Nat := 0
  decisionsInView : Nat := 0
  blackList : List Nat := []
  prevCommitSignatureDigest : Bytes := []
  deriving DecidableEq, Repr

/-- A `nil` byte string and an empty one are both `none` here: a proto3
message does not tell them apart. -/
structure Proposal where
  header : Bytes := []
  payload : Bytes := []
  metadata : Option (Wire ViewMetadata) := none
  verificationSequence : Nat := 0
  deriving DecidableEq, Repr

/-- `proto.Unmarshal(p.Metadata, md)`: no bytes give the zero value. -/
def Proposal.unmarshalMetadata (p : Proposal) : Option ViewMetadata :=
  match p.metadata with
  | none => some {}
  | some raw => raw.reading

/-- The metadata of the proposal is set and well formed, and reads `md`. -/
def Proposal.HasMetadata (p : Proposal) (md : ViewMetadata) : Prop :=
  ∃ raw, p.metadata = some raw ∧ raw.reading = some md

theorem Proposal.HasMetadata.unmarshal {p : Proposal} {md : ViewMetadata}
    (h : p.HasMetadata md) : p.unmarshalMetadata = some md := by
  obtain ⟨raw, hraw, hread⟩ := h
  simp [unmarshalMetadata, hraw, hread]

theorem Proposal.HasMetadata.unique {p : Proposal} {md md' : ViewMetadata}
    (h : p.HasMetadata md) (h' : p.HasMetadata md') : md = md' := by
  have := h.unmarshal.symm.trans h'.unmarshal
  simpa using this

def Proposal.Positive (p : Proposal) : Prop :=
  ∃ md, p.unmarshalMetadata = some md ∧ 0 < md.latestSequence

structure Signature where
  signer : Nat
  value : Bytes := []
  msg : Bytes := []
  deriving DecidableEq, Repr

structure Decision where
  proposal : Proposal := {}
  signatures : List Signature := []
  deriving DecidableEq, Repr

structure RequestInfo where
  clientID : String
  id : String
  deriving DecidableEq, Repr

structure ViewAndSeq where
  view : Nat
  seq : Nat
  deriving DecidableEq, Repr

structure PrePrepare where
  view : Nat
  seq : Nat
  proposal : Option Proposal
  prevCommitSignatures : List Signature := []
  deriving DecidableEq, Repr

structure Prepare where
  view : Nat
  seq : Nat
  digest : String
  assist : Bool := false
  deriving DecidableEq, Repr

structure Commit where
  view : Nat
  seq : Nat
  digest : String
  signature : Option Signature
  assist : Bool := false
  deriving DecidableEq, Repr

structure PreparesFrom where
  ids : List Nat := []
  deriving DecidableEq, Repr

structure ViewData where
  nextView : Nat
  lastDecision : Option Proposal := none
  lastDecisionSignatures : List Signature := []
  inFlightProposal : Option Proposal := none
  inFlightPrepared : Bool := false
  deriving DecidableEq, Repr

def ViewData.lastSequence (vd : ViewData) : Option Nat :=
  vd.lastDecision.bind fun lastDecision =>
    lastDecision.unmarshalMetadata.map ViewMetadata.latestSequence

structure SignedViewData where
  rawViewData : Wire ViewData
  signer : Nat
  signature : Bytes := []
  deriving DecidableEq, Repr

/-- The messages of the protocol proper; heartbeats and state transfer have
components of their own. -/
inductive Message where
  | prePrepare (m : PrePrepare)
  | prepare (m : Prepare)
  | commit (m : Commit)
  | viewChange (nextView : Nat)
  | viewData (m : SignedViewData)
  | newView (signedViewData : List SignedViewData)
  deriving DecidableEq, Repr

/-- What `PersistedState.Save` appends to the write-ahead log. -/
inductive SavedMessage where
  | proposedRecord (prePrepare : PrePrepare) (prepare : Prepare)
  | commit (m : Commit)
  | newView (md : ViewMetadata)
  | viewChange (nextView : Nat)
  deriving DecidableEq, Repr

/-- Why a function of the source does not return: it panics, or it returns an
error with the given text. -/
inductive Failure where
  | panic (text : String)
  | error (text : String)
  deriving DecidableEq, Repr

/--
What the application supplies to check proposals and signatures
(`api.Verifier` and `api.MembershipNotifier`).  `verifyConsenterSig` returns
the auxiliary data of an accepted signature; no bytes at all are `none`.
-/
structure Verifier where
  verifyProposal : Proposal → Option (List RequestInfo)
  verifyConsenterSig : Signature → Proposal → Option (Option (Wire PreparesFrom))
  verifySignature : SignedViewData → Bool
  verificationSequence : Nat
  auxiliaryData : Bytes → Option (Wire PreparesFrom)
  membershipChange : Bool

def Verifier.accepts (verifier : Verifier) (sig : Signature) (p : Proposal) : Bool :=
  (verifier.verifyConsenterSig sig p).isSome

end SmartBFT
