import Mathlib.Data.Finset.SDiff
import Mathlib.Data.List.AList
import SmartBFT.Foundation.Run
import SmartBFT.Types

/-!
# The request pool

`internal/bft/requestpool.go`.  The pool keeps its requests in a list, oldest first, and a
map leads from the id of a request to its list element.  Requests that were removed are
remembered for a while, and are not submitted again.

A step is one section under the lock or one operation of the semaphore.  `Submit`, `Prune`
and `eraseFromDelSlice` go through several of them, and the state keeps the calls that are
under way.  A callback of a timer may run long after the timer was stopped or replaced, so
that the timers are left out: a callback can run at any time.
-/

namespace SmartBFT

/-- A list element; the address tells elements with equal requests apart. -/
structure PoolElement where
  address : Nat
  request : Bytes
  deriving DecidableEq, Repr

inductive SubmitError where
  | closed
  | tooBig
  | acquire
  | alreadyExists
  | alreadyProcessed
  deriving DecidableEq, Repr

inductive SubmitPc where
  /-- the pool was open -/
  | opened
  /-- the request was not known, and the call waits for a permit -/
  | waiting
  /-- the call holds a permit, and waits for the lock -/
  | acquired
  deriving DecidableEq, Repr

structure SubmitCall where
  request : Bytes
  pc : SubmitPc
  deriving DecidableEq, Repr

inductive TimeoutCall where
  | onRequestTimeout (request : Bytes) (info : RequestInfo)
  | onLeaderFwdRequestTimeout (request : Bytes) (info : RequestInfo)
  | onAutoRemoveTimeout (info : RequestInfo)
  deriving DecidableEq, Repr

def defaultMaxBytes : Nat := 100 * 1024

def defaultSizeOfDelElements : Nat := 1000

structure PoolConfig where
  /-- the `RequestID` of the inspector -/
  requestID : Bytes → RequestInfo
  queueSize : Nat

/-- `answers` and `timeouts` are what the pool has answered and called, newest first.
Nothing in the pool reads them. -/
structure Pool where
  requestMaxBytes : Nat
  fifo : List PoolElement := []
  existMap : AList (fun _ : RequestInfo => PoolElement) := ∅
  delMap : Finset RequestInfo := ∅
  delSlice : List RequestInfo := []
  sizeBytes : UInt64 := 0
  closed : Bool := false
  stopped : Bool := false
  submittedChan : Bool := false
  /-- the permits of the semaphore that are held -/
  permits : Nat := 0
  nextAddress : Nat := 0
  submits : List SubmitCall := []
  /-- what the calls of `Prune` have copied and not yet looked at -/
  prunes : List (List (RequestInfo × Bytes)) := []
  /-- the calls of `eraseFromDelSlice` that found the slice too long -/
  erasures : Nat := 0
  answers : List (Bytes × Option SubmitError) := []
  timeouts : List TimeoutCall := []
  panicked : Option String := none

inductive PoolEvent where
  /-- `Submit` starts, and looks whether the pool is closed -/
  | submit (request : Bytes)
  | check (call : Nat)
  | acquire (call : Nat)
  | acquireTimeout (call : Nat)
  | insert (call : Nat)
  | removeRequest (info : RequestInfo)
  | prune
  /-- `Prune` goes on with one of the requests it has copied -/
  | pruneNext (call entry : Nat) (rejected : Bool)
  | nextRequests (maxCount : Nat) (maxSizeBytes : UInt64) (check : Bool)
  /-- a range over a map goes through it in any order -/
  | close (order : List RequestInfo)
  | stopTimers
  | restartTimers
  | changeOptions (requestMaxBytes : Nat)
  | onRequestTO (request : Bytes) (info : RequestInfo)
  | onLeaderFwdRequestTO (request : Bytes) (info : RequestInfo)
  | onAutoRemoveTO (info : RequestInfo)
  /-- `eraseFromDelSlice` reads the length of the slice -/
  | readDelSlice
  | eraseFromDelSlice
  deriving DecidableEq, Repr

def newPool (requestMaxBytes : Nat) : Pool where
  requestMaxBytes := if requestMaxBytes = 0 then defaultMaxBytes else requestMaxBytes

namespace Pool

variable (cfg : PoolConfig) (p : Pool)

def panic (text : String) : Pool := { p with panicked := some text }

def release : Pool :=
  if p.permits = 0 then p.panic "semaphore: released more than held"
  else { p with permits := p.permits - 1 }

def checkLengths : Pool :=
  if p.existMap.entries.length ≠ p.fifo.length then
    p.panic "RequestPool map and list are of different length"
  else p

/-! ## Submit -/

/-- The check for a request that is in the pool or was removed, which `Submit` makes twice. -/
def known (info : RequestInfo) : Option SubmitError :=
  if info ∈ p.existMap then some .alreadyExists
  else if info ∈ p.delMap then some .alreadyProcessed
  else none

def answer (call : Nat) (request : Bytes) (result : Option SubmitError) : Pool :=
  { p with submits := p.submits.eraseIdx call, answers := (request, result) :: p.answers }

def proceed (call : Nat) (request : Bytes) (pc : SubmitPc) : Pool :=
  { p with submits := p.submits.set call ⟨request, pc⟩ }

def startSubmit (request : Bytes) : Pool :=
  if p.closed then { p with answers := (request, some .closed) :: p.answers }
  else { p with submits := p.submits ++ [⟨request, .opened⟩] }

def checkSubmit (call : Nat) (request : Bytes) : Pool :=
  if p.requestMaxBytes < request.length then p.answer call request (some .tooBig)
  else
    match p.known (cfg.requestID request) with
    | some error => p.answer call request (some error)
    | none => p.proceed call request .waiting

def pushBack (info : RequestInfo) (request : Bytes) : Pool :=
  let element : PoolElement := ⟨p.nextAddress, request⟩
  { p with
    fifo := p.fifo ++ [element]
    existMap := p.existMap.insert info element
    nextAddress := p.nextAddress + 1 }

/-- The last section of `Submit`, under the lock. -/
def insertSubmit (call : Nat) (request : Bytes) : Pool :=
  match p.known (cfg.requestID request) with
  | some error => (p.answer call request (some error)).release
  | none =>
    let p := ((p.answer call request none).pushBack (cfg.requestID request) request).checkLengths
    { p with
      submittedChan := true
      sizeBytes := p.sizeBytes + UInt64.ofNat request.length }

/-! ## Removal -/

def moveToDelSlice (info : RequestInfo) : Pool :=
  if info ∈ p.delMap then p
  else { p with delMap := insert info p.delMap, delSlice := p.delSlice ++ [info] }

def deleteRequest (element : PoolElement) (info : RequestInfo) : Pool :=
  let p := { p with
    fifo := p.fifo.filter fun other => other.address ≠ element.address
    existMap := p.existMap.erase info }
  (p.moveToDelSlice info).release.checkLengths

def removeRequest (info : RequestInfo) : Pool :=
  match p.existMap.lookup info with
  | none => p.moveToDelSlice info
  | some element =>
    let p := p.deleteRequest element info
    { p with sizeBytes := p.sizeBytes - UInt64.ofNat element.request.length }

def contains (info : RequestInfo) : Bool := (p.existMap.lookup info).isSome

def copyRequests : List (RequestInfo × Bytes) :=
  p.existMap.entries.map fun entry => (entry.1, entry.2.request)

def closeEntry (info : RequestInfo) : Pool :=
  match p.panicked, p.existMap.lookup info with
  | none, some element => p.deleteRequest element info
  | _, _ => p

def close (order : List RequestInfo) : Pool :=
  order.foldl closeEntry { p with closed := true }

/-- The second section of `eraseFromDelSlice`. -/
def eraseFromDelSlice : Pool :=
  let p := { p with erasures := p.erasures - 1 }
  if p.delSlice.length < defaultSizeOfDelElements then
    p.panic "slice bounds out of range"
  else
    let n := p.delSlice.length - defaultSizeOfDelElements
    { p with
      delMap := p.delMap \ (p.delSlice.take n).toFinset
      delSlice := p.delSlice.drop n }

/-! ## Batches -/

/-- The loop of `NextRequests` over the first `count` elements. -/
def collectBatch (maxSizeBytes : UInt64) :
    Nat → List PoolElement → List Bytes → UInt64 → List Bytes × UInt64 × Bool
  | 0, _, batch, totalSize => (batch, totalSize, false)
  | _ + 1, [], batch, totalSize => (batch, totalSize, false)
  | count + 1, element :: elements, batch, totalSize =>
    let reqLen := UInt64.ofNat element.request.length
    if maxSizeBytes < totalSize + reqLen then (batch, totalSize, true)
    else collectBatch maxSizeBytes count elements (batch ++ [element.request])
      (totalSize + reqLen)

def nextRequests (maxCount : Nat) (maxSizeBytes : UInt64) (check : Bool) : List Bytes × Bool :=
  if check ∧ p.existMap.entries.length < maxCount ∧ p.sizeBytes < maxSizeBytes then ([], false)
  else
    match collectBatch maxSizeBytes (min p.fifo.length maxCount) p.fifo [] 0 with
    | (batch, _, true) => (batch, true)
    | (batch, totalSize, false) =>
      (batch, decide (maxSizeBytes ≤ totalSize) || decide (batch.length = maxCount))

/-! ## Timeouts -/

/-- `onRequestTO` and `onLeaderFwdRequestTO` call the handler unless the request is gone or
the pool has stopped. -/
def timedOut (info : RequestInfo) (call : TimeoutCall) : Pool :=
  if info ∈ p.existMap ∧ ¬ p.closed ∧ ¬ p.stopped then
    { p with timeouts := call :: p.timeouts }
  else p

def autoRemove (info : RequestInfo) : Pool :=
  let removed := p.removeRequest info
  if p.contains info then
    { removed with timeouts := .onAutoRemoveTimeout info :: removed.timeouts }
  else removed

/-- `ChangeOptions`, as far as the pool reads the options itself. -/
def changeOptions (requestMaxBytes : Nat) : Pool :=
  if p.stopped then
    { p with requestMaxBytes :=
        if requestMaxBytes = 0 then defaultMaxBytes else requestMaxBytes }
  else p

/-- A call of `Submit` goes on from the given point. -/
def stepSubmit (call : Nat) (pc : SubmitPc) (next : Bytes → Pool) : Option Pool :=
  match p.submits[call]? with
  | none => none
  | some submit => if submit.pc = pc then some (next submit.request) else none

/-- `Prune` looks at one of the requests it has copied, and removes it if the predicate
returns an error. -/
def pruneNext (call entry : Nat) (rejected : Bool) : Option Pool :=
  match p.prunes[call]? with
  | none => none
  | some copied =>
    match copied[entry]? with
    | none => none
    | some (info, _) =>
      let p := { p with prunes := p.prunes.set call (copied.eraseIdx entry) }
      some (if rejected then p.removeRequest info else p)

def react : PoolEvent → Option Pool
  | .submit request => some (p.startSubmit request)
  | .check call => p.stepSubmit call .opened (p.checkSubmit cfg call)
  | .acquire call =>
    if p.permits < cfg.queueSize then
      p.stepSubmit call .waiting fun request =>
        { p.proceed call request .acquired with permits := p.permits + 1 }
    else none
  | .acquireTimeout call =>
    p.stepSubmit call .waiting fun request => p.answer call request (some .acquire)
  | .insert call => p.stepSubmit call .acquired (p.insertSubmit cfg call)
  | .removeRequest info => some (p.removeRequest info)
  | .prune => some { p with prunes := p.prunes ++ [p.copyRequests] }
  | .pruneNext call entry rejected => p.pruneNext call entry rejected
  | .nextRequests _ _ _ => some p
  | .close order => if order.isPerm p.existMap.keys then some (p.close order) else none
  | .stopTimers => some { p with stopped := true }
  | .restartTimers => some { p with stopped := false }
  | .changeOptions requestMaxBytes => some (p.changeOptions requestMaxBytes)
  | .onRequestTO request info => some (p.timedOut info (.onRequestTimeout request info))
  | .onLeaderFwdRequestTO request info =>
    some (p.timedOut info (.onLeaderFwdRequestTimeout request info))
  | .onAutoRemoveTO info => some (p.autoRemove info)
  | .readDelSlice =>
    some (if p.delSlice.length ≤ defaultSizeOfDelElements then p
      else { p with erasures := p.erasures + 1 })
  | .eraseFromDelSlice => if 0 < p.erasures then some p.eraseFromDelSlice else none

/-- A pool that has panicked takes no more steps. -/
def step (event : PoolEvent) : Option Pool :=
  if p.panicked.isSome then none else p.react cfg event

end Pool

end SmartBFT
