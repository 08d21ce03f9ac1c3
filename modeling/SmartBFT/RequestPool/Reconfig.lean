import SmartBFT.Configuration
import SmartBFT.RequestPool.Batch

/-!
# Batches across reconfigurations

The pool lives on when a node gets a new configuration (`pkg/consensus/consensus.go`): its
limit on the size of a request is changed, and a new batcher (`internal/bft/batcher.go`) asks
it for batches within the new limits.  Requests from before stay in the pool.  A full batch is
empty exactly if the first of them does not fit the new limits (`full_batch_nonempty_iff`).
-/

namespace SmartBFT

open SmartBFT.Foundation

/-! ## The batcher -/

structure BatchBuilder where
  maxMsgCount : Int64
  maxSizeBytes : UInt64
  deriving DecidableEq, Repr

def newBatchBuilder (maxMsgCount maxSizeBytes : UInt64) : BatchBuilder :=
  ⟨maxMsgCount.toInt64, maxSizeBytes⟩

inductive BatchSignal where
  | entered
  | submitted
  | timeout
  | closed
  deriving DecidableEq, Repr

inductive BatchOutcome where
  | waits
  | returns (batch : List Bytes)
  | panics
  deriving DecidableEq, Repr

namespace BatchBuilder

/-- `NextRequests` with the limits of the batcher.  A slice with a negative capacity cannot be
made. -/
def nextRequests (b : BatchBuilder) (p : Pool) (check : Bool) : Option (List Bytes × Bool) :=
  if b.maxMsgCount < 0 then none
  else some (p.nextRequests b.maxMsgCount.toInt.toNat b.maxSizeBytes check)

def nextBatch (b : BatchBuilder) (p : Pool) : BatchSignal → BatchOutcome
  | .entered | .submitted =>
    match b.nextRequests p true with
    | none => .panics
    | some (batch, true) => .returns batch
    | some (_, false) => .waits
  | .timeout =>
    match b.nextRequests p false with
    | none => .panics
    | some (batch, _) => .returns batch
  | .closed => .returns []

end BatchBuilder

/-! ## Configurations of a running node -/

def Configuration.poolConfig (c : Configuration) (requestID : Bytes → RequestInfo) :
    PoolConfig where
  requestID
  queueSize := c.requestPoolSize.toInt64.toInt.toNat

/-- The part of `Consensus` that batches depend on.  `configs` are the configurations it has
had, which nothing reads. -/
structure Consensus where
  config : Configuration
  pool : Pool
  batcher : BatchBuilder
  configs : List Configuration

inductive ConsensusEvent where
  | pool (event : PoolEvent)
  | reconfig (config : Configuration)
  deriving DecidableEq, Repr

namespace Consensus

def continueCreateComponents (c : Consensus) : Consensus :=
  { c with batcher := newBatchBuilder c.config.requestBatchMaxCount c.config.requestBatchMaxBytes }

def start (config : Configuration) : Option Consensus :=
  match config.validate with
  | .error _ => none
  | .ok () =>
    some (continueCreateComponents
      ⟨config, newPool config.requestMaxBytes.toNat, ⟨0, 0⟩, [config]⟩)

/-- A configuration that does not pass its checks makes the node panic.  The timers of the pool
are stopped before, and restarted after, by steps of the pool. -/
def reconfig (c : Consensus) (config : Configuration) : Option Consensus :=
  match config.validate with
  | .error _ => none
  | .ok () =>
    some (continueCreateComponents
      { c with
        config
        pool := c.pool.changeOptions config.requestMaxBytes.toNat
        configs := config :: c.configs })

def step (cfg : PoolConfig) (c : Consensus) : ConsensusEvent → Option Consensus
  | .pool (.changeOptions _) => none
  | .pool event => (c.pool.step cfg event).map fun pool => { c with pool }
  | .reconfig config => c.reconfig config

def HeadFits (c : Consensus) : Prop :=
  ∀ element ∈ c.pool.fifo.head?,
    UInt64.ofNat element.request.length ≤ c.config.requestBatchMaxBytes

end Consensus

namespace Pool

variable {cfg : PoolConfig} {p q : Pool}

structure Limited (bound : Nat) (p : Pool) : Prop where
  limit : p.requestMaxBytes ≤ bound
  pooled : ∀ element ∈ p.fifo, element.request.length ≤ bound
  checked : ∀ call ∈ p.submits, call.pc ≠ .opened → call.request.length ≤ bound

theorem nextRequests_empty_iff {maxCount : Nat} (hcount : maxCount ≠ 0) {maxSizeBytes : UInt64}
    (hsize : maxSizeBytes ≠ 0) :
    p.nextRequests maxCount maxSizeBytes false = ([], true) ↔
      ∃ element ∈ p.fifo.head?, maxSizeBytes < UInt64.ofNat element.request.length := by
  rw [nextRequests_eq]
  cases hfifo : p.fifo with
  | nil =>
    have hzero : ¬ maxSizeBytes ≤ 0 := by
      intro hle
      exact hsize (UInt64.le_antisymm hle UInt64.zero_le)
    simp [collectBatch, hzero, hcount.symm]
  | cons element elements =>
    obtain ⟨count, hmin⟩ : ∃ count, min (element :: elements).length maxCount = count + 1 :=
      Nat.exists_eq_succ_of_ne_zero (by simp; omega)
    rw [hmin]
    by_cases hbig : maxSizeBytes < UInt64.ofNat element.request.length
    · simp [collectBatch, hbig]
    · obtain ⟨taken, rest, stopped, -, hloop, -⟩ := @collectBatch_takes maxSizeBytes count
        elements [element.request] (UInt64.ofNat element.request.length)
        (UInt64.not_lt.mp hbig)
      simp [collectBatch, hbig, hloop]

namespace Limited

variable {bound : Nat}

theorem mono (h : Limited bound p) (hlimit : q.requestMaxBytes = p.requestMaxBytes)
    (hfifo : ∀ element ∈ q.fifo, element ∈ p.fifo)
    (hsubmits : ∀ call ∈ q.submits, call ∈ p.submits) : Limited bound q where
  limit := by rw [hlimit]; exact h.limit
  pooled element helement := h.pooled element (hfifo element helement)
  checked call hcall := h.checked call (hsubmits call hcall)

theorem proceed (h : Limited bound p) {call : Nat} {request : Bytes} (pc : SubmitPc)
    (hfits : request.length ≤ bound) : Limited bound (p.proceed call request pc) where
  limit := h.limit
  pooled := h.pooled
  checked other hother hpc := by
    rcases List.mem_or_eq_of_mem_set hother with hold | rfl
    · exact h.checked other hold hpc
    · exact hfits

theorem answer (h : Limited bound p) (call : Nat) (request : Bytes)
    (result : Option SubmitError) : Limited bound (p.answer call request result) :=
  h.mono rfl (fun _ => id) fun _ hother => List.mem_of_mem_eraseIdx hother

theorem removeRequest (h : Limited bound p) (hp : Consistent cfg p) (info : RequestInfo) :
    Limited bound (p.removeRequest info) := by
  cases hlookup : p.existMap.lookup info with
  | none =>
    simp only [Pool.removeRequest, hlookup, Pool.moveToDelSlice]
    split
    · exact h
    · exact h.mono rfl (fun _ => id) fun _ => id
  | some element =>
    simp only [Pool.removeRequest, hlookup, hp.deleteRequest_eq hlookup]
    exact h.mono rfl (fun _ => List.mem_of_mem_erase) fun _ => id

theorem step (h : Limited bound p) (hp : Consistent cfg p) {event : PoolEvent}
    (hevent : ∀ requestMaxBytes, event ≠ .changeOptions requestMaxBytes)
    (hstep : p.step cfg event = some q) : Limited bound q := by
  have hwhole := hstep
  simp only [Pool.step, hp.running, Option.isSome_none, Bool.false_eq_true, if_false] at hstep
  cases event with
  | submit request =>
    obtain rfl := Option.some.inj hstep
    unfold Pool.startSubmit
    split
    · exact h.mono rfl (fun _ => id) fun _ => id
    · refine ⟨h.limit, h.pooled, fun call hcall hpc => ?_⟩
      rcases List.mem_append.mp hcall with hold | hnew
      · exact h.checked call hold hpc
      · rw [List.mem_singleton.mp hnew] at hpc
        exact absurd rfl hpc
  | check call =>
    obtain ⟨request, hcall, rfl⟩ := stepSubmit_some hstep
    unfold Pool.checkSubmit
    split
    · exact h.answer _ _ _
    · rename_i hfits
      split
      · exact h.answer _ _ _
      · exact h.proceed .waiting ((Nat.not_lt.mp hfits).trans h.limit)
  | acquire call =>
    simp only [Pool.react, Option.ite_none_right_eq_some] at hstep
    obtain ⟨request, hcall, rfl⟩ := stepSubmit_some hstep.2
    have hfits := h.checked _ (List.mem_of_getElem? hcall) (by simp)
    exact { h.proceed .acquired hfits with }
  | acquireTimeout call =>
    simp only [Pool.react] at hstep
    obtain ⟨request, hcall, rfl⟩ := stepSubmit_some hstep
    exact h.answer _ _ _
  | insert call =>
    obtain ⟨request, hcall, rfl⟩ := stepSubmit_some hstep
    cases hknown : p.known (cfg.requestID request) with
    | some error =>
      rw [hp.insertSubmit_known hcall hknown]
      exact { h.answer call request (some error) with }
    | none =>
      have hfits := h.checked _ (List.mem_of_getElem? hcall) (by simp)
      rw [hp.insertSubmit_eq hcall hknown]
      refine ⟨h.limit, fun element helement => ?_, (h.answer call request none).checked⟩
      rcases List.mem_append.mp helement with hold | hnew
      · exact h.pooled element hold
      · rw [List.mem_singleton.mp hnew]
        exact hfits
  | removeRequest info => exact Option.some.inj hstep ▸ h.removeRequest hp info
  | pruneNext call entry rejected =>
    simp only [Pool.react, Pool.pruneNext] at hstep
    split at hstep
    · simp at hstep
    · split at hstep
      · simp at hstep
      · rename_i _ copied _ _ info _ _
        have hpruned : Consistent cfg
            { p with prunes := p.prunes.set call (copied.eraseIdx entry) } := { hp with }
        have hlimited : Limited bound
            { p with prunes := p.prunes.set call (copied.eraseIdx entry) } := { h with }
        obtain rfl := Option.some.inj hstep
        cases rejected with
        | false => exact hlimited
        | true => exact hlimited.removeRequest hpruned info
  | close order =>
    obtain ⟨-, hclosing⟩ := hp.close_move hwhole
    refine h.mono hclosing.requestMaxBytes ?_ ?_
    · simp [hclosing.fifo]
    · simp [hclosing.submits]
  | onAutoRemoveTO info =>
    obtain rfl := Option.some.inj hstep
    simp only [Pool.autoRemove]
    split
    · exact { h.removeRequest hp info with }
    · exact h.removeRequest hp info
  | eraseFromDelSlice =>
    simp only [Pool.react, Option.ite_none_right_eq_some, Option.some.injEq] at hstep
    obtain ⟨-, rfl⟩ := hstep
    simp only [Pool.eraseFromDelSlice]
    split <;> exact h.mono rfl (fun _ => id) fun _ => id
  | readDelSlice =>
    obtain rfl := Option.some.inj hstep
    split <;> exact h.mono rfl (fun _ => id) fun _ => id
  | onRequestTO request info | onLeaderFwdRequestTO request info =>
    obtain rfl := Option.some.inj hstep
    unfold Pool.timedOut
    split <;> exact h.mono rfl (fun _ => id) fun _ => id
  | changeOptions requestMaxBytes => exact absurd rfl (hevent requestMaxBytes)
  | prune | stopTimers | restartTimers | nextRequests _ _ _ =>
    exact Option.some.inj hstep ▸ h.mono rfl (fun _ => id) fun _ => id

theorem changeOptions (h : Limited bound p) {requestMaxBytes : Nat}
    (hpositive : requestMaxBytes ≠ 0) (hbound : requestMaxBytes ≤ bound) :
    Limited bound (p.changeOptions requestMaxBytes) := by
  unfold Pool.changeOptions
  split
  · exact ⟨by simpa [hpositive] using hbound, h.pooled, h.checked⟩
  · exact h

end Limited

end Pool

/-! ## The limits of the batcher -/

theorem toInt_toInt64 (count : UInt64) :
    count.toInt64.toInt =
      if count.toNat < 2 ^ 63 then (count.toNat : Int) else count.toNat - (2 ^ 64 : Nat) := by
  have hbits : count.toInt64.toInt = count.toBitVec.toInt := rfl
  have hnat : count.toBitVec.toNat = count.toNat := rfl
  rw [hbits, BitVec.toInt_eq_toNat_cond, hnat]
  split <;> split <;> omega

theorem newBatchBuilder_nextRequests {maxMsgCount : UInt64} (maxSizeBytes : UInt64) (p : Pool)
    (check : Bool) :
    (newBatchBuilder maxMsgCount maxSizeBytes).nextRequests p check =
      if 2 ^ 63 ≤ maxMsgCount.toNat then none
      else some (p.nextRequests maxMsgCount.toNat maxSizeBytes check) := by
  have hlt := maxMsgCount.toNat_lt
  have hzero : (0 : Int64).toInt = 0 := rfl
  have hvalue := toInt_toInt64 maxMsgCount
  simp only [BatchBuilder.nextRequests, newBatchBuilder, Int64.lt_iff_toInt_lt, hzero]
  by_cases hbig : 2 ^ 63 ≤ maxMsgCount.toNat
  · rw [if_neg (Nat.not_lt.mpr hbig)] at hvalue
    rw [if_pos (by omega), if_pos hbig]
  · rw [if_pos (Nat.not_le.mp hbig)] at hvalue
    rw [if_neg (by omega), if_neg hbig, hvalue, Int.toNat_natCast]

namespace Consensus

variable {cfg : PoolConfig} {c d : Consensus}

structure Sound (cfg : PoolConfig) (c : Consensus) : Prop where
  valid : c.config.Valid
  consistent : c.pool.Consistent cfg
  batcher : c.batcher =
    newBatchBuilder c.config.requestBatchMaxCount c.config.requestBatchMaxBytes
  /-- a bound on the requests that every configuration has kept is one on the pool -/
  limited : ∀ bound, (∀ config ∈ c.configs, config.requestMaxBytes.toNat ≤ bound) →
    c.pool.Limited bound

theorem toNat_ne_zero {n : UInt64} (h : n ≠ 0) : n.toNat ≠ 0 := by
  intro hzero
  exact h (UInt64.toNat_inj.mp hzero)

theorem sound_start (cfg : PoolConfig) {config : Configuration}
    (hstart : start config = some c) : c.Sound cfg := by
  unfold start at hstart
  split at hstart
  · simp at hstart
  · rename_i hvalidate
    have hvalid : config.Valid := ⟨hvalidate⟩
    obtain rfl := Option.some.inj hstart
    refine ⟨hvalid, Pool.consistent_newPool cfg _, rfl, fun bound hbound => ⟨?_, ?_, ?_⟩⟩
    · have hlimit := hbound config (by simp [continueCreateComponents])
      simpa [continueCreateComponents, newPool, toNat_ne_zero hvalid.requestMaxBytes_ne]
        using hlimit
    · simp [continueCreateComponents, newPool]
    · simp [continueCreateComponents, newPool]

theorem Sound.reconfig (h : c.Sound cfg) {config : Configuration}
    (hstep : c.reconfig config = some d) : d.Sound cfg := by
  unfold Consensus.reconfig at hstep
  split at hstep
  · simp at hstep
  · rename_i hvalidate
    have hvalid : config.Valid := ⟨hvalidate⟩
    obtain rfl := Option.some.inj hstep
    have hchange : c.pool.step cfg (.changeOptions config.requestMaxBytes.toNat) =
        some (c.pool.changeOptions config.requestMaxBytes.toNat) := by
      simp [Pool.step, h.consistent.running, Pool.react]
    refine ⟨hvalid, h.consistent.step hchange, rfl, fun bound hbound => ?_⟩
    obtain ⟨hlimit, hold⟩ := List.forall_mem_cons.mp hbound
    exact (h.limited bound hold).changeOptions (toNat_ne_zero hvalid.requestMaxBytes_ne) hlimit

theorem Sound.step (h : c.Sound cfg) {event : ConsensusEvent}
    (hstep : c.step cfg event = some d) : d.Sound cfg := by
  cases event with
  | reconfig config => exact h.reconfig hstep
  | pool event =>
    by_cases hchange : ∃ requestMaxBytes, event = .changeOptions requestMaxBytes
    · obtain ⟨requestMaxBytes, rfl⟩ := hchange
      simp [Consensus.step] at hstep
    · rw [not_exists] at hchange
      have hpool : ∃ pool, c.pool.step cfg event = some pool ∧ d = { c with pool } := by
        cases event with
        | changeOptions requestMaxBytes => exact absurd rfl (hchange requestMaxBytes)
        | _ =>
          simp only [Consensus.step, Option.map_eq_some_iff] at hstep
          obtain ⟨pool, hpool, rfl⟩ := hstep
          exact ⟨pool, hpool, rfl⟩
      obtain ⟨pool, hpool, rfl⟩ := hpool
      exact ⟨h.valid, h.consistent.step hpool, h.batcher, fun bound hbound =>
        (h.limited bound hbound).step h.consistent hchange hpool⟩

theorem Sound.headFits (h : c.Sound cfg)
    (hlimits : ∀ config ∈ c.configs, config.requestMaxBytes ≤ c.config.requestBatchMaxBytes) :
    c.HeadFits := by
  intro element helement
  have hlimited := h.limited c.config.requestBatchMaxBytes.toNat fun config hconfig =>
    UInt64.le_iff_toNat_le.mp (hlimits config hconfig)
  have hlength := hlimited.pooled element (List.mem_of_mem_head? helement)
  have hlt := c.config.requestBatchMaxBytes.toNat_lt
  rw [UInt64.le_iff_toNat_le, UInt64.toNat_ofNat', Nat.mod_eq_of_lt (by omega)]
  exact hlength

theorem nextRequests_of_full {p : Pool} {maxCount : Nat} {maxSizeBytes : UInt64} {check : Bool}
    {batch : List Bytes} (h : p.nextRequests maxCount maxSizeBytes check = (batch, true)) :
    p.nextRequests maxCount maxSizeBytes false = (batch, true) := by
  unfold Pool.nextRequests at h ⊢
  split at h
  · simp at h
  · simpa using h

theorem Sound.nonempty_iff (h : c.Sound cfg) :
    (∀ check batch, c.batcher.nextRequests c.pool check = some (batch, true) → batch ≠ []) ↔
      2 ^ 63 ≤ c.config.requestBatchMaxCount.toNat ∨ c.HeadFits := by
  have hempty := @Pool.nextRequests_empty_iff c.pool c.config.requestBatchMaxCount.toNat
    (toNat_ne_zero h.valid.requestBatchMaxCount_ne) c.config.requestBatchMaxBytes
    h.valid.requestBatchMaxBytes_ne
  rw [h.batcher]
  by_cases hcount : 2 ^ 63 ≤ c.config.requestBatchMaxCount.toNat
  · simp only [newBatchBuilder_nextRequests, hcount, if_true, true_or, iff_true]
    intro check batch hnone
    simp at hnone
  · simp only [newBatchBuilder_nextRequests, hcount, if_false, Option.some.injEq, false_or]
    constructor
    · intro hnonempty element helement
      by_contra hbig
      exact hnonempty false [] (hempty.mpr ⟨element, helement, UInt64.not_le.mp hbig⟩) rfl
    · rintro hfits check batch hfull rfl
      obtain ⟨element, helement, hbig⟩ := hempty.mp (nextRequests_of_full hfull)
      exact UInt64.not_le.mpr hbig (hfits element helement)

end Consensus

/--
In every state of a node, with any configurations that pass their checks and any steps of the
pool in between, a full batch of the current batcher is not empty exactly if the first request
fits a batch alone (or the count is so large that the call panics).  Then `NextBatch` returns
without waiting only to propose something.  The first request fits if no configuration so far
has admitted longer requests than the batch may hold now.
-/
theorem full_batch_nonempty_iff {requestID : Bytes → RequestInfo} {first : Configuration}
    {start c : Consensus} {events : List ConsensusEvent}
    (hstart : Consensus.start first = some start)
    (hrun : run (Consensus.step (first.poolConfig requestID)) start events = some c) :
    ((∀ check batch, c.batcher.nextRequests c.pool check = some (batch, true) → batch ≠ []) ↔
        2 ^ 63 ≤ c.config.requestBatchMaxCount.toNat ∨ c.HeadFits) ∧
      (c.HeadFits → c.batcher.nextBatch c.pool .entered ≠ .returns [] ∧
        c.batcher.nextBatch c.pool .submitted ≠ .returns []) ∧
      ((∀ config ∈ c.configs, config.requestMaxBytes ≤ c.config.requestBatchMaxBytes) →
        c.HeadFits) := by
  have hsound := run_invariant (fun _ _ _ h hstep => Consensus.Sound.step h hstep)
    (Consensus.sound_start (first.poolConfig requestID) hstart) hrun
  refine ⟨hsound.nonempty_iff, fun hfits => ?_, hsound.headFits⟩
  have hnonempty := hsound.nonempty_iff.mpr (.inr hfits)
  have hreturns : ∀ outcome, outcome = c.batcher.nextBatch c.pool .entered →
      outcome ≠ .returns [] := by
    rintro outcome houtcome rfl
    simp only [BatchBuilder.nextBatch] at houtcome
    split at houtcome
    · simp at houtcome
    · rename_i batch hfull
      rw [BatchOutcome.returns.injEq] at houtcome
      exact hnonempty true batch hfull houtcome.symm
    · simp at houtcome
  exact ⟨hreturns _ rfl, hreturns _ rfl⟩

def smallConfig (maxBytes : UInt64) : Configuration :=
  { Configuration.defaultConfig 1 with
    requestBatchMaxCount := 1
    requestBatchMaxBytes := maxBytes
    requestMaxBytes := maxBytes }

/-- A request of four bytes is submitted, and then the limit is changed. -/
def submitAndReconfig (maxBytes : UInt64) : List ConsensusEvent :=
  [.pool (.submit [1, 2, 3, 4]), .pool (.check 0), .pool (.acquire 0), .pool (.insert 0),
    .pool .stopTimers, .reconfig (smallConfig maxBytes), .pool .restartTimers]

theorem full_batch_nonempty_iff_larger :
    ∃ start c, Consensus.start (smallConfig 4) = some start ∧
      run (Consensus.step ((smallConfig 4).poolConfig bytePool.requestID)) start
        (submitAndReconfig 8) = some c ∧ c.HeadFits ∧
      ∀ check batch, c.batcher.nextRequests c.pool check = some (batch, true) → batch ≠ [] := by
  have hreached : (Consensus.start (smallConfig 4)).any (fun start =>
      decide ((run (Consensus.step ((smallConfig 4).poolConfig bytePool.requestID)) start
        (submitAndReconfig 8)).any (fun c => decide (∀ config ∈ c.configs,
          config.requestMaxBytes ≤ c.config.requestBatchMaxBytes)) = true)) = true := by
    decide +kernel
  obtain ⟨start, hstart, hrest⟩ := exists_of_any hreached
  obtain ⟨c, hrun, hlimits⟩ := exists_of_any hrest
  obtain ⟨hnonempty, -, hfits⟩ := full_batch_nonempty_iff hstart hrun
  exact ⟨start, c, hstart, hrun, hfits hlimits, hnonempty.mpr (.inr (hfits hlimits))⟩

/-- With a smaller limit the request does not fit a batch any more: `NextBatch` returns an
empty batch at once, again and again, while the request waits. -/
theorem full_batch_empty :
    ∃ start c, Consensus.start (smallConfig 4) = some start ∧
      run (Consensus.step ((smallConfig 4).poolConfig bytePool.requestID)) start
        (submitAndReconfig 2) = some c ∧
      c.pool.requests = [[1, 2, 3, 4]] ∧
      c.batcher.nextRequests c.pool true = some ([], true) ∧
      c.batcher.nextRequests c.pool false = some ([], true) ∧
      c.batcher.nextBatch c.pool .entered = .returns [] :=
  ⟨_, _, Option.eq_some_of_isSome (by decide +kernel),
    Option.eq_some_of_isSome (by decide +kernel), by decide +kernel⟩

end SmartBFT
