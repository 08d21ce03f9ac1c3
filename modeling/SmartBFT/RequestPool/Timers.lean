import SmartBFT.RequestPool.Transition

/-!
# The timers of the request pool

A request in the pool goes through a chain of timeouts (`internal/bft/requestpool.go`): it is
forwarded to the leader, then the leader is complained about, then the request is removed.
Each timer starts the next one, `StopTimers` and a removal stop the timer of a request, and
`RestartTimers` puts a new chain in the place of the old one.  To stop a timer does nothing
about a callback that has been started and waits for the lock.

`TimedMove` is what a step does to the timers.
-/

namespace SmartBFT

open SmartBFT.Foundation

/-- What a timer calls, with what the closure holds. -/
inductive Callback where
  | onRequestTO (request : Bytes) (info : RequestInfo)
  | onLeaderFwdRequestTO (request : Bytes) (info : RequestInfo)
  | onAutoRemoveTO (info : RequestInfo)
  deriving DecidableEq, Repr

inductive TimeoutStage where
  | forward
  | complain
  | autoRemove
  deriving DecidableEq, Repr

def TimeoutStage.rank : TimeoutStage → Nat
  | .forward => 0
  | .complain => 1
  | .autoRemove => 2

namespace Callback

def info : Callback → RequestInfo
  | .onRequestTO _ info | .onLeaderFwdRequestTO _ info | .onAutoRemoveTO info => info

def stage : Callback → TimeoutStage
  | .onRequestTO _ _ => .forward
  | .onLeaderFwdRequestTO _ _ => .complain
  | .onAutoRemoveTO _ => .autoRemove

def event : Callback → PoolEvent
  | .onRequestTO request info => .onRequestTO request info
  | .onLeaderFwdRequestTO request info => .onLeaderFwdRequestTO request info
  | .onAutoRemoveTO info => .onAutoRemoveTO info

def next : Callback → Option Callback
  | .onRequestTO request info => some (.onLeaderFwdRequestTO request info)
  | .onLeaderFwdRequestTO _ info => some (.onAutoRemoveTO info)
  | .onAutoRemoveTO _ => none

theorem info_next {callback next : Callback} (h : callback.next = some next) :
    next.info = callback.info := by
  cases callback <;> cases h <;> rfl

theorem rank_next {callback next : Callback} (h : callback.next = some next) :
    next.stage.rank = callback.stage.rank + 1 := by
  cases callback <;> cases h <;> rfl

end Callback

inductive TimerState where
  | pending
  | stopped
  /-- the timer has expired, and its goroutine waits for the lock -/
  | fired
  /-- the goroutine has released the lock, and is about to call the handler -/
  | handling
  | returned
  deriving DecidableEq, Repr

structure Timer where
  callback : Callback
  state : TimerState
  deriving DecidableEq, Repr

def Timer.stop (timer : Timer) : Timer :=
  if timer.state = .pending then { timer with state := .stopped } else timer

/-- The timers are in the order in which they were created. -/
structure TimedPool where
  pool : Pool
  timers : List Timer := []
  /-- the timer of the item that `existMap` leads to -/
  timeout : RequestInfo → Nat := fun _ => 0
  /-- the callbacks that have called the handler, newest first -/
  called : List Callback := []

inductive TimedEvent where
  /-- a section that starts no timer -/
  | pool (event : PoolEvent)
  /-- the last section of `Submit`; the new timer may expire at once -/
  | insert (call : Nat) (expires : Bool)
  | restartTimers (order : List RequestInfo)
  | expire (timer : Nat)
  | callback (timer : Nat)
  | handler (timer : Nat)
  deriving DecidableEq, Repr

def TimedEvent.restarts : TimedEvent → Bool
  | .restartTimers _ => true
  | _ => false

def PoolEvent.stops (p : Pool) : PoolEvent → Option (List RequestInfo)
  | .insert _ | .restartTimers | .onRequestTO _ _ | .onLeaderFwdRequestTO _ _
  | .onAutoRemoveTO _ => none
  | .removeRequest info => some [info]
  | .pruneNext call entry rejected =>
    if rejected then
      match p.prunes[call]? with
      | none => some []
      | some copied => some (copied[entry]?.map Prod.fst).toList
    else some []
  | .close order => some order
  | .stopTimers => some p.existMap.keys
  | _ => some []

def Pool.inserts (cfg : PoolConfig) (p : Pool) (call : Nat) : Option Bytes :=
  match p.submits[call]? with
  | none => none
  | some submit =>
    if submit.pc = .acquired ∧ p.known (cfg.requestID submit.request) = none then
      some submit.request
    else none

def newTimedPool (requestMaxBytes : Nat) : TimedPool where
  pool := newPool requestMaxBytes

namespace TimedPool

/-- `time.AfterFunc`, for the item of the request. -/
def startTimer (tp : TimedPool) (callback : Callback) (state : TimerState) : TimedPool :=
  { tp with
    timers := tp.timers ++ [⟨callback, state⟩]
    timeout := Function.update tp.timeout callback.info tp.timers.length }

def stopTimer (tp : TimedPool) (info : RequestInfo) : TimedPool :=
  if info ∈ tp.pool.existMap then
    { tp with timers := tp.timers.modify (tp.timeout info) Timer.stop }
  else tp

def setState (tp : TimedPool) (timer : Nat) (state : TimerState) : TimedPool :=
  { tp with timers := tp.timers.modify timer fun t => { t with state } }

/-- `Submit` stops its new timer if the pool is stopped, which comes too late for a timer that
has expired. -/
def submitted (stopped expires : Bool) : TimerState :=
  if expires then .fired else if stopped then .stopped else .pending

/-- One round of the loop of `RestartTimers`. -/
def restartTimer (tp : TimedPool) (info : RequestInfo) : TimedPool :=
  match tp.pool.existMap.lookup info with
  | none => tp
  | some element => (tp.stopTimer info).startTimer (.onRequestTO element.request info) .pending

/-- `onRequestTO` and `onLeaderFwdRequestTO` start the next timer, unless the request is gone
or the pool has stopped. -/
def startNext (tp : TimedPool) (timer : Nat) (next : Callback) : TimedPool :=
  if next.info ∈ tp.pool.existMap ∧ ¬ tp.pool.closed ∧ ¬ tp.pool.stopped then
    (tp.setState timer .handling).startTimer next .pending
  else tp.setState timer .returned

def onRequestTO (tp : TimedPool) (timer : Nat) (request : Bytes) (info : RequestInfo) :
    TimedPool :=
  tp.startNext timer (.onLeaderFwdRequestTO request info)

def onLeaderFwdRequestTO (tp : TimedPool) (timer : Nat) (info : RequestInfo) : TimedPool :=
  tp.startNext timer (.onAutoRemoveTO info)

/-- The request is removed whether or not the pool has stopped. -/
def onAutoRemoveTO (tp : TimedPool) (timer : Nat) (info : RequestInfo) : TimedPool :=
  if info ∈ tp.pool.existMap then (tp.stopTimer info).setState timer .handling
  else tp.setState timer .returned

def runCallback (tp : TimedPool) (timer : Nat) : Callback → TimedPool
  | .onRequestTO request info => tp.onRequestTO timer request info
  | .onLeaderFwdRequestTO _ info => tp.onLeaderFwdRequestTO timer info
  | .onAutoRemoveTO info => tp.onAutoRemoveTO timer info

def step (cfg : PoolConfig) (tp : TimedPool) : TimedEvent → Option TimedPool
  | .pool event =>
    match event.stops tp.pool, tp.pool.step cfg event with
    | some infos, some pool => some { infos.foldl stopTimer tp with pool }
    | _, _ => none
  | .insert call expires =>
    match tp.pool.step cfg (.insert call), tp.pool.inserts cfg call with
    | none, _ => none
    | some pool, none => some { tp with pool }
    | some pool, some request =>
      some ({ tp with pool }.startTimer (.onRequestTO request (cfg.requestID request))
        (submitted tp.pool.stopped expires))
  | .restartTimers order =>
    match tp.pool.step cfg .restartTimers with
    | none => none
    | some pool =>
      if order.isPerm tp.pool.existMap.keys then
        some { order.foldl restartTimer tp with pool }
      else none
  | .expire timer =>
    match tp.timers[timer]? with
    | some ⟨_, .pending⟩ => some (tp.setState timer .fired)
    | _ => none
  | .callback timer =>
    match tp.timers[timer]? with
    | some ⟨callback, .fired⟩ =>
      (tp.pool.step cfg callback.event).map fun pool =>
        { tp.runCallback timer callback with pool }
    | _ => none
  | .handler timer =>
    match tp.timers[timer]? with
    | some ⟨callback, .handling⟩ =>
      some { tp.setState timer .returned with called := callback :: tp.called }
    | _ => none

end TimedPool

/-! ## The requests in the pool after a step -/

namespace Pool.Consistent

variable {cfg : PoolConfig} {p q : Pool}

theorem mem_removeRequest (h : Consistent cfg p) {info other : RequestInfo} :
    other ∈ (p.removeRequest info).existMap ↔ other ≠ info ∧ other ∈ p.existMap := by
  cases hlookup : p.existMap.lookup info with
  | none =>
    have hgone := AList.lookup_eq_none.mp hlookup
    have hsame : (p.removeRequest info).existMap = p.existMap := by
      simp only [Pool.removeRequest, hlookup, Pool.moveToDelSlice]
      split <;> rfl
    rw [hsame]
    refine ⟨fun hmem => ⟨?_, hmem⟩, fun hmem => hmem.2⟩
    rintro rfl
    exact hgone hmem
  | some element =>
    simp only [Pool.removeRequest, hlookup, h.deleteRequest_eq hlookup]
    exact AList.mem_erase

theorem existMap_of_keeps (h : Consistent cfg p) {event : PoolEvent}
    (hkeeps : event.keeps = true) (hinsert : ∀ call, event ≠ .insert call)
    (hstep : p.step cfg event = some q) : q.existMap = p.existMap := by
  cases h.step_move hstep with
  | quiet move => exact move.existMap
  | inserted call _ insert _ => exact absurd insert (hinsert call)
  | removed _ _ removes _ => simp [hkeeps] at removes
  | recorded _ move => exact move.existMap
  | closed order close _ _ => simp [close, PoolEvent.keeps] at hkeeps
  | erased move => exact move.existMap

theorem stops_step (h : Consistent cfg p) {event : PoolEvent} {infos : List RequestInfo}
    (hstops : event.stops p = some infos) (hstep : p.step cfg event = some q) :
    (∀ info ∈ q.existMap, info ∈ p.existMap) ∧
      ∀ info ∈ p.existMap, info ∉ infos → info ∈ q.existMap := by
  cases hkeeps : event.keeps with
  | true =>
    have hinsert : ∀ call, event ≠ .insert call := by
      rintro call rfl
      simp [PoolEvent.stops] at hstops
    rw [h.existMap_of_keeps hkeeps hinsert hstep]
    exact ⟨fun _ => id, fun _ hmem _ => hmem⟩
  | false =>
    have hwhole := hstep
    simp only [Pool.step, h.running, Option.isSome_none, Bool.false_eq_true, if_false] at hstep
    cases event <;> simp only [PoolEvent.keeps, Bool.true_eq_false] at hkeeps
    case removeRequest info =>
      obtain rfl := Option.some.inj hstep
      obtain rfl := Option.some.inj hstops
      simp only [h.mem_removeRequest, List.mem_singleton]
      exact ⟨fun _ hmem => hmem.2, fun _ hmem hother => ⟨hother, hmem⟩⟩
    case pruneNext call entry rejected =>
      cases rejected with
      | false => simp at hkeeps
      | true =>
        simp only [Pool.react, Pool.pruneNext, if_true] at hstep
        split at hstep
        · simp at hstep
        · rename_i copied hcopied
          split at hstep
          · simp at hstep
          · rename_i info request hentry
            have hpruned : Consistent cfg
                { p with prunes := p.prunes.set call (copied.eraseIdx entry) } := { h with }
            obtain rfl := Option.some.inj hstep
            obtain rfl : [info] = infos := by
              simpa [PoolEvent.stops, hcopied, hentry] using hstops
            simp only [hpruned.mem_removeRequest, List.mem_singleton]
            exact ⟨fun _ hmem => hmem.2, fun _ hmem hother => ⟨hother, hmem⟩⟩
    case close order =>
      obtain ⟨horder, hclosing⟩ := h.close_move hwhole
      obtain rfl := Option.some.inj hstops
      refine ⟨fun info hmem => absurd hmem (hclosing.existMap info), fun info hmem hother => ?_⟩
      exact absurd (horder.mem_iff.mpr (AList.mem_keys.mp hmem)) hother
    case onAutoRemoveTO info => simp [PoolEvent.stops] at hstops

end Pool.Consistent

namespace TimedPool

variable {cfg : PoolConfig} {due : Timer → Prop} {tp tp' : TimedPool} {event : TimedEvent}
  {info : RequestInfo}

theorem step_pool (hstep : tp.step cfg event = some tp') :
    tp'.pool = tp.pool ∨ ∃ inner, tp.pool.step cfg inner = some tp'.pool := by
  cases event <;> simp only [TimedPool.step] at hstep
  case pool inner =>
    split at hstep
    · rename_i infos pool _ hinner
      obtain rfl := Option.some.inj hstep
      exact .inr ⟨inner, hinner⟩
    · simp at hstep
  case insert call expires =>
    split at hstep
    · simp at hstep
    · rename_i pool hinner _
      obtain rfl := Option.some.inj hstep
      exact .inr ⟨_, hinner⟩
    · rename_i pool request hinner _
      obtain rfl := Option.some.inj hstep
      exact .inr ⟨_, hinner⟩
  case restartTimers order =>
    split at hstep
    · simp at hstep
    · rename_i pool hinner
      simp only [Option.ite_none_right_eq_some, Option.some.injEq] at hstep
      obtain ⟨-, rfl⟩ := hstep
      exact .inr ⟨_, hinner⟩
  case expire timer =>
    split at hstep
    · exact .inl (Option.some.inj hstep ▸ rfl)
    · simp at hstep
  case callback timer =>
    split at hstep
    · obtain ⟨pool, hinner, rfl⟩ := Option.map_eq_some_iff.mp hstep
      exact .inr ⟨_, hinner⟩
    · simp at hstep
  case handler timer =>
    split at hstep
    · exact .inl (Option.some.inj hstep ▸ rfl)
    · simp at hstep

theorem consistent_step (h : tp.pool.Consistent cfg) (hstep : tp.step cfg event = some tp') :
    tp'.pool.Consistent cfg := by
  rcases step_pool hstep with hsame | ⟨inner, hinner⟩
  · rwa [hsame]
  · exact h.step hinner

inductive TimedMove (cfg : PoolConfig) (tp : TimedPool) : TimedEvent → TimedPool → Prop where
  | pool {event : PoolEvent} {infos : List RequestInfo} {pool : Pool}
      (hsub : ∀ info ∈ pool.existMap, info ∈ tp.pool.existMap)
      (hkept : ∀ info ∈ tp.pool.existMap, info ∉ infos → info ∈ pool.existMap) :
      TimedMove cfg tp (.pool event) { infos.foldl stopTimer tp with pool }
  | known {call : Nat} {expires : Bool} {pool : Pool}
      (hinserts : tp.pool.inserts cfg call = none) (hpool : pool.existMap = tp.pool.existMap) :
      TimedMove cfg tp (.insert call expires) { tp with pool }
  | inserted {call : Nat} {expires : Bool} {pool : Pool} {request : Bytes}
      (hinserts : tp.pool.inserts cfg call = some request)
      (hnew : cfg.requestID request ∉ tp.pool.existMap)
      (hpool : ∀ info, info ∈ pool.existMap ↔
        info = cfg.requestID request ∨ info ∈ tp.pool.existMap) :
      TimedMove cfg tp (.insert call expires)
        ({ tp with pool }.startTimer (.onRequestTO request (cfg.requestID request))
          (submitted tp.pool.stopped expires))
  | restarted {order : List RequestInfo} {pool : Pool}
      (hperm : order.Perm tp.pool.existMap.keys) (hpool : pool.existMap = tp.pool.existMap) :
      TimedMove cfg tp (.restartTimers order) { order.foldl restartTimer tp with pool }
  | expired {timer : Nat} {callback : Callback}
      (htimer : tp.timers[timer]? = some ⟨callback, .pending⟩) :
      TimedMove cfg tp (.expire timer) (tp.setState timer .fired)
  | passed {timer : Nat} {callback next : Callback} {pool : Pool}
      (htimer : tp.timers[timer]? = some ⟨callback, .fired⟩)
      (hnext : callback.next = some next) (hpooled : callback.info ∈ tp.pool.existMap)
      (hpool : pool.existMap = tp.pool.existMap) :
      TimedMove cfg tp (.callback timer)
        { (tp.setState timer .handling).startTimer next .pending with pool }
  | removed {timer : Nat} {info : RequestInfo} {pool : Pool}
      (htimer : tp.timers[timer]? = some ⟨.onAutoRemoveTO info, .fired⟩)
      (hpooled : info ∈ tp.pool.existMap)
      (hpool : ∀ other, other ∈ pool.existMap ↔ other ≠ info ∧ other ∈ tp.pool.existMap) :
      TimedMove cfg tp (.callback timer)
        { (tp.stopTimer info).setState timer .handling with pool }
  | ended {timer : Nat} {callback : Callback} {pool : Pool}
      (htimer : tp.timers[timer]? = some ⟨callback, .fired⟩)
      (hpool : ∀ info, info ∈ pool.existMap ↔ info ∈ tp.pool.existMap) :
      TimedMove cfg tp (.callback timer) { tp.setState timer .returned with pool }
  | handled {timer : Nat} {callback : Callback}
      (htimer : tp.timers[timer]? = some ⟨callback, .handling⟩) :
      TimedMove cfg tp (.handler timer)
        { tp.setState timer .returned with called := callback :: tp.called }

theorem startNext_move {timer : Nat} {callback next : Callback} {pool : Pool}
    (h : tp.pool.Consistent cfg) (hnext : callback.next = some next)
    (htimer : tp.timers[timer]? = some ⟨callback, .fired⟩)
    (hstep : tp.pool.step cfg callback.event = some pool) :
    TimedMove cfg tp (.callback timer) { tp.startNext timer next with pool } := by
  have hpool : pool.existMap = tp.pool.existMap := by
    refine h.existMap_of_keeps ?_ ?_ hstep <;> cases callback <;>
      simp_all [Callback.next, Callback.event, PoolEvent.keeps]
  unfold startNext
  split
  · rename_i hacts
    exact .passed htimer hnext (Callback.info_next hnext ▸ hacts.1) hpool
  · exact .ended htimer (by simp [hpool])

theorem autoRemove_move {timer : Nat} {pool : Pool} (h : tp.pool.Consistent cfg)
    (htimer : tp.timers[timer]? = some ⟨.onAutoRemoveTO info, .fired⟩)
    (hstep : tp.pool.step cfg (.onAutoRemoveTO info) = some pool) :
    TimedMove cfg tp (.callback timer) { tp.onAutoRemoveTO timer info with pool } := by
  have hpool : ∀ other, other ∈ pool.existMap ↔ other ≠ info ∧ other ∈ tp.pool.existMap := by
    simp only [Pool.step, h.running, Option.isSome_none, Bool.false_eq_true, if_false] at hstep
    obtain rfl := Option.some.inj hstep
    intro other
    rw [← h.mem_removeRequest]
    simp only [Pool.autoRemove]
    split <;> rfl
  unfold onAutoRemoveTO
  split
  · rename_i hpooled
    exact .removed htimer hpooled hpool
  · rename_i hgone
    refine .ended htimer fun other => (hpool other).trans ?_
    refine ⟨fun hmem => hmem.2, fun hmem => ⟨?_, hmem⟩⟩
    rintro rfl
    exact hgone hmem

theorem insert_move (h : tp.pool.Consistent cfg) {call : Nat} {expires : Bool}
    (hstep : tp.step cfg (.insert call expires) = some tp') :
    TimedMove cfg tp (.insert call expires) tp' := by
  simp only [TimedPool.step] at hstep
  cases hinner : tp.pool.step cfg (.insert call) with
  | none => simp [hinner] at hstep
  | some pool =>
    have hreact := hinner
    simp only [Pool.step, h.running, Option.isSome_none, Bool.false_eq_true, if_false]
      at hreact
    obtain ⟨request, hcall, rfl⟩ := Pool.stepSubmit_some hreact
    cases hknown : tp.pool.known (cfg.requestID request) with
    | some error =>
      have hinserts : tp.pool.inserts cfg call = none := by
        simp [Pool.inserts, hcall, hknown]
      simp only [hinner, hinserts, Option.some.injEq] at hstep
      obtain rfl := hstep
      exact .known hinserts (by rw [h.insertSubmit_known hcall hknown]; rfl)
    | none =>
      have hinserts : tp.pool.inserts cfg call = some request := by
        simp [Pool.inserts, hcall, hknown]
      simp only [hinner, hinserts, Option.some.injEq] at hstep
      obtain rfl := hstep
      refine .inserted hinserts (Pool.known_eq_none hknown).1 fun info => ?_
      rw [h.insertSubmit_eq hcall hknown]
      exact AList.mem_insert ..

theorem step_move (h : tp.pool.Consistent cfg) (hstep : tp.step cfg event = some tp') :
    TimedMove cfg tp event tp' := by
  cases event with
  | pool inner =>
    simp only [TimedPool.step] at hstep
    split at hstep
    · rename_i infos pool hstops hinner
      obtain rfl := Option.some.inj hstep
      obtain ⟨hsub, hkept⟩ := h.stops_step hstops hinner
      exact .pool hsub hkept
    · simp at hstep
  | insert call expires => exact insert_move h hstep
  | restartTimers order =>
    simp only [TimedPool.step] at hstep
    split at hstep
    · simp at hstep
    · rename_i pool hinner
      simp only [Option.ite_none_right_eq_some, Option.some.injEq] at hstep
      obtain ⟨hperm, rfl⟩ := hstep
      exact .restarted (List.isPerm_iff.mp hperm)
        (h.existMap_of_keeps rfl (by simp) hinner)
  | expire timer =>
    simp only [TimedPool.step] at hstep
    split at hstep
    · rename_i htimer
      exact Option.some.inj hstep ▸ .expired htimer
    · simp at hstep
  | callback timer =>
    simp only [TimedPool.step] at hstep
    split at hstep
    · rename_i callback htimer
      obtain ⟨pool, hinner, rfl⟩ := Option.map_eq_some_iff.mp hstep
      cases callback with
      | onRequestTO request info => exact startNext_move h rfl htimer hinner
      | onLeaderFwdRequestTO request info => exact startNext_move h rfl htimer hinner
      | onAutoRemoveTO info => exact autoRemove_move h htimer hinner
    · simp at hstep
  | handler timer =>
    simp only [TimedPool.step] at hstep
    split at hstep
    · rename_i htimer
      exact Option.some.inj hstep ▸ .handled htimer
    · simp at hstep

end TimedPool

end SmartBFT
