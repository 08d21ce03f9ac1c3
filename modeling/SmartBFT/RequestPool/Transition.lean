import Mathlib.Data.Finset.Lattice.Lemmas
import SmartBFT.RequestPool.Invariant

/-!
# What a step of the pool does

`PoolMove` sorts the steps of a consistent pool by what they do to the requests in it and to
the memory of those that were removed.  Most steps do nothing to them (`PoolMove.quiet`);
an invariant about the requests has to look at the other five kinds only.
-/

namespace SmartBFT

open SmartBFT.Foundation

def PoolEvent.keeps : PoolEvent → Bool
  | .removeRequest _ | .pruneNext _ _ true | .close _ | .onAutoRemoveTO _ => false
  | _ => true

namespace Pool

def accepted (p : Pool) : List Bytes :=
  p.answers.reverse.filterMap fun answer => if answer.2 = none then some answer.1 else none

structure Quiet (p q : Pool) : Prop where
  fifo : q.fifo = p.fifo
  existMap : q.existMap = p.existMap
  delMap : q.delMap = p.delMap
  delSlice : q.delSlice = p.delSlice
  sizeBytes : q.sizeBytes = p.sizeBytes
  closed : q.closed = p.closed
  accepted : q.accepted = p.accepted
  /-- a call of `Submit` goes on or returns, or one starts, which needs an open pool -/
  submits : (q.submits.map SubmitCall.request).Sublist (p.submits.map SubmitCall.request) ∨
    p.closed = false ∧ ∃ request, q.submits = p.submits ++ [⟨request, .opened⟩]

structure Inserted (cfg : PoolConfig) (p q : Pool) (call : Nat) (request : Bytes) : Prop where
  calls : p.submits[call]? = some ⟨request, .acquired⟩
  unknown : p.known (cfg.requestID request) = none
  fifo : q.fifo = p.fifo ++ [⟨p.nextAddress, request⟩]
  existMap : q.existMap = p.existMap.insert (cfg.requestID request) ⟨p.nextAddress, request⟩
  delMap : q.delMap = p.delMap
  delSlice : q.delSlice = p.delSlice
  sizeBytes : q.sizeBytes = p.sizeBytes + UInt64.ofNat request.length
  closed : q.closed = p.closed
  accepted : q.accepted = p.accepted ++ [request]
  submits : q.submits = p.submits.eraseIdx call

structure Removed (p q : Pool) (info : RequestInfo) (element : PoolElement) : Prop where
  pooled : p.existMap.lookup info = some element
  fifo : q.fifo = p.fifo.erase element
  existMap : q.existMap = p.existMap.erase info
  delMap : q.delMap = insert info p.delMap
  delSlice : q.delSlice = p.delSlice ++ [info]
  sizeBytes : q.sizeBytes = p.sizeBytes - UInt64.ofNat element.request.length
  closed : q.closed = p.closed
  accepted : q.accepted = p.accepted
  submits : q.submits = p.submits

structure Recorded (p q : Pool) (info : RequestInfo) : Prop where
  absent : info ∉ p.existMap
  new : info ∉ p.delMap
  fifo : q.fifo = p.fifo
  existMap : q.existMap = p.existMap
  delMap : q.delMap = insert info p.delMap
  delSlice : q.delSlice = p.delSlice ++ [info]
  sizeBytes : q.sizeBytes = p.sizeBytes
  closed : q.closed = p.closed
  accepted : q.accepted = p.accepted
  submits : q.submits = p.submits

structure Erased (p q : Pool) : Prop where
  fifo : q.fifo = p.fifo
  existMap : q.existMap = p.existMap
  delMap : q.delMap =
    p.delMap \ (p.delSlice.take (p.delSlice.length - defaultSizeOfDelElements)).toFinset
  delSlice : q.delSlice = p.delSlice.drop (p.delSlice.length - defaultSizeOfDelElements)
  sizeBytes : q.sizeBytes = p.sizeBytes
  closed : q.closed = p.closed
  accepted : q.accepted = p.accepted
  submits : q.submits = p.submits

structure Closing (p q : Pool) (order : List RequestInfo) : Prop where
  fifo : q.fifo = []
  existMap : ∀ info, info ∉ q.existMap
  delMap : q.delMap = p.delMap ∪ order.toFinset
  delSlice : q.delSlice = p.delSlice ++ order
  requestMaxBytes : q.requestMaxBytes = p.requestMaxBytes
  sizeBytes : q.sizeBytes = p.sizeBytes
  closed : q.closed = true
  accepted : q.accepted = p.accepted
  submits : q.submits = p.submits

inductive PoolMove (cfg : PoolConfig) (p : Pool) (event : PoolEvent) (q : Pool) : Prop
  | quiet (move : Quiet p q)
  | inserted (call : Nat) (request : Bytes) (insert : event = .insert call)
      (move : Inserted cfg p q call request)
  | removed (info : RequestInfo) (element : PoolElement) (removes : event.keeps = false)
      (move : Removed p q info element)
  | recorded (info : RequestInfo) (move : Recorded p q info)
  | closed (order : List RequestInfo) (close : event = .close order)
      (all : order.Perm p.existMap.keys) (move : Closing p q order)
  | erased (move : Erased p q)

variable {cfg : PoolConfig} {p q : Pool}

/-! ## Calls of Submit -/

theorem accepted_answer (call : Nat) (request : Bytes) (result : Option SubmitError) :
    (p.answer call request result).accepted =
      p.accepted ++ if result = none then [request] else [] := by
  cases result <;> simp [accepted, answer]

theorem map_request_proceed {call : Nat} {submit : SubmitCall}
    (hcall : p.submits[call]? = some submit) (pc : SubmitPc) :
    (p.proceed call submit.request pc).submits.map SubmitCall.request =
      p.submits.map SubmitCall.request := by
  obtain ⟨hlt, hget⟩ := List.getElem?_eq_some_iff.mp hcall
  have hlt' : call < (p.submits.map SubmitCall.request).length := by simpa using hlt
  have hsame : submit.request = (p.submits.map SubmitCall.request)[call] := by simp [hget]
  rw [proceed, List.map_set]
  exact (congrArg _ hsame).trans (List.set_getElem_self _)

theorem Quiet.answer (call : Nat) (request : Bytes) (error : SubmitError) :
    Quiet p (p.answer call request (some error)) where
  fifo := rfl
  existMap := rfl
  delMap := rfl
  delSlice := rfl
  sizeBytes := rfl
  closed := rfl
  accepted := by simp [accepted_answer]
  submits := .inl ((List.eraseIdx_sublist _ _).map _)

theorem Quiet.proceed {call : Nat} {submit : SubmitCall}
    (hcall : p.submits[call]? = some submit) (pc : SubmitPc) :
    Quiet p (p.proceed call submit.request pc) :=
  ⟨rfl, rfl, rfl, rfl, rfl, rfl, rfl,
    .inl (by rw [map_request_proceed hcall])⟩

theorem Quiet.startSubmit (request : Bytes) : Quiet p (p.startSubmit request) := by
  unfold Pool.startSubmit
  split
  · exact ⟨rfl, rfl, rfl, rfl, rfl, rfl, by simp [Pool.accepted], .inl (List.Sublist.refl _)⟩
  · rename_i hopen
    exact ⟨rfl, rfl, rfl, rfl, rfl, rfl, rfl, .inr ⟨by simpa using hopen, request, rfl⟩⟩

theorem Quiet.checkSubmit {call : Nat} {request : Bytes}
    (hcall : p.submits[call]? = some ⟨request, .opened⟩) :
    Quiet p (p.checkSubmit cfg call request) := by
  unfold Pool.checkSubmit
  split
  · exact .answer call request .tooBig
  · split
    · rename_i error _
      exact .answer call request error
    · exact .proceed hcall .waiting

theorem Quiet.of_eq (hfifo : q.fifo = p.fifo) (hexist : q.existMap = p.existMap)
    (hdel : q.delMap = p.delMap) (hslice : q.delSlice = p.delSlice)
    (hsize : q.sizeBytes = p.sizeBytes) (hclosed : q.closed = p.closed)
    (hanswers : q.answers = p.answers) (hsubmits : q.submits = p.submits) : Quiet p q :=
  ⟨hfifo, hexist, hdel, hslice, hsize, hclosed, by rw [Pool.accepted, hanswers, Pool.accepted],
    .inl (by rw [hsubmits])⟩

theorem Consistent.insert_move (h : Consistent cfg p) {call : Nat} {request : Bytes}
    (hcall : p.submits[call]? = some ⟨request, .acquired⟩) :
    PoolMove cfg p (.insert call) (p.insertSubmit cfg call request) := by
  cases hknown : p.known (cfg.requestID request) with
  | some error =>
    rw [h.insertSubmit_known hcall hknown]
    have hanswer := @Quiet.answer p call request error
    exact .quiet { hanswer with }
  | none =>
    rw [h.insertSubmit_eq hcall hknown]
    refine .inserted call request rfl ⟨hcall, hknown, rfl, rfl, rfl, rfl, rfl, rfl, ?_, rfl⟩
    exact @accepted_answer p call request none

theorem Consistent.remove_move (h : Consistent cfg p) {event : PoolEvent}
    (hevent : event.keeps = false) (info : RequestInfo) :
    PoolMove cfg p event (p.removeRequest info) := by
  cases hlookup : p.existMap.lookup info with
  | none =>
    have hgone := AList.lookup_eq_none.mp hlookup
    simp only [Pool.removeRequest, hlookup, Pool.moveToDelSlice]
    split
    · exact .quiet (.of_eq rfl rfl rfl rfl rfl rfl rfl rfl)
    · rename_i hnew
      exact .recorded info ⟨hgone, hnew, rfl, rfl, rfl, rfl, rfl, rfl, rfl, rfl⟩
  | some element =>
    simp only [Pool.removeRequest, hlookup, h.deleteRequest_eq hlookup]
    exact .removed info element hevent ⟨hlookup, rfl, rfl, rfl, rfl, rfl, rfl, rfl, rfl⟩

structure Deleted (p q : Pool) (order : List RequestInfo) : Prop where
  existMap : ∀ info ∈ q.existMap, info ∈ p.existMap ∧ info ∉ order
  delMap : q.delMap = p.delMap ∪ order.toFinset
  delSlice : q.delSlice = p.delSlice ++ order
  requestMaxBytes : q.requestMaxBytes = p.requestMaxBytes
  sizeBytes : q.sizeBytes = p.sizeBytes
  closed : q.closed = p.closed
  answers : q.answers = p.answers
  submits : q.submits = p.submits

theorem Consistent.foldl_closeEntry (h : Consistent cfg p) {order : List RequestInfo}
    (hdistinct : order.Nodup) (hpooled : ∀ info ∈ order, info ∈ p.existMap) :
    Consistent cfg (order.foldl Pool.closeEntry p) ∧
      Deleted p (order.foldl Pool.closeEntry p) order := by
  induction order generalizing p with
  | nil => exact ⟨h, ⟨fun info hinfo => ⟨hinfo, by simp⟩, by simp, by simp, rfl, rfl, rfl, rfl,
      rfl⟩⟩
  | cons first order ih =>
    obtain ⟨hfirst, hdistinct⟩ := List.nodup_cons.mp hdistinct
    obtain ⟨element, hlookup⟩ := Option.isSome_iff_exists.mp
      (AList.lookup_isSome.mpr (hpooled first (List.mem_cons_self ..)))
    have hentry : p.closeEntry first = p.deleteRequest element first := by
      simp only [Pool.closeEntry, h.running, hlookup]
    have hdeleted := h.deleteRequest hlookup
    rw [h.deleteRequest_eq hlookup] at hentry hdeleted
    obtain ⟨hconsistent, hrest⟩ := @ih _ hdeleted hdistinct (by
      intro info hinfo
      refine AList.mem_erase.mpr ⟨?_, hpooled info (List.mem_cons_of_mem _ hinfo)⟩
      rintro rfl
      exact hfirst hinfo)
    rw [List.foldl_cons, hentry]
    refine ⟨hconsistent, ⟨?_, ?_, ?_, hrest.requestMaxBytes, hrest.sizeBytes, hrest.closed,
      hrest.answers, hrest.submits⟩⟩
    · intro info hinfo
      obtain ⟨hmem, hout⟩ := hrest.existMap info hinfo
      obtain ⟨hother, hold⟩ := AList.mem_erase.mp hmem
      exact ⟨hold, by simp [hother, hout]⟩
    · rw [hrest.delMap, List.toFinset_cons, Finset.insert_union, Finset.union_insert]
    · rw [hrest.delSlice, List.append_assoc, List.singleton_append]

theorem Consistent.fifo_eq_nil (h : Consistent cfg p) (hempty : ∀ info, info ∉ p.existMap) :
    p.fifo = [] := by
  cases hfifo : p.fifo with
  | nil => rfl
  | cons element elements =>
    exact absurd (h.indexed.mem_iff.mpr (by simp [hfifo]))
      (hempty (cfg.requestID element.request))

theorem Consistent.notMem_existMap (h : Consistent cfg p) (hempty : p.fifo = [])
    (info : RequestInfo) : info ∉ p.existMap := by
  rw [h.indexed.mem_iff, hempty]
  simp

theorem Consistent.close_move (h : Consistent cfg p) {order : List RequestInfo}
    (hstep : p.step cfg (.close order) = some q) :
    order.Perm p.existMap.keys ∧ Closing p q order := by
  simp only [Pool.step, h.running, Option.isSome_none, Bool.false_eq_true, if_false,
    Pool.react, Option.ite_none_right_eq_some, Option.some.injEq] at hstep
  obtain ⟨hperm, rfl⟩ := hstep
  have horder := List.isPerm_iff.mp hperm
  have hclosed : Consistent cfg { p with closed := true } := { h with }
  obtain ⟨hconsistent, hdeleted⟩ := hclosed.foldl_closeEntry
    (horder.nodup_iff.mpr p.existMap.keys_nodup)
    (fun info hinfo => AList.mem_keys.mpr (horder.mem_iff.mp hinfo))
  have hempty : ∀ info, info ∉ (p.close order).existMap := by
    intro info hinfo
    obtain ⟨hmem, hout⟩ := hdeleted.existMap info hinfo
    exact hout (horder.mem_iff.mpr (AList.mem_keys.mp hmem))
  refine ⟨horder, hconsistent.fifo_eq_nil hempty, hempty, hdeleted.delMap, hdeleted.delSlice,
    hdeleted.requestMaxBytes, hdeleted.sizeBytes, hdeleted.closed, ?_, hdeleted.submits⟩
  rw [Pool.accepted, Pool.close, hdeleted.answers, Pool.accepted]

theorem PoolMove.of_unread {event : PoolEvent} {prunes : List (List (RequestInfo × Bytes))}
    {timeouts : List TimeoutCall} (h : PoolMove cfg { p with prunes } event q) :
    PoolMove cfg p event { q with timeouts } := by
  cases h with
  | quiet move => exact .quiet { move with }
  | inserted call request insert move => exact .inserted call request insert { move with }
  | removed info element removes move => exact .removed info element removes { move with }
  | recorded info move => exact .recorded info { move with }
  | closed order close all move => exact .closed order close all { move with }
  | erased move => exact .erased { move with }

theorem Consistent.step_move (h : Consistent cfg p) {event : PoolEvent}
    (hstep : p.step cfg event = some q) : PoolMove cfg p event q := by
  have hwhole := hstep
  simp only [Pool.step, h.running, Option.isSome_none, Bool.false_eq_true, if_false] at hstep
  cases event with
  | submit request => exact .quiet (Option.some.inj hstep ▸ .startSubmit request)
  | check call =>
    obtain ⟨request, hcall, rfl⟩ := stepSubmit_some hstep
    exact .quiet (.checkSubmit hcall)
  | acquire call =>
    simp only [Pool.react, Option.ite_none_right_eq_some] at hstep
    obtain ⟨-, hstep⟩ := hstep
    obtain ⟨request, hcall, rfl⟩ := stepSubmit_some hstep
    exact .quiet { Quiet.proceed hcall .acquired with }
  | acquireTimeout call =>
    simp only [Pool.react] at hstep
    obtain ⟨request, hcall, rfl⟩ := stepSubmit_some hstep
    exact .quiet (.answer call request .acquire)
  | insert call =>
    obtain ⟨request, hcall, rfl⟩ := stepSubmit_some hstep
    exact h.insert_move hcall
  | removeRequest info => exact Option.some.inj hstep ▸ h.remove_move rfl info
  | pruneNext call entry rejected =>
    simp only [Pool.react, Pool.pruneNext] at hstep
    split at hstep
    · simp at hstep
    · split at hstep
      · simp at hstep
      · rename_i _ copied _ _ info _ _
        have hpruned : Consistent cfg
            { p with prunes := p.prunes.set call (copied.eraseIdx entry) } := { h with }
        obtain rfl := Option.some.inj hstep
        cases rejected with
        | false => exact .quiet (.of_eq rfl rfl rfl rfl rfl rfl rfl rfl)
        | true => exact (hpruned.remove_move rfl info).of_unread
  | close order =>
    obtain ⟨horder, hclosing⟩ := h.close_move hwhole
    exact .closed order rfl horder hclosing
  | eraseFromDelSlice =>
    simp only [Pool.react, Option.ite_none_right_eq_some, Option.some.injEq] at hstep
    obtain ⟨herasing, rfl⟩ := hstep
    have hlong : ¬ p.delSlice.length < defaultSizeOfDelElements := by
      have := h.erasing herasing
      omega
    simp only [Pool.eraseFromDelSlice, hlong, if_false]
    refine .erased ⟨rfl, rfl, ?_, ?_, rfl, rfl, rfl, rfl⟩ <;> simp only
  | onAutoRemoveTO info =>
    obtain rfl := Option.some.inj hstep
    have hremoved := @remove_move cfg p h (.onAutoRemoveTO info) rfl info
    simp only [Pool.autoRemove]
    split
    · exact hremoved.of_unread
    · exact hremoved
  | readDelSlice =>
    obtain rfl := Option.some.inj hstep
    refine .quiet ?_
    split <;> exact .of_eq rfl rfl rfl rfl rfl rfl rfl rfl
  | onRequestTO request info | onLeaderFwdRequestTO request info =>
    obtain rfl := Option.some.inj hstep
    unfold Pool.timedOut
    refine .quiet ?_
    split <;> exact .of_eq rfl rfl rfl rfl rfl rfl rfl rfl
  | changeOptions requestMaxBytes =>
    obtain rfl := Option.some.inj hstep
    unfold Pool.changeOptions
    refine .quiet ?_
    split <;> exact .of_eq rfl rfl rfl rfl rfl rfl rfl rfl
  | prune | stopTimers | restartTimers | nextRequests _ _ _ =>
    exact .quiet (Option.some.inj hstep ▸ .of_eq rfl rfl rfl rfl rfl rfl rfl rfl)

/-! ## The sections of a call, as steps -/

section Sections

variable {call : Nat} {request : Bytes}

theorem step_check (hrunning : p.panicked = none)
    (hcall : p.submits[call]? = some ⟨request, .opened⟩) :
    p.step cfg (.check call) = some (p.checkSubmit cfg call request) := by
  simp [Pool.step, hrunning, Pool.react, stepSubmit, hcall]

theorem step_acquire (hrunning : p.panicked = none)
    (hcall : p.submits[call]? = some ⟨request, .waiting⟩) (hfree : p.permits < cfg.queueSize) :
    p.step cfg (.acquire call) =
      some { p.proceed call request .acquired with permits := p.permits + 1 } := by
  simp [Pool.step, hrunning, Pool.react, stepSubmit, hcall, hfree]

theorem step_acquireTimeout (hrunning : p.panicked = none)
    (hcall : p.submits[call]? = some ⟨request, .waiting⟩) :
    p.step cfg (.acquireTimeout call) = some (p.answer call request (some .acquire)) := by
  simp [Pool.step, hrunning, Pool.react, stepSubmit, hcall]

theorem step_insert (hrunning : p.panicked = none)
    (hcall : p.submits[call]? = some ⟨request, .acquired⟩) :
    p.step cfg (.insert call) = some (p.insertSubmit cfg call request) := by
  simp [Pool.step, hrunning, Pool.react, stepSubmit, hcall]

theorem checkSubmit_of_fits (hfits : ¬ p.requestMaxBytes < request.length)
    (hknown : p.known (cfg.requestID request) = none) :
    p.checkSubmit cfg call request = p.proceed call request .waiting := by
  rw [checkSubmit, if_neg hfits, hknown]

theorem proceed_getElem? {pc pc' : SubmitPc} (hcall : p.submits[call]? = some ⟨request, pc⟩) :
    (p.proceed call request pc').submits[call]? = some ⟨request, pc'⟩ := by
  obtain ⟨hlt, -⟩ := List.getElem?_eq_some_iff.mp hcall
  simp [proceed, hlt]

end Sections

end Pool

end SmartBFT
