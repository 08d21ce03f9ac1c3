import SmartBFT.Foundation.Index
import SmartBFT.RequestPool

/-!
# The request pool is consistent

Whatever the calls do in between, the list and the map hold the same requests, no request
is both in the pool and remembered as removed, and every permit of the semaphore belongs to
a request in the pool or to a call of `Submit` that is about to insert one
(`pool_consistent`).
-/

namespace SmartBFT

open SmartBFT.Foundation

namespace Pool

def inserting (p : Pool) : Nat := p.submits.countP fun call => decide (call.pc = .acquired)

structure Consistent (cfg : PoolConfig) (p : Pool) : Prop where
  /-- each id in the map has one list element, which holds its request, and the list has no
  other elements -/
  indexed : Indexed (fun element => cfg.requestID element.request) p.fifo p.existMap
  addresses : (p.fifo.map PoolElement.address).Nodup
  allocated : ∀ element ∈ p.fifo, element.address < p.nextAddress
  apart : ∀ info ∈ p.existMap, info ∉ p.delMap
  remembered : p.delMap = p.delSlice.toFinset
  distinct : p.delSlice.Nodup
  permits : p.permits = p.fifo.length + p.inserting
  bounded : p.permits ≤ cfg.queueSize
  erasing : 0 < p.erasures → defaultSizeOfDelElements ≤ p.delSlice.length
  running : p.panicked = none

variable {cfg : PoolConfig} {p : Pool}

theorem consistent_newPool (cfg : PoolConfig) (requestMaxBytes : Nat) :
    Consistent cfg (newPool requestMaxBytes) where
  indexed := .empty
  addresses := by simp [newPool]
  allocated := by simp [newPool]
  apart := by simp [newPool]
  remembered := by simp [newPool]
  distinct := by simp [newPool]
  permits := by simp [newPool, inserting]
  bounded := by simp [newPool]
  erasing := by simp [newPool]
  running := rfl

/-! ## The calls of Submit -/

theorem inserting_answer {call : Nat} {submit : SubmitCall}
    (hcall : p.submits[call]? = some submit) (result : Option SubmitError) :
    (p.answer call submit.request result).inserting +
      (if submit.pc = .acquired then 1 else 0) = p.inserting := by
  obtain ⟨hlt, hget⟩ := List.getElem?_eq_some_iff.mp hcall
  have hperm := (List.getElem_cons_eraseIdx_perm hlt).countP_eq
    (fun call : SubmitCall => decide (call.pc = .acquired))
  rw [hget, List.countP_cons] at hperm
  simpa [inserting, answer] using hperm

theorem inserting_proceed {call : Nat} {submit : SubmitCall}
    (hcall : p.submits[call]? = some submit) (hpc : submit.pc ≠ .acquired) (pc : SubmitPc) :
    (p.proceed call submit.request pc).inserting =
      p.inserting + if pc = .acquired then 1 else 0 := by
  obtain ⟨hlt, hget⟩ := List.getElem?_eq_some_iff.mp hcall
  have hold := (List.getElem_cons_eraseIdx_perm hlt).countP_eq
    (fun call : SubmitCall => decide (call.pc = .acquired))
  have hnew := (List.set_perm_cons_eraseIdx hlt ⟨submit.request, pc⟩).countP_eq
    (fun call : SubmitCall => decide (call.pc = .acquired))
  rw [hget, List.countP_cons_of_neg (by simpa using hpc)] at hold
  rw [List.countP_cons, hold] at hnew
  simpa [inserting, proceed] using hnew

theorem known_eq_none {info : RequestInfo} (h : p.known info = none) :
    info ∉ p.existMap ∧ info ∉ p.delMap := by
  unfold known at h
  split at h
  · simp at h
  · rename_i hexist
    split at h
    · simp at h
    · rename_i hdel
      exact ⟨hexist, hdel⟩

namespace Consistent

variable {element : PoolElement} {request : Bytes} {call : Nat}

theorem filter_address (h : Consistent cfg p) (hmem : element ∈ p.fifo) :
    p.fifo.filter (fun other => other.address ≠ element.address) = p.fifo.erase element := by
  have hnodup : p.fifo.Nodup := List.Nodup.of_map _ h.addresses
  rw [hnodup.erase_eq_filter]
  apply List.filter_congr
  intro other hother
  have haddress : other.address = element.address ↔ other = element :=
    ⟨fun heq => List.inj_on_of_nodup_map h.addresses hother hmem heq, fun heq => heq ▸ rfl⟩
  by_cases heq : other = element <;> simp [heq, haddress]

theorem moveToDelSlice (h : Consistent cfg p) (info : RequestInfo)
    (hgone : info ∉ p.existMap) : Consistent cfg (p.moveToDelSlice info) := by
  unfold Pool.moveToDelSlice
  split
  · exact h
  · rename_i hnew
    have hnotMem : info ∉ p.delSlice := by simpa [h.remembered] using hnew
    refine { h with apart := ?_, remembered := ?_, distinct := ?_, erasing := ?_ }
    · intro other hother hdel
      rcases Finset.mem_insert.mp hdel with rfl | hold
      · exact hgone hother
      · exact h.apart other hother hold
    · ext other
      simp only [h.remembered, Finset.mem_insert, List.mem_toFinset, List.mem_append,
        List.mem_singleton, or_comm]
    · exact List.nodup_append.mpr ⟨h.distinct, by simp, by
        rintro other hother _ hlast rfl
        exact hnotMem (by simpa using (List.mem_singleton.mp hlast) ▸ hother)⟩
    · intro herasing
      have := h.erasing herasing
      simp only [List.length_append, List.length_singleton]
      omega

theorem deleteRequest_eq (h : Consistent cfg p) {info : RequestInfo}
    (hlookup : p.existMap.lookup info = some element) :
    p.deleteRequest element info =
      { p with
        fifo := p.fifo.erase element
        existMap := p.existMap.erase info
        delMap := insert info p.delMap
        delSlice := p.delSlice ++ [info]
        permits := p.permits - 1 } := by
  obtain ⟨hmem, -⟩ := (h.indexed.listed info element).mp hlookup
  have hpooled : info ∈ p.existMap := AList.lookup_isSome.mp (by simp [hlookup])
  have hdel : info ∉ p.delMap := h.apart info hpooled
  have hlength := (h.indexed.erase hlookup).length_eq
  have hheld : p.permits ≠ 0 := by
    have := List.length_pos_of_mem hmem
    have := h.permits
    omega
  simp only [Pool.deleteRequest, Pool.moveToDelSlice, hdel, if_false, h.filter_address hmem,
    Pool.release, hheld, Pool.checkLengths, hlength, ne_eq, not_true_eq_false]

theorem deleteRequest (h : Consistent cfg p) {info : RequestInfo}
    (hlookup : p.existMap.lookup info = some element) :
    Consistent cfg (p.deleteRequest element info) := by
  obtain ⟨hmem, hinfo⟩ := (h.indexed.listed info element).mp hlookup
  have herased : Consistent cfg { p with
      fifo := p.fifo.erase element
      existMap := p.existMap.erase info
      permits := p.permits - 1 } := by
    have hlength := List.length_erase_of_mem hmem
    have hpos := List.length_pos_of_mem hmem
    refine { h with
      indexed := h.indexed.erase hlookup
      addresses := h.addresses.sublist (List.erase_sublist.map _)
      allocated := fun other hother => h.allocated other (List.mem_of_mem_erase hother)
      apart := fun other hother => h.apart other (AList.mem_erase.mp hother).2
      permits := ?_
      bounded := (Nat.sub_le _ _).trans h.bounded }
    have hpermits := h.permits
    simp only [hlength, inserting] at hpermits ⊢
    omega
  have hpooled : info ∈ p.existMap := AList.lookup_isSome.mp (by simp [hlookup])
  have hmoved := herased.moveToDelSlice info (by simp)
  rw [h.deleteRequest_eq hlookup]
  simpa [Pool.moveToDelSlice, h.apart info hpooled] using hmoved

theorem removeRequest (h : Consistent cfg p) (info : RequestInfo) :
    Consistent cfg (p.removeRequest info) := by
  unfold Pool.removeRequest
  split
  · rename_i hnone
    exact h.moveToDelSlice info (AList.lookup_eq_none.mp hnone)
  · rename_i element hlookup
    exact { h.deleteRequest hlookup with }

theorem close (h : Consistent cfg p) (order : List RequestInfo) :
    Consistent cfg (p.close order) := by
  have hclosed : Consistent cfg { p with closed := true } := { h with }
  unfold Pool.close
  generalize { p with closed := true } = q at hclosed
  induction order generalizing q with
  | nil => exact hclosed
  | cons info order ih =>
    rw [List.foldl_cons]
    apply ih
    unfold Pool.closeEntry
    split
    · rename_i element _ hlookup
      exact hclosed.deleteRequest hlookup
    · exact hclosed

theorem eraseFromDelSlice (h : Consistent cfg p) (herasing : 0 < p.erasures) :
    Consistent cfg p.eraseFromDelSlice := by
  have hlong : ¬ p.delSlice.length < defaultSizeOfDelElements := by
    have := h.erasing herasing
    omega
  simp only [Pool.eraseFromDelSlice, hlong, if_false]
  refine { h with
    apart := fun info hinfo hdel => h.apart info hinfo (Finset.mem_sdiff.mp hdel).1
    remembered := ?_, distinct := ?_, erasing := ?_ }
  · simp only [h.remembered]
    exact toFinset_sdiff_take h.distinct _
  · refine List.Nodup.sublist ?_ h.distinct
    apply List.drop_sublist
  · intro _
    simp only [List.length_drop]
    omega

/-! ## Insertion -/

theorem pushBack (h : Consistent cfg p) (hcall : p.submits[call]? = some ⟨request, .acquired⟩)
    (hknown : p.known (cfg.requestID request) = none) :
    Consistent cfg ((p.answer call request none).pushBack (cfg.requestID request) request) := by
  obtain ⟨hnew, hdel⟩ := known_eq_none hknown
  have hinserting := inserting_answer hcall none
  refine { h with
    indexed := h.indexed.concat ⟨p.nextAddress, request⟩ hnew
    addresses := ?_, allocated := ?_, apart := ?_, permits := ?_ }
  · rw [Pool.pushBack, List.map_append, List.nodup_append]
    refine ⟨h.addresses, by simp, ?_⟩
    rintro address hold last hlast rfl
    obtain ⟨element, helement, rfl⟩ := List.mem_map.mp hold
    have hlt := h.allocated element helement
    have : element.address = p.nextAddress := by simpa [Pool.answer] using hlast
    omega
  · intro element helement
    rcases List.mem_append.mp helement with hold | hlast
    · exact Nat.lt_succ_of_lt (h.allocated element hold)
    · obtain rfl := List.mem_singleton.mp hlast
      exact Nat.lt_succ_self _
  · intro info hinfo
    rcases (AList.mem_insert _).mp hinfo with rfl | hold
    · exact hdel
    · exact h.apart info hold
  · have hpermits := h.permits
    simp only [Pool.pushBack, Pool.answer, inserting, List.length_append,
      List.length_singleton, if_true] at hinserting hpermits ⊢
    omega

theorem insertSubmit_eq (h : Consistent cfg p)
    (hcall : p.submits[call]? = some ⟨request, .acquired⟩)
    (hknown : p.known (cfg.requestID request) = none) :
    p.insertSubmit cfg call request =
      { (p.answer call request none).pushBack (cfg.requestID request) request with
        submittedChan := true
        sizeBytes := p.sizeBytes + UInt64.ofNat request.length } := by
  have hlength := (h.pushBack hcall hknown).indexed.length_eq
  simp only [Pool.insertSubmit, hknown, Pool.checkLengths, hlength, ne_eq, not_true_eq_false,
    if_false]
  rfl

theorem insertSubmit_known (h : Consistent cfg p)
    (hcall : p.submits[call]? = some ⟨request, .acquired⟩) {error : SubmitError}
    (hknown : p.known (cfg.requestID request) = some error) :
    p.insertSubmit cfg call request =
      { p.answer call request (some error) with permits := p.permits - 1 } := by
  have hheld : p.permits ≠ 0 := by
    have hinserting := inserting_answer hcall (some error)
    have hpermits := h.permits
    simp only [if_true] at hinserting
    omega
  simp only [Pool.insertSubmit, hknown, Pool.release, Pool.answer, hheld, if_false]

theorem insertSubmit (h : Consistent cfg p) (hcall : p.submits[call]? = some ⟨request, .acquired⟩) :
    Consistent cfg (p.insertSubmit cfg call request) := by
  cases hknown : p.known (cfg.requestID request) with
  | some error =>
    have hinserting := inserting_answer hcall (some error)
    have hpermits := h.permits
    have hbounded := h.bounded
    rw [h.insertSubmit_known hcall hknown]
    refine { h with permits := ?_, bounded := by simp only; omega }
    simp only [Pool.answer, inserting, if_true] at hinserting hpermits ⊢
    omega
  | none =>
    rw [h.insertSubmit_eq hcall hknown]
    exact { h.pushBack hcall hknown with }

end Consistent

theorem stepSubmit_some {call : Nat} {pc : SubmitPc} {next : Bytes → Pool} {q : Pool}
    (h : p.stepSubmit call pc next = some q) :
    ∃ request, p.submits[call]? = some ⟨request, pc⟩ ∧ q = next request := by
  unfold stepSubmit at h
  split at h
  · simp at h
  · rename_i submit hsubmit
    simp only [Option.ite_none_right_eq_some, Option.some.injEq] at h
    obtain ⟨rfl, rfl⟩ := h
    exact ⟨submit.request, hsubmit, rfl⟩

namespace Consistent

theorem answer (h : Consistent cfg p) {call : Nat} {request : Bytes} {pc : SubmitPc}
    (hcall : p.submits[call]? = some ⟨request, pc⟩) (hpc : pc ≠ .acquired)
    (result : Option SubmitError) : Consistent cfg (p.answer call request result) := by
  have hinserting := inserting_answer hcall result
  simp only [hpc, if_false, Nat.add_zero] at hinserting
  exact { h with permits := by rw [hinserting]; exact h.permits }

theorem checkSubmit (h : Consistent cfg p) {call : Nat} {request : Bytes}
    (hcall : p.submits[call]? = some ⟨request, .opened⟩) :
    Consistent cfg (p.checkSubmit cfg call request) := by
  unfold Pool.checkSubmit
  split
  · exact h.answer hcall (by simp) _
  · split
    · exact h.answer hcall (by simp) _
    · have hinserting := inserting_proceed hcall (by simp) .waiting
      simp only [reduceCtorEq, if_false, Nat.add_zero] at hinserting
      exact { h with permits := by rw [hinserting]; exact h.permits }

theorem acquire (h : Consistent cfg p) {call : Nat} {request : Bytes}
    (hcall : p.submits[call]? = some ⟨request, .waiting⟩) (hfree : p.permits < cfg.queueSize) :
    Consistent cfg
      { p.proceed call request .acquired with permits := p.permits + 1 } := by
  have hinserting := inserting_proceed hcall (by simp) .acquired
  have hpermits := h.permits
  refine { h with permits := ?_, bounded := hfree }
  simp only [Pool.proceed, inserting, if_true] at hinserting hpermits ⊢
  omega

theorem startSubmit (h : Consistent cfg p) (request : Bytes) :
    Consistent cfg (p.startSubmit request) := by
  unfold Pool.startSubmit
  split
  · exact { h with }
  · refine { h with permits := ?_ }
    have hpermits := h.permits
    simp only [inserting] at hpermits
    simp [inserting, hpermits]

theorem pruneNext (h : Consistent cfg p) {call entry : Nat} {rejected : Bool} {q : Pool}
    (hstep : p.pruneNext call entry rejected = some q) : Consistent cfg q := by
  unfold Pool.pruneNext at hstep
  split at hstep
  · simp at hstep
  · split at hstep
    · simp at hstep
    · rename_i _ copied _ _ info _ _
      have hpruned : Consistent cfg
          { p with prunes := p.prunes.set call (copied.eraseIdx entry) } := { h with }
      obtain rfl := Option.some.inj hstep
      split
      · exact hpruned.removeRequest info
      · exact hpruned

theorem step (h : Consistent cfg p) {event : PoolEvent} {q : Pool}
    (hstep : p.step cfg event = some q) : Consistent cfg q := by
  simp only [Pool.step, h.running, Option.isSome_none, Bool.false_eq_true, if_false] at hstep
  cases event with
  | submit request => exact Option.some.inj hstep ▸ h.startSubmit request
  | check call =>
    obtain ⟨request, hcall, rfl⟩ := stepSubmit_some hstep
    exact h.checkSubmit hcall
  | acquire call =>
    simp only [Pool.react, Option.ite_none_right_eq_some] at hstep
    obtain ⟨hfree, hstep⟩ := hstep
    obtain ⟨request, hcall, rfl⟩ := stepSubmit_some hstep
    exact h.acquire hcall hfree
  | acquireTimeout call =>
    simp only [Pool.react] at hstep
    obtain ⟨request, hcall, rfl⟩ := stepSubmit_some hstep
    exact h.answer hcall (by simp) _
  | insert call =>
    obtain ⟨request, hcall, rfl⟩ := stepSubmit_some hstep
    exact h.insertSubmit hcall
  | removeRequest info => exact Option.some.inj hstep ▸ h.removeRequest info
  | pruneNext call entry rejected => exact h.pruneNext hstep
  | close order =>
    simp only [Pool.react, Option.ite_none_right_eq_some, Option.some.injEq] at hstep
    exact hstep.2 ▸ h.close order
  | eraseFromDelSlice =>
    simp only [Pool.react, Option.ite_none_right_eq_some, Option.some.injEq] at hstep
    exact hstep.2 ▸ h.eraseFromDelSlice hstep.1
  | readDelSlice =>
    obtain rfl := Option.some.inj hstep
    split
    · exact h
    · rename_i hlong
      exact { h with erasing := fun _ => by simp only; omega }
  | onAutoRemoveTO info =>
    obtain rfl := Option.some.inj hstep
    unfold autoRemove
    simp only
    split
    · exact { h.removeRequest info with }
    · exact h.removeRequest info
  | onRequestTO request info | onLeaderFwdRequestTO request info =>
    obtain rfl := Option.some.inj hstep
    unfold timedOut
    split
    · exact { h with }
    · exact h
  | changeOptions requestMaxBytes =>
    obtain rfl := Option.some.inj hstep
    unfold Pool.changeOptions
    split
    · exact { h with }
    · exact h
  | prune | stopTimers | restartTimers | nextRequests _ _ _ =>
    exact Option.some.inj hstep ▸ { h with }

end Consistent

end Pool

/--
In every run of a pool, over all interleavings of the sections of its calls, the pool is
consistent: the list and the map are in bijection, the map and the memory of removed
requests are disjoint, the slice lists the removed requests once each, the permits that are
held are those of the requests in the pool and of the calls about to insert, and nothing
has panicked.
-/
theorem pool_consistent {cfg : PoolConfig} {requestMaxBytes : Nat} {events : List PoolEvent}
    {p : Pool} (hrun : run (Pool.step cfg) (newPool requestMaxBytes) events = some p) :
    p.Consistent cfg :=
  run_invariant (fun _ _ _ h hstep => h.step hstep) (Pool.consistent_newPool cfg _) hrun

def bytePool : PoolConfig where
  requestID request := ⟨toString (request.headD 0), toString request.length⟩
  queueSize := 2

def fillBytePool : List PoolEvent :=
  [.submit [1], .check 0, .acquire 0, .insert 0, .submit [2], .submit [3], .check 0, .check 1,
    .acquire 0, .insert 0, .removeRequest ⟨"3", "1"⟩, .removeRequest ⟨"1", "1"⟩, .acquire 0]

theorem pool_consistent_waiting :
    ∃ p, run (Pool.step bytePool) (newPool 0) fillBytePool = some p ∧
      p.fifo.length = 1 ∧ p.permits = 2 ∧ p.Consistent bytePool :=
  exists_of_isSome (by decide +kernel) fun hrun =>
    ⟨by decide +kernel, by decide +kernel, pool_consistent hrun⟩

end SmartBFT
