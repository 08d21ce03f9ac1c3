import SmartBFT.RequestPool.Transition

/-!
# Submit after Close

`Close` empties the pool and sets a flag, but `Submit` looks at the flag only when it
starts.  A call that was under way when `Close` ran inserts its request into the closed
pool, unless the request was removed before or is refused for its size
(`closed_pool_empty_iff`).
-/

namespace SmartBFT

open SmartBFT.Foundation Pool

/-- The sections of `Submit`, `Close` and `RemoveRequest`. -/
def PoolEvent.isCall : PoolEvent → Bool
  | .submit _ | .check _ | .acquire _ | .acquireTimeout _ | .insert _ => true
  | .removeRequest _ | .close _ => true
  | _ => false

namespace Pool

variable {cfg : PoolConfig} {p q : Pool}

def mayInsert (cfg : PoolConfig) (p : Pool) (call : SubmitCall) : Bool :=
  decide (cfg.requestID call.request ∉ p.delMap) &&
    !(decide (call.pc = .opened) && decide (p.requestMaxBytes < call.request.length))

def CanFail (cfg : PoolConfig) (p : Pool) (call : Nat) : Prop :=
  ∃ submit q events error, p.submits[call]? = some submit ∧
    run (Pool.step cfg) p events = some q ∧
    q.submits = p.submits.eraseIdx call ∧
    q.answers = (submit.request, some error) :: p.answers

/-- The pool is empty, no call of `Submit` has returned without an error since `closed`, and
each call that is under way can return with one. -/
structure StaysEmpty (cfg : PoolConfig) (p closed : Pool) : Prop where
  fifo : p.fifo = []
  existMap : ∀ info, info ∉ p.existMap
  failed : ∃ later, p.answers = later ++ closed.answers ∧ ∀ answer ∈ later, answer.2 ≠ none
  returns : ∀ call < p.submits.length, p.CanFail cfg call

structure Emptied (cfg : PoolConfig) (closed p : Pool) : Prop
    extends Consistent cfg p where
  flag : p.closed = true
  empty : p.fifo = []
  late : cfg.queueSize = 0 ∨ ∀ call ∈ p.submits, p.mayInsert cfg call = false
  failed : ∃ later, p.answers = later ++ closed.answers ∧ ∀ answer ∈ later, answer.2 ≠ none

theorem known_of_mem_delMap (h : Consistent cfg p) {info : RequestInfo}
    (hdel : info ∈ p.delMap) : p.known info = some .alreadyProcessed := by
  have hout : info ∉ p.existMap := fun hmem => h.apart info hmem hdel
  simp only [known, hout, hdel, if_false, if_true]

theorem mayInsert_eq_false {call : SubmitCall} :
    p.mayInsert cfg call = false ↔ cfg.requestID call.request ∈ p.delMap ∨
      (call.pc = .opened ∧ p.requestMaxBytes < call.request.length) := by
  simp only [mayInsert, Bool.and_eq_false_iff, decide_eq_false_iff_not, not_not,
    Bool.not_eq_false', Bool.and_eq_true, decide_eq_true_eq]

theorem inserting_pos {call : Nat} {request : Bytes}
    (hcall : p.submits[call]? = some ⟨request, .acquired⟩) : 0 < p.inserting := by
  have hinserting := inserting_answer hcall none
  simp only [if_true] at hinserting
  omega

theorem Consistent.queueSize_pos (h : Consistent cfg p) {call : Nat} {request : Bytes}
    (hcall : p.submits[call]? = some ⟨request, .acquired⟩) : cfg.queueSize ≠ 0 := by
  have hpos := inserting_pos hcall
  have hpermits := h.permits
  have hbounded := h.bounded
  omega

namespace Emptied

variable {closed : Pool}

theorem removed (h : Emptied cfg closed p) {call : Nat} {submit : SubmitCall}
    (hcall : p.submits[call]? = some submit) (hsize : cfg.queueSize ≠ 0)
    (hfits : submit.pc = .opened → ¬ p.requestMaxBytes < submit.request.length) :
    cfg.requestID submit.request ∈ p.delMap := by
  have hlate := h.late.resolve_left hsize submit (List.mem_of_getElem? hcall)
  rcases mayInsert_eq_false.mp hlate with hdel | ⟨hpc, hbig⟩
  · exact hdel
  · exact absurd hbig (hfits hpc)

theorem answer (h : Emptied cfg closed p) {q : Pool} (hq : Consistent cfg q)
    {call : Nat} {request : Bytes} {error : SubmitError}
    (hflag : q.closed = p.closed) (hfifo : q.fifo = p.fifo) (hdel : q.delMap = p.delMap)
    (hmax : q.requestMaxBytes = p.requestMaxBytes)
    (hsubmits : q.submits = p.submits.eraseIdx call)
    (hanswers : q.answers = (request, some error) :: p.answers) : Emptied cfg closed q where
  toConsistent := hq
  flag := hflag.trans h.flag
  empty := hfifo.trans h.empty
  late := h.late.imp_right fun hlate other hother => by
    rw [hsubmits] at hother
    have hold := hlate other (List.mem_of_mem_eraseIdx hother)
    rw [mayInsert_eq_false] at hold ⊢
    rwa [hdel, hmax]
  failed := by
    obtain ⟨later, hlater, herrors⟩ := h.failed
    refine ⟨(request, some error) :: later, by rw [hanswers, hlater]; rfl, ?_⟩
    intro other hother
    rcases List.mem_cons.mp hother with rfl | hother
    · simp
    · exact herrors other hother

theorem proceed (h : Emptied cfg closed p) {q : Pool} (hq : Consistent cfg q)
    {call : Nat} {request : Bytes} {pc : SubmitPc}
    (hflag : q.closed = p.closed) (hfifo : q.fifo = p.fifo) (hdel : q.delMap = p.delMap)
    (hmax : q.requestMaxBytes = p.requestMaxBytes)
    (hsubmits : q.submits = p.submits.set call ⟨request, pc⟩)
    (hremoved : cfg.queueSize ≠ 0 → cfg.requestID request ∈ p.delMap)
    (hanswers : q.answers = p.answers) : Emptied cfg closed q where
  toConsistent := hq
  flag := hflag.trans h.flag
  empty := hfifo.trans h.empty
  late := by
    by_cases hsize : cfg.queueSize = 0
    · exact .inl hsize
    · right
      intro other hother
      rw [hsubmits] at hother
      rw [mayInsert_eq_false, hdel, hmax]
      rcases List.mem_or_eq_of_mem_set hother with hold | rfl
      · exact mayInsert_eq_false.mp (h.late.resolve_left hsize other hold)
      · exact .inl (hremoved hsize)
  failed := by rw [hanswers]; exact h.failed

theorem checkSubmit (h : Emptied cfg closed p) {call : Nat} {request : Bytes}
    (hcall : p.submits[call]? = some ⟨request, .opened⟩) :
    Emptied cfg closed (p.checkSubmit cfg call request) := by
  have hconsistent := h.toConsistent.checkSubmit hcall
  unfold Pool.checkSubmit at hconsistent ⊢
  split
  · rename_i hbig
    rw [if_pos hbig] at hconsistent
    exact h.answer hconsistent rfl rfl rfl rfl rfl rfl
  · rename_i hfits
    rw [if_neg hfits] at hconsistent
    split
    · rename_i error herror
      simp only [herror] at hconsistent
      exact h.answer hconsistent rfl rfl rfl rfl rfl rfl
    · rename_i hknown
      simp only [hknown] at hconsistent
      exact h.proceed hconsistent rfl rfl rfl rfl rfl
        (fun hsize => h.removed hcall hsize fun _ => hfits) rfl

theorem insertSubmit (h : Emptied cfg closed p) {call : Nat} {request : Bytes}
    (hcall : p.submits[call]? = some ⟨request, .acquired⟩) :
    Emptied cfg closed (p.insertSubmit cfg call request) := by
  have hdel := h.removed hcall (h.toConsistent.queueSize_pos hcall) (by simp)
  have hconsistent := h.toConsistent.insertSubmit hcall
  rw [h.toConsistent.insertSubmit_known hcall (known_of_mem_delMap h.toConsistent hdel)]
    at hconsistent ⊢
  exact h.answer hconsistent rfl rfl rfl rfl rfl rfl

theorem moveToDelSlice (h : Emptied cfg closed p) (info : RequestInfo) :
    Emptied cfg closed (p.moveToDelSlice info) := by
  have hconsistent := h.toConsistent.moveToDelSlice info
    (h.toConsistent.notMem_existMap h.empty info)
  unfold Pool.moveToDelSlice at hconsistent ⊢
  split
  · exact h
  · rename_i hnew
    rw [if_neg hnew] at hconsistent
    refine ⟨hconsistent, h.flag, h.empty, ?_, h.failed⟩
    refine h.late.imp_right fun hlate call hcall => ?_
    rw [mayInsert_eq_false]
    exact (mayInsert_eq_false.mp (hlate call hcall)).imp_left (Finset.mem_insert_of_mem ·)

theorem removeRequest (h : Emptied cfg closed p) (info : RequestInfo) :
    Emptied cfg closed (p.removeRequest info) := by
  have hnone := AList.lookup_eq_none.mpr (h.toConsistent.notMem_existMap h.empty info)
  simp only [Pool.removeRequest, hnone]
  exact h.moveToDelSlice info

theorem close (h : Emptied cfg closed p) {order : List RequestInfo}
    (horder : order.isPerm p.existMap.keys) : Emptied cfg closed (p.close order) := by
  have hnone : order = [] := by
    rw [List.eq_nil_iff_forall_not_mem]
    intro info hinfo
    have hmem := (List.isPerm_iff.mp horder).mem_iff.mp hinfo
    exact h.toConsistent.notMem_existMap h.empty info (AList.mem_keys.mpr hmem)
  subst hnone
  have hsame : p.close [] = p := by
    have hflag := h.flag
    simp only [Pool.close, List.foldl_nil, ← hflag]
  rw [hsame]
  exact h

theorem step (h : Emptied cfg closed p) {event : PoolEvent} (hevent : event.isCall = true)
    {q : Pool} (hstep : p.step cfg event = some q) : Emptied cfg closed q := by
  have hconsistent := h.toConsistent.step hstep
  simp only [Pool.step, h.running, Option.isSome_none, Bool.false_eq_true, if_false] at hstep
  cases event with
  | submit request =>
    obtain rfl := Option.some.inj hstep
    rw [Pool.startSubmit, if_pos h.flag] at hconsistent ⊢
    obtain ⟨later, hlater, herrors⟩ := h.failed
    refine ⟨hconsistent, h.flag, h.empty, h.late,
      (request, some .closed) :: later, by simp [hlater], ?_⟩
    intro other hother
    rcases List.mem_cons.mp hother with rfl | hother
    · simp
    · exact herrors other hother
  | check call =>
    obtain ⟨request, hcall, rfl⟩ := stepSubmit_some hstep
    exact h.checkSubmit hcall
  | acquire call =>
    simp only [Pool.react, Option.ite_none_right_eq_some] at hstep
    obtain ⟨hfree, hstep⟩ := hstep
    obtain ⟨request, hcall, rfl⟩ := stepSubmit_some hstep
    exact h.proceed hconsistent rfl rfl rfl rfl rfl
      (fun hsize => h.removed hcall hsize (by simp)) rfl
  | acquireTimeout call =>
    simp only [Pool.react] at hstep
    obtain ⟨request, hcall, rfl⟩ := stepSubmit_some hstep
    exact h.answer hconsistent rfl rfl rfl rfl rfl rfl
  | insert call =>
    obtain ⟨request, hcall, rfl⟩ := stepSubmit_some hstep
    exact h.insertSubmit hcall
  | removeRequest info => exact Option.some.inj hstep ▸ h.removeRequest info
  | close order =>
    simp only [Pool.react, Option.ite_none_right_eq_some, Option.some.injEq] at hstep
    exact hstep.2 ▸ h.close hstep.1
  | _ => simp [PoolEvent.isCall] at hevent

theorem canFail (h : Emptied cfg closed p) {call : Nat} (hlt : call < p.submits.length) :
    p.CanFail cfg call := by
  obtain ⟨⟨request, pc⟩, hcall⟩ : ∃ submit, p.submits[call]? = some submit :=
    ⟨_, List.getElem?_eq_getElem hlt⟩
  cases pc with
  | opened =>
    have hcheck := @step_check cfg p call request h.running hcall
    by_cases hbig : p.requestMaxBytes < request.length
    · refine ⟨_, p.answer call request (some .tooBig), [.check call], .tooBig, hcall, ?_,
        rfl, rfl⟩
      rw [run_one, hcheck, Pool.checkSubmit, if_pos hbig]
    · cases hknown : p.known (cfg.requestID request) with
      | some error =>
        refine ⟨_, p.answer call request (some error), [.check call], error, hcall, ?_,
          rfl, rfl⟩
        rw [run_one, hcheck, Pool.checkSubmit, if_neg hbig, hknown]
      | none =>
        have hproceed : p.step cfg (.check call) = some (p.proceed call request .waiting) := by
          rw [hcheck, checkSubmit_of_fits hbig hknown]
        refine ⟨_, (p.proceed call request .waiting).answer call request (some .acquire),
          [.check call, .acquireTimeout call], .acquire, hcall, ?_, ?_, rfl⟩
        · rw [run_step hproceed, run_one]
          exact step_acquireTimeout h.running (proceed_getElem? hcall)
        · simp [Pool.answer, Pool.proceed, List.eraseIdx_set_eq]
  | waiting =>
    refine ⟨_, p.answer call request (some .acquire), [.acquireTimeout call], .acquire, hcall,
      ?_, rfl, rfl⟩
    rw [run_one, step_acquireTimeout h.running hcall]
  | acquired =>
    have hdel := h.removed hcall (h.toConsistent.queueSize_pos hcall) (by simp)
    have hknown := known_of_mem_delMap h.toConsistent hdel
    refine ⟨_, { p.answer call request (some .alreadyProcessed) with permits := p.permits - 1 },
      [.insert call], .alreadyProcessed, hcall, ?_, rfl, rfl⟩
    rw [run_one, step_insert h.running hcall, h.toConsistent.insertSubmit_known hcall hknown]

end Emptied

/-! ## A call that inserts late -/

def InsertsLate (cfg : PoolConfig) (p : Pool) : Prop :=
  ∃ events q, (∀ event ∈ events, event.isCall = true) ∧
    run (Pool.step cfg) p events = some q ∧ q.fifo ≠ []

theorem InsertsLate.head {event : PoolEvent} (hevent : event.isCall = true)
    (hstep : p.step cfg event = some q) (h : InsertsLate cfg q) : InsertsLate cfg p := by
  obtain ⟨events, last, hcalls, hrun, hfifo⟩ := h
  refine ⟨event :: events, last, ?_, (run_step hstep events).trans hrun, hfifo⟩
  intro other hother
  rcases List.mem_cons.mp hother with rfl | hother
  · exact hevent
  · exact hcalls other hother

theorem Consistent.known_of_empty (h : Consistent cfg p) (hempty : p.fifo = [])
    {info : RequestInfo} (hdel : info ∉ p.delMap) : p.known info = none := by
  simp only [known, h.notMem_existMap hempty info, hdel, if_false]

section Late

variable {call : Nat} {request : Bytes}

theorem Consistent.late_of_acquired (h : Consistent cfg p) (hempty : p.fifo = [])
    (hcall : p.submits[call]? = some ⟨request, .acquired⟩)
    (hdel : cfg.requestID request ∉ p.delMap) : InsertsLate cfg p := by
  refine ⟨[.insert call], p.insertSubmit cfg call request, by simp [PoolEvent.isCall], ?_, ?_⟩
  · rw [run_one, step_insert h.running hcall]
  · rw [h.insertSubmit_eq hcall (h.known_of_empty hempty hdel)]
    simp [Pool.pushBack]

theorem Consistent.late_of_permit (h : Consistent cfg p) (hempty : p.fifo = [])
    (hcall : p.submits[call]? = some ⟨request, .waiting⟩)
    (hdel : cfg.requestID request ∉ p.delMap) (hfree : p.permits < cfg.queueSize) :
    InsertsLate cfg p := by
  have hstep := step_acquire h.running hcall hfree
  exact .head rfl hstep
    ((h.step hstep).late_of_acquired hempty (proceed_getElem? hcall) hdel)

theorem Consistent.late_of_waiting (h : Consistent cfg p) (hempty : p.fifo = [])
    (hsize : cfg.queueSize ≠ 0) (hcall : p.submits[call]? = some ⟨request, .waiting⟩)
    (hdel : cfg.requestID request ∉ p.delMap) : InsertsLate cfg p := by
  by_cases hfree : p.permits < cfg.queueSize
  · exact h.late_of_permit hempty hcall hdel hfree
  · have hheld : 0 < p.inserting := by
      have hpermits := h.permits
      simp only [hempty, List.length_nil] at hpermits
      omega
    obtain ⟨⟨other, pc⟩, hmem, hpc⟩ := List.countP_pos_iff.mp hheld
    obtain rfl : pc = .acquired := by simpa using hpc
    obtain ⟨index, hother⟩ := List.mem_iff_getElem?.mp hmem
    by_cases hremoved : cfg.requestID other ∈ p.delMap
    · have hstep := @step_insert cfg p index other h.running hother
      rw [h.insertSubmit_known hother (known_of_mem_delMap h hremoved)] at hstep
      have hmem' : (⟨request, .waiting⟩ : SubmitCall) ∈ p.submits.eraseIdx index := by
        refine List.mem_eraseIdx_iff_getElem?.mpr ⟨call, ?_, hcall⟩
        rintro rfl
        simp [hother] at hcall
      obtain ⟨call', hcall'⟩ := List.mem_iff_getElem?.mp hmem'
      have hbounded := h.bounded
      exact .head rfl hstep
        ((h.step hstep).late_of_permit hempty hcall' hdel (by simp only; omega))
    · exact h.late_of_acquired hempty hother hremoved

theorem Consistent.late_of_opened (h : Consistent cfg p) (hempty : p.fifo = [])
    (hsize : cfg.queueSize ≠ 0) (hcall : p.submits[call]? = some ⟨request, .opened⟩)
    (hfits : ¬ p.requestMaxBytes < request.length)
    (hdel : cfg.requestID request ∉ p.delMap) : InsertsLate cfg p := by
  have hstep : p.step cfg (.check call) = some (p.proceed call request .waiting) := by
    rw [step_check h.running hcall,
      checkSubmit_of_fits hfits (h.known_of_empty hempty hdel)]
  exact .head rfl hstep ((h.step hstep).late_of_waiting hempty hsize (proceed_getElem? hcall) hdel)

end Late

theorem Consistent.late_of_mayInsert (h : Consistent cfg p) (hempty : p.fifo = [])
    (hsize : cfg.queueSize ≠ 0) {submit : SubmitCall} (hmem : submit ∈ p.submits)
    (hmay : p.mayInsert cfg submit = true) : InsertsLate cfg p := by
  obtain ⟨call, hcall⟩ := List.mem_iff_getElem?.mp hmem
  obtain ⟨request, pc⟩ := submit
  have hmay' := mt mayInsert_eq_false.mpr (by rw [hmay]; simp)
  simp only [not_or, not_and] at hmay'
  obtain ⟨hdel, hfits⟩ := hmay'
  cases pc with
  | opened => exact h.late_of_opened hempty hsize hcall (hfits rfl) hdel
  | waiting => exact h.late_of_waiting hempty hsize hcall hdel
  | acquired => exact h.late_of_acquired hempty hcall hdel

end Pool

/--
In a pool that was closed, with any calls of `Submit` under way and any calls to come, no
request is ever in the pool again, and every call of `Submit` fails, exactly if no call that
was under way when `Close` ran can get to its insertion.
-/
theorem closed_pool_empty_iff {cfg : PoolConfig} {requestMaxBytes : Nat}
    {events : List PoolEvent} {p closed : Pool} {order : List RequestInfo}
    (hrun : run (Pool.step cfg) (newPool requestMaxBytes) events = some p)
    (hclose : p.step cfg (.close order) = some closed) :
    (∀ later q, (∀ event ∈ later, event.isCall = true) →
        run (Pool.step cfg) closed later = some q → q.StaysEmpty cfg closed) ↔
      cfg.queueSize = 0 ∨ ∀ call ∈ closed.submits, closed.mayInsert cfg call = false := by
  have hp := pool_consistent hrun
  have hclosed := hp.step hclose
  obtain ⟨-, hclosing⟩ := hp.close_move hclose
  constructor
  · intro hstays
    by_contra hlate
    simp only [not_or, not_forall, Bool.not_eq_false] at hlate
    obtain ⟨hsize, call, hcall, hmay⟩ := hlate
    obtain ⟨later, q, hcalls, hlater, hfifo⟩ :=
      hclosed.late_of_mayInsert hclosing.fifo hsize hcall hmay
    exact hfifo (hstays later q hcalls hlater).fifo
  · intro hlate later q hcalls hlater
    have hstart : Emptied cfg closed closed :=
      ⟨hclosed, hclosing.closed, hclosing.fifo, hlate, [], rfl, by simp⟩
    have hend := run_invariant_of_events (fun _ _ _ h hevent hstep => h.step hevent hstep)
      hstart hcalls hlater
    exact ⟨hend.empty, hend.toConsistent.notMem_existMap hend.empty, hend.failed,
      fun call hlt => hend.canFail hlt⟩

def closeAfterRemoval : List PoolEvent :=
  [.submit [1], .check 0, .removeRequest ⟨"1", "1"⟩]

/-- The call of `Submit` that waits for a permit cannot insert its request. -/
theorem closed_pool_empty_after_removal :
    ∃ p closed, run (Pool.step bytePool) (newPool 0) closeAfterRemoval = some p ∧
      p.step bytePool (.close []) = some closed ∧ closed.submits = [⟨[1], .waiting⟩] ∧
      ∀ later q, (∀ event ∈ later, event.isCall = true) →
        run (Pool.step bytePool) closed later = some q → q.StaysEmpty bytePool closed :=
  ⟨_, _, Option.eq_some_of_isSome (by decide +kernel), Option.eq_some_of_isSome (by decide +kernel),
    by decide +kernel, (closed_pool_empty_iff (Option.eq_some_of_isSome _)
      (Option.eq_some_of_isSome _)).mpr (.inr (by decide +kernel))⟩

/-- A call that has looked at the flag goes on after `Close`: its request is in the closed
pool, and it returns without an error. -/
theorem submit_into_closed_pool :
    ∃ p closed q, run (Pool.step bytePool) (newPool 0) [.submit [1]] = some p ∧
      p.step bytePool (.close []) = some closed ∧
      run (Pool.step bytePool) closed [.check 0, .acquire 0, .insert 0] = some q ∧
      q.closed = true ∧ q.fifo.map PoolElement.request = [[1]] ∧ q.answers = [([1], none)] :=
  ⟨_, _, _, Option.eq_some_of_isSome (by decide +kernel),
    Option.eq_some_of_isSome (by decide +kernel), Option.eq_some_of_isSome (by decide +kernel),
    by decide +kernel⟩

end SmartBFT
