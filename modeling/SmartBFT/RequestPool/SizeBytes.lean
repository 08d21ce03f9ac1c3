import Mathlib.Algebra.Order.BigOperators.Group.List
import Mathlib.Algebra.Order.Group.Nat
import SmartBFT.RequestPool.Batch

/-!
# The counter of bytes

The pool counts the bytes of its requests, and `NextRequests` with `check` returns at once
if the counter and the number of requests are below the limits.  `Close` does not reset the
counter, so that it can be above the bytes in the pool, but never below: the answer is the one
of the loop (`check_agrees`).

The counter has 64 bits.  It is taken for granted that the requests in the pool and those of
the calls under way can all be in memory, so that their bytes can be counted.
-/

namespace SmartBFT

open SmartBFT.Foundation

namespace Pool

variable {cfg : PoolConfig} {p q : Pool}

def pooledBytes (p : Pool) : Nat := totalBytes p.requests

def callBytes (p : Pool) : Nat := totalBytes (p.submits.map SubmitCall.request)

def InMemory (p : Pool) : Prop := p.pooledBytes + p.callBytes < 2 ^ 64

instance (p : Pool) : Decidable p.InMemory := inferInstanceAs (Decidable (_ < _))

structure Counted (cfg : PoolConfig) (p : Pool) : Prop extends Consistent cfg p where
  counts : ∃ dropped, p.sizeBytes.toNat = p.pooledBytes + dropped ∧
    (p.closed = false → dropped = 0) ∧
    (p.closed = true → p.pooledBytes + dropped + p.callBytes < 2 ^ 64)

theorem totalBytes_le_of_sublist {requests more : List Bytes} (h : requests.Sublist more) :
    totalBytes requests ≤ totalBytes more :=
  List.Sublist.sum_le_sum (h.map List.length) fun _ _ => Nat.zero_le _

theorem totalBytes_perm {requests more : List Bytes} (h : requests.Perm more) :
    totalBytes requests = totalBytes more :=
  (h.map List.length).sum_eq

theorem Inserted.callBytes_eq {call : Nat} {request : Bytes}
    (h : Inserted cfg p q call request) : p.callBytes = request.length + q.callBytes := by
  obtain ⟨hlt, hget⟩ := List.getElem?_eq_some_iff.mp h.calls
  have hperm := (List.getElem_cons_eraseIdx_perm hlt).map SubmitCall.request
  rw [hget, List.map_cons] at hperm
  rw [callBytes, ← totalBytes_perm hperm, totalBytes_cons, callBytes, h.submits]

theorem Inserted.pooledBytes_eq {call : Nat} {request : Bytes}
    (h : Inserted cfg p q call request) : q.pooledBytes = p.pooledBytes + request.length := by
  simp [pooledBytes, requests, h.fifo, totalBytes]

theorem Removed.pooledBytes_eq (hp : Consistent cfg p) {info : RequestInfo}
    {element : PoolElement} (h : Removed p q info element) :
    p.pooledBytes = element.request.length + q.pooledBytes := by
  obtain ⟨hmem, -⟩ := (hp.indexed.listed info element).mp h.pooled
  have hperm := (List.perm_cons_erase hmem).map PoolElement.request
  rw [pooledBytes, requests, totalBytes_perm hperm, List.map_cons, totalBytes_cons, pooledBytes,
    requests, h.fifo]

namespace Counted

theorem bound (h : Counted cfg p) (hmemory : p.InMemory) :
    ∃ dropped, p.sizeBytes.toNat = p.pooledBytes + dropped ∧
      (p.closed = false → dropped = 0) ∧ p.pooledBytes + dropped + p.callBytes < 2 ^ 64 := by
  obtain ⟨dropped, hcounter, hopen, hclosed⟩ := h.counts
  refine ⟨dropped, hcounter, hopen, ?_⟩
  cases hflag : p.closed with
  | true => exact hclosed hflag
  | false =>
    rw [hopen hflag, Nat.add_zero]
    exact hmemory

theorem kept (h : Counted cfg p) (hq : Consistent cfg q) (hfifo : q.fifo = p.fifo)
    (hsize : q.sizeBytes = p.sizeBytes) (hflags : q.closed = p.closed)
    (hsubmits : (q.submits.map SubmitCall.request).Sublist (p.submits.map SubmitCall.request) ∨
      p.closed = false ∧ ∃ request, q.submits = p.submits ++ [⟨request, .opened⟩]) :
    Counted cfg q := by
  obtain ⟨dropped, hcounter, hopen, hclosed⟩ := h.counts
  have hpooled : q.pooledBytes = p.pooledBytes := by
    rw [pooledBytes, requests, hfifo, pooledBytes, requests]
  refine ⟨hq, dropped, ?_, ?_, ?_⟩
  · rw [hsize, hpooled, hcounter]
  · rw [hflags]
    exact hopen
  · intro hflag
    rw [hflags] at hflag
    have hbound := hclosed hflag
    rcases hsubmits with hsublist | ⟨hopened, -⟩
    · have hcalls : q.callBytes ≤ p.callBytes := totalBytes_le_of_sublist hsublist
      omega
    · rw [hflag] at hopened
      simp at hopened

theorem inserted (h : Counted cfg p) (hmemory : p.InMemory) {call : Nat} {request : Bytes}
    (move : Inserted cfg p q call request) (hq : Consistent cfg q) : Counted cfg q := by
  obtain ⟨dropped, hcounter, hopen, hbound⟩ := h.bound hmemory
  have hcalls := move.callBytes_eq
  have hpooled := move.pooledBytes_eq
  refine ⟨hq, dropped, ?_, by rwa [move.closed], fun _ => by omega⟩
  rw [move.sizeBytes, UInt64.toNat_add, UInt64.toNat_ofNat', hcounter, hpooled,
    Nat.add_mod_mod, Nat.mod_eq_of_lt (by omega)]
  omega

theorem removed (h : Counted cfg p) {info : RequestInfo} {element : PoolElement}
    (move : Removed p q info element) (hq : Consistent cfg q) :
    Counted cfg q ∧ q.sizeBytes.toNat + element.request.length = p.sizeBytes.toNat := by
  obtain ⟨dropped, hcounter, hopen, hclosed⟩ := h.counts
  have hpooled := move.pooledBytes_eq h.toConsistent
  have hlt : p.sizeBytes.toNat < 2 ^ 64 := p.sizeBytes.toNat_lt
  have hlength : (UInt64.ofNat element.request.length).toNat = element.request.length := by
    rw [UInt64.toNat_ofNat', Nat.mod_eq_of_lt (by omega)]
  have hle : UInt64.ofNat element.request.length ≤ p.sizeBytes := by
    rw [UInt64.le_iff_toNat_le, hlength]
    omega
  have hsize : q.sizeBytes.toNat + element.request.length = p.sizeBytes.toNat := by
    rw [move.sizeBytes, UInt64.toNat_sub_of_le _ _ hle, hlength]
    omega
  have hcalls : q.callBytes = p.callBytes := by rw [callBytes, move.submits, callBytes]
  refine ⟨⟨hq, dropped, by omega, by rwa [move.closed], fun hflag => ?_⟩, hsize⟩
  rw [move.closed] at hflag
  have hbound := hclosed hflag
  omega

theorem closing (h : Counted cfg p) (hmemory : p.InMemory) {order : List RequestInfo}
    (move : Closing p q order) (hq : Consistent cfg q) : Counted cfg q := by
  obtain ⟨dropped, hcounter, -, hbound⟩ := h.bound hmemory
  have hpooled : q.pooledBytes = 0 := by simp [pooledBytes, requests, move.fifo, totalBytes]
  have hcalls : q.callBytes = p.callBytes := by rw [callBytes, move.submits, callBytes]
  refine ⟨hq, p.pooledBytes + dropped, ?_, ?_, fun _ => by omega⟩
  · rw [move.sizeBytes, hcounter, hpooled, Nat.zero_add]
  · rw [move.closed]
    simp

theorem step (h : Counted cfg p) (hmemory : p.InMemory) {event : PoolEvent}
    (hstep : p.step cfg event = some q) : Counted cfg q := by
  have hq := h.toConsistent.step hstep
  cases h.toConsistent.step_move hstep with
  | quiet move => exact h.kept hq move.fifo move.sizeBytes move.closed move.submits
  | inserted call request _ move => exact h.inserted hmemory move hq
  | removed info element _ move => exact (h.removed move hq).1
  | closed order _ _ move => exact h.closing hmemory move hq
  | recorded info move =>
    exact h.kept hq move.fifo move.sizeBytes move.closed (.inl (by rw [move.submits]))
  | erased move =>
    exact h.kept hq move.fifo move.sizeBytes move.closed (.inl (by rw [move.submits]))

theorem pooledBytes_le (h : Counted cfg p) : p.pooledBytes ≤ p.sizeBytes.toNat := by
  obtain ⟨dropped, hcounter, -⟩ := h.counts
  omega

end Counted

/-! ## The check -/

theorem nextRequests_not_full {maxCount : Nat} {maxSizeBytes : UInt64}
    (hcount : p.fifo.length < maxCount) (hsize : p.pooledBytes < maxSizeBytes.toNat) :
    (p.nextRequests maxCount maxSizeBytes false).2 = false := by
  obtain ⟨taken, rest, stopped, hsplit, hloop, -, -, hstop, -⟩ :=
    @collectBatch_takes maxSizeBytes (min p.fifo.length maxCount) p.fifo [] 0 UInt64.zero_le
  have hbytes : p.pooledBytes = totalBytes (taken.map PoolElement.request) +
      totalBytes (rest.map PoolElement.request) := by
    rw [pooledBytes, requests, hsplit, List.map_append, totalBytes_append]
  have hlength := congrArg List.length hsplit
  rw [List.length_append] at hlength
  have hlt := maxSizeBytes.toNat_lt
  simp only [nextRequests_eq, hloop, UInt64.zero_add, List.nil_append, Bool.or_eq_false_iff,
    decide_eq_false_iff_not, List.length_map, UInt64.le_iff_toNat_le, UInt64.toNat_ofNat']
  refine ⟨?_, ?_, by omega⟩
  · cases stopped with
    | false => rfl
    | true =>
      obtain ⟨element, hhead, hbig⟩ := hstop rfl
      obtain ⟨behind, rfl⟩ := List.head?_eq_some_iff.mp hhead
      rw [List.map_cons, totalBytes_cons] at hbytes
      rw [UInt64.zero_add, ← UInt64.ofNat_add, UInt64.lt_iff_toNat_lt,
        UInt64.toNat_ofNat', Nat.mod_eq_of_lt (by omega)] at hbig
      omega
  · rw [Nat.mod_eq_of_lt (by omega)]
    omega

theorem Counted.nextRequests_check (h : Counted cfg p) (maxCount : Nat)
    (maxSizeBytes : UInt64) :
    p.nextRequests maxCount maxSizeBytes true = p.nextRequests maxCount maxSizeBytes false ∨
      (p.nextRequests maxCount maxSizeBytes true).2 = false ∧
        (p.nextRequests maxCount maxSizeBytes false).2 = false := by
  by_cases hbelow : p.existMap.entries.length < maxCount ∧ p.sizeBytes < maxSizeBytes
  · right
    refine ⟨by simp [nextRequests, hbelow], nextRequests_not_full ?_ ?_⟩
    · rw [← h.indexed.length_eq]
      exact hbelow.1
    · have hcounter := h.pooledBytes_le
      have hsize := UInt64.lt_iff_toNat_lt.mp hbelow.2
      omega
  · left
    simp only [nextRequests, hbelow, and_false, if_false]

end Pool

/--
In every state that a pool reaches, with requests that can all be in memory, `NextRequests`
says with the check that the batch is full exactly if it says so without, and then returns the
same batch.  The counter is at least the bytes in the pool, and removing a request does not
wrap it around.
-/
theorem check_agrees {cfg : PoolConfig} {requestMaxBytes : Nat} {events : List PoolEvent}
    {p : Pool} (hrun : run (Pool.step cfg) (newPool requestMaxBytes) events = some p)
    (hmemory : StepsMeet (Pool.step cfg) (fun p _ => p.InMemory) (newPool requestMaxBytes) events)
    (maxCount : Nat) (maxSizeBytes : UInt64) :
    ((p.nextRequests maxCount maxSizeBytes true).2 = true ↔
        (p.nextRequests maxCount maxSizeBytes false).2 = true) ∧
      ((p.nextRequests maxCount maxSizeBytes true).2 = true →
        (p.nextRequests maxCount maxSizeBytes true).1 =
          (p.nextRequests maxCount maxSizeBytes false).1) ∧
      p.pooledBytes ≤ p.sizeBytes.toNat ∧
      ∀ event q info element, p.step cfg event = some q → Pool.Removed p q info element →
        q.sizeBytes.toNat + element.request.length = p.sizeBytes.toNat := by
  have hstart : Pool.Counted cfg (newPool requestMaxBytes) :=
    ⟨Pool.consistent_newPool cfg _, 0, by simp [newPool, Pool.pooledBytes, Pool.requests,
      totalBytes], by simp, by simp [newPool]⟩
  have hcounted := run_invariant_of_steps_meet
    (fun _ _ _ h hmem hstep => Pool.Counted.step h hmem hstep) hstart hmemory hrun
  refine ⟨?_, ?_, hcounted.pooledBytes_le, ?_⟩
  · rcases hcounted.nextRequests_check maxCount maxSizeBytes with hsame | ⟨hcheck, hloop⟩
    · rw [hsame]
    · rw [hcheck, hloop]
  · intro hfull
    rcases hcounted.nextRequests_check maxCount maxSizeBytes with hsame | ⟨hcheck, -⟩
    · rw [hsame]
    · rw [hcheck] at hfull
      simp at hfull
  · intro event q info element hstep move
    exact (hcounted.removed move (hcounted.toConsistent.step hstep)).2

def insertAfterClose : List PoolEvent :=
  [.submit [1], .check 0, .acquire 0, .insert 0, .submit [2], .check 0,
    .close [⟨"1", "1"⟩], .acquire 0, .insert 0]

theorem check_agrees_after_close :
    ∃ p, run (Pool.step bytePool) (newPool 0) insertAfterClose = some p ∧ p.sizeBytes = 2 ∧
      p.pooledBytes = 1 ∧
      ((p.nextRequests 3 2 true).2 = true ↔ (p.nextRequests 3 2 false).2 = true) :=
  exists_of_isSome (by decide +kernel) fun hrun =>
    ⟨by decide +kernel, by decide +kernel, (check_agrees hrun (by decide +kernel) 3 2).1⟩

end SmartBFT
