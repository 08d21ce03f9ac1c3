import Mathlib.Algebra.GroupWithZero.Nat
import SmartBFT.RequestPool.Transition

/-!
# The batches of the pool

`NextRequests` takes requests from the front until one of its two limits stops it, and says
whether the batch is full.  The batch is the longest prefix within the limits, and a batch
that is not full is the whole pool.  A full batch stays the same while requests are added,
except that a batch which has just the allowed size takes up an empty request
(`nextRequests_prefix`).
-/

namespace SmartBFT

open SmartBFT.Foundation

structure LongestPrefix {α : Type} (fits : List α → Prop) (all batch : List α) : Prop where
  taken : batch <+: all
  within : fits batch
  longest : ∀ other, other <+: all → fits other → other.length ≤ batch.length

def totalBytes (requests : List Bytes) : Nat := (requests.map List.length).sum

theorem totalBytes_append (requests more : List Bytes) :
    totalBytes (requests ++ more) = totalBytes requests + totalBytes more := by
  simp [totalBytes]

theorem totalBytes_cons (request : Bytes) (requests : List Bytes) :
    totalBytes (request :: requests) = request.length + totalBytes requests := by
  simp [totalBytes]

theorem totalBytes_le_of_isPrefix {requests more : List Bytes} (h : requests <+: more) :
    totalBytes requests ≤ totalBytes more := by
  obtain ⟨rest, rfl⟩ := h
  rw [totalBytes_append]
  omega

def FitsBatch (maxCount : Nat) (maxSizeBytes : UInt64) (batch : List Bytes) : Prop :=
  batch.length ≤ maxCount ∧ totalBytes batch ≤ maxSizeBytes.toNat

namespace Pool

variable {cfg : PoolConfig} {p q : Pool}
variable {maxSizeBytes : UInt64} {event : PoolEvent}

def requests (p : Pool) : List Bytes := p.fifo.map PoolElement.request

/-! ## The loop -/

section Loop

variable {maxSizeBytes : UInt64}

theorem collectBatch_takes (count : Nat) (elements : List PoolElement) (batch : List Bytes)
    (totalSize : UInt64) (hsize : totalSize ≤ maxSizeBytes) :
    ∃ taken rest stopped, elements = taken ++ rest ∧
      collectBatch maxSizeBytes count elements batch totalSize =
        (batch ++ taken.map PoolElement.request,
          totalSize + UInt64.ofNat (totalBytes (taken.map PoolElement.request)), stopped) ∧
      (∀ part, part <+: taken.map PoolElement.request →
        totalSize + UInt64.ofNat (totalBytes part) ≤ maxSizeBytes) ∧
      taken.length ≤ count ∧
      (stopped = true → ∃ element, rest.head? = some element ∧
        maxSizeBytes < totalSize + UInt64.ofNat (totalBytes (taken.map PoolElement.request)) +
          UInt64.ofNat element.request.length) ∧
      (stopped = false → taken.length = count ∨ rest = []) := by
  have hnone : ∀ part : List Bytes, part <+: [] →
      totalSize + UInt64.ofNat (totalBytes part) ≤ maxSizeBytes := by
    intro part hpart
    rw [List.prefix_nil.mp hpart]
    simpa [totalBytes] using hsize
  induction count generalizing elements batch totalSize with
  | zero => exact ⟨[], elements, false, rfl, by simp [collectBatch, totalBytes], hnone,
      by simp, by simp, by simp⟩
  | succ count ih =>
    cases elements with
    | nil => exact ⟨[], [], false, rfl, by simp [collectBatch, totalBytes], hnone,
        by simp, by simp, by simp⟩
    | cons element elements =>
      by_cases hbig : maxSizeBytes < totalSize + UInt64.ofNat element.request.length
      · refine ⟨[], element :: elements, true, rfl, ?_, hnone, by simp,
          fun _ => ⟨element, rfl, by simpa [totalBytes] using hbig⟩, by simp⟩
        simp [collectBatch, hbig, totalBytes]
      · have hfirst := UInt64.not_lt.mp hbig
        have htotal : ∀ requests : List Bytes,
            totalSize + UInt64.ofNat element.request.length +
              UInt64.ofNat (totalBytes requests) =
            totalSize + UInt64.ofNat (totalBytes (element.request :: requests)) := by
          intro requests
          rw [totalBytes_cons, UInt64.ofNat_add, UInt64.add_assoc]
        obtain ⟨taken, rest, stopped, hsplit, hresult, hfits, hcount, hstop, hdone⟩ :=
          ih elements (batch ++ [element.request])
            (totalSize + UInt64.ofNat element.request.length) hfirst (by
              intro part hpart
              rw [List.prefix_nil.mp hpart]
              simpa [totalBytes] using hfirst)
        simp only [htotal] at hresult hfits hstop
        refine ⟨element :: taken, rest, stopped, by rw [hsplit]; rfl, ?_, ?_, ?_, hstop, ?_⟩
        · rw [collectBatch]
          simp only [hbig, if_false, hresult, List.map_cons, List.append_assoc,
            List.singleton_append]
        · intro part hpart
          cases part with
          | nil => exact hnone [] List.nil_prefix
          | cons request part =>
            rw [List.map_cons, List.cons_prefix_cons] at hpart
            obtain ⟨rfl, hpart⟩ := hpart
            exact hfits part hpart
        · simpa using hcount
        · intro hrunning
          simpa using hdone hrunning

theorem collectBatch_append_of_le {count : Nat} {elements : List PoolElement}
    (hcount : count ≤ elements.length) (more : List PoolElement) (batch : List Bytes)
    (totalSize : UInt64) :
    collectBatch maxSizeBytes count (elements ++ more) batch totalSize =
      collectBatch maxSizeBytes count elements batch totalSize := by
  induction count generalizing elements batch totalSize with
  | zero => simp [collectBatch]
  | succ count ih =>
    cases elements with
    | nil => simp at hcount
    | cons element elements =>
      simp only [List.length_cons, Nat.add_le_add_iff_right] at hcount
      simp only [List.cons_append, collectBatch, ih hcount]

theorem collectBatch_append (elements more : List PoolElement) (count : Nat)
    (batch : List Bytes) (totalSize : UInt64) :
    collectBatch maxSizeBytes (elements.length + count) (elements ++ more) batch totalSize =
      let first := collectBatch maxSizeBytes elements.length elements batch totalSize
      if first.2.2 then first
      else collectBatch maxSizeBytes count more first.1 first.2.1 := by
  induction elements generalizing batch totalSize with
  | nil => simp [collectBatch]
  | cons element elements ih =>
    rw [List.length_cons, Nat.add_right_comm, List.cons_append]
    simp only [collectBatch, ih]
    split <;> simp

end Loop

/-! ## The batch -/

theorem nextRequests_eq (p : Pool) (maxCount : Nat) (maxSizeBytes : UInt64) :
    p.nextRequests maxCount maxSizeBytes false =
      let loop := collectBatch maxSizeBytes (min p.fifo.length maxCount) p.fifo [] 0
      (loop.1, loop.2.2 || (decide (maxSizeBytes ≤ loop.2.1) ||
        decide (loop.1.length = maxCount))) := by
  simp only [nextRequests, Bool.false_eq_true, false_and, if_false]
  split <;> simp_all

/-- The first request that goes over the allowed size is seen to do so: the sum does not wrap
around to a size that is allowed. -/
def CountsOver (p : Pool) (maxCount : Nat) (maxSizeBytes : UInt64) : Prop :=
  ∀ taken request, taken ++ [request] <+: p.requests → taken.length < maxCount →
    totalBytes taken ≤ maxSizeBytes.toNat →
    maxSizeBytes.toNat < totalBytes (taken ++ [request]) →
      maxSizeBytes < UInt64.ofNat (totalBytes (taken ++ [request]))

theorem fits_of_prefix {batch : List Bytes}
    (hcounts : ∀ taken request, taken ++ [request] <+: batch →
      totalBytes taken ≤ maxSizeBytes.toNat →
      UInt64.ofNat (totalBytes (taken ++ [request])) ≤ maxSizeBytes →
        totalBytes (taken ++ [request]) ≤ maxSizeBytes.toNat)
    (hfits : ∀ part, part <+: batch → UInt64.ofNat (totalBytes part) ≤ maxSizeBytes) :
    totalBytes batch ≤ maxSizeBytes.toNat := by
  induction batch using List.reverseRecOn with
  | nil => simp [totalBytes]
  | append_singleton batch request ih =>
    refine hcounts batch request List.prefix_rfl (ih ?_ ?_) (hfits _ List.prefix_rfl)
    · exact fun taken other hprefix =>
        hcounts taken other ( hprefix.trans (List.prefix_append batch [request]))
    · exact fun part hpart => hfits part (hpart.trans (List.prefix_append batch [request]))

theorem nextRequests_longest_iff (p : Pool) (maxCount : Nat) (maxSizeBytes : UInt64) :
    LongestPrefix (FitsBatch maxCount maxSizeBytes) p.requests
        (p.nextRequests maxCount maxSizeBytes false).1 ↔
      p.CountsOver maxCount maxSizeBytes := by
  obtain ⟨taken, rest, stopped, hsplit, hloop, hfits, hcount, hstop, hdone⟩ :=
    @collectBatch_takes maxSizeBytes (min p.fifo.length maxCount) p.fifo [] 0
      (UInt64.zero_le)
  have hall : p.requests = taken.map PoolElement.request ++ rest.map PoolElement.request := by
    rw [requests, hsplit, List.map_append]
  have htaken : taken.map PoolElement.request <+: p.requests := by
    rw [hall]
    exact List.prefix_append _ _
  have hlength : p.fifo.length = taken.length + rest.length := by
    rw [hsplit, List.length_append]
  simp only [nextRequests_eq, hloop, List.nil_append]
  simp only [UInt64.zero_add, ← UInt64.ofNat_add] at hfits hstop
  -- the request at which the loop has stopped is the one behind the batch
  have hnext : ∀ request, taken.map PoolElement.request ++ [request] <+: p.requests →
      taken.length < maxCount →
        maxSizeBytes < UInt64.ofNat (totalBytes (taken.map PoolElement.request ++ [request])) := by
    intro request hrequest hroom
    rw [hall, List.prefix_append_right_inj] at hrequest
    cases stopped with
    | false =>
      rcases hdone rfl with hlimit | rfl
      · have := hrequest.length_le
        simp only [List.length_map, List.length_singleton] at this
        omega
      · simp at hrequest
    | true =>
      obtain ⟨element, hhead, hbig⟩ := hstop rfl
      obtain ⟨behind, rfl⟩ := List.head?_eq_some_iff.mp hhead
      rw [List.map_cons, List.cons_prefix_cons] at hrequest
      rw [totalBytes_append, hrequest.1]
      simpa [totalBytes] using hbig
  constructor
  · rintro ⟨-, ⟨-, hwithin⟩, hlongest⟩ part request hpart hroom hsize hover
    have hpart' : part <+: p.requests := (List.prefix_append part [request]).trans hpart
    have hle := hlongest part hpart' ⟨hroom.le, hsize⟩
    -- the batch is no longer than the requests that fit
    have hge : (taken.map PoolElement.request).length ≤ part.length := by
      by_contra hlonger
      have hmore := totalBytes_le_of_isPrefix (List.prefix_of_prefix_length_le hpart htaken
        (by simp only [List.length_append, List.length_singleton]; omega))
      omega
    obtain rfl : taken.map PoolElement.request = part :=
      (List.prefix_of_prefix_length_le htaken hpart' hge).eq_of_length_le hle
    exact hnext request hpart (by simpa using hroom)
  · intro hcounts
    refine ⟨htaken, ⟨by simp only [List.length_map]; omega, ?_⟩, ?_⟩
    · refine fits_of_prefix (fun part request hpart hsize hwrapped => ?_) hfits
      by_contra hover
      have hlengths := hpart.length_le
      simp only [List.length_append, List.length_singleton, List.length_map] at hlengths
      exact absurd (hcounts part request (hpart.trans htaken) (by omega) hsize (by omega))
        (UInt64.not_lt.mpr hwrapped)
    · rintro other hother ⟨hothercount, hothersize⟩
      by_contra hlonger
      rw [not_le] at hlonger
      have hroom : taken.length < maxCount := by
        simp only [List.length_map] at hlonger
        omega
      obtain ⟨request, hrequest⟩ : ∃ request,
          taken.map PoolElement.request ++ [request] <+: other := by
        obtain ⟨more, rfl⟩ := List.prefix_of_prefix_length_le htaken hother hlonger.le
        cases more with
        | nil => simp at hlonger
        | cons request more =>
          rw [List.append_cons]
          exact ⟨request, List.prefix_append _ more⟩
      have hbig := hnext request (hrequest.trans hother) hroom
      have hbytes := totalBytes_le_of_isPrefix hrequest
      rw [UInt64.lt_iff_toNat_lt, UInt64.toNat_ofNat'] at hbig
      have hmod := Nat.mod_le (totalBytes (taken.map PoolElement.request ++ [request])) (2 ^ 64)
      omega

theorem nextRequests_whole {maxCount : Nat}
    (h : (p.nextRequests maxCount maxSizeBytes false).2 = false) :
    (p.nextRequests maxCount maxSizeBytes false).1 = p.requests := by
  obtain ⟨taken, rest, stopped, hsplit, hloop, -, hcount, -, hdone⟩ :=
    @collectBatch_takes maxSizeBytes (min p.fifo.length maxCount) p.fifo [] 0 UInt64.zero_le
  simp only [nextRequests_eq, hloop, List.nil_append, Bool.or_eq_false_iff,
    decide_eq_false_iff_not, List.length_map] at h ⊢
  obtain ⟨hrunning, -, hroom⟩ := h
  have hlength := congrArg List.length hsplit
  rw [List.length_append] at hlength
  have hrest : rest = [] := by
    rcases hdone hrunning with hall | hrest
    · exact List.eq_nil_of_length_eq_zero (by omega)
    · exact hrest
  rw [requests, hsplit, hrest, List.append_nil]

/-- The loop takes the request although the batch has reached the allowed size: the request
is empty, or so long that the sum wraps around. -/
def fitsFull (maxSizeBytes : UInt64) (request : Bytes) : Bool :=
  maxSizeBytes + UInt64.ofNat request.length ≤ maxSizeBytes

/-- The pool has fewer requests than allowed, the loop takes all of them, and then the first one
that was added. -/
def GrowsFull (p : Pool) (maxCount : Nat) (maxSizeBytes : UInt64) (added : List Bytes) : Prop :=
  p.requests.length < maxCount ∧
    (∀ part, part <+: p.requests → UInt64.ofNat (totalBytes part) ≤ maxSizeBytes) ∧
    ∃ request ∈ added.head?, fitsFull maxSizeBytes request = true

theorem collectBatch_stops {element : PoolElement}
    (h : fitsFull maxSizeBytes element.request = false) (count : Nat) (added : List PoolElement)
    (batch : List Bytes) :
    collectBatch maxSizeBytes (count + 1) (element :: added) batch maxSizeBytes =
      (batch, maxSizeBytes, true) := by
  simp only [fitsFull, decide_eq_false_iff_not, UInt64.not_le] at h
  simp [collectBatch, h]

theorem collectBatch_grows {element : PoolElement}
    (h : fitsFull maxSizeBytes element.request = true) (count : Nat) (added : List PoolElement)
    (batch : List Bytes) :
    (collectBatch maxSizeBytes (count + 1) (element :: added) batch maxSizeBytes).1 ≠ batch := by
  simp only [fitsFull, decide_eq_true_eq] at h
  obtain ⟨taken, rest, stopped, -, hloop, -⟩ := @collectBatch_takes maxSizeBytes count added
    (batch ++ [element.request]) (maxSizeBytes + UInt64.ofNat element.request.length) h
  simp [collectBatch, UInt64.not_lt.mpr h, hloop]

theorem nextRequests_same_iff {maxCount : Nat} {batch : List Bytes}
    (hfull : p.nextRequests maxCount maxSizeBytes false = (batch, true)) {added : List PoolElement}
    (hadded : q.fifo = p.fifo ++ added) :
    q.nextRequests maxCount maxSizeBytes false = (batch, true) ↔
      ¬ p.GrowsFull maxCount maxSizeBytes (added.map PoolElement.request) := by
  rcases Nat.lt_or_ge p.fifo.length maxCount with hroom | hcount
  · obtain ⟨taken, rest, stopped, hsplit, hloop, hfits, -, hstop, hdone⟩ :=
      @collectBatch_takes maxSizeBytes p.fifo.length p.fifo [] 0 UInt64.zero_le
    have hlength := congrArg List.length hsplit
    rw [List.length_append] at hlength
    have hmore : min q.fifo.length maxCount =
        p.fifo.length + min added.length (maxCount - p.fifo.length) := by
      rw [hadded, List.length_append]
      omega
    rw [nextRequests_eq, Nat.min_eq_left hroom.le] at hfull
    rw [nextRequests_eq, hmore, hadded, collectBatch_append]
    simp only [hloop, List.nil_append, Prod.mk.injEq] at hfull ⊢
    obtain ⟨rfl, hreason⟩ := hfull
    cases stopped with
    | true =>
      -- the loop stopped inside the old requests
      have hpart : ¬ p.GrowsFull maxCount maxSizeBytes (added.map PoolElement.request) := by
        rintro ⟨-, hall, -⟩
        obtain ⟨element, hhead, hbig⟩ := hstop rfl
        obtain ⟨behind, rfl⟩ := List.head?_eq_some_iff.mp hhead
        have hprefix : (taken ++ [element]).map PoolElement.request <+: p.requests := by
          rw [requests, hsplit, List.append_cons taken element behind]
          exact (List.prefix_append (taken ++ [element]) behind).map _
        have hsum := hall _ hprefix
        rw [List.map_append, totalBytes_append, UInt64.ofNat_add] at hsum
        rw [UInt64.zero_add] at hbig
        exact absurd hsum (UInt64.not_le.mpr (by simpa [totalBytes] using hbig))
      simp [hpart]
    | false =>
      -- all requests were taken, and they are of just the allowed size
      obtain rfl : rest = [] :=
        (hdone rfl).elim (fun hall => List.eq_nil_of_length_eq_zero (by omega)) id
      rw [List.append_nil] at hsplit
      subst hsplit
      have hsize : 0 + UInt64.ofNat (totalBytes (p.fifo.map PoolElement.request)) =
          maxSizeBytes := by
        refine UInt64.le_antisymm (hfits _ List.prefix_rfl) ?_
        have hless : p.fifo.length ≠ maxCount := by omega
        simpa [hless] using hreason
      rw [hsize]
      simp only [Bool.false_eq_true, if_false]
      cases added with
      | nil => simp [collectBatch, GrowsFull]
      | cons element added =>
        obtain ⟨count, hcount⟩ : ∃ count,
            min (element :: added).length (maxCount - p.fifo.length) = count + 1 :=
          Nat.exists_eq_succ_of_ne_zero (by simp; omega)
        rw [hcount]
        cases hfirst : fitsFull maxSizeBytes element.request with
        | false => simp [collectBatch_stops hfirst, GrowsFull, hfirst]
        | true =>
          have hgrows : p.GrowsFull maxCount maxSizeBytes
              ((element :: added).map PoolElement.request) :=
            ⟨by simpa [requests] using hroom, by simpa [requests] using hfits, element.request, rfl,
              hfirst⟩
          exact iff_of_false (fun hsame => collectBatch_grows hfirst _ _ _ hsame.1)
            (not_not_intro hgrows)
  · have hloop : q.nextRequests maxCount maxSizeBytes false =
        p.nextRequests maxCount maxSizeBytes false := by
      have hmore : min q.fifo.length maxCount = maxCount := by
        rw [hadded, List.length_append]
        omega
      rw [nextRequests_eq, nextRequests_eq, hmore, Nat.min_eq_right hcount, hadded,
        collectBatch_append_of_le hcount]
    have hall : ¬ p.GrowsFull maxCount maxSizeBytes (added.map PoolElement.request) := by
      rintro ⟨hroom, -⟩
      simp only [requests, List.length_map] at hroom
      omega
    simp [hloop, hfull, hall]

/-! ## The order of the pool -/

structure InOrder (cfg : PoolConfig) (p : Pool) : Prop extends Consistent cfg p where
  order : p.requests.Sublist p.accepted

theorem InOrder.step (h : p.InOrder cfg) (hstep : p.step cfg event = some q) : q.InOrder cfg := by
  refine ⟨h.toConsistent.step hstep, ?_⟩
  have horder := h.order
  unfold requests at horder ⊢
  cases h.toConsistent.step_move hstep with
  | quiet move => rwa [move.fifo, move.accepted]
  | inserted call request _ move =>
    rw [move.fifo, move.accepted, List.map_append]
    exact horder.append (List.Sublist.refl _)
  | removed info element _ move =>
    rw [move.fifo, move.accepted]
    exact (List.erase_sublist.map _).trans horder
  | recorded info move => rwa [move.fifo, move.accepted]
  | closed order _ _ move =>
    rw [move.fifo]
    exact List.nil_sublist _
  | erased move => rwa [move.fifo, move.accepted]

theorem Consistent.step_keeps (h : Consistent cfg p) (hkeeps : event.keeps = true)
    (hstep : p.step cfg event = some q) : ∃ added, q.fifo = p.fifo ++ added := by
  cases h.step_move hstep with
  | quiet move => exact ⟨[], by rw [move.fifo, List.append_nil]⟩
  | inserted call request _ move => exact ⟨_, move.fifo⟩
  | removed info element removes _ =>
    rw [hkeeps] at removes
    simp at removes
  | recorded info move => exact ⟨[], by rw [move.fifo, List.append_nil]⟩
  | closed order close _ _ =>
    rw [close] at hkeeps
    simp [PoolEvent.keeps] at hkeeps
  | erased move => exact ⟨[], by rw [move.fifo, List.append_nil]⟩

structure Grown (cfg : PoolConfig) (p q : Pool) : Prop extends Consistent cfg q where
  added : ∃ added, q.fifo = p.fifo ++ added

theorem Grown.step {t : Pool} (h : Grown cfg p q) (hkeeps : event.keeps = true)
    (hstep : q.step cfg event = some t) : Grown cfg p t := by
  obtain ⟨added, hadded⟩ := h.added
  obtain ⟨more, hmore⟩ := h.toConsistent.step_keeps hkeeps hstep
  exact ⟨h.toConsistent.step hstep, added ++ more, by rw [hmore, hadded, List.append_assoc]⟩

theorem Consistent.run_keeps (h : Consistent cfg p) {later : List PoolEvent}
    (hkeeps : ∀ event ∈ later, event.keeps = true)
    (hrun : run (Pool.step cfg) p later = some q) : Grown cfg p q :=
  run_invariant_of_events (fun _ _ _ h hevent hstep => h.step hevent hstep)
    ⟨h, [], by simp⟩ hkeeps hrun

end Pool

/--
In a pool that was reached in any way, the batch of `NextRequests` is a prefix of the requests
in the order of their submission, the longest one within the limits if the sum of the sizes
does not wrap around.  A batch that is not full is the whole pool.  After steps that remove
nothing, a full batch is returned again, unless it can grow.
-/
theorem nextRequests_prefix {cfg : PoolConfig} {requestMaxBytes : Nat}
    {events : List PoolEvent} {p : Pool}
    (hrun : run (Pool.step cfg) (newPool requestMaxBytes) events = some p) (maxCount : Nat)
    (maxSizeBytes : UInt64) :
    let batch := (p.nextRequests maxCount maxSizeBytes false).1
    let full := (p.nextRequests maxCount maxSizeBytes false).2
    p.requests.Sublist p.accepted ∧
      p.step cfg (.nextRequests maxCount maxSizeBytes false) = some p ∧
      (LongestPrefix (FitsBatch maxCount maxSizeBytes) p.requests batch ↔
        p.CountsOver maxCount maxSizeBytes) ∧
      (full = false → batch = p.requests) ∧
      (full = true → ∀ later q, (∀ event ∈ later, event.keeps = true) →
        run (Pool.step cfg) p later = some q →
          ∃ added, q.requests = p.requests ++ added ∧
            (q.nextRequests maxCount maxSizeBytes false = (batch, true) ↔
              ¬ p.GrowsFull maxCount maxSizeBytes added)) := by
  have hp := pool_consistent hrun
  have hstart : (newPool requestMaxBytes).InOrder cfg :=
    ⟨Pool.consistent_newPool cfg _, List.Sublist.refl _⟩
  have hordered := run_invariant (fun _ _ _ h hstep => Pool.InOrder.step h hstep) hstart hrun
  refine ⟨hordered.order, ?_, p.nextRequests_longest_iff maxCount maxSizeBytes,
    Pool.nextRequests_whole, ?_⟩
  · simp [Pool.step, hp.running, Pool.react]
  · intro hfull later q hkeeps hlater
    obtain ⟨added, hadded⟩ := (hp.run_keeps hkeeps hlater).added
    refine ⟨added.map PoolElement.request, by simp [Pool.requests, hadded], ?_⟩
    exact Pool.nextRequests_same_iff (Prod.ext rfl hfull) hadded

def submitByte (byte : UInt8) : List PoolEvent :=
  [.submit [byte], .check 0, .acquire 0, .insert 0]

def threeBytePool : PoolConfig := { bytePool with queueSize := 3 }

/-- Two requests of one byte: the first is a full batch, both are the pool, and a batch of just
the allowed size stays the same when a third request is submitted. -/
theorem nextRequests_prefix_two :
    ∃ p q, run (Pool.step threeBytePool) (newPool 0) (submitByte 1 ++ submitByte 2) = some p ∧
      p.nextRequests 1 9 false = ([[1]], true) ∧ p.nextRequests 3 9 false = ([[1], [2]], false) ∧
      LongestPrefix (FitsBatch 1 9) p.requests [[1]] ∧ [[1], [2]] = p.requests ∧
      p.nextRequests 3 2 false = ([[1], [2]], true) ∧
      run (Pool.step threeBytePool) p (submitByte 3) = some q ∧ q.requests = [[1], [2], [3]] ∧
      q.nextRequests 3 2 false = ([[1], [2]], true) := by
  have hreached : (run (Pool.step threeBytePool) (newPool 0) (submitByte 1 ++ submitByte 2)).any
      (fun p => decide (p.nextRequests 1 9 false = ([[1]], true) ∧
        p.nextRequests 3 9 false = ([[1], [2]], false) ∧
        p.nextRequests 3 2 false = ([[1], [2]], true) ∧
        (run (Pool.step threeBytePool) p (submitByte 3)).any (fun q =>
          decide (q.requests = [[1], [2], [3]])) = true)) = true := by
    decide +kernel
  obtain ⟨p, hrun, hone, hthree, htwo, hmore⟩ := exists_of_any hreached
  obtain ⟨q, hlater, hq⟩ := exists_of_any hmore
  obtain ⟨-, -, hlongest, -, -⟩ := nextRequests_prefix hrun 1 9
  obtain ⟨-, -, -, hwhole, -⟩ := nextRequests_prefix hrun 3 9
  obtain ⟨-, -, -, -, hsame⟩ := nextRequests_prefix hrun 3 2
  rw [hone] at hlongest
  rw [hthree] at hwhole
  rw [htwo] at hsame
  have hrequests : p.requests = [[1], [2]] := (hwhole rfl).symm
  obtain ⟨added, hadded, hstays⟩ := hsame rfl (submitByte 3) q (by decide) hlater
  obtain rfl : added = [[3]] := by simpa [hq, hrequests] using hadded.symm
  refine ⟨p, q, hrun, hone, hthree, hlongest.mpr ?_, hwhole rfl, htwo, hlater, hq,
    hstays.mpr ?_⟩
  · -- both requests together are within the size of the first batch
    intro taken request hprefix _ _ hover
    have hbytes := totalBytes_le_of_isPrefix hprefix
    rw [hrequests] at hbytes
    exact absurd (hover.trans_le hbytes) (by decide)
  · rintro ⟨-, -, request, hhead, hfits⟩
    obtain rfl : [3] = request := by simpa using hhead
    exact absurd hfits (by decide)

/-- A batch with just the allowed bytes is full, and then takes up an empty request. -/
theorem full_batch_grows :
    ∃ p q, run (Pool.step bytePool) (newPool 0) [.submit [1], .check 0, .acquire 0, .insert 0] =
        some p ∧ p.nextRequests 2 1 false = ([[1]], true) ∧
      run (Pool.step bytePool) p [.submit [], .check 0, .acquire 0, .insert 0] = some q ∧
      q.nextRequests 2 1 false = ([[1], []], true) :=
  ⟨_, _, Option.eq_some_of_isSome (by decide +kernel), by decide +kernel,
    Option.eq_some_of_isSome (by decide +kernel), by decide +kernel⟩

end SmartBFT
