import Mathlib.Data.Finset.Card
import Mathlib.Data.Set.Finite.Basic
import SmartBFT.RequestPool.Transition

/-!
# The memory of removed requests

A request that was removed is not admitted again while the pool remembers it.  The pool keeps
the last `defaultSizeOfDelElements` removals; a request that is removed once more keeps its old
place among them, and may be forgotten earlier than the removal suggests
(`removed_stays_known_iff`).
-/

namespace SmartBFT

open SmartBFT.Foundation

instance : Infinite RequestInfo :=
  Infinite.of_injective (fun n : Nat => ⟨String.ofList (List.replicate n 'a'), ""⟩) (by
    intro m n h
    simpa using congrArg (fun info => info.clientID.toList.length) h)

namespace Pool

variable {cfg : PoolConfig} {p q : Pool}

def newlyRecorded (cfg : PoolConfig) : Pool → List PoolEvent → Finset RequestInfo
  | _, [] => ∅
  | p, event :: events =>
    match p.step cfg event with
    | none => ∅
    | some q => (q.delMap \ p.delMap) ∪ newlyRecorded cfg q events

theorem newlyRecorded_cons {event : PoolEvent} (hstep : p.step cfg event = some q)
    (events : List PoolEvent) :
    newlyRecorded cfg p (event :: events) =
      (q.delMap \ p.delMap) ∪ newlyRecorded cfg q events := by
  simp only [newlyRecorded, hstep]

theorem newlyRecorded_append {events : List PoolEvent}
    (hrun : run (Pool.step cfg) p events = some q) (later : List PoolEvent) :
    newlyRecorded cfg p (events ++ later) =
      newlyRecorded cfg p events ∪ newlyRecorded cfg q later := by
  induction events generalizing p with
  | nil =>
    obtain rfl := Option.some.inj hrun
    simp [newlyRecorded]
  | cons event events ih =>
    obtain ⟨t, hstep, hrest⟩ := run_cons hrun
    rw [List.cons_append, newlyRecorded_cons hstep, newlyRecorded_cons hstep, ih hrest,
      Finset.union_assoc]

/-! ## What is remembered -/

structure Remembers (cfg : PoolConfig) (info : RequestInfo) (since : Finset RequestInfo)
    (p : Pool) : Prop extends Consistent cfg p where
  place : ∃ before after, p.delSlice = before ++ info :: after ∧ ∀ other ∈ after, other ∈ since

namespace Remembers

variable {info : RequestInfo} {since : Finset RequestInfo}

theorem mem_delMap (h : Remembers cfg info since p) : info ∈ p.delMap := by
  obtain ⟨before, after, hslice, -⟩ := h.place
  simp [h.remembered, hslice]

theorem erase_length_le (h : Remembers cfg info since p)
    (hcard : since.card < defaultSizeOfDelElements) {before after : List RequestInfo}
    (hslice : p.delSlice = before ++ info :: after) (hafter : ∀ other ∈ after, other ∈ since) :
    p.delSlice.length - defaultSizeOfDelElements ≤ before.length := by
  have hnodup : after.Nodup := by
    have hdistinct := h.distinct
    rw [hslice] at hdistinct
    exact (List.nodup_cons.mp (List.nodup_append.mp hdistinct).2.1).2
  have hlength : after.length ≤ since.card := by
    rw [← List.toFinset_card_of_nodup hnodup]
    apply Finset.card_le_card
    intro other hother
    exact hafter other (List.mem_toFinset.mp hother)
  rw [hslice, List.length_append, List.length_cons]
  omega

theorem concat (h : Remembers cfg info since p) (hq : Consistent cfg q)
    {added : List RequestInfo} (hslice : q.delSlice = p.delSlice ++ added)
    (hnew : ∀ other ∈ added, other ∈ q.delMap \ p.delMap) :
    Remembers cfg info (since ∪ (q.delMap \ p.delMap)) q := by
  obtain ⟨before, after, hplace, hafter⟩ := h.place
  refine ⟨hq, before, after ++ added, by simp [hslice, hplace], ?_⟩
  intro other hother
  rcases List.mem_append.mp hother with hold | hadded
  · exact Finset.mem_union_left _ (hafter other hold)
  · exact Finset.mem_union_right _ (hnew other hadded)

theorem step (h : Remembers cfg info since p) {event : PoolEvent}
    (hstep : p.step cfg event = some q)
    (hcard : since.card < defaultSizeOfDelElements) :
    Remembers cfg info (since ∪ (q.delMap \ p.delMap)) q := by
  have hq := h.toConsistent.step hstep
  cases h.toConsistent.step_move hstep with
  | quiet move => exact h.concat hq (by rw [move.delSlice, List.append_nil]) (by simp)
  | inserted call request _ move =>
    exact h.concat hq (by rw [move.delSlice, List.append_nil]) (by simp)
  | removed other element _ move =>
    refine h.concat hq move.delSlice ?_
    have hpooled : other ∈ p.existMap := AList.lookup_isSome.mp (by simp [move.pooled])
    simp [move.delMap, h.apart other hpooled]
  | recorded other move =>
    refine h.concat hq move.delSlice ?_
    simp [move.delMap, move.new]
  | closed order _ hall move =>
    refine h.concat hq move.delSlice ?_
    intro other hother
    have hpooled : other ∈ p.existMap := AList.mem_keys.mpr (hall.mem_iff.mp hother)
    simp [move.delMap, hother, h.apart other hpooled]
  | erased move =>
    obtain ⟨before, after, hplace, hafter⟩ := h.place
    have hle := h.erase_length_le hcard hplace hafter
    refine ⟨hq, before.drop (p.delSlice.length - defaultSizeOfDelElements), after, ?_, ?_⟩
    · rw [move.delSlice]
      nth_rewrite 2 [hplace]
      rw [List.drop_append_of_le_length hle]
    · exact fun other hother => Finset.mem_union_left _ (hafter other hother)

theorem run {later : List PoolEvent} (h : Remembers cfg info since p)
    (hrun : run (Pool.step cfg) p later = some q)
    (hcard : (since ∪ newlyRecorded cfg p later).card < defaultSizeOfDelElements) :
    Remembers cfg info (since ∪ newlyRecorded cfg p later) q := by
  induction later generalizing p since with
  | nil =>
    obtain rfl := Option.some.inj hrun
    simpa [newlyRecorded] using h
  | cons event later ih =>
    obtain ⟨t, hstep, hrest⟩ := run_cons hrun
    rw [newlyRecorded_cons hstep, ← Finset.union_assoc] at hcard ⊢
    refine ih (h.step hstep ?_) hrest hcard
    exact (Finset.card_le_card (Finset.subset_union_left.trans
      Finset.subset_union_left)).trans_lt hcard

end Remembers

/-! ## What is forgotten -/

theorem Consistent.record_all (h : Consistent cfg p) {infos : List RequestInfo}
    (hdistinct : infos.Nodup)
    (hfresh : ∀ info ∈ infos, info ∉ p.existMap ∧ info ∉ p.delMap) :
    run (Pool.step cfg) p (infos.map .removeRequest) =
        some { p with
          delMap := p.delMap ∪ infos.toFinset
          delSlice := p.delSlice ++ infos } ∧
      newlyRecorded cfg p (infos.map .removeRequest) = infos.toFinset := by
  induction infos generalizing p with
  | nil => simp [run, newlyRecorded]
  | cons info infos ih =>
    obtain ⟨hout, hdistinct⟩ := List.nodup_cons.mp hdistinct
    obtain ⟨habsent, hnew⟩ := hfresh info (List.mem_cons_self ..)
    have hlookup := AList.lookup_eq_none.mpr habsent
    have hstep : p.step cfg (.removeRequest info) = some { p with
        delMap := insert info p.delMap
        delSlice := p.delSlice ++ [info] } := by
      simp [Pool.step, h.running, Pool.react, Pool.removeRequest, hlookup,
        Pool.moveToDelSlice, hnew]
    obtain ⟨hrun, hrecorded⟩ := @ih _ (h.step hstep) hdistinct (by
      intro other hother
      obtain ⟨habsent', hnew'⟩ := hfresh other (List.mem_cons_of_mem _ hother)
      refine ⟨habsent', ?_⟩
      rw [Finset.mem_insert, not_or]
      refine ⟨?_, hnew'⟩
      rintro rfl
      exact hout hother)
    constructor
    · rw [List.map_cons, run_step hstep, hrun]
      simp [Finset.insert_union, Finset.union_insert]
    · rw [List.map_cons, newlyRecorded_cons hstep, hrecorded, List.toFinset_cons]
      simp [hnew]

structure SameRequests (p q : Pool) : Prop where
  requestMaxBytes : q.requestMaxBytes = p.requestMaxBytes
  fifo : q.fifo = p.fifo
  existMap : q.existMap = p.existMap
  closed : q.closed = p.closed
  permits : q.permits = p.permits
  submits : q.submits = p.submits

theorem Consistent.erase_run (h : Consistent cfg p)
    (hlong : defaultSizeOfDelElements < p.delSlice.length) :
    ∃ q, run (Pool.step cfg) p [.readDelSlice, .eraseFromDelSlice] = some q ∧
      newlyRecorded cfg p [.readDelSlice, .eraseFromDelSlice] = ∅ ∧
      q.delMap = p.delMap \
        (p.delSlice.take (p.delSlice.length - defaultSizeOfDelElements)).toFinset ∧
      SameRequests p q := by
  have hread : p.step cfg .readDelSlice = some { p with erasures := p.erasures + 1 } := by
    simp [Pool.step, h.running, Pool.react, Nat.not_le.mpr hlong]
  have herase : ({ p with erasures := p.erasures + 1 } : Pool).step cfg .eraseFromDelSlice =
      some { p with
        delMap := p.delMap \
          (p.delSlice.take (p.delSlice.length - defaultSizeOfDelElements)).toFinset
        delSlice := p.delSlice.drop (p.delSlice.length - defaultSizeOfDelElements) } := by
    have hnot : ¬ p.delSlice.length < defaultSizeOfDelElements := by omega
    simp [Pool.step, h.running, Pool.react, Pool.eraseFromDelSlice, hnot]
  refine ⟨_, (run_step hread _).trans (run_one.trans herase), ?_, ?_,
    ⟨rfl, rfl, rfl, rfl, rfl, rfl⟩⟩
  · rw [newlyRecorded_cons hread, newlyRecorded_cons herase]
    simp [newlyRecorded]
  · simp only

theorem exists_fresh (p : Pool) (n : Nat) :
    ∃ infos : List RequestInfo, infos.Nodup ∧ infos.length = n ∧
      ∀ info ∈ infos, info ∉ p.existMap ∧ info ∉ p.delMap := by
  have hinfinite : ((↑(p.existMap.keys.toFinset ∪ p.delMap) : Set RequestInfo)ᶜ).Infinite :=
    (Finset.finite_toSet _).infinite_compl
  obtain ⟨fresh, hsubset, hcard⟩ := hinfinite.exists_subset_card_eq n
  refine ⟨fresh.toList, fresh.nodup_toList, by simpa using hcard, ?_⟩
  intro info hinfo
  have hout := hsubset (Finset.mem_coe.mpr (Finset.mem_toList.mp hinfo))
  simp only [Finset.coe_union, Set.mem_compl_iff, Set.mem_union, Finset.mem_coe,
    List.mem_toFinset, not_or] at hout
  exact ⟨fun hmem => hout.1 (AList.mem_keys.mp hmem), hout.2⟩

theorem Consistent.forgets (h : Consistent cfg p) {info : RequestInfo}
    {before after : List RequestInfo} (hslice : p.delSlice = before ++ info :: after)
    (hafter : after ≠ []) :
    ∃ later q, run (Pool.step cfg) p later = some q ∧
      (newlyRecorded cfg p later).card < defaultSizeOfDelElements ∧ q.known info = none ∧
      SameRequests p q := by
  obtain ⟨infos, hdistinct, hlength, hfresh⟩ :=
    p.exists_fresh (defaultSizeOfDelElements - after.length)
  obtain ⟨hrun, hrecorded⟩ := h.record_all hdistinct hfresh
  have hfull : Consistent cfg { p with
      delMap := p.delMap ∪ infos.toFinset
      delSlice := p.delSlice ++ infos } :=
    run_invariant (fun _ _ _ h hstep => Consistent.step h hstep) h hrun
  have hpos := List.length_pos_of_ne_nil hafter
  obtain ⟨q, herase, hnone, herased, hsame⟩ := hfull.erase_run (by
    simp only [hslice, List.length_append, List.length_cons]
    omega)
  have hdel : info ∈ p.delMap := by simp [h.remembered, hslice]
  have habsent : info ∉ p.existMap := fun hmem => h.apart info hmem hdel
  refine ⟨infos.map .removeRequest ++ [.readDelSlice, .eraseFromDelSlice], q,
    run_append hrun herase, ?_, ?_, { hsame with }⟩
  · rw [newlyRecorded_append hrun, hrecorded, hnone, Finset.union_empty,
      List.toFinset_card_of_nodup hdistinct, hlength]
    have : 0 < defaultSizeOfDelElements := by decide
    omega
  · have htaken : info ∈ (p.delSlice ++ infos).take
        ((p.delSlice ++ infos).length - defaultSizeOfDelElements) := by
      have hsplit : p.delSlice ++ infos = (before ++ [info]) ++ (after ++ infos) := by
        simp [hslice]
      have hcount : (before ++ [info]).length ≤
          (p.delSlice ++ infos).length - defaultSizeOfDelElements := by
        rw [hsplit]
        simp only [List.length_append, List.length_singleton]
        omega
      rw [hsplit] at hcount ⊢
      exact (List.take_prefix_take_left hcount).subset (by rw [List.take_left]; simp)
    simp only [Pool.known, hsame.existMap, habsent, herased, if_false, Finset.mem_sdiff,
      List.mem_toFinset, htaken, not_true_eq_false, and_false]

theorem Consistent.submit_admitted (h : Consistent cfg p) {request : Bytes}
    (hopen : p.closed = false) (hidle : p.submits = [])
    (hfits : ¬ p.requestMaxBytes < request.length)
    (hknown : p.known (cfg.requestID request) = none) (hfree : p.permits < cfg.queueSize) :
    ∃ q, run (Pool.step cfg) p [.submit request, .check 0, .acquire 0, .insert 0] = some q ∧
      newlyRecorded cfg p [.submit request, .check 0, .acquire 0, .insert 0] = ∅ ∧
      q.fifo = p.fifo ++ [⟨p.nextAddress, request⟩] ∧
      q.answers = (request, none) :: p.answers := by
  let opened : Pool := { p with submits := [⟨request, .opened⟩] }
  let waiting : Pool := opened.proceed 0 request .waiting
  let acquired : Pool :=
    { waiting.proceed 0 request .acquired with permits := waiting.permits + 1 }
  have hsubmit : p.step cfg (.submit request) = some opened := by
    simp [Pool.step, h.running, Pool.react, Pool.startSubmit, hopen, hidle, opened]
  have hcheck : opened.step cfg (.check 0) = some waiting := by
    rw [@step_check cfg opened 0 request h.running rfl]
    exact congrArg some (checkSubmit_of_fits hfits hknown)
  have hacquire : waiting.step cfg (.acquire 0) = some acquired :=
    step_acquire h.running rfl hfree
  have hacquired : Consistent cfg acquired :=
    ((h.step hsubmit).step hcheck).step hacquire
  have hcall : acquired.submits[0]? = some ⟨request, .acquired⟩ := rfl
  have hinsert := @step_insert cfg acquired 0 request h.running hcall
  have hinserted := hacquired.insertSubmit_eq hcall hknown
  have hdelMap : (acquired.insertSubmit cfg 0 request).delMap = p.delMap := by rw [hinserted]; rfl
  refine ⟨acquired.insertSubmit cfg 0 request, ?_, ?_, by rw [hinserted]; rfl,
    by rw [hinserted]; rfl⟩
  · rw [run_step hsubmit, run_step hcheck, run_step hacquire, run_one, hinsert]
  · rw [newlyRecorded_cons hsubmit, newlyRecorded_cons hcheck, newlyRecorded_cons hacquire,
      newlyRecorded_cons hinsert, hdelMap]
    simp [newlyRecorded, opened, waiting, acquired, Pool.proceed]

theorem Consistent.mem_delMap_removed (h : Consistent cfg p) {info : RequestInfo}
    (hstep : p.step cfg (.removeRequest info) = some q) : info ∈ q.delMap := by
  simp only [Pool.step, h.running, Option.isSome_none, Bool.false_eq_true, if_false, Pool.react,
    Option.some.injEq] at hstep
  subst hstep
  cases hlookup : p.existMap.lookup info with
  | none =>
    simp only [Pool.removeRequest, hlookup, Pool.moveToDelSlice]
    split
    · rename_i hdel
      exact hdel
    · exact Finset.mem_insert_self _ _
  | some element =>
    simp only [Pool.removeRequest, hlookup, h.deleteRequest_eq hlookup]
    exact Finset.mem_insert_self _ _

theorem moveToDelSlice_last_iff (p : Pool) (info : RequestInfo) :
    (p.moveToDelSlice info).delSlice.getLast? = some info ↔
      info ∉ p.delMap ∨ p.delSlice.getLast? = some info := by
  unfold moveToDelSlice
  split <;> simp [*]

theorem Consistent.removed_last_iff (h : Consistent cfg p) {info : RequestInfo}
    (hstep : p.step cfg (.removeRequest info) = some q) :
    q.delSlice.getLast? = some info ↔ info ∉ p.delMap ∨ p.delSlice.getLast? = some info := by
  simp only [Pool.step, h.running, Option.isSome_none, Bool.false_eq_true, if_false, Pool.react,
    Option.some.injEq] at hstep
  subst hstep
  cases hlookup : p.existMap.lookup info with
  | none => simp only [Pool.removeRequest, hlookup, moveToDelSlice_last_iff]
  | some element =>
    have hpooled : info ∈ p.existMap := by
      rw [← AList.lookup_isSome, hlookup]
      rfl
    simp only [Pool.removeRequest, hlookup, h.deleteRequest_eq hlookup]
    simp [h.apart info hpooled]

theorem Consistent.insert_answers (h : Consistent cfg p) {call : Nat} {request : Bytes}
    (hcall : p.submits[call]? = some ⟨request, .acquired⟩)
    (hstep : p.step cfg (.insert call) = some q) :
    q.answers = (request, p.known (cfg.requestID request)) :: p.answers := by
  rw [step_insert h.running hcall, Option.some.injEq] at hstep
  subst hstep
  cases hknown : p.known (cfg.requestID request) with
  | none => rw [h.insertSubmit_eq hcall hknown]; rfl
  | some error => rw [h.insertSubmit_known hcall hknown]; rfl

theorem Consistent.countP_le_one (h : Consistent cfg p) (info : RequestInfo) :
    (p.fifo.countP fun element => decide (cfg.requestID element.request = info)) ≤ 1 := by
  have hcount := List.nodup_iff_count_le_one.mp h.indexed.distinct info
  rw [List.count, List.countP_map] at hcount
  exact hcount

end Pool

/--
After `RemoveRequest` of any request, pooled or not, a request with this id is rejected by
`Submit` until as many others were recorded as the memory keeps, exactly if it was not in the
memory when it was removed, or was the last one there.  What `Submit` answers at its insertion
is what `known` says, and no two requests in the pool have one id.
-/
theorem removed_stays_known_iff {cfg : PoolConfig} {requestMaxBytes : Nat}
    {events : List PoolEvent} {p removed : Pool} {info : RequestInfo}
    (hrun : run (Pool.step cfg) (newPool requestMaxBytes) events = some p)
    (hremove : p.step cfg (.removeRequest info) = some removed) :
    ((∀ later q, run (Pool.step cfg) removed later = some q →
        (Pool.newlyRecorded cfg removed later).card < defaultSizeOfDelElements →
          q.known info ≠ none) ↔
      info ∉ p.delMap ∨ p.delSlice.getLast? = some info) ∧
    ∀ later q, run (Pool.step cfg) removed later = some q →
      (∀ call request q', q.submits[call]? = some ⟨request, .acquired⟩ →
        cfg.requestID request = info → q.step cfg (.insert call) = some q' →
          q'.answers = (request, q.known info) :: q.answers) ∧
      (q.fifo.countP fun element => decide (cfg.requestID element.request = info)) ≤ 1 := by
  have hp := pool_consistent hrun
  have hremoved := hp.step hremove
  rw [← hp.removed_last_iff hremove]
  refine ⟨⟨?_, ?_⟩, ?_⟩
  · intro hknown
    have hmem : info ∈ removed.delSlice := by
      have hdel := hp.mem_delMap_removed hremove
      rwa [hremoved.remembered, List.mem_toFinset] at hdel
    obtain ⟨before, after, hslice⟩ := List.append_of_mem hmem
    by_cases hafter : after = []
    · rw [hslice, hafter, List.getLast?_concat]
    · obtain ⟨later, q, hlater, hcard, hnone, -⟩ := hremoved.forgets hslice hafter
      exact absurd hnone (hknown later q hlater hcard)
  · intro hlast later q hlater hcard
    obtain ⟨before, hslice⟩ := List.getLast?_eq_some_iff.mp hlast
    have hstart : Pool.Remembers cfg info ∅ removed :=
      ⟨hremoved, before, [], hslice, by simp⟩
    have hend := hstart.run hlater (by rwa [Finset.empty_union])
    have hdel := hend.mem_delMap
    have habsent : info ∉ q.existMap := fun hmem => hend.apart info hmem hdel
    simp [Pool.known, habsent, hdel]
  · intro later q hlater
    have hq := run_invariant (fun _ _ _ h hstep => Pool.Consistent.step h hstep) hremoved hlater
    refine ⟨?_, hq.countP_le_one info⟩
    rintro call request q' hcall rfl hstep
    exact hq.insert_answers hcall hstep

/-- A request that is removed for the first time. -/
theorem removed_stays_known_iff_first :
    ∃ p removed, run (Pool.step bytePool) (newPool 0) fillBytePool = some p ∧
      p.step bytePool (.removeRequest ⟨"2", "1"⟩) = some removed ∧
      ∀ later q, run (Pool.step bytePool) removed later = some q →
        (Pool.newlyRecorded bytePool removed later).card < defaultSizeOfDelElements →
          q.known ⟨"2", "1"⟩ ≠ none :=
  ⟨_, _, Option.eq_some_of_isSome (by decide +kernel), Option.eq_some_of_isSome (by decide +kernel),
    (removed_stays_known_iff (Option.eq_some_of_isSome _)
      (Option.eq_some_of_isSome _)).1.mpr (.inl (by decide +kernel))⟩

/-- A request is removed, another one, and the first one again: it is forgotten, and admitted,
before as many others were recorded as the memory keeps. -/
theorem removed_twice_admitted :
    ∃ p removed later q,
      run (Pool.step bytePool) (newPool 0) [.removeRequest ⟨"1", "1"⟩, .removeRequest ⟨"2", "1"⟩] =
        some p ∧
      p.step bytePool (.removeRequest (bytePool.requestID [1])) = some removed ∧
      run (Pool.step bytePool) removed later = some q ∧
      (Pool.newlyRecorded bytePool removed later).card < defaultSizeOfDelElements ∧
      q.fifo.map PoolElement.request = [[1]] ∧ q.answers.head? = some ([1], none) := by
  have hreached : (run (Pool.step bytePool) (newPool 0)
      [.removeRequest ⟨"1", "1"⟩, .removeRequest ⟨"2", "1"⟩]).any (fun p =>
      decide ((p.step bytePool (.removeRequest (bytePool.requestID [1]))).any (fun removed =>
        decide (removed.delSlice = [] ++ bytePool.requestID [1] :: [⟨"2", "1"⟩] ∧
          removed.closed = false ∧ removed.submits = [] ∧ removed.permits = 0 ∧
          removed.fifo = [] ∧ ¬ removed.requestMaxBytes < 1)) = true)) = true := by
    decide +kernel
  obtain ⟨p, hrun, hstep⟩ := exists_of_any hreached
  obtain ⟨removed, hremove, hslice, hopen, hidle, hpermits, hempty, hfits⟩ := exists_of_any hstep
  have hremoved := (pool_consistent hrun).step hremove
  obtain ⟨later, q, hlater, hcard, hnone, hsame⟩ := hremoved.forgets hslice (by simp)
  have hq := run_invariant (fun _ _ _ h hstep => Pool.Consistent.step h hstep) hremoved hlater
  obtain ⟨t, hsubmit, hrecorded, hfifo, hanswers⟩ := @Pool.Consistent.submit_admitted bytePool q
    hq [1] (hsame.closed.trans hopen) (hsame.submits.trans hidle)
    (by rw [hsame.requestMaxBytes]; exact hfits) hnone
    (by rw [hsame.permits, hpermits]; decide)
  refine ⟨p, removed, later ++ [.submit [1], .check 0, .acquire 0, .insert 0], t, hrun, hremove,
    run_append hlater hsubmit, ?_, ?_, ?_⟩
  · rwa [Pool.newlyRecorded_append hlater, hrecorded, Finset.union_empty]
  · rw [hfifo, hsame.fifo, hempty]
    rfl
  · rw [hanswers]
    rfl

end SmartBFT
