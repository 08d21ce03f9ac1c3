import Mathlib.Data.List.Perm.Subperm
import SmartBFT.Foundation.Quorum

/-!
# Ballots that are held one after another

Votes are cast for numbered ballots, of which two are open at a time: the current one, whose
votes are taken one by one, and the next one, whose votes wait.  Of each voter the first vote
in a ballot counts.  When the current ballot is over, the next one takes its place and an empty
one is opened.
-/

namespace SmartBFT.Foundation

variable {κ ν : Type} [DecidableEq κ]

structure Ballot (κ ν : Type) where
  voted : List κ := []
  waiting : List ν := []

namespace Ballot

def cast (key : ν → κ) (b : Ballot κ ν) (vote : ν) : Ballot κ ν :=
  if key vote ∈ b.voted then b
  else { voted := key vote :: b.voted, waiting := b.waiting ++ [vote] }

structure Holds (key : ν → κ) (b : Ballot κ ν) (votes taken : List ν) : Prop where
  counted : (taken ++ b.waiting).Perm (firstBy key votes [])
  voted : ∀ k, k ∈ b.voted ↔ k ∈ votes.map key

namespace Holds

variable {key : ν → κ} {b : Ballot κ ν} {votes taken : List ν} {vote : ν}

theorem empty : Holds key {} [] [] := ⟨by simp [firstBy], by simp⟩

theorem cast (h : b.Holds key votes taken) :
    (b.cast key vote).Holds key (votes ++ [vote]) taken := by
  unfold Ballot.cast
  split
  · rename_i hvoted
    have hmem := (h.voted _).mp hvoted
    refine ⟨?_, fun k => ?_⟩
    · rw [firstBy_concat_of_mem (.inr hmem)]
      exact h.counted
    · rw [h.voted, List.map_append, List.mem_append]
      refine ⟨.inl, fun hk => hk.elim id fun hk => ?_⟩
      obtain rfl : k = key vote := by simpa using hk
      exact hmem
  · rename_i hvoted
    have hnew : key vote ∉ votes.map key := fun hmem => hvoted ((h.voted _).mpr hmem)
    refine ⟨?_, fun k => ?_⟩
    · rw [firstBy_concat_of_notMem List.not_mem_nil hnew, ← List.append_assoc]
      exact h.counted.append_right [vote]
    · rw [List.mem_cons, h.voted, List.map_append, List.mem_append, List.map_singleton,
        List.mem_singleton, or_comm]

theorem take (h : b.Holds key votes taken) {i : Nat} (hvote : b.waiting[i]? = some vote) :
    Holds key { b with waiting := b.waiting.eraseIdx i } votes (taken ++ [vote]) := by
  obtain ⟨hlt, rfl⟩ := List.getElem?_eq_some_iff.mp hvote
  refine ⟨?_, h.voted⟩
  rw [List.append_assoc, List.singleton_append]
  exact ((List.getElem_cons_eraseIdx_perm hlt).append_left taken).trans h.counted

theorem taken_subperm (h : b.Holds key votes taken) :
    taken.Subperm (firstBy key votes []) :=
  (List.sublist_append_left taken b.waiting).subperm.trans h.counted.subperm

theorem room (h : b.Holds key votes taken) {voters : List κ}
    (hknown : ∀ vote ∈ votes, key vote ∈ voters) {voter : κ} (hvoter : voter ∈ voters)
    (hnew : voter ∉ b.voted) : b.waiting.length < voters.length := by
  have hfirst : b.waiting.Subperm (firstBy key votes []) :=
    (List.sublist_append_right taken b.waiting).subperm.trans h.counted.subperm
  have hmem : ∀ k ∈ b.waiting.map key, k ∈ votes.map key := by
    intro k hk
    obtain ⟨vote, hvote, rfl⟩ := List.mem_map.mp hk
    exact List.mem_map_of_mem ((firstBy_sublist key votes []).subset (hfirst.subset hvote))
  have hdistinct : (voter :: b.waiting.map key).Nodup := by
    refine List.nodup_cons.mpr ⟨fun hk => hnew ((h.voted _).mpr (hmem _ hk)), ?_⟩
    obtain ⟨list, hperm, hsublist⟩ := hfirst
    exact (hperm.map key).nodup_iff.mp ((firstBy_nodup key votes []).sublist (hsublist.map key))
  have hsubset : voter :: b.waiting.map key ⊆ voters := by
    intro k hk
    rcases List.mem_cons.mp hk with rfl | hk
    · exact hvoter
    · obtain ⟨vote, hvote, rfl⟩ := List.mem_map.mp (hmem k hk)
      exact hknown vote hvote
  have hlength := (List.subperm_of_subset hdistinct hsubset).length_le
  rw [List.length_cons, List.length_map] at hlength
  exact hlength

end Holds

end Ballot

structure Ballots (κ ν : Type) where
  seq : Nat
  current : Ballot κ ν
  next : Ballot κ ν

inductive BallotAction (ν : Type) where
  | cast (seq : Nat) (vote : ν)
  /-- one of the votes that wait in the current ballot is taken -/
  | take (i : Nat)
  | switch
  | rest

namespace Ballots

def step (key : ν → κ) (b : Ballots κ ν) : BallotAction ν → Ballots κ ν
  | .cast seq vote =>
    if seq = b.seq then { b with current := b.current.cast key vote }
    else if seq = b.seq + 1 then { b with next := b.next.cast key vote }
    else b
  | .take i => { b with current := { b.current with waiting := b.current.waiting.eraseIdx i } }
  | .switch => { seq := b.seq + 1, current := b.next, next := {} }
  | .rest => b

def castFor (seq : Nat) : Ballots κ ν × BallotAction ν → Option ν
  | (b, .cast other vote) =>
    if other = seq ∧ (seq = b.seq ∨ seq = b.seq + 1) then some vote else none
  | _ => none

def takenFor (seq : Nat) : Ballots κ ν × BallotAction ν → Option ν
  | (b, .take i) => if b.seq = seq then b.current.waiting[i]? else none
  | _ => none

def casts (seq : Nat) (log : List (Ballots κ ν × BallotAction ν)) : List ν :=
  log.filterMap (castFor seq)

def takens (seq : Nat) (log : List (Ballots κ ν × BallotAction ν)) : List ν :=
  log.filterMap (takenFor seq)

/-- What the log says about the ballots that are open, and about those that are over. -/
structure Tallied (key : ν → κ) (log : List (Ballots κ ν × BallotAction ν))
    (b : Ballots κ ν) : Prop where
  current : b.current.Holds key (casts b.seq log) (takens b.seq log)
  next : b.next.Holds key (casts (b.seq + 1) log) []
  taken : ∀ seq, (takens seq log).Subperm (firstBy key (casts seq log) [])
  notTaken : ∀ seq, b.seq < seq → takens seq log = []
  notCast : ∀ seq, b.seq + 1 < seq → casts seq log = []

section Log

variable {ι : Type} {seq : Nat} {log : List (Ballots ι ν × BallotAction ν)} {b : Ballots ι ν}
  {action : BallotAction ν} {vote : ν}

theorem casts_of_none (h : castFor seq (b, action) = none) :
    casts seq (log ++ [(b, action)]) = casts seq log := by
  simp [casts, h]

theorem casts_of_some (h : castFor seq (b, action) = some vote) :
    casts seq (log ++ [(b, action)]) = casts seq log ++ [vote] := by
  simp [casts, h]

theorem takens_of_none (h : takenFor seq (b, action) = none) :
    takens seq (log ++ [(b, action)]) = takens seq log := by
  simp [takens, h]

theorem takens_of_some (h : takenFor seq (b, action) = some vote) :
    takens seq (log ++ [(b, action)]) = takens seq log ++ [vote] := by
  simp [takens, h]

end Log

namespace Tallied

variable {key : ν → κ} {log : List (Ballots κ ν × BallotAction ν)} {b : Ballots κ ν}

theorem start (key : ν → κ) (seq : Nat) :
    Tallied key [] { seq := seq, current := {}, next := {} } :=
  ⟨.empty, .empty, fun _ => List.nil_subperm, fun _ _ => rfl, fun _ _ => rfl⟩

theorem quiet (h : Tallied key log b) {action : BallotAction ν}
    (hcast : ∀ seq, castFor seq (b, action) = none)
    (htaken : ∀ seq, takenFor seq (b, action) = none) :
    Tallied key (log ++ [(b, action)]) b := by
  have hcasts : ∀ seq, casts seq (log ++ [(b, action)]) = casts seq log :=
    fun seq => casts_of_none (hcast seq)
  have htakens : ∀ seq, takens seq (log ++ [(b, action)]) = takens seq log :=
    fun seq => takens_of_none (htaken seq)
  refine ⟨?_, ?_, fun seq => ?_, fun seq hseq => ?_, fun seq hseq => ?_⟩
  · rw [hcasts, htakens]
    exact h.current
  · rw [hcasts]
    exact h.next
  · rw [hcasts, htakens]
    exact h.taken seq
  · rw [htakens]
    exact h.notTaken seq hseq
  · rw [hcasts]
    exact h.notCast seq hseq

theorem castCurrent (h : Tallied key log b) (vote : ν) :
    Tallied key (log ++ [(b, .cast b.seq vote)])
      { b with current := b.current.cast key vote } := by
  have htakens : ∀ seq, takens seq (log ++ [(b, .cast b.seq vote)]) = takens seq log :=
    fun _ => takens_of_none rfl
  have hthis : casts b.seq (log ++ [(b, .cast b.seq vote)]) = casts b.seq log ++ [vote] :=
    casts_of_some (by simp [castFor])
  have hother : ∀ seq, seq ≠ b.seq →
      casts seq (log ++ [(b, .cast b.seq vote)]) = casts seq log :=
    fun seq hne => casts_of_none (by simp [castFor, Ne.symm hne])
  have hcurrent : (b.current.cast key vote).Holds key (casts b.seq log ++ [vote])
      (takens b.seq log) := h.current.cast
  refine ⟨?_, ?_, fun seq => ?_, fun seq hseq => ?_, fun seq hseq => ?_⟩
  · rw [hthis, htakens]
    exact hcurrent
  · rw [hother _ (by simp)]
    exact h.next
  · rw [htakens]
    by_cases hseq : seq = b.seq
    · rw [hseq, hthis]
      exact hcurrent.taken_subperm
    · rw [hother seq hseq]
      exact h.taken seq
  · rw [htakens]
    exact h.notTaken seq hseq
  · simp only at hseq
    rw [hother seq (by omega)]
    exact h.notCast seq hseq

theorem castNext (h : Tallied key log b) (vote : ν) :
    Tallied key (log ++ [(b, .cast (b.seq + 1) vote)])
      { b with next := b.next.cast key vote } := by
  have htakens : ∀ seq, takens seq (log ++ [(b, .cast (b.seq + 1) vote)]) = takens seq log :=
    fun _ => takens_of_none rfl
  have hthis : casts (b.seq + 1) (log ++ [(b, .cast (b.seq + 1) vote)]) =
      casts (b.seq + 1) log ++ [vote] :=
    casts_of_some (by simp [castFor])
  have hother : ∀ seq, seq ≠ b.seq + 1 →
      casts seq (log ++ [(b, .cast (b.seq + 1) vote)]) = casts seq log :=
    fun seq hne => casts_of_none (by simp [castFor, Ne.symm hne])
  refine ⟨?_, ?_, fun seq => ?_, fun seq hseq => ?_, fun seq hseq => ?_⟩
  · rw [hother _ (by simp), htakens]
    exact h.current
  · rw [hthis]
    exact h.next.cast
  · rw [htakens]
    by_cases hseq : seq = b.seq + 1
    · rw [h.notTaken seq (by omega)]
      exact List.nil_subperm
    · rw [hother seq hseq]
      exact h.taken seq
  · rw [htakens]
    exact h.notTaken seq hseq
  · simp only at hseq
    rw [hother seq (by omega)]
    exact h.notCast seq hseq

theorem take (h : Tallied key log b) (i : Nat) :
    Tallied key (log ++ [(b, .take i)])
      { b with current := { b.current with waiting := b.current.waiting.eraseIdx i } } := by
  have hcasts : ∀ seq, casts seq (log ++ [(b, .take i)]) = casts seq log :=
    fun _ => casts_of_none rfl
  cases hvote : b.current.waiting[i]? with
  | none =>
    have hsame : b.current.waiting.eraseIdx i = b.current.waiting :=
      List.eraseIdx_of_length_le (List.getElem?_eq_none_iff.mp hvote)
    rw [hsame]
    exact h.quiet (fun _ => rfl) fun seq => by simp [takenFor, hvote]
  | some vote =>
    have hthis : takens b.seq (log ++ [(b, .take i)]) = takens b.seq log ++ [vote] :=
      takens_of_some (by simp [takenFor, hvote])
    have hother : ∀ seq, seq ≠ b.seq → takens seq (log ++ [(b, .take i)]) = takens seq log :=
      fun seq hne => takens_of_none (by simp [takenFor, Ne.symm hne])
    have hcurrent := h.current.take hvote
    refine ⟨?_, ?_, fun seq => ?_, fun seq hseq => ?_, fun seq hseq => ?_⟩
    · rw [hcasts, hthis]
      exact hcurrent
    · rw [hcasts]
      exact h.next
    · rw [hcasts]
      by_cases hseq : seq = b.seq
      · rw [hseq, hthis]
        exact hcurrent.taken_subperm
      · rw [hother seq hseq]
        exact h.taken seq
    · simp only at hseq
      rw [hother seq (by omega)]
      exact h.notTaken seq hseq
    · rw [hcasts]
      exact h.notCast seq hseq

theorem switch (h : Tallied key log b) :
    Tallied key log { seq := b.seq + 1, current := b.next, next := {} } := by
  refine ⟨?_, ?_, h.taken, fun seq hseq => ?_, fun seq hseq => ?_⟩ <;> simp only at *
  · rw [h.notTaken (b.seq + 1) (by omega)]
    exact h.next
  · rw [h.notCast (b.seq + 1 + 1) (by omega)]
    exact .empty
  · exact h.notTaken seq (by omega)
  · exact h.notCast seq (by omega)

theorem step (h : Tallied key log b) (action : BallotAction ν) :
    Tallied key (log ++ [(b, action)]) (b.step key action) := by
  cases action with
  | cast seq vote =>
    simp only [Ballots.step]
    split
    · rename_i hseq
      exact hseq ▸ h.castCurrent vote
    · split
      · rename_i hseq
        exact hseq ▸ h.castNext vote
      · refine h.quiet (fun other => ?_) (fun _ => rfl)
        simp only [castFor]
        rw [if_neg]
        rintro ⟨rfl, rfl | rfl⟩ <;> contradiction
  | take i => exact h.take i
  | switch => exact (h.quiet (fun _ => rfl) (fun _ => rfl)).switch
  | rest => exact h.quiet (fun _ => rfl) (fun _ => rfl)

end Tallied

end Ballots

end SmartBFT.Foundation
