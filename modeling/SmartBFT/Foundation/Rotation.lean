import Mathlib.Data.List.Rotate

/-!
# Taking turns in cyclic order

The slots of a list in cyclic order are its rotation.  A search that starts at some slot
and goes around once is a search through the rotated list, and turns of equal length taken
one after the other visit every slot equally often.
-/

namespace SmartBFT.Foundation

variable {α : Type*}

theorem map_slots_eq_rotate (xs : List α) (start : Nat) :
    (List.range xs.length).map (fun i => xs[(start + i) % xs.length]?) =
      (xs.rotate start).map some := by
  apply List.ext_getElem?
  intro i
  by_cases hi : i < xs.length
  · have hin : (i + start) % xs.length < xs.length := Nat.mod_lt _ (by omega)
    simp [hi, Nat.add_comm start i, List.getElem?_eq_getElem hin]
  · simp [hi]

theorem findSome?_slots_eq_find? (xs : List α) (start : Nat) (p : α → Bool) :
    (List.range xs.length).findSome?
        (fun i => (xs[(start + i) % xs.length]?).filter p) =
      (xs.rotate start).find? p := by
  calc (List.range xs.length).findSome? (fun i => (xs[(start + i) % xs.length]?).filter p)
      = ((List.range xs.length).map (fun i => xs[(start + i) % xs.length]?)).findSome?
          (Option.filter p) := by
        rw [List.findSome?_map]
        rfl
    _ = (xs.rotate start).findSome? (fun x => (some x).filter p) := by
        rw [map_slots_eq_rotate, List.findSome?_map]
        rfl
    _ = (xs.rotate start).find? p := by
        rw [List.find?_eq_findSome?_guard]
        rfl

theorem find?_rotate_eq_some {xs : List α} {start : Nat} {p : α → Bool} {x : α}
    (h : (xs.rotate start).find? p = some x) :
    p x = true ∧ ∃ i < xs.length, xs[(start + i) % xs.length]? = some x ∧
      ∀ j < i, ∀ y, xs[(start + j) % xs.length]? = some y → p y = false := by
  obtain ⟨hx, i, hi, hget, hbefore⟩ := List.find?_eq_some_iff_getElem.mp h
  have hlt : i < xs.length := by simpa using hi
  have hslot : ∀ j < xs.length,
      (xs.rotate start)[j]? = xs[(start + j) % xs.length]? := by
    intro j hj
    rw [List.getElem?_rotate hj, Nat.add_comm]
  refine ⟨hx, i, hlt, ?_, ?_⟩
  · rw [← hslot i hlt, List.getElem?_eq_getElem hi, hget]
  · intro j hj y hy
    rw [← hslot j (hj.trans hlt), List.getElem?_eq_getElem (hj.trans hi)] at hy
    have hrejected := hbefore j hj
    rw [Option.some.inj hy] at hrejected
    simpa using hrejected

theorem map_div_range' (f : Nat → α) {d : Nat} (hd : 0 < d) (k n : Nat) :
    (List.range' (k * d) (n * d)).map (fun i => f (i / d)) =
      ((List.range' k n).map f).flatMap (List.replicate d) := by
  induction n generalizing k with
  | zero => simp
  | succ n ih =>
    -- the first turn, and the turns after it
    have hturn : (List.range' (k * d) d).map (fun i => f (i / d)) = List.replicate d (f k) := by
      rw [List.eq_replicate_iff]
      refine ⟨by simp, ?_⟩
      intro b hb
      obtain ⟨i, hi, rfl⟩ := List.mem_map.mp hb
      obtain ⟨r, hr, rfl⟩ := List.mem_range'.mp hi
      rw [Nat.one_mul, Nat.add_comm, Nat.add_mul_div_right _ _ hd, Nat.div_eq_of_lt hr,
        Nat.zero_add]
    have hrest := ih (k + 1)
    rw [Nat.succ_mul, Nat.add_comm (n * d), ← List.range'_append_1, List.map_append, hturn,
      ← Nat.succ_mul, hrest]
    simp [List.range'_succ]

/-- Every element of a list without repetitions has `d` of the turns when all have taken
theirs. -/
theorem count_turns [DecidableEq α] {xs : List α} (hxs : xs.Nodup) {x : α} (hx : x ∈ xs)
    (d start : Nat) :
    ((xs.rotate start).flatMap (List.replicate d)).count x = d := by
  have hturns : ∀ ys : List α, (ys.flatMap (List.replicate d)).count x = ys.count x * d := by
    intro ys
    induction ys with
    | nil => simp
    | cons y ys ih =>
      simp only [List.flatMap_cons, List.count_append, ih, List.count_replicate,
        List.count_cons, Nat.add_mul]
      by_cases hy : y = x
      · simp [hy, Nat.add_comm]
      · simp [hy]
  have honce : (xs.rotate start).count x = 1 := by
    rw [(List.rotate_perm xs start).count_eq, List.count_eq_one_of_mem hxs hx]
  rw [hturns, honce, Nat.one_mul]

end SmartBFT.Foundation
