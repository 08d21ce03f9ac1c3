import Mathlib.Data.List.AList
import SmartBFT.Foundation.Quorum

/-!
# Counting in a map

Votes are counted in a map from what is voted for to a number, and then the map is ranged over,
in any order, for the first entry that is a hit.

If one vote of each voter is counted, its first, then the range finds a choice that more than
`f` voters have made, and finds one whenever there is one (`hit_of_rangeFind_carried`,
`not_carried_of_rangeFind`).
-/

namespace SmartBFT.Foundation

variable {κ : Type} [DecidableEq κ]

abbrev Counts (κ : Type) := AList fun _ : κ => Nat

def countUp (counts : Counts κ) (key : κ) : Counts κ :=
  counts.insert key ((counts.lookup key).getD 0 + 1)

def tally (keys : List κ) : Counts κ := keys.foldl countUp ∅

/-- The range over the map, which meets its keys in the order `order`. -/
def rangeFind (hit : κ → Nat → Bool) (counts : Counts κ) (order : List κ) : Option κ :=
  order.find? fun key => (counts.lookup key).any (hit key)

theorem lookup_foldl_countUp (keys : List κ) (counts : Counts κ) (key : κ) :
    (keys.foldl countUp counts).lookup key =
      if key ∈ keys then some ((counts.lookup key).getD 0 + keys.count key)
      else counts.lookup key := by
  induction keys generalizing counts with
  | nil => simp
  | cons first keys ih =>
    rw [List.foldl_cons, ih]
    by_cases hsame : key = first
    · subst hsame
      have hinsert : (countUp counts key).lookup key =
          some ((counts.lookup key).getD 0 + 1) := AList.lookup_insert counts
      by_cases hmem : key ∈ keys
      · simp [hmem, hinsert]
        omega
      · simp [hmem, hinsert, List.count_eq_zero_of_not_mem]
    · have hother : (countUp counts first).lookup key = counts.lookup key :=
        AList.lookup_insert_ne hsame
      simp [hsame, hother, List.count_cons_of_ne (Ne.symm hsame)]

theorem lookup_tally (keys : List κ) (key : κ) :
    (tally keys).lookup key = if key ∈ keys then some (keys.count key) else none := by
  rw [tally, lookup_foldl_countUp]
  simp

theorem mem_keys_tally {keys : List κ} {key : κ} : key ∈ (tally keys).keys ↔ key ∈ keys := by
  rw [← AList.mem_keys, ← AList.lookup_isSome, lookup_tally]
  by_cases hmem : key ∈ keys <;> simp [hmem]

variable {hit : κ → Nat → Bool} {keys order : List κ}

theorem rangeFind_eq_none_iff (horder : order.Perm (tally keys).keys) :
    rangeFind hit (tally keys) order = none ↔
      ∀ key ∈ keys, hit key (keys.count key) = false := by
  rw [rangeFind, List.find?_eq_none]
  constructor
  · intro h key hmem
    have hnone := h key (horder.mem_iff.mpr (mem_keys_tally.mpr hmem))
    rw [lookup_tally, if_pos hmem] at hnone
    simpa using hnone
  · intro h key hmem
    have hkey := mem_keys_tally.mp (horder.mem_iff.mp hmem)
    rw [lookup_tally, if_pos hkey]
    simpa using h key hkey

theorem hit_of_rangeFind {key : κ} (h : rangeFind hit (tally keys) order = some key) :
    key ∈ keys ∧ hit key (keys.count key) = true := by
  have hfound := List.find?_some h
  rw [lookup_tally] at hfound
  by_cases hmem : key ∈ keys
  · rw [if_pos hmem] at hfound
    exact ⟨hmem, hfound⟩
  · rw [if_neg hmem] at hfound
    cases hfound

section Voters

variable {ν χ : Type} [DecidableEq χ]

def firstChoice (key : ν → κ) (choice : ν → Option χ) (votes : List ν) (voter : κ) : Option χ :=
  (votes.find? fun vote => key vote = voter).bind choice

def Carried (key : ν → κ) (choice : ν → Option χ) (f : Nat) (votes : List ν) (x : χ) : Prop :=
  ∃ voters : Finset κ, f + 1 ≤ voters.card ∧
    ∀ voter ∈ voters, firstChoice key choice votes voter = some x

variable {key : ν → κ} {choice : ν → Option χ} {f : Nat} {votes counted : List ν} {x : χ}

omit [DecidableEq χ] in
theorem firstChoice_eq_some {voter : κ} :
    firstChoice key choice votes voter = some x ↔
      ∃ vote ∈ firstBy key votes [], key vote = voter ∧ choice vote = some x := by
  rw [firstChoice, Option.bind_eq_some_iff]
  constructor
  · rintro ⟨vote, hfind, hchoice⟩
    have hvoter : key vote = voter := by simpa using List.find?_some hfind
    subst hvoter
    exact ⟨vote, mem_firstBy_iff.mpr ⟨by simp, hfind⟩, rfl, hchoice⟩
  · rintro ⟨vote, hmem, rfl, hchoice⟩
    exact ⟨vote, (mem_firstBy_iff.mp hmem).2, hchoice⟩

theorem carried_iff :
    Carried key choice f votes x ↔ f < ((firstBy key votes []).filterMap choice).count x := by
  let backing := (firstBy key votes []).filter fun vote => choice vote == some x
  have hcount : ((firstBy key votes []).filterMap choice).count x =
      (backing.map key).toFinset.card := by
    have hnodup : (backing.map key).Nodup :=
      (firstBy_nodup key votes []).sublist (List.filter_sublist.map key)
    rw [List.toFinset_card_of_nodup hnodup, List.length_map, List.count_filterMap,
      List.countP_eq_length_filter]
  have hmem : ∀ voter, voter ∈ (backing.map key).toFinset ↔
      firstChoice key choice votes voter = some x := by
    intro voter
    rw [firstChoice_eq_some, List.mem_toFinset, List.mem_map]
    simp [backing, and_comm, and_assoc]
  rw [hcount]
  constructor
  · rintro ⟨voters, hlarge, hvoters⟩
    have hsubset : voters ⊆ (backing.map key).toFinset :=
      fun voter hvoter => (hmem voter).mpr (hvoters voter hvoter)
    exact Nat.lt_of_lt_of_le hlarge (Finset.card_le_card hsubset)
  · intro hlarge
    exact ⟨_, hlarge, fun voter hvoter => (hmem voter).mp hvoter⟩

omit [DecidableEq χ] in
theorem Carried.exists_notMem (h : Carried key choice f votes x) {faulty : Finset κ}
    (hfaulty : faulty.card ≤ f) :
    ∃ voter ∉ faulty, firstChoice key choice votes voter = some x := by
  obtain ⟨voters, hlarge, hvoters⟩ := h
  obtain ⟨voter, hvoter, hcorrect⟩ :=
    Finset.exists_mem_notMem_of_card_lt_card (Nat.lt_of_le_of_lt hfaulty hlarge)
  exact ⟨voter, hcorrect, hvoters voter hvoter⟩

omit [DecidableEq χ] in
theorem not_carried_nil : ¬ Carried key choice f [] x := by
  intro h
  obtain ⟨voter, -, hchoice⟩ := h.exists_notMem (show (∅ : Finset κ).card ≤ f by simp)
  cases hchoice

variable {wanted : χ → Nat → Bool} {accepted : χ → Prop} {range : List χ}

theorem hit_of_rangeFind_carried (hcounted : counted.Perm (firstBy key votes []))
    (hwanted : ∀ x count, wanted x count = true ↔ f < count ∧ accepted x)
    (h : rangeFind wanted (tally (counted.filterMap choice)) range = some x) :
    Carried key choice f votes x ∧ accepted x := by
  have hhit := (hwanted x _).mp (hit_of_rangeFind h).2
  rw [(hcounted.filterMap choice).count_eq] at hhit
  exact ⟨carried_iff.mpr hhit.1, hhit.2⟩

theorem not_carried_of_rangeFind (hcounted : counted.Perm (firstBy key votes []))
    (hwanted : ∀ x count, wanted x count = true ↔ f < count ∧ accepted x)
    (hrange : range.Perm (tally (counted.filterMap choice)).keys)
    (h : rangeFind wanted (tally (counted.filterMap choice)) range = none)
    (haccepted : accepted x) : ¬ Carried key choice f votes x := by
  intro hcarried
  have hcount := carried_iff.mp hcarried
  rw [← (hcounted.filterMap choice).count_eq] at hcount
  have hmem := List.count_pos_iff.mp (Nat.lt_of_le_of_lt (Nat.zero_le f) hcount)
  have hmiss := (rangeFind_eq_none_iff hrange).mp h x hmem
  have hhit := (hwanted x _).mpr ⟨hcount, haccepted⟩
  rw [hhit] at hmiss
  cases hmiss

end Voters

end SmartBFT.Foundation
