import Mathlib.Data.Finset.Card
import Mathlib.Data.Finset.Dedup

/-!
# Counting arguments over a finite universe

Voting protocols rest on two facts about subsets of one finite set: large
subsets meet, and they still meet outside a small set of faulty members.
A list of votes is connected to its set of voters by `List.toFinset`, and a
list in which voters may repeat to one vote a voter by `firstBy`.
-/

namespace SmartBFT.Foundation

section Subsets

variable {α : Type*} [DecidableEq α]

theorem card_add_card_le {members a b : Finset α} (ha : a ⊆ members) (hb : b ⊆ members) :
    a.card + b.card ≤ members.card + (a ∩ b).card := by
  have hunion : (a ∪ b).card ≤ members.card :=
    Finset.card_le_card (Finset.union_subset ha hb)
  have := Finset.card_union_add_card_inter a b
  omega

/-- The least that two subsets of one size can share. -/
theorem exists_subsets_card_inter {members : Finset α} {k : Nat} (hk : k ≤ members.card) :
    ∃ a b, a ⊆ members ∧ b ⊆ members ∧ a.card = k ∧ b.card = k ∧
      (a ∩ b).card = 2 * k - members.card := by
  obtain ⟨a, ha, hcard⟩ := Finset.exists_subset_card_eq hk
  have hothers : (members \ a).card = members.card - k := by
    rw [Finset.card_sdiff_of_subset ha, hcard]
  by_cases htwo : 2 * k ≤ members.card
  · obtain ⟨b, hb, hcard'⟩ := Finset.exists_subset_card_eq (show k ≤ (members \ a).card by omega)
    have hdisjoint : a ∩ b = ∅ :=
      Finset.disjoint_iff_inter_eq_empty.mp
        (Finset.disjoint_of_subset_right hb Finset.disjoint_sdiff)
    refine ⟨a, b, ha, hb.trans Finset.sdiff_subset, hcard, hcard', ?_⟩
    rw [hdisjoint, Finset.card_empty]
    omega
  · -- the second subset takes all the others, and the rest of it from the first one
    obtain ⟨b, hsub, hb, hcard'⟩ := Finset.exists_subsuperset_card_eq
      (Finset.sdiff_subset : members \ a ⊆ members) (show (members \ a).card ≤ k by omega) hk
    have hinter : a ∩ b = b \ (members \ a) := by
      ext x
      simp only [Finset.mem_inter, Finset.mem_sdiff, not_and, not_not]
      exact ⟨fun hx => ⟨hx.2, fun _ => hx.1⟩, fun hx => ⟨hx.2 (hb hx.1), hx.1⟩⟩
    refine ⟨a, b, ha, hb, hcard, hcard', ?_⟩
    rw [hinter, Finset.card_sdiff_of_subset hsub, hcard', hothers]
    omega

end Subsets

variable {α β : Type} [DecidableEq α]

/-- Two subsets that are together larger than the whole set and its faulty
members share a member that is not faulty. -/
theorem exists_correct_mem_inter {members faulty a b : Finset α} {f : Nat}
    (ha : a ⊆ members) (hb : b ⊆ members) (hf : faulty.card ≤ f)
    (hcard : members.card + f < a.card + b.card) :
    ∃ x, x ∈ a ∧ x ∈ b ∧ x ∉ faulty := by
  have hinter := card_add_card_le ha hb
  have hlarge : faulty.card < (a ∩ b).card := by omega
  obtain ⟨x, hx, hcorrect⟩ := Finset.exists_mem_notMem_of_card_lt_card hlarge
  exact ⟨x, (Finset.mem_inter.mp hx).1, (Finset.mem_inter.mp hx).2, hcorrect⟩

/-- Votes of pairwise distinct voters that avoid a set of voters are at most
as many as the other members. -/
theorem countP_le_card_sdiff {members : Finset α} (avoided : Finset α)
    {votes : List (α × β)} (p : β → Bool)
    (hdistinct : (votes.map Prod.fst).Nodup)
    (hmembers : ∀ vote ∈ votes, vote.1 ∈ members)
    (havoid : ∀ vote ∈ votes, p vote.2 = true → vote.1 ∉ avoided) :
    (votes.map Prod.snd).countP p ≤ (members \ avoided).card := by
  have hcount : (votes.map Prod.snd).countP p =
      ((votes.filter fun vote => p vote.2).map Prod.fst).toFinset.card := by
    have hnodup : ((votes.filter fun vote => p vote.2).map Prod.fst).Nodup :=
      hdistinct.sublist (List.filter_sublist.map Prod.fst)
    rw [List.toFinset_card_of_nodup hnodup, List.length_map, List.countP_map,
      List.countP_eq_length_filter]
    rfl
  rw [hcount]
  apply Finset.card_le_card
  intro voter hvoter
  simp only [List.mem_toFinset, List.mem_map, List.mem_filter] at hvoter
  obtain ⟨vote, ⟨hmem, hp⟩, rfl⟩ := hvoter
  exact Finset.mem_sdiff.mpr ⟨hmembers vote hmem, havoid vote hmem hp⟩

theorem countP_map_eq_card {voters : List α} (hdistinct : voters.Nodup) (vote : α → β)
    (p : β → Bool) :
    (voters.map vote).countP p = (voters.toFinset.filter fun a => p (vote a) = true).card := by
  have hnodup := hdistinct.filter fun a => p (vote a)
  rw [List.countP_map, List.countP_eq_length_filter, ← List.toFinset_filter,
    List.toFinset_card_of_nodup hnodup]
  rfl

/-! ## One vote for each voter -/

/-- The elements whose key is not in `seen`, the first one of each key. -/
def firstBy (key : β → α) : List β → List α → List β
  | [], _ => []
  | vote :: votes, seen =>
    if key vote ∈ seen then firstBy key votes seen
    else vote :: firstBy key votes (key vote :: seen)

theorem firstBy_sublist (key : β → α) (votes : List β) (seen : List α) :
    (firstBy key votes seen).Sublist votes := by
  induction votes generalizing seen with
  | nil => exact List.Sublist.refl _
  | cons vote votes ih =>
    simp only [firstBy]
    split
    · exact (ih seen).cons vote
    · exact (ih _).cons_cons vote

theorem firstBy_key_notMem {key : β → α} {votes : List β} {seen : List α} :
    ∀ vote ∈ firstBy key votes seen, key vote ∉ seen := by
  induction votes generalizing seen with
  | nil => simp [firstBy]
  | cons head votes ih =>
    intro vote hvote
    simp only [firstBy] at hvote
    split at hvote
    · exact ih vote hvote
    · rename_i hhead
      rcases List.mem_cons.mp hvote with rfl | hvote
      · exact hhead
      · exact fun hseen => ih vote hvote (List.mem_cons_of_mem _ hseen)

theorem mem_firstBy_iff {key : β → α} {votes : List β} {seen : List α} {vote : β} :
    vote ∈ firstBy key votes seen ↔
      key vote ∉ seen ∧ votes.find? (fun other => key other = key vote) = some vote := by
  induction votes generalizing seen with
  | nil => simp [firstBy]
  | cons head votes ih =>
    simp only [firstBy]
    by_cases hsame : key head = key vote
    · have hfind : (head :: votes).find? (fun other => key other = key vote) = some head :=
        List.find?_cons_of_pos (by simpa using hsame)
      rw [hfind, Option.some.injEq]
      split
      · rename_i hhead
        rw [ih]
        exact ⟨fun h => absurd (hsame ▸ hhead) h.1, fun h => absurd (hsame ▸ hhead) h.1⟩
      · rename_i hhead
        rw [List.mem_cons, ih]
        constructor
        · rintro (rfl | h)
          · exact ⟨hhead, rfl⟩
          · exact absurd (hsame ▸ List.mem_cons_self) h.1
        · exact fun h => .inl h.2.symm
    · have hne : vote ≠ head := fun h => hsame (h ▸ rfl)
      have hkey : key vote ∉ key head :: seen ↔ key vote ∉ seen := by
        simp [Ne.symm hsame]
      rw [List.find?_cons_of_neg (by simpa using hsame)]
      split
      · exact ih
      · rw [List.mem_cons, ih, hkey]
        exact ⟨fun h => h.resolve_left hne, .inr⟩

theorem filter_firstBy {key : β → α} {votes : List β} {seen seen' : List α} {k : α}
    (h : ∀ other, other ∈ seen' ↔ other = k ∨ other ∈ seen) :
    (firstBy key votes seen).filter (fun vote => key vote ≠ k) = firstBy key votes seen' := by
  induction votes generalizing seen seen' with
  | nil => rfl
  | cons vote votes ih =>
    simp only [firstBy]
    by_cases hseen : key vote ∈ seen
    · rw [if_pos hseen, if_pos ((h _).mpr (.inr hseen)), ih h]
    · rw [if_neg hseen]
      by_cases hk : key vote = k
      · rw [if_pos ((h _).mpr (.inl hk)), List.filter_cons_of_neg (by simpa using hk)]
        refine ih fun other => ?_
        rw [h, List.mem_cons, hk, ← or_assoc, or_self]
      · have hseen' : key vote ∉ seen' := fun hmem => ((h _).mp hmem).elim hk hseen
        rw [if_neg hseen', List.filter_cons_of_pos (by simpa using hk)]
        congr 1
        refine ih fun other => ?_
        rw [List.mem_cons, List.mem_cons, h, or_left_comm]

theorem firstBy_nodup (key : β → α) (votes : List β) (seen : List α) :
    ((firstBy key votes seen).map key).Nodup := by
  induction votes generalizing seen with
  | nil => simp [firstBy]
  | cons vote votes ih =>
    simp only [firstBy]
    split
    · exact ih seen
    · rw [List.map_cons, List.nodup_cons]
      refine ⟨?_, ih _⟩
      intro hmem
      obtain ⟨other, hother, heq⟩ := List.mem_map.mp hmem
      exact firstBy_key_notMem other hother (heq ▸ List.mem_cons_self)

theorem firstBy_eq_self {key : β → α} {votes : List β} {seen : List α}
    (hdistinct : (votes.map key).Nodup) (hnew : ∀ vote ∈ votes, key vote ∉ seen) :
    firstBy key votes seen = votes := by
  induction votes generalizing seen with
  | nil => rfl
  | cons vote votes ih =>
    rw [List.map_cons, List.nodup_cons] at hdistinct
    simp only [firstBy, if_neg (hnew vote List.mem_cons_self)]
    rw [ih hdistinct.2]
    intro other hother hseen
    rcases List.mem_cons.mp hseen with heq | hseen
    · exact hdistinct.1 (heq ▸ List.mem_map_of_mem hother)
    · exact hnew other (List.mem_cons_of_mem _ hother) hseen

theorem firstBy_concat_of_mem {key : β → α} {votes : List β} {vote : β} {seen : List α}
    (h : key vote ∈ seen ∨ key vote ∈ votes.map key) :
    firstBy key (votes ++ [vote]) seen = firstBy key votes seen := by
  induction votes generalizing seen with
  | nil =>
    have hseen : key vote ∈ seen := by simpa using h
    simp [firstBy, hseen]
  | cons head votes ih =>
    simp only [List.map_cons, List.mem_cons] at h
    simp only [List.cons_append, firstBy]
    split
    · rename_i hhead
      refine ih ?_
      rcases h with hseen | heq | hlater
      · exact .inl hseen
      · exact .inl (heq ▸ hhead)
      · exact .inr hlater
    · rw [ih]
      rcases h with hseen | heq | hlater
      · exact .inl (List.mem_cons_of_mem _ hseen)
      · exact .inl (heq ▸ List.mem_cons_self)
      · exact .inr hlater

theorem firstBy_concat_of_notMem {key : β → α} {votes : List β} {vote : β} {seen : List α}
    (hseen : key vote ∉ seen) (hvotes : key vote ∉ votes.map key) :
    firstBy key (votes ++ [vote]) seen = firstBy key votes seen ++ [vote] := by
  induction votes generalizing seen with
  | nil => simp [firstBy, hseen]
  | cons head votes ih =>
    obtain ⟨hhead, hlater⟩ := not_or.mp (List.mem_cons.not.mp hvotes)
    simp only [List.cons_append, firstBy]
    split
    · exact ih hseen hlater
    · have hnew : key vote ∉ key head :: seen := by simp [hseen, hhead]
      rw [ih hnew hlater, List.cons_append]

end SmartBFT.Foundation
