import Mathlib.Data.Finset.Dedup
import Mathlib.Data.Finset.SDiff
import Mathlib.Data.List.AList

/-!
# A list with an index

A list of items, no two of which have one key, and a map that leads from a key to the item
with this key.  The two are kept in step by adding an item at the end and by removing one.
-/

namespace SmartBFT.Foundation

variable {κ ι : Type} [DecidableEq κ]

/-- The index leads to exactly the items of the list. -/
structure Indexed (key : ι → κ) (items : List ι) (index : AList fun _ : κ => ι) : Prop where
  listed : ∀ k item, index.lookup k = some item ↔ item ∈ items ∧ key item = k
  distinct : (items.map key).Nodup

namespace Indexed

variable {key : ι → κ} {items : List ι} {index : AList fun _ : κ => ι}

theorem empty : Indexed key [] ∅ := ⟨by simp, by simp⟩

theorem mem_iff (h : Indexed key items index) {k : κ} : k ∈ index ↔ k ∈ items.map key := by
  rw [← AList.lookup_isSome, Option.isSome_iff_exists, List.mem_map]
  constructor
  · rintro ⟨item, hitem⟩
    exact ⟨item, (h.listed k item).mp hitem⟩
  · rintro ⟨item, hitem⟩
    exact ⟨item, (h.listed k item).mpr hitem⟩

theorem length_eq (h : Indexed key items index) : index.entries.length = items.length := by
  have hkeys : index.keys.Perm (items.map key) := by
    rw [List.perm_ext_iff_of_nodup index.keys_nodup h.distinct]
    intro k
    rw [← AList.mem_keys, h.mem_iff]
  have hlength := hkeys.length_eq
  simpa [AList.keys, List.keys] using hlength

theorem eq_of_key (h : Indexed key items index) {a b : ι} (ha : a ∈ items) (hb : b ∈ items)
    (hkey : key a = key b) : a = b :=
  List.inj_on_of_nodup_map h.distinct ha hb hkey

theorem concat (h : Indexed key items index) (item : ι) (hnew : key item ∉ index) :
    Indexed key (items ++ [item]) (index.insert (key item) item) := by
  have hfresh : key item ∉ items.map key := fun hmem => hnew (h.mem_iff.mpr hmem)
  refine ⟨fun k other => ?_, ?_⟩
  · by_cases hk : k = key item
    · subst hk
      rw [AList.lookup_insert, Option.some.injEq]
      constructor
      · rintro rfl
        simp
      · rintro ⟨hmem, hkey⟩
        rcases List.mem_append.mp hmem with hold | hlast
        · exact absurd (hkey ▸ List.mem_map_of_mem hold) hfresh
        · exact (List.mem_singleton.mp hlast).symm
    · rw [AList.lookup_insert_ne hk, h.listed]
      constructor
      · rintro ⟨hmem, hkey⟩
        exact ⟨List.mem_append_left _ hmem, hkey⟩
      · rintro ⟨hmem, rfl⟩
        rcases List.mem_append.mp hmem with hold | hlast
        · exact ⟨hold, rfl⟩
        · exact absurd (congrArg key (List.mem_singleton.mp hlast)) hk
  · rw [List.map_append, List.nodup_append]
    refine ⟨h.distinct, by simp, ?_⟩
    rintro k hk other hother rfl
    obtain rfl : k = key item := by simpa using hother
    exact hfresh hk

theorem erase [DecidableEq ι] (h : Indexed key items index) {k : κ} {item : ι}
    (hitem : index.lookup k = some item) :
    Indexed key (items.erase item) (index.erase k) := by
  obtain ⟨hmem, rfl⟩ := (h.listed k item).mp hitem
  have hnodup : items.Nodup := List.Nodup.of_map key h.distinct
  refine ⟨fun k other => ?_, h.distinct.sublist (List.erase_sublist.map key)⟩
  by_cases hk : k = key item
  · subst hk
    rw [AList.lookup_erase, hnodup.mem_erase_iff]
    constructor
    · simp
    · rintro ⟨⟨hne, hother⟩, hkey⟩
      exact absurd (h.eq_of_key hother hmem hkey) hne
  · rw [AList.lookup_erase_ne hk, h.listed, hnodup.mem_erase_iff]
    constructor
    · rintro ⟨hother, rfl⟩
      exact ⟨⟨fun heq => hk (congrArg key heq), hother⟩, rfl⟩
    · rintro ⟨⟨-, hother⟩, hkey⟩
      exact ⟨hother, hkey⟩

end Indexed

theorem toFinset_sdiff_take {items : List κ} (h : items.Nodup) (n : Nat) :
    items.toFinset \ (items.take n).toFinset = (items.drop n).toFinset := by
  have hsplit : (items.take n ++ items.drop n).Nodup := by rwa [List.take_append_drop]
  have hapart := List.disjoint_of_nodup_append hsplit
  ext k
  have hmem : k ∈ items ↔ k ∈ items.take n ∨ k ∈ items.drop n := by
    rw [← List.mem_append, List.take_append_drop]
  simp only [Finset.mem_sdiff, List.mem_toFinset, hmem]
  constructor
  · rintro ⟨htake | hdrop, hnot⟩
    · exact absurd htake hnot
    · exact hdrop
  · intro hdrop
    exact ⟨.inr hdrop, fun htake => hapart htake hdrop⟩

end SmartBFT.Foundation
