import Mathlib.Data.Nat.Basic

/-!
# Values that are locked in numbered views

Voters vote for one sequence after the other, in views that are numbered.  A value is
locked in a view when enough voters have voted for it, and a later view is opened at a
sequence that is not behind anything that was locked before it, as long as the views in
between have respected it.  Then two values that are locked for one sequence are the same,
whatever the views are.
-/

namespace SmartBFT.Foundation

/-- The votes, the locked values and the openings of views of one history, with the rules
that they keep. -/
structure LockedViews (ι π : Type) where
  voted : ι → Nat → Nat → Prop
  locked : Nat → Nat → π → Prop
  opened : Nat → Nat → Prop
  unique {view sequence : Nat} {value value' : π} : locked view sequence value →
    locked view sequence value' → value = value'
  voted_of_locked {view sequence : Nat} {value : π} : locked view sequence value →
    ∃ voter, voted voter view sequence
  /-- A view other than the first one is opened below every vote in it, or a value was locked
  in it below the vote. -/
  opening {voter : ι} {view sequence : Nat} : voted voter view sequence → view = 0 ∨
    ∃ start < sequence, opened view start ∨ ∃ value, locked view start value
  carried {view start earlier sequence : Nat} {value : π} : opened view start →
    earlier < view → locked earlier sequence value →
    (∀ voter between later, earlier < between → between < view → voted voter between later →
      sequence < later) → sequence ≤ start

namespace LockedViews

variable {ι π : Type} (h : LockedViews ι π)

theorem lt_of_voted {voter : ι} {earlier view sequence later : Nat} {value : π}
    (hlocked : h.locked earlier sequence value) (hview : earlier < view)
    (hvoted : h.voted voter view later) : sequence < later := by
  -- the views below `view` come first, and within `view` the votes below `later`
  induction view using Nat.strongRecOn generalizing voter later with
  | ind view ihview =>
    induction later using Nat.strongRecOn generalizing voter with
    | ind later ihlater =>
      rcases h.opening hvoted with rfl | ⟨start, hstart, hopened | ⟨other, hother⟩⟩
      · omega
      · have hcarried : sequence ≤ start := by
          apply h.carried hopened hview hlocked
          intro voter' between later' hearlier hbetween hvoted'
          exact ihview between hbetween hearlier hvoted'
        omega
      · obtain ⟨voter', hvoted'⟩ := h.voted_of_locked hother
        have hahead := ihlater start hstart hvoted'
        omega

/-- One value for each sequence, over all views. -/
theorem agreement {view view' sequence : Nat} {value value' : π}
    (hlocked : h.locked view sequence value) (hlocked' : h.locked view' sequence value') :
    value = value' := by
  rcases Nat.lt_trichotomy view view' with hlt | rfl | hlt
  · obtain ⟨voter, hvoted⟩ := h.voted_of_locked hlocked'
    exact absurd (h.lt_of_voted hlocked hlt hvoted) (Nat.lt_irrefl _)
  · exact h.unique hlocked hlocked'
  · obtain ⟨voter, hvoted⟩ := h.voted_of_locked hlocked
    exact absurd (h.lt_of_voted hlocked' hlt hvoted) (Nat.lt_irrefl _)

end LockedViews

end SmartBFT.Foundation
