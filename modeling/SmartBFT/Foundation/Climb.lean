import Mathlib.Data.List.Chain

/-!
# A loop that climbs

A loop reads a level.  Either it ends then, or the level is below a limit and it raises it by
one before it reads again; it may end after that as well.  In between others may change the
level.

If what is read after a raise is never below it, then what is read increases, and the distance
from the first level to the limit bounds the number of raises (`Climbs.bounds`).
-/

namespace SmartBFT.Foundation

inductive ClimbStep where
  | read (level : Nat)
  | raise (level : Nat)
  deriving DecidableEq, Repr

inductive ClimbPhase where
  | reading
  | raising (level : Nat)
  deriving DecidableEq, Repr

namespace ClimbStep

def level : ClimbStep → Option Nat
  | .read level => some level
  | .raise _ => none

def raises : ClimbStep → Bool
  | .read _ => false
  | .raise _ => true

/-- What is read after a raise is not below it. -/
def Kept : ClimbStep → ClimbStep → Prop
  | .raise raised, .read level => raised ≤ level
  | _, _ => True

instance : DecidableRel Kept
  | .raise raised, .read level => inferInstanceAs (Decidable (raised ≤ level))
  | .raise _, .raise _ => .isTrue trivial
  | .read _, _ => .isTrue trivial

end ClimbStep

/-- The steps that the loop takes from a phase on; it may be left at any point. -/
inductive Climbs (limit : Nat) : ClimbPhase → List ClimbStep → Prop where
  | left (phase : ClimbPhase) : Climbs limit phase []
  | last (level : Nat) : Climbs limit .reading [.read level]
  | read {level : Nat} {steps : List ClimbStep} (hbelow : level < limit)
      (h : Climbs limit (.raising (level + 1)) steps) :
      Climbs limit .reading (.read level :: steps)
  | raise {level : Nat} {steps : List ClimbStep} (h : Climbs limit .reading steps) :
      Climbs limit (.raising level) (.raise level :: steps)

/-- All levels that are read are at least `floor`, with at most `raises` raises. -/
structure ClimbBounds (floor raises extra : Nat) (steps : List ClimbStep) : Prop where
  increasing : (steps.filterMap ClimbStep.level).Pairwise (· < ·)
  floor_le : ∀ level ∈ steps.filterMap ClimbStep.level, floor ≤ level
  raises_le : steps.countP ClimbStep.raises ≤ raises
  reads_le : (steps.filterMap ClimbStep.level).length ≤
    steps.countP ClimbStep.raises + extra

namespace Climbs

variable {limit : Nat} {phase : ClimbPhase} {steps : List ClimbStep}

def Bounded (limit : Nat) (steps : List ClimbStep) : ClimbPhase → Prop
  | .reading => ∀ floor, (∀ level, steps.head? = some (.read level) → floor ≤ level) →
      ClimbBounds floor (limit - floor) 1 steps
  | .raising level => level ≤ limit → ClimbBounds level (limit + 1 - level) 0 steps

theorem bounded (h : Climbs limit phase steps) (hkept : steps.IsChain ClimbStep.Kept) :
    Bounded limit steps phase := by
  induction h with
  | left phase =>
    have hnone : ∀ floor raises extra, ClimbBounds floor raises extra [] :=
      fun _ _ _ => ⟨by simp, by simp, by simp, by simp⟩
    cases phase with
    | reading => exact fun _ _ => hnone _ _ _
    | raising level => exact fun _ => hnone _ _ _
  | last level =>
    intro floor hfloor
    have hle := hfloor level rfl
    exact ⟨by simp [ClimbStep.level], by simpa [ClimbStep.level] using hle,
      by simp [ClimbStep.raises], by simp [ClimbStep.level]⟩
  | @read level steps hbelow h ih =>
    intro floor hfloor
    have hle := hfloor level rfl
    obtain ⟨hincreasing, hfloor_le, hraises, hreads⟩ := ih hkept.tail hbelow
    have hcount : (ClimbStep.read level :: steps).countP ClimbStep.raises =
        steps.countP ClimbStep.raises := List.countP_cons_of_neg (by simp [ClimbStep.raises])
    refine ⟨?_, ?_, ?_, ?_⟩
    · simp only [List.filterMap_cons, ClimbStep.level]
      exact List.pairwise_cons.mpr ⟨fun later hlater => hfloor_le later hlater, hincreasing⟩
    · intro other hother
      simp only [List.filterMap_cons, ClimbStep.level, List.mem_cons] at hother
      rcases hother with rfl | hlater
      · exact hle
      · have := hfloor_le other hlater
        omega
    · rw [hcount]
      omega
    · simp only [hcount, List.filterMap_cons, ClimbStep.level, List.length_cons]
      omega
  | @raise level steps h ih =>
    intro hlimit
    have hfloor : ∀ read, steps.head? = some (.read read) → level ≤ read := by
      intro read hread
      obtain ⟨rest, rfl⟩ := List.head?_eq_some_iff.mp hread
      exact (List.isChain_cons_cons.mp hkept).1
    obtain ⟨hincreasing, hfloor_le, hraises, hreads⟩ := ih hkept.tail level hfloor
    have hcount : (ClimbStep.raise level :: steps).countP ClimbStep.raises =
        steps.countP ClimbStep.raises + 1 := List.countP_cons_of_pos rfl
    refine ⟨hincreasing, hfloor_le, ?_, ?_⟩
    · rw [hcount]
      omega
    · simp only [hcount, List.filterMap_cons, ClimbStep.level]
      omega

/-- The loop takes finitely many steps, which the distance to the limit bounds. -/
theorem bounds {level : Nat} (h : Climbs limit .reading (.read level :: steps))
    (hkept : (ClimbStep.read level :: steps).IsChain ClimbStep.Kept) :
    ClimbBounds level (limit - level) 1 (.read level :: steps) := by
  refine h.bounded hkept level fun read hread => ?_
  obtain rfl : level = read := by simpa using hread
  exact le_rfl

end Climbs

end SmartBFT.Foundation
