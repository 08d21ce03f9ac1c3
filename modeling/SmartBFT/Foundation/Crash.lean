import Mathlib.Data.List.Basic

/-!
# Crashes in a sequence of operations

A store is changed by a list of operations.  A crash lets the first of them
take effect in full and leaves of the next one any part that `torn` allows.
`CrashSafe` is the crash condition of a list of operations: it holds of every
store a crash can leave, the one after the last operation included.
-/

namespace SmartBFT.Foundation

variable {σ ω : Type} (apply : ω → σ → σ) (torn : Nat → ω → σ → σ)

def applyAll (ops : List ω) (s : σ) : σ :=
  ops.foldl (fun s op => apply op s) s

/-- The store that is left when `done` operations took effect and the next
one was cut off at the point `part`. -/
def crashAt : List ω → Nat → Nat → σ → σ
  | [], _, _, s => s
  | op :: _, 0, part, s => torn part op s
  | op :: ops, done + 1, part, s => crashAt ops done part (apply op s)

def CrashSafe (condition : σ → Prop) (ops : List ω) (s : σ) : Prop :=
  ∀ done part, condition (crashAt apply torn ops done part s)

variable {apply torn} {condition weaker : σ → Prop} {ops more : List ω} {op : ω} {s : σ}

@[simp] theorem applyAll_nil (s : σ) : applyAll apply [] s = s := rfl

@[simp] theorem applyAll_cons (op : ω) (ops : List ω) (s : σ) :
    applyAll apply (op :: ops) s = applyAll apply ops (apply op s) := rfl

@[simp] theorem applyAll_append (ops more : List ω) (s : σ) :
    applyAll apply (ops ++ more) s = applyAll apply more (applyAll apply ops s) := by
  simp [applyAll]

theorem CrashSafe.nil (h : condition s) : CrashSafe apply torn condition [] s :=
  fun _ _ => h

theorem CrashSafe.cons (htorn : ∀ part, condition (torn part op s))
    (hrest : CrashSafe apply torn condition ops (apply op s)) :
    CrashSafe apply torn condition (op :: ops) s := by
  intro done part
  cases done with
  | zero => exact htorn part
  | succ done => exact hrest done part

/-- The rule for a sequence: the second part starts from the store the first
one leaves. -/
theorem CrashSafe.append (hfirst : CrashSafe apply torn condition ops s)
    (hrest : CrashSafe apply torn condition more (applyAll apply ops s)) :
    CrashSafe apply torn condition (ops ++ more) s := by
  induction ops generalizing s with
  | nil => exact hrest
  | cons op ops ih =>
    apply CrashSafe.cons
    · exact fun part => hfirst 0 part
    · exact ih (fun done part => hfirst (done + 1) part) hrest

theorem CrashSafe.mono (hsafe : CrashSafe apply torn condition ops s)
    (himp : ∀ s, condition s → weaker s) : CrashSafe apply torn weaker ops s :=
  fun done part => himp _ (hsafe done part)

end SmartBFT.Foundation
