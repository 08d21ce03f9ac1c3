import Mathlib.Algebra.GroupWithZero.Nat

/-!
# Integers in floating point

An integer is converted to binary floating point by rounding it to the nearest
integer with `bits` significant bits, to the even one if two are equally near.
A sum of integers is rounded in the same way.  Up to `2 ^ bits` nothing is lost, and up to
`2 ^ (bits + k)` at most `2 ^ k`.
-/

namespace SmartBFT.Foundation

def roundSignificand (bits x : Nat) : Nat :=
  let unit := 2 ^ (Nat.log2 x + 1 - bits)
  let down := x / unit
  let lost := x % unit
  if 2 * lost < unit ∨ (2 * lost = unit ∧ down % 2 = 0) then down * unit
  else (down + 1) * unit

/-- An integer as a double-precision number, which has 53 significant bits. -/
def float64 (x : Int) : Int :=
  x.sign * roundSignificand 53 x.natAbs

theorem roundSignificand_of_dvd {bits x : Nat} (h : 2 ^ (Nat.log2 x + 1 - bits) ∣ x) :
    roundSignificand bits x = x := by
  have hlost : x % 2 ^ (Nat.log2 x + 1 - bits) = 0 := Nat.mod_eq_zero_of_dvd h
  have hpos : 0 < 2 ^ (Nat.log2 x + 1 - bits) := Nat.two_pow_pos _
  simp only [roundSignificand, hlost, Nat.mul_zero, hpos, true_or, if_true]
  exact Nat.div_mul_cancel h

theorem roundSignificand_of_le {bits x : Nat} (hbits : 0 < bits) (h : x ≤ 2 ^ bits) :
    roundSignificand bits x = x := by
  apply roundSignificand_of_dvd
  rcases Nat.lt_or_eq_of_le h with hlt | rfl
  · have hlog : Nat.log2 x + 1 ≤ bits := by
      rcases Nat.eq_zero_or_pos x with rfl | hpos
      · rw [Nat.log2_zero]
        exact hbits
      · exact (Nat.log2_lt (Nat.ne_of_gt hpos)).mpr hlt
    rw [Nat.sub_eq_zero_of_le hlog, Nat.pow_zero]
    exact Nat.one_dvd x
  · rw [Nat.log2_two_pow]
    exact Nat.pow_dvd_pow 2 (by omega)

theorem roundSignificand_le {bits k x : Nat} (h : x < 2 ^ (bits + k)) :
    roundSignificand bits x ≤ x + 2 ^ k := by
  rcases Nat.eq_zero_or_pos x with rfl | hpos
  · rw [roundSignificand_of_dvd (Nat.dvd_zero _)]
    exact Nat.zero_le _
  · have hlog : Nat.log2 x < bits + k := (Nat.log2_lt (Nat.ne_of_gt hpos)).mpr h
    have hunit : 2 ^ (Nat.log2 x + 1 - bits) ≤ 2 ^ k := Nat.pow_le_pow_right (by decide) (by omega)
    have hdown := Nat.div_mul_le_self x (2 ^ (Nat.log2 x + 1 - bits))
    rw [roundSignificand]
    split
    · omega
    · rw [Nat.add_mul, Nat.one_mul]
      omega

theorem float64_of_le {x : Nat} (h : x ≤ 2 ^ 53) : float64 x = x := by
  rw [float64, Int.natAbs_natCast, roundSignificand_of_le (by decide) h]
  rcases Nat.eq_zero_or_pos x with rfl | hpos
  · rfl
  · rw [Int.sign_eq_one_of_pos (by exact_mod_cast hpos), Int.one_mul]

theorem float64_nonpos {x : Int} (h : x ≤ 0) : float64 x ≤ 0 := by
  rcases Int.lt_or_eq_of_le h with hneg | rfl
  · rw [float64, Int.sign_eq_neg_one_of_neg hneg]
    omega
  · simp [float64]

theorem float64_le {k bound : Nat} {x : Int} (hx : x ≤ bound) (h : bound < 2 ^ (53 + k)) :
    float64 x ≤ (bound + 2 ^ k : Nat) := by
  rcases Int.lt_or_le 0 x with hpos | hneg
  · have hround : roundSignificand 53 x.natAbs ≤ x.natAbs + 2 ^ k :=
      roundSignificand_le (by omega)
    rw [float64, Int.sign_eq_one_of_pos hpos, Int.one_mul, Int.ofNat_le]
    omega
  · exact Int.le_trans (float64_nonpos hneg) (Int.natCast_nonneg _)

end SmartBFT.Foundation
