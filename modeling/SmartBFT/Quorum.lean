import SmartBFT.Foundation.Float64
import SmartBFT.Foundation.Quorum
import SmartBFT.Util
import Mathlib.Order.Bounds.Basic

/-!
# Quorum sizes

`computeQuorum` (`internal/bft/util.go`) on machine integers and in floating
point.  As long as the floating-point sum is exact this is the `computeQuorum`
that the rest of the development uses.
-/

namespace SmartBFT

open SmartBFT.Foundation

def quorumFaults (n : UInt64) : Int :=
  ((n.toInt64 - 1) / 3).toInt

def quorumSum (n : UInt64) : Int :=
  float64 (float64 (float64 n.toNat + float64 (quorumFaults n)) + 1)

/-- `computeQuorum` as the source computes it: `f` in `int`, `q` in float64. -/
def computeQuorumFloat64 (n : UInt64) : Int × Int :=
  -- `math.Ceil(sum / 2.0)`
  ((quorumSum n + 1) / 2, quorumFaults n)

/-- What a quorum size `q` has to meet in a cluster of `n` nodes of which `f` may be faulty;
the nodes are taken from any type. -/
structure QuorumSizes (α : Type*) [DecidableEq α] (n q f : Nat) : Prop where
  faulty : IsGreatest {k : Int | 3 * k + 1 ≤ n} f
  least : ∀ nodes : Finset α, nodes.card = n →
    IsLeast {k | ∀ a b, a ⊆ nodes → b ⊆ nodes → a.card = k → b.card = k →
      f + 1 ≤ (a ∩ b).card} q
  available : q ≤ n - f
  correct : ∀ nodes faulty : Finset α, nodes.card = n → faulty ⊆ nodes → faulty.card ≤ f →
    q ≤ (nodes \ faulty).card ∧
      ∀ a ⊆ nodes, a.card = q → f + 1 ≤ (a \ faulty).card

theorem toInt_toInt64_sub_one (n : UInt64) :
    (n.toInt64 - 1).toInt =
      if n.toNat ≤ 2 ^ 63 then (n.toNat - 1 : Int) else n.toNat - 1 - (2 ^ 64 : Nat) := by
  have hsize := n.toNat_lt
  have hint : n.toInt64.toInt = (n.toNat : Int).bmod (2 ^ 64) := BitVec.toInt_eq_toNat_bmod _
  have hone : (1 : Int64).toInt = 1 := rfl
  rw [Int64.toInt_sub, hint, hone, Int.bmod_sub_bmod, Int.bmod_def]
  split <;> split <;> omega

theorem toInt_div_three (x : Int64) :
    (x / 3).toInt = if 0 ≤ x.toInt then x.toInt / 3 else -(-x.toInt / 3) := by
  have hthree : (3 : Int64).toInt = 3 := rfl
  have hdiv : x.toInt.tdiv 3 = if 0 ≤ x.toInt then x.toInt / 3 else -(-x.toInt / 3) := by
    split
    · exact Int.tdiv_eq_ediv_of_nonneg (by omega)
    · rw [← Int.tdiv_eq_ediv_of_nonneg (by omega), Int.neg_tdiv, Int.neg_neg]
  have hlow := x.le_toInt
  have hhigh := x.toInt_lt
  rw [Int64.toInt_div, hthree, hdiv]
  exact Int.bmod_eq_of_le_mul_two (by omega) (by omega)

theorem quorumFaults_of_le {n : UInt64} (h : n.toNat ≤ 2 ^ 63) :
    quorumFaults n = maxFaulty n.toNat := by
  rw [quorumFaults, toInt_div_three, toInt_toInt64_sub_one, if_pos h, maxFaulty]
  omega

theorem quorumFaults_nonpos {n : UInt64} (h : 2 ^ 63 < n.toNat) : quorumFaults n ≤ 0 := by
  have hsize := n.toNat_lt
  rw [quorumFaults, toInt_div_three, toInt_toInt64_sub_one, if_neg (by omega)]
  omega

theorem quorumSum_of_le {n : UInt64} (h : n.toNat + maxFaulty n.toNat + 1 ≤ 2 ^ 53) :
    quorumSum n = n.toNat + maxFaulty n.toNat + 1 := by
  rw [quorumSum, quorumFaults_of_le (by omega), float64_of_le (x := n.toNat) (by omega),
    float64_of_le (x := maxFaulty n.toNat) (by omega), ← Int.natCast_add,
    float64_of_le (x := n.toNat + maxFaulty n.toNat) (by omega)]
  exact float64_of_le h

theorem le_of_quorumSum_eq {n : UInt64} (h : quorumSum n = n.toNat + maxFaulty n.toNat + 1) :
    n.toNat ≤ 2 ^ 63 := by
  by_contra hlt
  have hsize := n.toNat_lt
  have hfaults := float64_nonpos (quorumFaults_nonpos (n := n) (by omega))
  have hn : float64 n.toNat ≤ (n.toNat + 2 ^ 11 : Nat) := float64_le (Int.le_refl _) hsize
  have hsum : float64 (float64 n.toNat + float64 (quorumFaults n)) ≤
      (n.toNat + 2 ^ 11 + 2 ^ 12 : Nat) :=
    float64_le (by omega) (by omega)
  have hone : quorumSum n ≤ (n.toNat + 2 ^ 11 + 2 ^ 12 + 1 + 2 ^ 12 : Nat) :=
    float64_le (by omega) (by omega)
  simp only [maxFaulty] at h
  omega

theorem computeQuorumFloat64_eq {n : UInt64}
    (h : quorumSum n = n.toNat + maxFaulty n.toNat + 1) :
    computeQuorumFloat64 n =
      (((computeQuorum n.toNat).1 : Int), ((computeQuorum n.toNat).2 : Int)) := by
  simp only [computeQuorumFloat64, quorumFaults_of_le (le_of_quorumSum_eq h), h, computeQuorum,
    Prod.mk.injEq, and_true]
  omega

theorem quorumSizes_computeQuorum (α : Type*) [DecidableEq α] {n : Nat} (hn : 1 ≤ n) :
    QuorumSizes α n (computeQuorum n).1 (computeQuorum n).2 where
  faulty := by
    simp only [computeQuorum, maxFaulty]
    constructor
    · change (3 * ((n - 1) / 3 : Nat) + 1 : Int) ≤ n
      omega
    · intro k hk
      change 3 * k + 1 ≤ (n : Int) at hk
      omega
  least nodes hnodes := by
    have htwo : n + (computeQuorum n).2 < 2 * (computeQuorum n).1 := computeQuorum_two_mul rfl
    constructor
    · intro a b ha hb hcarda hcardb
      have hle := card_add_card_le ha hb
      omega
    · intro k hk
      by_contra hlt
      have hsmall : 2 * k ≤ n + (computeQuorum n).2 := by
        simp only [computeQuorum] at hlt ⊢
        omega
      have hfits : k ≤ nodes.card := by
        simp only [computeQuorum, maxFaulty] at hlt
        omega
      obtain ⟨a, b, ha, hb, hcarda, hcardb, hinter⟩ := exists_subsets_card_inter hfits
      have hmeets := hk a b ha hb hcarda hcardb
      omega
  available := by
    simp only [computeQuorum, maxFaulty]
    omega
  correct nodes faulty hnodes hsub hfew := by
    have hsizes : (computeQuorum n).1 ≤ n - (computeQuorum n).2 ∧
        2 * (computeQuorum n).2 + 1 ≤ (computeQuorum n).1 := by
      simp only [computeQuorum, maxFaulty]
      omega
    constructor
    · rw [Finset.card_sdiff_of_subset hsub, hnodes]
      omega
    · intro a ha hcard
      have hle := Finset.le_card_sdiff faulty a
      omega

/-- **Quorum arithmetic.**  The sizes that the source computes, for every cluster for which the
sum is exact; by `quorumSum_of_le` it is up to `2 ^ 53`. -/
theorem computeQuorumFloat64_sizes (α : Type*) [DecidableEq α] {n : UInt64} (hn : 1 ≤ n.toNat)
    (hexact : quorumSum n = n.toNat + maxFaulty n.toNat + 1) :
    ∃ q f : Nat, computeQuorumFloat64 n = ((q : Int), (f : Int)) ∧
      QuorumSizes α n.toNat q f :=
  ⟨_, _, computeQuorumFloat64_eq hexact, quorumSizes_computeQuorum α hn⟩

theorem computeQuorumFloat64_sizes_six :
    computeQuorumFloat64 6 = (4, 1) ∧ ∃ q f : Nat,
      computeQuorumFloat64 6 = ((q : Int), (f : Int)) ∧ QuorumSizes Nat (6 : UInt64).toNat q f :=
  ⟨by decide +kernel, computeQuorumFloat64_sizes Nat (by decide) (quorumSum_of_le (by decide))⟩

end SmartBFT
