import Mathlib.Data.Fintype.Card
import Mathlib.Data.Set.Finite.Basic
import Mathlib.Logic.Hydra
import Mathlib.Order.WellFounded

/-!
# Messages that make their receivers send messages

An exchange delivers the messages in flight one by one, in any order, and every delivery may
put new messages in flight.  If the answer to a message never changes, then an exchange ends
exactly if no message in flight starts an endless chain of answers (`ends_iff`): this is the
order of multisets, in which one element is replaced by finitely many smaller ones.
-/

namespace SmartBFT.Foundation

open Relation

section Exchange

variable {σ μ : Type*}

/-- One message is delivered, and its answers are in flight. -/
def Delivers (deliver : σ → μ → σ × Multiset μ) (next now : σ × Multiset μ) : Prop :=
  ∃ m rest, now.2 = m ::ₘ rest ∧ next = ((deliver now.1 m).1, rest + (deliver now.1 m).2)

def Ends (deliver : σ → μ → σ × Multiset μ) (start : σ × Multiset μ) : Prop :=
  ¬∃ exchange : Nat → σ × Multiset μ, exchange 0 = start ∧
    ∀ k, Delivers deliver (exchange (k + 1)) (exchange k)

def Answers (deliver : σ → μ → σ × Multiset μ) (s : σ) (m' m : μ) : Prop :=
  m' ∈ (deliver s m).2

variable {deliver : σ → μ → σ × Multiset μ} {inv : σ → Prop} {s : σ}

theorem ends_iff_acc {start : σ × Multiset μ} :
    Ends deliver start ↔ Acc (Delivers deliver) start := by
  rw [Ends, ← not_acc_iff_exists_descending_chain, not_not]

theorem answers_of_exchange (hinv : ∀ s m, inv s → inv (deliver s m).1)
    (hsame : ∀ s m, inv s → Answers deliver (deliver s m).1 = Answers deliver s)
    {now : σ × Multiset μ} (hacc : Acc (Delivers deliver) now) (hnow : inv now.1) :
    ∀ m ∈ now.2, Acc (Answers deliver now.1) m := by
  induction hacc with
  | intro now _ ih =>
    intro m hm
    obtain ⟨rest, hrest⟩ := Multiset.exists_cons_of_mem hm
    -- what answers `m` is in flight after its delivery
    refine Acc.intro m fun m' hm' => hsame now.1 m hnow ▸ ?_
    exact ih _ ⟨m, rest, hrest, rfl⟩ (hinv now.1 m hnow) m' (Multiset.mem_add.mpr (.inr hm'))

theorem exchange_of_answers (hinv : ∀ s m, inv s → inv (deliver s m).1)
    (hsame : ∀ s m, inv s → Answers deliver (deliver s m).1 = Answers deliver s)
    {r : μ → μ → Prop} {inFlight : Multiset μ} (hacc : Acc (CutExpand r) inFlight)
    (hs : inv s) (hr : Answers deliver s = r) : Acc (Delivers deliver) (s, inFlight) := by
  induction hacc generalizing s with
  | intro inFlight _ ih =>
    refine Acc.intro _ ?_
    rintro _ ⟨m, rest, hrest, rfl⟩
    refine ih _ ⟨(deliver s m).2, m, fun m' hm' => hr ▸ hm', ?_⟩ (hinv s m hs)
      ((hsame s m hs).trans hr)
    have hflight : inFlight = m ::ₘ rest := hrest
    rw [hflight, ← Multiset.singleton_add]
    exact (add_comm _ _).trans (add_assoc _ _ _).symm

/-- An exchange ends exactly if no message in flight starts an endless chain of answers. -/
theorem ends_iff (hinv : ∀ s m, inv s → inv (deliver s m).1)
    (hsame : ∀ s m, inv s → Answers deliver (deliver s m).1 = Answers deliver s)
    (hirrefl : ∀ m, m ∉ (deliver s m).2) (hs : inv s) (inFlight : Multiset μ) :
    Ends deliver (s, inFlight) ↔ ∀ m ∈ inFlight, Acc (Answers deliver s) m := by
  rw [ends_iff_acc]
  constructor
  · intro hacc
    exact answers_of_exchange hinv hsame hacc hs
  · intro hanswers
    have : Std.Irrefl (Answers deliver s) := ⟨hirrefl⟩
    refine exchange_of_answers hinv hsame ?_ hs rfl
    exact acc_of_singleton fun m hm => (hanswers m hm).cutExpand

end Exchange

/-! ## Nodes that pass messages on -/

section Relays

variable {ν : Type*} {nodes : List ν} {helps : ν → ν → Prop}

/-- The receiver of a message, a pair of sender and target, passes it on to all others if it
helps the sender. -/
def Relays (nodes : List ν) (helps : ν → ν → Prop) (m' m : ν × ν) : Prop :=
  helps m.1 m.2 ∧ m'.1 = m.2 ∧ m'.2 ∈ nodes ∧ m'.2 ≠ m.2

/-- No node from which helpers lead around in a circle is reached from this one. -/
def LeadsToNoCircle (helps : ν → ν → Prop) (b : ν) : Prop :=
  ∀ i, ReflTransGen helps b i → ¬TransGen helps i i

theorem acc_not_transGen_self {α : Type*} {r : α → α → Prop} {a : α} (h : Acc r a) :
    ¬TransGen r a a := by
  have htrans := h.transGen
  clear h
  induction htrans with
  | intro a _ ih => exact fun hself => ih a hself hself

theorem acc_iff_leadsToNoCircle (hmem : ∀ a b, helps a b → b ∈ nodes) {b : ν} :
    Acc (Function.swap helps) b ↔ LeadsToNoCircle helps b := by
  constructor
  · intro hacc i hreaches hcircle
    have hi : Acc (Function.swap helps) i := by
      clear hcircle
      induction hreaches with
      | refl => exact hacc
      | tail _ hstep ih => exact ih.inv hstep
    exact acc_not_transGen_self hi (transGen_swap.mpr hcircle)
  · intro hnone
    -- the nodes that are reached in one step or more are finitely many
    let reached := { i // i ∈ nodes ∧ ReflTransGen helps b i }
    have : Finite reached := (nodes.finite_toSet.subset fun i hi => hi.1 :
      { i | i ∈ nodes ∧ ReflTransGen helps b i }.Finite).to_subtype
    have : IsTrans reached fun i j => TransGen helps j.1 i.1 :=
      ⟨fun _ _ _ hij hjk => hjk.trans hij⟩
    have : Std.Irrefl fun i j : reached => TransGen helps j.1 i.1 :=
      ⟨fun i => hnone i.1 i.2.2⟩
    have hwf := Finite.wellFounded_of_trans_of_irrefl fun i j : reached => TransGen helps j.1 i.1
    have hreached : ∀ i : reached, Acc (Function.swap helps) i.1 := by
      intro i
      induction i using hwf.induction with
      | _ i ih =>
        refine Acc.intro _ fun j hstep => ?_
        exact ih ⟨j, hmem _ _ hstep, i.2.2.tail hstep⟩ (.single hstep)
    refine Acc.intro _ fun i hstep => hreached ⟨i, hmem _ _ hstep, .single hstep⟩

/-- A message is passed on for ever only if its receiver helps the sender and leads to a
circle of nodes that help one another. -/
theorem acc_relays_iff (hmem : ∀ a b, helps a b → b ∈ nodes) (hne : ∀ a b, helps a b → b ≠ a)
    {m : ν × ν} :
    Acc (Relays nodes helps) m ↔ (helps m.1 m.2 → LeadsToNoCircle helps m.2) := by
  have hreceived : ∀ b, Acc (Function.swap helps) b → ∀ a, Acc (Relays nodes helps) (a, b) := by
    intro b hb
    induction hb with
    | intro b _ ih =>
      intro a
      refine Acc.intro _ ?_
      rintro ⟨b', c⟩ ⟨-, rfl, hc, -⟩
      by_cases hhelps : helps b' c
      · exact ih c hhelps b'
      · exact Acc.intro _ fun m' hm' => absurd hm'.1 hhelps
  constructor
  · intro hacc hhelps
    rw [← acc_iff_leadsToNoCircle hmem]
    induction hacc with
    | intro m _ ih =>
      refine Acc.intro _ fun c hstep => ?_
      exact ih (m.2, c) ⟨hhelps, rfl, hmem _ _ hstep, hne _ _ hstep⟩ hstep
  · intro hnone
    by_cases hhelps : helps m.1 m.2
    · exact hreceived m.2 ((acc_iff_leadsToNoCircle hmem).mpr (hnone hhelps)) m.1
    · exact Acc.intro _ fun m' hm' => absurd hm'.1 hhelps

end Relays

end SmartBFT.Foundation
