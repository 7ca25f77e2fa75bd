import Mathlib.Algebra.BigOperators.Field
import Mathlib.Algebra.Order.Field.Basic
import Mathlib.Data.Fintype.BigOperators
import Mathlib.Data.Fintype.Sum

/-!
# Shares of outcomes

The probability of an event when all outcomes are equally likely is its share of them. Where the
outcomes are independent choices, the first choice can be drawn before the others, `share_cons`.
-/

namespace Chance

variable {α : Type*} [Field α] {Ω : Type*} [Fintype Ω]

/-- The share of the outcomes with `p`. -/
def share (α : Type*) [Field α] {Ω : Type*} [Fintype Ω] (p : Ω → Prop) [DecidablePred p] : α :=
  (Fintype.card { ω // p ω } : α) / (Fintype.card Ω : α)

theorem share_congr {p q : Ω → Prop} [DecidablePred p] [DecidablePred q] (h : ∀ ω, p ω ↔ q ω) :
    share α p = share α q := by
  rw [share, share, Fintype.card_congr (Equiv.subtypeEquivRight h)]

theorem share_of_unique [Unique Ω] (p : Ω → Prop) [DecidablePred p] :
    share α p = if p default then 1 else 0 := by
  have hall : (Fintype.card Ω : α) = 1 := by rw [Fintype.card_unique, Nat.cast_one]
  rw [share, hall, div_one]
  split_ifs with h
  · have hone : Fintype.card { ω // p ω } = 1 :=
      Fintype.card_eq_one_iff.mpr ⟨⟨default, h⟩, fun ω => Subtype.ext (Subsingleton.elim _ _)⟩
    rw [hone, Nat.cast_one]
  · have hzero : Fintype.card { ω // p ω } = 0 :=
      Fintype.card_eq_zero_iff.mpr ⟨fun ω => h (Unique.eq_default ω.1 ▸ ω.2)⟩
    rw [hzero, Nat.cast_zero]

/-- Independent choices, with the first one drawn first. -/
theorem share_cons {n : ℕ} {Ω : Fin (n + 1) → Type*} [∀ i, Fintype (Ω i)] [∀ i, DecidableEq (Ω i)]
    (p : (∀ i, Ω i) → Prop) [DecidablePred p] :
    share α p = (∑ k : Ω 0, share α fun ω : ∀ i : Fin n, Ω i.succ => p (Fin.cons k ω)) /
      (Fintype.card (Ω 0) : α) := by
  have hall : Fintype.card (∀ i, Ω i) =
      Fintype.card (Ω 0) * Fintype.card (∀ i : Fin n, Ω i.succ) := by
    rw [← Fintype.card_prod]
    exact Fintype.card_congr (Fin.consEquiv Ω).symm
  have hsome : Fintype.card { ω // p ω } =
      ∑ k : Ω 0, Fintype.card { ω : ∀ i : Fin n, Ω i.succ // p (Fin.cons k ω) } := by
    rw [← Fintype.card_sigma]
    refine Fintype.card_congr ?_
    exact (((Fin.consEquiv Ω).subtypeEquiv fun _ => Iff.rfl).symm).trans
      (Equiv.subtypeProdEquivSigmaSubtype fun k ω => p (Fin.cons k ω))
  simp only [share]
  rw [hall, hsome, ← Finset.sum_div, Nat.cast_mul, Nat.cast_sum, mul_comm, ← div_div]

end Chance
