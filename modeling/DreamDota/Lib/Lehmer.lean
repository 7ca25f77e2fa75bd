import Mathlib.Data.Int.ModEq
import Mathlib.Data.Nat.Prime.Basic
import Mathlib.Logic.Function.Iterate

/-!
# Multiplicative congruential generators

The generator `x ↦ a * x % m`, and the same in a register that holds the numbers below `w`.

1. `iterate_step`: what the generator gives. With a prime modulus it does not come to `0`,
   `iterate_step_ne_zero`, and `step_ne_of_coprime` tells values apart.
2. `register_eq_step_iff`: the register gives the same value if and only if it does not overflow.
3. `iterate_register_iff`: the same for a run.
-/

namespace Lehmer

variable {a m w x : ℕ}

/-- The next value. -/
def step (a m x : ℕ) : ℕ := a * x % m

/-- The next value, with the product in a register. -/
def register (a m w x : ℕ) : ℕ := a * x % w % m

/-! ## The generator -/

theorem iterate_step (hx : x < m) (k : ℕ) : (step a m)^[k] x = a ^ k * x % m := by
  induction k with
  | zero => rw [Function.iterate_zero_apply, pow_zero, one_mul, Nat.mod_eq_of_lt hx]
  | succ k ih =>
    rw [Function.iterate_succ_apply', ih, step, Nat.mul_mod_mod, pow_succ', mul_assoc]

theorem iterate_step_ne_zero (hm : m.Prime) (ha : ¬m ∣ a) (h0 : x ≠ 0) (hx : x < m) (k : ℕ) :
    (step a m)^[k] x ≠ 0 := by
  rw [iterate_step hx]
  intro hzero
  rcases hm.dvd_mul.mp (Nat.dvd_of_mod_eq_zero hzero) with hpow | hseed
  · exact ha (hm.dvd_of_dvd_pow hpow)
  · exact h0 (Nat.eq_zero_of_dvd_of_lt hseed hx)

/-- A value does not come again after `k` steps if the modulus does not divide `a ^ k - 1`. -/
theorem step_ne_of_coprime (hm : m.Prime) (h0 : x ≠ 0) (hx : x < m) {k : ℕ} (ha : 1 ≤ a ^ k)
    (hk : ¬m ∣ a ^ k - 1) : (step a m)^[k] x ≠ x := by
  intro hsame
  have hmod : Nat.ModEq m (a ^ k * x) x := by
    rw [iterate_step hx] at hsame
    rw [Nat.ModEq, hsame, Nat.mod_eq_of_lt hx]
  have hdvd : m ∣ (a ^ k - 1) * x := by
    rw [Nat.sub_mul, Nat.one_mul]
    exact (Nat.modEq_iff_dvd' (Nat.le_mul_of_pos_left x ha)).mp hmod.symm
  rcases hm.dvd_mul.mp hdvd with hpow | hseed
  · exact hk hpow
  · exact h0 (Nat.eq_zero_of_dvd_of_lt hseed hx)

/-! ## Registers -/

/-- What the register loses is a multiple of `w`, and no small one is a multiple of `m`. -/
theorem register_eq_step_iff (hcop : m.Coprime w) (hm : 0 < m) (hw : 0 < w) (ha : a ≤ m)
    (hx : x < w) : register a m w x = step a m x ↔ a * x < w := by
  constructor
  · intro h
    have hdvd : m ∣ a * x / w * w := by
      have hmod : Nat.ModEq m (a * x % w) (a * x) := h
      have hsub := (Nat.modEq_iff_dvd' (Nat.mod_le _ _)).mp hmod
      rwa [← Nat.div_mul_self_eq_mod_sub_self] at hsub
    have hquot : a * x / w < m := by
      have hprod : a * x < w * m := calc
        a * x ≤ m * x := Nat.mul_le_mul_right x ha
        _ < m * w := Nat.mul_lt_mul_of_pos_left hx hm
        _ = w * m := Nat.mul_comm m w
      exact Nat.div_lt_of_lt_mul hprod
    have hzero := Nat.eq_zero_of_dvd_of_lt (hcop.dvd_of_dvd_mul_right hdvd) hquot
    exact (Nat.div_eq_zero_iff_lt hw).mp hzero
  · intro h
    rw [register, Nat.mod_eq_of_lt h, step]

/-- The register goes with the generator until it overflows. -/
theorem iterate_register_iff (hcop : m.Coprime w) (hm : 0 < m) (hmw : m ≤ w) (ha : a ≤ m)
    (hx : x < w) (n : ℕ) :
    (∀ i ≤ n, (register a m w)^[i] x = (step a m)^[i] x) ↔
      ∀ i < n, a * (step a m)^[i] x < w := by
  have hw : 0 < w := Nat.lt_of_lt_of_le hm hmw
  have hlt : ∀ i, (step a m)^[i] x < w := by
    intro i
    cases i with
    | zero => exact hx
    | succ i =>
      rw [Function.iterate_succ_apply']
      exact Nat.lt_of_lt_of_le (Nat.mod_lt _ hm) hmw
  constructor
  · intro h i hi
    have hnext := h (i + 1) hi
    rw [Function.iterate_succ_apply', Function.iterate_succ_apply', h i hi.le] at hnext
    exact (register_eq_step_iff hcop hm hw ha (hlt i)).mp hnext
  · intro h i hi
    induction i with
    | zero => rfl
    | succ i ih =>
      rw [Function.iterate_succ_apply', Function.iterate_succ_apply', ih (Nat.le_of_succ_le hi)]
      exact (register_eq_step_iff hcop hm hw ha (hlt i)).mpr (h i hi)

end Lehmer
