import Mathlib.Logic.Function.Iterate
import Mathlib.Tactic.Common

/-!
# Guarded runs of a step function

A run of `step` from `s` is `n ↦ step^[n] s`. Three rules carry a property along it:

1. `invariant`: every step keeps the property.
2. `guarded`: every step that meets a guard keeps it, so it holds as long as the guard was met.
3. `guarded_iff`: the guard is exact, so the property holds of the whole run if and only if every
   step of the run meets the guard.
-/

namespace Run

variable {σ : Type*} {step : σ → σ}

theorem succ (step : σ → σ) (n : ℕ) (s : σ) : step^[n + 1] s = step (step^[n] s) :=
  Function.iterate_succ_apply' step n s

/-- A property that every step keeps holds along the run. -/
theorem invariant {I : σ → Prop} (hstep : ∀ s, I s → I (step s)) {s : σ} (h : I s) (n : ℕ) :
    I (step^[n] s) := by
  induction n with
  | zero => exact h
  | succ n ih => rw [succ]; exact hstep _ ih

/-- A property that the guarded steps keep holds as long as every earlier step met the guard. -/
theorem guarded_upto {I Q : σ → Prop} (hstep : ∀ s, I s → Q s → I (step s)) {s : σ} (h : I s)
    (n : ℕ) (hok : ∀ m < n, Q (step^[m] s)) : I (step^[n] s) := by
  induction n with
  | zero => exact h
  | succ n ih =>
    rw [succ]
    exact hstep _ (ih fun m hm => hok m (by omega)) (hok n (by omega))

/-- A property that the guarded steps keep holds along a run whose steps all meet the guard. -/
theorem guarded {I Q : σ → Prop} (hstep : ∀ s, I s → Q s → I (step s)) {s : σ} (h : I s)
    (hok : ∀ n, Q (step^[n] s)) (n : ℕ) : I (step^[n] s) :=
  guarded_upto hstep h n fun m _ => hok m

/-- What holds until a run stops holds along the whole run. -/
theorem of_stopped {Q : σ → Prop} {s : σ} {N : ℕ} (hstop : step (step^[N] s) = step^[N] s)
    (hQ : ∀ m < N + 1, Q (step^[m] s)) (n : ℕ) : Q (step^[n] s) := by
  by_cases hn : n < N + 1
  · exact hQ n hn
  · have hfix : step^[n] s = step^[N] s := by
      rw [show n = (n - N) + N by omega, Function.iterate_add_apply]
      exact Function.iterate_fixed hstop _
    rw [hfix]
    exact hQ N (Nat.lt_succ_self N)

/-- An exact guard: when the steps that keep `P` are precisely those that meet the guard, `P` holds
of a whole run if and only if every step of the run meets it. `K` is what the steps that keep `P`
keep besides. -/
theorem guarded_iff {K P Q : σ → Prop}
    (keep : ∀ s, K s → P s → Q s → K (step s) ∧ P (step s))
    (exact : ∀ s, K s → P s → P (step s) → K (step s) ∧ Q s) {s : σ} (hK : K s) (hP : P s) :
    (∀ n, P (step^[n] s)) ↔ ∀ n, Q (step^[n] s) := by
  constructor
  · intro h n
    have hK' : K (step^[n] s) := by
      induction n with
      | zero => exact hK
      | succ n ih =>
        have hn := h (n + 1)
        rw [succ] at hn ⊢
        exact (exact _ ih (h n) hn).1
    have hn := h (n + 1)
    rw [succ] at hn
    exact (exact _ hK' (h n) hn).2
  · intro h n
    have key : K (step^[n] s) ∧ P (step^[n] s) :=
      guarded (I := fun s => K s ∧ P s) (fun s hs hok => keep s hs.1 hs.2 hok) ⟨hK, hP⟩ h n
    exact key.2

end Run
