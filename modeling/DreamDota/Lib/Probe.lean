import Mathlib.Data.Fin.Basic
import Mathlib.Data.Nat.Find
import Mathlib.Logic.Function.Iterate
import Mathlib.Tactic.Common

/-!
# Linear probing

The slots of an open table are tried one after another, `after`, from a first one on and around the
end. `search` is the loop that stops at the first slot with a property, and `Way P n i` says that
`P` holds of every slot tried between `n` and `i`.

The loop ends if and only if some slot stops it, `search_isSome_iff`, and then a way leads to the
slot it ends at, `search_eq_some_iff`.
-/

namespace Probe

variable {m : ℕ} {n i : Fin m} {P Q : Fin m → Prop} {stop : Fin m → Bool} {fuel : ℕ}

/-- The slot that is tried after `n`. -/
def after (n : Fin m) : Fin m := if h : n + 1 < m then ⟨n + 1, h⟩ else ⟨0, n.pos⟩

/-- `while (1) { if (stop) break; if (++n == size) n = 0; }` -/
def search (stop : Fin m → Bool) : ℕ → Fin m → Option (Fin m)
  | 0, _ => none
  | fuel + 1, n => if stop n then some n else search stop fuel (after n)

/-- `P` holds of the slots that are tried from `n` on before `i`. -/
def Way (P : Fin m → Prop) (n i : Fin m) : Prop :=
  ∃ j, after^[j] n = i ∧ ∀ k < j, P (after^[k] n)

/-! ## Going around -/

theorem val_after (n : Fin m) : (after n).val = (n + 1) % m := by
  unfold after
  split
  · next h => rw [Nat.mod_eq_of_lt h]
  · next h =>
    have hn : n.val + 1 = m := by have := n.isLt; omega
    rw [hn, Nat.mod_self]

theorem val_iterate (j : ℕ) (n : Fin m) : (after^[j] n).val = (n + j) % m := by
  induction j with
  | zero => exact (Nat.mod_eq_of_lt n.isLt).symm
  | succ j ih => rw [Function.iterate_succ_apply', val_after, ih, Nat.mod_add_mod, Nat.add_assoc]

theorem iterate_size (n : Fin m) : after^[m] n = n := by
  apply Fin.ext
  rw [val_iterate, Nat.add_mod_right, Nat.mod_eq_of_lt n.isLt]

/-- Every slot is tried. -/
theorem exists_iterate (n i : Fin m) : ∃ j < m, after^[j] n = i := by
  have hn := n.isLt
  have hi := i.isLt
  by_cases h : n.val ≤ i.val
  · refine ⟨i - n, by omega, Fin.ext ?_⟩
    rw [val_iterate, Nat.add_sub_cancel' h, Nat.mod_eq_of_lt hi]
  · refine ⟨i + m - n, by omega, Fin.ext ?_⟩
    rw [val_iterate, show n.val + (i.val + m - n.val) = i.val + m by omega, Nat.add_mod_right,
      Nat.mod_eq_of_lt hi]

/-! ## The first slot that stops the loop -/

theorem Way.mono (h : Way P n i) (hPQ : ∀ i, P i → Q i) : Way Q n i :=
  let ⟨j, hj, hP⟩ := h
  ⟨j, hj, fun k hk => hPQ _ (hP k hk)⟩

/-- The way can be cut where `i` is first met. -/
theorem Way.first (h : Way P n i) : Way (fun c => P c ∧ c ≠ i) n i := by
  obtain ⟨j, hj, hP⟩ := h
  have hex : ∃ j, after^[j] n = i := ⟨j, hj⟩
  refine ⟨Nat.find hex, Nat.find_spec hex, fun k hk => ⟨hP k ?_, Nat.find_min hex hk⟩⟩
  exact Nat.lt_of_lt_of_le hk (Nat.find_min' hex hj)

theorem search_of_iterate : ∀ {fuel j : ℕ} {n : Fin m}, j < fuel → stop (after^[j] n) = true →
    (∀ k < j, stop (after^[k] n) = false) → search stop fuel n = some (after^[j] n)
  | fuel + 1, 0, n, _, hj, _ => by
    rw [Function.iterate_zero_apply] at hj ⊢
    rw [search, if_pos hj]
  | fuel + 1, j + 1, n, hlt, hj, hk => by
    have h0 : stop n = false := hk 0 (Nat.succ_pos j)
    rw [search, if_neg (by rw [h0]; exact Bool.false_ne_true)]
    exact search_of_iterate (Nat.lt_of_succ_lt_succ hlt) hj fun k hlt => hk (k + 1) (by omega)

theorem of_search_eq_some : ∀ {fuel : ℕ} {n : Fin m}, search stop fuel n = some i →
    stop i = true ∧ Way (fun i => stop i = false) n i
  | 0, _, h => by rw [search] at h; exact absurd h (by simp)
  | fuel + 1, n, h => by
    rw [search] at h
    split at h
    · next hn =>
      cases h
      exact ⟨hn, 0, rfl, fun k hk => absurd hk (Nat.not_lt_zero k)⟩
    · next hn =>
      obtain ⟨hi, j, hj, hk⟩ := of_search_eq_some h
      refine ⟨hi, j + 1, hj, fun k hlt => ?_⟩
      cases k with
      | zero => exact Bool.eq_false_iff.mpr hn
      | succ k => exact hk k (Nat.lt_of_succ_lt_succ hlt)

/-- A way to a slot that stops the loop goes around at most once. -/
theorem search_of_way (hi : stop i = true) (h : Way (fun i => stop i = false) n i) :
    search stop m n = some i := by
  obtain ⟨j, rfl, hk⟩ := h
  refine search_of_iterate ?_ hi hk
  by_contra hlt
  have hj : after^[j] n = after^[j - m] n := by
    conv_lhs => rw [show j = (j - m) + m by omega]
    rw [Function.iterate_add_apply, iterate_size]
  rw [hj, hk (j - m) (by have := n.pos; omega)] at hi
  exact Bool.false_ne_true hi

theorem search_eq_some_iff :
    search stop m n = some i ↔ stop i = true ∧ Way (fun i => stop i = false) n i :=
  ⟨of_search_eq_some, fun h => search_of_way h.1 h.2⟩

/-- A loop that no slot stops has no end. -/
theorem search_eq_none (h : ∀ i, stop i = false) (fuel : ℕ) (n : Fin m) :
    search stop fuel n = none := by
  cases hs : search stop fuel n with
  | none => rfl
  | some i =>
    have := (of_search_eq_some hs).1
    rw [h i] at this
    exact absurd this Bool.false_ne_true

theorem search_isSome_iff : (search stop m n).isSome ↔ ∃ i, stop i = true := by
  constructor
  · intro h
    obtain ⟨i, hi⟩ := Option.isSome_iff_exists.mp h
    exact ⟨i, (of_search_eq_some hi).1⟩
  · intro ⟨i, hi⟩
    obtain ⟨j, hj, rfl⟩ := exists_iterate n i
    have hex : ∃ j, stop (after^[j] n) = true := ⟨j, hi⟩
    have hfind := Nat.find_spec hex
    have hmin : ∀ k < Nat.find hex, stop (after^[k] n) = false :=
      fun k hk => Bool.eq_false_iff.mpr (Nat.find_min hex hk)
    rw [search_of_way hfind ⟨_, rfl, hmin⟩]
    rfl

end Probe
