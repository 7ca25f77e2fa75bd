import Mathlib.Data.PEquiv
import Mathlib.Tactic.Common

/-!
# Links

Things of two kinds, where each thing has at most one partner of the other kind: a partial
equivalence. `link` makes two things partners and takes them from those they had before, `mem_link`.
It is done in three steps, `link_apply_unlink`: both are unlinked, and the new link is entered.
-/

namespace PEquiv

variable {α β : Type*} [DecidableEq α] [DecidableEq β]

/-- The thing `b` and its partner lose each other. -/
def unlink (f : α ≃. β) (b : β) : α ≃. β where
  toFun x := (f x).filter (· ≠ b)
  invFun y := if y = b then none else f.symm y
  inv x y := by
    show (if y = b then none else f.symm y) = some x ↔ (f x).filter (· ≠ b) = some y
    rw [Option.filter_eq_some_iff, decide_eq_true_iff]
    split_ifs with hy
    · simp [hy]
    · rw [f.eq_some_iff]
      exact (and_iff_left hy).symm

/-- One direction: `a` comes to `b`, and nothing else does any more. -/
def redirect (m : α → Option β) (a : α) (b : β) (x : α) : Option β :=
  if x = a then some b else (m x).filter (· ≠ b)

theorem redirect_eq_some {m : α → Option β} {a x : α} {b y : β} :
    redirect m a b x = some y ↔ x = a ∧ y = b ∨ x ≠ a ∧ y ≠ b ∧ m x = some y := by
  unfold redirect
  split_ifs with hx
  · simp [hx, eq_comm]
  · rw [Option.filter_eq_some_iff, decide_eq_true_iff]
    simp [hx, and_comm]

/-- The things `a` and `b` become partners, and their old partners have none any more. -/
def link (f : α ≃. β) (a : α) (b : β) : α ≃. β where
  toFun := redirect f a b
  invFun := redirect f.symm b a
  inv x y := by
    show redirect f.symm b a y = some x ↔ redirect f a b x = some y
    rw [redirect_eq_some, redirect_eq_some, f.eq_some_iff, and_comm, and_left_comm]

variable {f : α ≃. β} {a x : α} {b y : β}

theorem link_apply : f.link a b x = redirect f a b x := rfl

theorem link_symm : (f.link a b).symm = f.symm.link b a := rfl

/-- Where both have been unlinked, the new link is entered in one direction. -/
theorem update_unlink : Function.update ((f.unlink b).symm.unlink a).symm a (some b) =
    f.link a b := by
  funext x
  by_cases hx : x = a
  · rw [hx, Function.update_self]
    exact (if_pos rfl).symm
  · rw [Function.update_of_ne hx, link_apply, redirect, if_neg hx]
    exact if_neg hx

/-- And in the other one. -/
theorem update_unlink_symm : Function.update ((f.unlink b).symm.unlink a) b (some a) =
    (f.link a b).symm := by
  funext y
  by_cases hy : y = b
  · rw [hy, Function.update_self]
    exact (if_pos rfl).symm
  · rw [Function.update_of_ne hy, link_symm, link_apply, redirect, if_neg hy]
    show Option.filter _ (if y = b then none else f.symm y) = _
    rw [if_neg hy]

/-- The links are the new one and those from before that share nothing with it. -/
theorem mem_link : f.link a b x = some y ↔ x = a ∧ y = b ∨ x ≠ a ∧ y ≠ b ∧ f x = some y :=
  redirect_eq_some

theorem link_self : f.link a b a = some b := mem_link.mpr (.inl ⟨rfl, rfl⟩)

/-! ## Tables of links

The links as two tables that are changed entry by entry. -/

omit [DecidableEq α] in
theorem filter_of_ne (h : f x ≠ some b) : (f x).filter (· ≠ b) = f x := by
  cases hf : f x with
  | none => rfl
  | some y =>
    rw [hf] at h
    exact Option.filter_some_pos (by simpa using h)

theorem coe_unlink (h : f a = some b) : ⇑(f.unlink b) = Function.update f a none := by
  funext x
  show (f x).filter (· ≠ b) = _
  rw [Function.update_apply]
  split_ifs with hx
  · rw [hx, h]
    exact Option.filter_some_neg (by simp)
  · exact filter_of_ne fun hb => hx (f.inj hb h)

omit [DecidableEq α] in
theorem coe_unlink_symm : ⇑(f.unlink b).symm = Function.update f.symm b none := by
  funext y
  show (if y = b then none else f.symm y) = _
  rw [Function.update_apply]

/-- A new link of two things without partners takes nothing away. -/
theorem coe_link (hb : f.symm b = none) : ⇑(f.link a b) = Function.update f a (some b) := by
  have hne : ∀ x, f x ≠ some b := by
    intro x h
    rw [f.eq_some_iff.mpr h] at hb
    cases hb
  funext x
  rw [link_apply, redirect, Function.update_apply, filter_of_ne (hne x)]

theorem coe_link_symm (ha : f a = none) :
    ⇑(f.link a b).symm = Function.update f.symm b (some a) := by
  rw [link_symm]
  exact coe_link ha

end PEquiv
