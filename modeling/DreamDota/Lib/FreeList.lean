import Mathlib.Data.List.Perm.Basic
import Mathlib.Data.List.Range
import Mathlib.Tactic.Common

/-!
# Free lists

Objects are taken from a list of free ones, or made where there is none, and given back to its end.
`Accounts` says that every object that was made is free or held, and once. Whoever takes and gives
back by the rules `Accounts.get` and `Accounts.ret` keeps the accounts right.

`settle` is a holder with room for one object who needs it or not.
-/

/-- Objects `0, …, size - 1`, and those of them that are free. -/
structure FreeList where
  size : ℕ
  free : List ℕ
  deriving DecidableEq, Repr

namespace FreeList

/-- All objects are free. -/
def full (n : ℕ) : FreeList := ⟨n, List.range n⟩

/-- An object is taken. -/
def get (p : FreeList) : ℕ × FreeList :=
  match p.free with
  | [] => (p.size, { p with size := p.size + 1 })
  | a :: free => (a, { p with free := free })

/-- An object is given back. -/
def ret (p : FreeList) (a : ℕ) : FreeList := { p with free := p.free ++ [a] }

/-- A holder takes an object that is missing, or gives one back that is not needed. -/
def settle (p : FreeList) (needed : Bool) (object : Option ℕ) : Option ℕ × FreeList :=
  match needed, object with
  | true, none => (some p.get.1, p.get.2)
  | true, some a => (some a, p)
  | false, none => (none, p)
  | false, some a => (none, p.ret a)

/-- Every object is free or held, and once. -/
def Accounts (p : FreeList) (held : List ℕ) : Prop :=
  (p.free ++ held).Perm (List.range p.size)

variable {p : FreeList} {held held' : List ℕ} {a n : ℕ} {needed : Bool} {object : Option ℕ}

theorem accounts_full (n : ℕ) : (full n).Accounts [] := by
  unfold Accounts full
  rw [List.append_nil]

theorem Accounts.perm (h : p.Accounts held) (hp : held.Perm held') : p.Accounts held' :=
  (hp.append_left p.free).symm.trans h

theorem Accounts.get (h : p.Accounts held) : p.get.2.Accounts (p.get.1 :: held) := by
  unfold Accounts at h ⊢
  unfold FreeList.get
  cases hfree : p.free with
  | nil =>
    rw [hfree, List.nil_append] at h
    simp only [List.nil_append]
    rw [List.range_succ]
    exact (h.cons p.size).trans (List.perm_append_singleton _ _).symm
  | cons a free =>
    rw [hfree] at h
    exact List.perm_middle.trans h

theorem Accounts.ret (h : p.Accounts (a :: held)) : (p.ret a).Accounts held := by
  unfold Accounts FreeList.ret at *
  rw [List.append_assoc]
  exact h

theorem settle_isSome : (p.settle needed object).1.isSome = needed := by
  unfold settle
  cases needed <;> cases object <;> rfl

/-- A holder keeps the accounts right. -/
theorem Accounts.settle (h : p.Accounts (object.toList ++ held)) (needed : Bool) :
    (p.settle needed object).2.Accounts ((p.settle needed object).1.toList ++ held) := by
  cases needed with
  | true =>
    cases object with
    | none => exact h.get
    | some a => exact h
  | false =>
    cases object with
    | none => exact h
    | some a => exact h.ret

end FreeList
