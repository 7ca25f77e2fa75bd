import Mathlib.Algebra.Group.Basic
import Mathlib.Data.List.Basic
import Mathlib.Logic.Function.Basic

/-!
# Mixing

A cipher that adds to one place at a time a term that is computed from the other places. Such a step
is undone by subtracting the same term, and a list of steps by undoing them from the last one on:
`subAll_addAll` and `addAll_subAll`.
-/

/-- Adds to one place a term that does not depend on this place. -/
structure Mix (ι G : Type) [DecidableEq ι] where
  place : ι
  term : (ι → G) → G
  indep : ∀ v x, term (Function.update v place x) = term v

namespace Mix

variable {ι G : Type} [DecidableEq ι] [AddGroup G]

def add (m : Mix ι G) (v : ι → G) : ι → G := Function.update v m.place (v m.place + m.term v)

def sub (m : Mix ι G) (v : ι → G) : ι → G := Function.update v m.place (v m.place - m.term v)

@[simp] theorem add_place (m : Mix ι G) (v : ι → G) : m.add v m.place = v m.place + m.term v :=
  Function.update_self _ _ _

@[simp] theorem sub_place (m : Mix ι G) (v : ι → G) : m.sub v m.place = v m.place - m.term v :=
  Function.update_self _ _ _

@[simp] theorem sub_add (m : Mix ι G) (v : ι → G) : m.sub (m.add v) = v := by
  rw [sub, add_place, add, m.indep, add_sub_cancel_right, Function.update_idem,
    Function.update_eq_self]

@[simp] theorem add_sub (m : Mix ι G) (v : ι → G) : m.add (m.sub v) = v := by
  rw [add, sub_place, sub, m.indep, sub_add_cancel, Function.update_idem, Function.update_eq_self]

/-- The steps of a list. -/
def addAll (l : List (Mix ι G)) (v : ι → G) : ι → G := l.foldl (fun v m => m.add v) v

/-- The steps of a list are undone, the last one first. -/
def subAll (l : List (Mix ι G)) (v : ι → G) : ι → G := l.foldr (fun m v => m.sub v) v

@[simp] theorem subAll_nil (v : ι → G) : subAll [] v = v := rfl

theorem addAll_append (l l' : List (Mix ι G)) (v : ι → G) :
    addAll (l ++ l') v = addAll l' (addAll l v) :=
  List.foldl_append

theorem subAll_append (l l' : List (Mix ι G)) (v : ι → G) :
    subAll (l ++ l') v = subAll l (subAll l' v) :=
  List.foldr_append

theorem subAll_addAll (l : List (Mix ι G)) (v : ι → G) : subAll l (addAll l v) = v := by
  induction l generalizing v with
  | nil => rfl
  | cons m l ih =>
    have hcons : addAll (m :: l) v = addAll l (m.add v) := rfl
    have hundo : subAll (m :: l) (addAll l (m.add v)) = m.sub (subAll l (addAll l (m.add v))) := rfl
    rw [hcons, hundo, ih, sub_add]

theorem addAll_subAll (l : List (Mix ι G)) (v : ι → G) : addAll l (subAll l v) = v := by
  induction l generalizing v with
  | nil => rfl
  | cons m l ih =>
    have hundo : subAll (m :: l) v = m.sub (subAll l v) := rfl
    have hcons : addAll (m :: l) (m.sub (subAll l v)) = addAll l (m.add (m.sub (subAll l v))) := rfl
    rw [hundo, hcons, add_sub, ih]

end Mix
