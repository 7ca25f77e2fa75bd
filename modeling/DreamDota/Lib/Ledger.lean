import Mathlib.Algebra.Order.Group.Multiset
import Mathlib.Data.List.Induction
import Mathlib.Data.Multiset.AddSub
import Mathlib.Tactic.Common

/-!
# Ledgers

A ledger is the multiset of the things that a program holds. What it takes comes in, and what it
gives back goes out, once for each time it came in. Something that is given back without being held
spoils the ledger: it is `none`.

A slot is a variable that remembers the last thing that was taken. `Slot.touches` is what happens to
it: each element is nothing, or what it is set to. `Slot.taken_eq_held_iff` says when the slot has
forgotten nothing.
-/

/-- What is held. -/
abbrev Ledger (H : Type*) := Option (Multiset H)

namespace Ledger

variable {H : Type*} [DecidableEq H] {live rest : Multiset H} {h : H}

def take (l : Ledger H) (h : H) : Ledger H := l.map (h ::ₘ ·)

def give (l : Ledger H) (h : H) : Ledger H :=
  l.bind fun live => if h ∈ live then some (live.erase h) else none

omit [DecidableEq H] in
@[simp] theorem take_some : take (some live) h = some (h ::ₘ live) := rfl

@[simp] theorem give_cons : give (some (h ::ₘ live)) h = some live := by
  unfold give
  rw [Option.bind_some, if_pos (Multiset.mem_cons_self h live), Multiset.erase_cons_head]

theorem give_eq_some_iff : give (some live) h = some rest ↔ live = h ::ₘ rest := by
  constructor
  · intro hgive
    unfold give at hgive
    rw [Option.bind_some] at hgive
    split_ifs at hgive with hmem
    rw [← Option.some.inj hgive, Multiset.cons_erase hmem]
  · rintro rfl
    exact give_cons

/-- What is given back is what was held, but for the rest. -/
theorem foldl_give_eq_some_iff (hs : List H) (live rest : Multiset H) :
    hs.foldl give (some live) = some rest ↔ live = hs + rest := by
  induction hs generalizing live with
  | nil => rw [List.foldl_nil, Multiset.coe_nil, zero_add, Option.some_inj]
  | cons h hs ih =>
    rw [List.foldl_cons, ← Multiset.cons_coe, Multiset.cons_add]
    cases hgive : give (some live) h with
    | none =>
      constructor
      · intro hnone
        have hspoiled : hs.foldl give (none : Ledger H) = none := by
          clear ih hgive hnone
          induction hs with
          | nil => rfl
          | cons _ _ ih => exact ih
        rw [hspoiled] at hnone
        cases hnone
      · rintro rfl
        rw [give_cons] at hgive
        cases hgive
    | some live' =>
      rw [ih, give_eq_some_iff.mp hgive, Multiset.cons_inj_right]

omit [DecidableEq H] in
theorem foldl_take_some (hs : List H) (live : Multiset H) :
    hs.foldl take (some live) = some (hs + live) := by
  induction hs generalizing live with
  | nil => rw [List.foldl_nil, Multiset.coe_nil, zero_add]
  | cons h hs ih =>
    rw [List.foldl_cons, take_some, ih, ← Multiset.cons_coe, Multiset.cons_add, Multiset.add_cons]

end Ledger

/-! ## Slots -/

namespace Slot

variable {B : Type*}

/-- What the slot holds at the end, if it was empty at the start. -/
def held (touches : List (Option (Option B))) : Option B :=
  touches.foldl (fun slot touch => touch.getD slot) none

/-- What was taken. -/
def taken (touches : List (Option (Option B))) : List B := touches.filterMap Option.join

theorem held_concat (touches : List (Option (Option B))) (touch : Option (Option B)) :
    held (touches ++ [touch]) = touch.getD (held touches) := by
  unfold held
  rw [List.foldl_append]
  rfl

theorem taken_concat (touches : List (Option (Option B))) (touch : Option (Option B)) :
    taken (touches ++ [touch]) = taken touches ++ touch.join.toList := by
  unfold taken
  rw [List.filterMap_append]
  cases touch with
  | none => rfl
  | some x => cases x <;> rfl

theorem held_sublist (touches : List (Option (Option B))) :
    (held touches).toList.Sublist (taken touches) := by
  induction touches using List.reverseRecOn with
  | nil => exact List.Sublist.refl _
  | append_singleton touches touch ih =>
    rw [held_concat, taken_concat]
    cases touch with
    | none => exact ih.trans (List.sublist_append_left _ _)
    | some x => exact List.sublist_append_right _ _

theorem taken_eq_nil_iff (touches : List (Option (Option B))) :
    taken touches = [] ↔ ∀ touch ∈ touches, touch.join = none := List.filterMap_eq_nil_iff

/-- The slot holds all that was taken if and only if it was not touched again after something was
taken. -/
theorem taken_eq_held_iff (touches : List (Option (Option B))) :
    taken touches = (held touches).toList ↔
      touches.Pairwise fun touch later => touch.join ≠ none → later = none := by
  induction touches using List.reverseRecOn with
  | nil => exact ⟨fun _ => .nil, fun _ => rfl⟩
  | append_singleton touches touch ih =>
    rw [held_concat, taken_concat, List.pairwise_append]
    simp only [List.mem_singleton, forall_eq, List.pairwise_singleton, true_and]
    cases touch with
    | none =>
      rw [and_iff_left (fun _ _ _ => rfl), ← ih]
      show taken touches ++ [] = _ ↔ _
      rw [List.append_nil]
      rfl
    | some x =>
      show taken touches ++ x.toList = x.toList ↔ _
      rw [List.append_left_eq_self, taken_eq_nil_iff]
      constructor
      · intro hnone
        exact ⟨List.pairwise_of_forall_mem_list fun t ht _ _ hne => absurd (hnone t ht) hne,
          fun t ht hne => absurd (hnone t ht) hne⟩
      · intro h t ht
        by_contra hne
        cases h.2 t ht hne

end Slot
