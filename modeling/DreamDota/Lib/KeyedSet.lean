import Mathlib.Data.List.Pairwise
import Mathlib.Order.Basic
import Mathlib.Order.Defs.LinearOrder
import Mathlib.Order.Lattice
import Mathlib.Tactic.Common

/-!
# Sets with an order that sees only a key

`std::set` with a comparator that compares the keys of its elements. An element whose key is in the
set does not come in, and an element is erased by its key.
-/

/-- A finite set as the list of its elements, whose keys are strictly increasing. -/
structure KeyedSet {α κ : Type*} [LinearOrder κ] (key : α → κ) where
  toList : List α
  sorted : toList.Pairwise fun a b => key a < key b

namespace KeyedSet

variable {α κ : Type*} [LinearOrder κ] {key : α → κ}

instance : Membership α (KeyedSet key) := ⟨fun s a => a ∈ s.toList⟩

instance : EmptyCollection (KeyedSet key) := ⟨⟨[], .nil⟩⟩

/-- `insert`. -/
def insert (s : KeyedSet key) (a : α) : KeyedSet key :=
  if s.toList.any fun b => key b = key a then s
  else
    { toList := s.toList.filter (fun b => key b < key a) ++
        a :: s.toList.filter fun b => key a < key b
      sorted := by
        have hlow : ∀ b ∈ s.toList.filter (fun b => key b < key a), key b < key a :=
          fun b hb => of_decide_eq_true (List.mem_filter.mp hb).2
        have hhigh : ∀ b ∈ s.toList.filter (fun b => key a < key b), key a < key b :=
          fun b hb => of_decide_eq_true (List.mem_filter.mp hb).2
        refine List.pairwise_append.mpr ⟨s.sorted.filter _, ?_, ?_⟩
        · exact List.pairwise_cons.mpr ⟨hhigh, s.sorted.filter _⟩
        · intro b hb c hc
          rcases List.mem_cons.mp hc with rfl | hc
          · exact hlow b hb
          · exact (hlow b hb).trans (hhigh c hc) }

/-- `erase`, by the key. -/
def erase (s : KeyedSet key) (a : α) : KeyedSet key :=
  ⟨s.toList.filter fun b => key b ≠ key a, s.sorted.filter _⟩

variable {s : KeyedSet key} {a b : α}

theorem insert_of_key (hb : b ∈ s) (h : key b = key a) : s.insert a = s :=
  if_pos (List.any_eq_true.mpr ⟨b, hb, decide_eq_true h⟩)

/-- A new key comes in. -/
theorem insert_perm (h : ∀ b ∈ s, key b ≠ key a) : (s.insert a).toList.Perm (a :: s.toList) := by
  have hany : ¬ (s.toList.any fun b => key b = key a) = true := by
    intro hany
    obtain ⟨b, hb, hkey⟩ := List.any_eq_true.mp hany
    exact h b hb (of_decide_eq_true hkey)
  have hhigh : s.toList.filter (fun b => key a < key b) =
      s.toList.filter fun b => !decide (key b < key a) := by
    refine List.filter_congr fun b hb => ?_
    rw [← decide_not, decide_eq_decide, not_lt]
    exact ⟨le_of_lt, fun hle => lt_of_le_of_ne hle (h b hb).symm⟩
  have hinsert : (s.insert a).toList = s.toList.filter (fun b => key b < key a) ++
      a :: s.toList.filter fun b => key a < key b := by
    rw [insert, if_neg hany]
  rw [hinsert, hhigh]
  exact List.perm_middle.trans ((List.filter_append_perm _ _).cons a)

/-- The keys tell the elements apart. -/
theorem nodup_map_key (s : KeyedSet key) : (s.toList.map key).Nodup :=
  (List.pairwise_map.mpr s.sorted).imp ne_of_lt

end KeyedSet
