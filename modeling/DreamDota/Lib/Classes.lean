import Mathlib.Data.List.Basic
import Mathlib.Tactic.Common

/-!
# The classes of a list

A loop that takes the elements with the key of the first one out of a list, until none is left,
leaves the list in classes: the lists of all elements with one key.
-/

namespace Classes

variable {α κ : Type*} [DecidableEq κ]

/-- The elements with the key of one of them. -/
def withKey (f : α → κ) (a : α) (l : List α) : List α := l.filter fun b => f b = f a

/-- The elements with other keys. -/
def without (f : α → κ) (a : α) (l : List α) : List α := l.filter fun b => f b ≠ f a

theorem length_without_le (f : α → κ) (a : α) (l : List α) : (without f a l).length ≤ l.length :=
  List.length_filter_le _ _

/-- The classes, in the order of their first elements. -/
def classes (f : α → κ) : List α → List (List α)
  | [] => []
  | a :: l => (a :: withKey f a l) :: classes f (without f a l)
termination_by l => l.length
decreasing_by exact Nat.lt_succ_of_le (length_without_le f a l)

variable {f : α → κ} {a b : α} {l c : List α}

theorem withKey_cons_self (f : α → κ) (a : α) (l : List α) :
    withKey f a (a :: l) = a :: withKey f a l := by
  rw [withKey, List.filter_cons_of_pos (by simp), withKey]

theorem without_cons_self (f : α → κ) (a : α) (l : List α) :
    without f a (a :: l) = without f a l := by
  rw [without, List.filter_cons_of_neg (by simp), without]

theorem mem_withKey : b ∈ withKey f a l ↔ b ∈ l ∧ f b = f a := by
  rw [withKey, List.mem_filter, decide_eq_true_iff]

theorem mem_without : b ∈ without f a l ↔ b ∈ l ∧ f b ≠ f a := by
  rw [without, List.mem_filter, decide_eq_true_iff]

/-- The elements with another key are not touched when a class is taken out. -/
theorem withKey_without (h : f b ≠ f a) : withKey f b (without f a l) = withKey f b l := by
  rw [withKey, without, List.filter_filter, withKey]
  refine List.filter_congr fun d _ => ?_
  by_cases hd : f d = f b
  · simp [hd, h]
  · simp [hd]

/-- The classes are the lists of the elements with the key of one of them. -/
theorem mem_classes : c ∈ classes f l ↔ ∃ a ∈ l, c = withKey f a l := by
  induction l using classes.induct f with
  | case1 => simp [classes]
  | case2 a l ih =>
    rw [classes, List.mem_cons, ih]
    constructor
    · rintro (rfl | ⟨b, hb, rfl⟩)
      · exact ⟨a, List.mem_cons_self, (withKey_cons_self f a l).symm⟩
      · obtain ⟨hb, hne⟩ := mem_without.mp hb
        refine ⟨b, List.mem_cons_of_mem _ hb, ?_⟩
        rw [← without_cons_self, withKey_without hne]
    · rintro ⟨b, hb, rfl⟩
      by_cases hkey : f b = f a
      · left
        rw [← withKey_cons_self, withKey, withKey, hkey]
      · right
        have hb : b ∈ l := (List.mem_cons.mp hb).resolve_left fun heq => hkey (by rw [heq])
        exact ⟨b, mem_without.mpr ⟨hb, hkey⟩, by rw [← without_cons_self, withKey_without hkey]⟩

/-- Elements of two of the classes have different keys. -/
theorem pairwise_classes (f : α → κ) (l : List α) :
    (classes f l).Pairwise fun c d => ∀ a ∈ c, ∀ b ∈ d, f a ≠ f b := by
  induction l using classes.induct f with
  | case1 =>
    rw [classes]
    exact List.Pairwise.nil
  | case2 a l ih =>
    rw [classes, List.pairwise_cons]
    refine ⟨fun d hd b hb e he heq => ?_, ih⟩
    obtain ⟨e', he', rfl⟩ := mem_classes.mp hd
    rw [← withKey_cons_self] at hb
    have hkey : f b = f a := (mem_withKey.mp hb).2
    have hother : f e ≠ f a := (mem_without.mp (mem_withKey.mp he).1).2
    exact hother (heq ▸ hkey)

/-- There are no more classes than elements. -/
theorem length_classes_le (f : α → κ) (l : List α) : (classes f l).length ≤ l.length := by
  induction l using classes.induct f with
  | case1 =>
    rw [classes]
    exact Nat.le_refl _
  | case2 a l ih =>
    rw [classes, List.length_cons, List.length_cons]
    exact Nat.succ_le_succ (Nat.le_trans ih (length_without_le f a l))

end Classes
