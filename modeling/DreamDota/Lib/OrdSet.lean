import Mathlib.Data.List.Sort
import Mathlib.Data.Finset.Image

/-!
# Ordered sets

A finite set that is iterated over in increasing order, as its strictly increasing list.
-/

/-- A finite set as a strictly increasing list. -/
structure OrdSet (α : Type*) [LinearOrder α] where
  toList : List α
  sorted : toList.Pairwise (· < ·)

namespace OrdSet

variable {α β : Type*} [LinearOrder α]

instance : DecidableEq (OrdSet α) := fun s t =>
  decidable_of_iff (s.toList = t.toList)
    ⟨fun h => by cases s; cases t; cases h; rfl, fun h => h ▸ rfl⟩

instance : Membership α (OrdSet α) := ⟨fun s a => a ∈ s.toList⟩

instance (a : α) (s : OrdSet α) : Decidable (a ∈ s) := inferInstanceAs (Decidable (a ∈ s.toList))

instance : EmptyCollection (OrdSet α) := ⟨⟨[], .nil⟩⟩

theorem mem_def {a : α} {s : OrdSet α} : a ∈ s ↔ a ∈ s.toList := Iff.rfl

@[simp] theorem notMem_empty (a : α) : a ∉ (∅ : OrdSet α) := List.not_mem_nil

theorem toList_inj {s t : OrdSet α} : s.toList = t.toList ↔ s = t := by
  constructor
  · intro h
    cases s; cases t; cases h; rfl
  · rintro rfl
    rfl

/-- Sets with the same elements are equal. -/
@[ext] theorem ext {s t : OrdSet α} (h : ∀ a, a ∈ s ↔ a ∈ t) : s = t :=
  toList_inj.mp (List.Pairwise.eq_of_mem_iff s.sorted t.sorted h)

/-- Insertion, of an element that may be there already. -/
def insert (s : OrdSet α) (a : α) : OrdSet α :=
  if ha : a ∈ s.toList then s
  else
    { toList := s.toList.orderedInsert (· ≤ ·) a
      sorted := by
        have hle : s.toList.Pairwise (· ≤ ·) := s.sorted.imp le_of_lt
        have hnd : (s.toList.orderedInsert (· ≤ ·) a).Nodup :=
          ((List.perm_orderedInsert _ a s.toList).nodup_iff).mpr
            (List.nodup_cons.mpr ⟨ha, s.sorted.imp ne_of_lt⟩)
        exact (hle.orderedInsert a _).imp₂ (fun _ _ h h' => lt_of_le_of_ne h h') hnd }

@[simp] theorem mem_insert {s : OrdSet α} {a b : α} : a ∈ s.insert b ↔ a = b ∨ a ∈ s := by
  unfold insert
  split_ifs with h
  · constructor
    · exact .inr
    · rintro (rfl | ha)
      · exact h
      · exact ha
  · exact List.mem_orderedInsert _

/-- The elements of a list are inserted one after the other. -/
def insertAll (s : OrdSet α) (l : List α) : OrdSet α := l.foldl insert s

@[simp] theorem mem_insertAll {s : OrdSet α} {l : List α} {a : α} :
    a ∈ s.insertAll l ↔ a ∈ s ∨ a ∈ l := by
  induction l generalizing s with
  | nil => simp [insertAll]
  | cons b l ih =>
    show a ∈ (s.insert b).insertAll l ↔ _
    rw [ih, mem_insert, List.mem_cons]
    tauto

/-- The elements that satisfy a predicate. -/
def filter (s : OrdSet α) (p : α → Bool) : OrdSet α := ⟨s.toList.filter p, s.sorted.filter p⟩

@[simp] theorem mem_filter {s : OrdSet α} {p : α → Bool} {a : α} :
    a ∈ s.filter p ↔ a ∈ s ∧ p a = true :=
  List.mem_filter

theorem insertAll_empty (s : OrdSet α) : (∅ : OrdSet α).insertAll s.toList = s := by
  ext a
  rw [mem_insertAll]
  exact ⟨fun h => h.resolve_left (notMem_empty a), .inr⟩

/-! ## The image of a set -/

variable [DecidableEq β]

/-- The image under a function, without an order. -/
def image (f : α → β) (s : OrdSet α) : Finset β := (s.toList.map f).toFinset

@[simp] theorem mem_image {f : α → β} {s : OrdSet α} {b : β} :
    b ∈ s.image f ↔ ∃ a ∈ s, f a = b := by
  simp [image, mem_def]

@[simp] theorem image_empty (f : α → β) : (∅ : OrdSet α).image f = ∅ := rfl

theorem image_insertAll (f : α → β) (s t : OrdSet α) :
    (s.insertAll t.toList).image f = s.image f ∪ t.image f := by
  ext b
  simp only [mem_image, mem_insertAll, Finset.mem_union, ← mem_def]
  constructor
  · rintro ⟨a, ha | ha, rfl⟩
    · exact .inl ⟨a, ha, rfl⟩
    · exact .inr ⟨a, ha, rfl⟩
  · rintro (⟨a, ha, rfl⟩ | ⟨a, ha, rfl⟩)
    · exact ⟨a, .inl ha, rfl⟩
    · exact ⟨a, .inr ha, rfl⟩

/-- An injective function respects the removal of elements. -/
theorem image_filter_notMem {f : α → β} (hf : Function.Injective f) (s t : OrdSet α) :
    (s.filter fun a => !decide (a ∈ t)).image f = s.image f \ t.image f := by
  ext b
  simp only [mem_image, mem_filter, Finset.mem_sdiff]
  constructor
  · rintro ⟨a, ⟨ha, hn⟩, rfl⟩
    refine ⟨⟨a, ha, rfl⟩, ?_⟩
    rintro ⟨a', ha', heq⟩
    rw [hf heq] at ha'
    simp [ha'] at hn
  · rintro ⟨⟨a, ha, rfl⟩, hn⟩
    refine ⟨a, ⟨ha, ?_⟩, rfl⟩
    have hat : a ∉ t := fun hat => hn ⟨a, hat, rfl⟩
    simp [hat]

end OrdSet
