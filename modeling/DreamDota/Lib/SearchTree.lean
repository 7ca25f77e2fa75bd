import Mathlib.Data.List.InsertIdx
import Mathlib.Data.List.Nodup
import Mathlib.Data.List.Perm.Basic
import Mathlib.Data.Tree.Basic
import Mathlib.Order.Defs.Unbundled
import Mathlib.Tactic.Common

/-!
# Sets kept in search trees

`std::set`: the elements sit in a binary tree, and every search goes down from the root by the
comparator of the set. Where a new node hangs and how the tree is balanced is left to a `Balancing`,
which may be any function that keeps the sequence of the elements.

The comparator is an argument of every search, so it may be another one than when the elements came
in. The tree need not be ordered then. `InPlace r u l` says that the elements of `l` stand on the
sides of `u` where the comparator puts them: it is what a search for a member `u` needs,
`contains_of_inPlace`, and in some tree it fails without, `exists_contains_eq_false`. A search for an
element that is not there needs nothing.
-/

namespace SearchTree

variable {α : Type*}

/-- The elements in the order of the iterators. -/
def elements : BinaryTree α → List α
  | .nil => []
  | .node a left right => elements left ++ a :: elements right

/-- How an implementation arranges a new sequence of elements, given the tree that it had. -/
structure Balancing (α : Type*) where
  rebuild : BinaryTree α → List α → BinaryTree α
  elements_rebuild : ∀ t l, elements (rebuild t l) = l

/-- The tree without left subtrees. -/
def spine : List α → BinaryTree α
  | [] => .nil
  | a :: l => .node a .nil (spine l)

@[simp] theorem elements_spine (l : List α) : elements (spine l) = l := by
  induction l with
  | nil => rfl
  | cons a l ih => rw [spine, elements, ih]; rfl

/-- The implementation that does not balance. -/
def unbalanced : Balancing α := ⟨fun _ => spine, fun _ => elements_spine⟩

/-! ## Searches -/

/-- The position that a search reaches that goes to the right where `p` holds. -/
def partitionPoint (p : α → Prop) [DecidablePred p] : BinaryTree α → ℕ
  | .nil => 0
  | .node a left right =>
    if p a then (elements left).length + 1 + partitionPoint p right else partitionPoint p left

section PartitionPoint

variable {p : α → Prop} [DecidablePred p] {t : BinaryTree α} {a : α} {as bs : List α}

theorem partitionPoint_le (p : α → Prop) [DecidablePred p] (t : BinaryTree α) :
    partitionPoint p t ≤ (elements t).length := by
  induction t with
  | nil => exact Nat.le_refl _
  | node a left right ihl ihr =>
    rw [partitionPoint, elements, List.length_append, List.length_cons]
    split_ifs <;> omega

/-- At the position reached `p` does not hold. -/
theorem not_of_partitionPoint (h : (elements t)[partitionPoint p t]? = some a) : ¬ p a := by
  induction t with
  | nil => cases h
  | node b left right ihl ihr =>
    rw [partitionPoint, elements] at h
    split_ifs at h with hb
    · rw [List.getElem?_append_right (by omega), List.getElem?_cons] at h
      rw [if_neg (by omega)] at h
      refine ihr ?_
      rw [← h]
      congr 1
      omega
    · rcases Nat.lt_or_ge (partitionPoint p left) (elements left).length with hlt | hge
      · rw [List.getElem?_append_left hlt] at h
        exact ihl h
      · have heq := Nat.le_antisymm (partitionPoint_le p left) hge
        rw [heq, List.getElem?_append_right (Nat.le_refl _), Nat.sub_self,
          List.getElem?_cons_zero] at h
        obtain rfl := Option.some.inj h
        exact hb

/-- Just before the position reached `p` holds. -/
theorem of_take_partitionPoint
    (h : ((elements t).take (partitionPoint p t)).getLast? = some a) : p a := by
  induction t with
  | nil => cases h
  | node b left right ihl ihr =>
    rw [partitionPoint, elements] at h
    split_ifs at h with hb
    · rw [Nat.add_assoc, List.take_length_add_append, Nat.add_comm 1, List.take_succ_cons,
        List.getLast?_append, List.getLast?_cons] at h
      cases hr : ((elements right).take (partitionPoint p right)).getLast? with
      | none =>
        rw [hr] at h
        obtain rfl := Option.some.inj h
        exact hb
      | some c =>
        rw [hr] at h
        obtain rfl := Option.some.inj h
        exact ihr hr
    · rw [List.take_append_of_le_length (partitionPoint_le p left)] at h
      exact ihl h

/-- Where the elements with `p` come first, the search reaches the end of these. -/
theorem partitionPoint_eq (h : elements t = as ++ bs) (has : ∀ a ∈ as, p a)
    (hbs : ∀ b ∈ bs, ¬ p b) : partitionPoint p t = as.length := by
  induction t generalizing as bs with
  | nil =>
    obtain ⟨rfl, rfl⟩ := List.append_eq_nil_iff.mp h.symm
    rfl
  | node c left right ihl ihr =>
    rw [elements] at h
    rw [partitionPoint]
    rcases List.append_eq_append_iff.mp h with ⟨cs, rfl, hcs⟩ | ⟨cs, hcs, rfl⟩
    · cases cs with
      | nil =>
        have hc : ¬ p c := hbs c (by rw [← List.nil_append bs, ← hcs]; exact List.mem_cons_self)
        rw [if_neg hc, List.append_nil]
        rw [List.append_nil] at has
        exact ihl (List.append_nil _).symm has (List.forall_mem_nil _)
      | cons d cs =>
        obtain ⟨rfl, hright⟩ := List.cons.inj hcs
        rw [if_pos (has c (List.mem_append_right _ List.mem_cons_self)), List.length_append,
          List.length_cons, ihr hright (fun a ha => has a ?_) hbs]
        · omega
        · exact List.mem_append_right _ (List.mem_cons_of_mem _ ha)
    · have hc : ¬ p c := hbs c (List.mem_append_right _ List.mem_cons_self)
      rw [if_neg hc]
      exact ihl hcs has fun b hb => hbs b (List.mem_append_left _ hb)

end PartitionPoint

/-- A new element between two parts of a list. -/
theorem insertIdx_length (as bs : List α) (a : α) :
    (as ++ bs).insertIdx as.length a = as ++ a :: bs := by
  induction as with
  | nil => rfl
  | cons b as ih => exact congrArg (b :: ·) ih

/-! ## The set -/

variable (r : α → α → Prop) [DecidableRel r]

/-- `lower_bound`. -/
def lowerBound (t : BinaryTree α) (u : α) : ℕ := partitionPoint (fun a => r a u) t

/-- Where a new node for `u` hangs. -/
def insertionPoint (t : BinaryTree α) (u : α) : ℕ := partitionPoint (fun a => ¬ r u a) t

/-- `count`, which is 0 or 1. -/
def contains (t : BinaryTree α) (u : α) : Bool :=
  (elements t)[lowerBound r t u]?.any fun b => !decide (r u b)

/-- `insert`: the element before the new node shows whether there is an equivalent one. -/
def insert (B : Balancing α) (t : BinaryTree α) (u : α) : BinaryTree α :=
  if ((elements t).take (insertionPoint r t u)).getLast?.all fun a => decide (r a u) then
    B.rebuild t ((elements t).insertIdx (insertionPoint r t u) u)
  else t

/-- `erase` of a key. -/
def erase (B : Balancing α) (t : BinaryTree α) (u : α) : BinaryTree α :=
  if contains r t u then B.rebuild t ((elements t).eraseIdx (lowerBound r t u)) else t

/-- The elements before `u` are less than `u`, and those after `u` are greater. -/
def InPlace (u : α) (l : List α) : Prop :=
  l.Pairwise fun a b => (b = u → r a u) ∧ (a = u → r u b)

instance [DecidableEq α] (u : α) (l : List α) : Decidable (InPlace r u l) :=
  inferInstanceAs (Decidable (List.Pairwise _ _))

variable {r} {B : Balancing α} {t : BinaryTree α} {u : α} {l : List α}

/-- What a search finds is the element it looks for. -/
theorem getElem?_of_contains [IsStrictTotalOrder α r] (h : contains r t u = true) :
    (elements t)[lowerBound r t u]? = some u := by
  unfold contains at h
  cases hb : (elements t)[lowerBound r t u]? with
  | none =>
    rw [hb] at h
    cases h
  | some b =>
    rw [hb, Option.any_some, Bool.not_eq_true', decide_eq_false_iff_not] at h
    rcases trichotomous_of r u b with hlt | rfl | hgt
    · exact absurd hlt h
    · rfl
    · exact absurd hgt (not_of_partitionPoint (p := fun a => r a u) hb)

section NotMem

variable [IsStrictTotalOrder α r] (hu : u ∉ elements t)

include hu

theorem contains_of_notMem : contains r t u = false := by
  cases hc : contains r t u with
  | false => rfl
  | true => exact absurd (List.mem_of_getElem? (getElem?_of_contains hc)) hu

theorem erase_of_notMem : erase r B t u = t := by
  rw [erase, contains_of_notMem hu]
  rfl

/-- An element that is not there comes in, wherever that may be. -/
theorem elements_insert_of_notMem : (elements (insert r B t u)).Perm (u :: elements t) := by
  have hall : ((elements t).take (insertionPoint r t u)).getLast?.all fun a => decide (r a u) := by
    cases h : ((elements t).take (insertionPoint r t u)).getLast? with
    | none => rfl
    | some a =>
      have hm : a ∈ elements t := List.mem_of_mem_take (List.mem_of_getLast? h)
      have hne : a ≠ u := fun ha => hu (ha ▸ hm)
      have hr : r a u := by
        rcases trichotomous_of r a u with hlt | heq | hgt
        · exact hlt
        · exact absurd heq hne
        · exact absurd hgt (of_take_partitionPoint (p := fun a => ¬ r u a) h)
      simp [hr]
  rw [insert, if_pos hall, B.elements_rebuild]
  exact List.perm_insertIdx _ _ (partitionPoint_le _ t)

end NotMem

omit [DecidableRel r] in
/-- A member in its place, with what stands before and after it. -/
theorem InPlace.split (h : InPlace r u l) (hu : u ∈ l) :
    ∃ as bs, l = as ++ u :: bs ∧ (∀ a ∈ as, r a u) ∧ ∀ b ∈ bs, r u b := by
  obtain ⟨as, bs, rfl⟩ := List.append_of_mem hu
  obtain ⟨-, hbs, has⟩ := List.pairwise_append.mp h
  exact ⟨as, bs, rfl, fun a ha => (has a ha u List.mem_cons_self).1 rfl,
    fun b hb => (List.rel_of_pairwise_cons hbs hb).2 rfl⟩

section Split

variable [IsStrictTotalOrder α r] {as bs : List α} (hl : elements t = as ++ u :: bs)
  (has : ∀ a ∈ as, r a u) (hbs : ∀ b ∈ bs, r u b)

include hl has hbs

theorem lowerBound_eq : lowerBound r t u = as.length := by
  refine partitionPoint_eq hl has fun b hb => ?_
  rcases List.mem_cons.mp hb with rfl | hb
  · exact irrefl_of r b
  · exact asymm_of r (hbs b hb)

theorem insertionPoint_eq : insertionPoint r t u = as.length + 1 := by
  have hl' : elements t = (as ++ [u]) ++ bs := by rw [hl, List.append_assoc]; rfl
  have hp : insertionPoint r t u = (as ++ [u]).length := by
    refine partitionPoint_eq hl' (fun a ha => ?_) fun b hb hn => hn (hbs b hb)
    rcases List.mem_append.mp ha with ha | ha
    · exact asymm_of r (has a ha)
    · rw [List.mem_singleton.mp ha]
      exact irrefl_of r u
  rw [hp, List.length_append]
  rfl

theorem contains_of_split : contains r t u = true := by
  rw [contains, lowerBound_eq hl has hbs, hl, List.getElem?_append_right (Nat.le_refl _), Nat.sub_self,
    List.getElem?_cons_zero]
  simp [irrefl_of r u]

theorem insert_of_split : insert r B t u = t := by
  have hlast : ((elements t).take (insertionPoint r t u)).getLast? = some u := by
    rw [insertionPoint_eq hl has hbs, hl, List.take_length_add_append, List.take_succ_cons,
      List.take_zero, List.getLast?_concat]
  rw [insert, hlast, if_neg]
  simp [irrefl_of r u]

theorem elements_erase_of_split : elements (erase r B t u) = as ++ bs := by
  rw [erase, if_pos (contains_of_split hl has hbs), B.elements_rebuild, lowerBound_eq hl has hbs,
    hl, List.eraseIdx_append_of_length_le (Nat.le_refl _), Nat.sub_self]
  rfl

end Split

section InPlace

variable [IsStrictTotalOrder α r] (h : InPlace r u (elements t)) (hu : u ∈ elements t)

include h hu

theorem contains_of_inPlace : contains r t u = true := by
  obtain ⟨as, bs, hl, has, hbs⟩ := h.split hu
  exact contains_of_split hl has hbs

theorem insert_of_inPlace : insert r B t u = t := by
  obtain ⟨as, bs, hl, has, hbs⟩ := h.split hu
  exact insert_of_split hl has hbs

theorem elements_erase_of_inPlace [DecidableEq α] :
    elements (erase r B t u) = (elements t).erase u := by
  obtain ⟨as, bs, hl, has, hbs⟩ := h.split hu
  have hnot : u ∉ as := fun hm => irrefl_of r u (has u hm)
  rw [elements_erase_of_split hl has hbs, hl, List.erase_append_right _ hnot,
    List.erase_cons_head]

end InPlace

/-! ## Sorted sequences -/

section Sorted

variable [IsStrictTotalOrder α r]

omit [DecidableRel r] [IsStrictTotalOrder α r] in
/-- In a sorted sequence everything is in its place. -/
theorem inPlace_of_pairwise (h : l.Pairwise r) : InPlace r u l :=
  h.imp fun hab => ⟨fun hb => hb ▸ hab, fun ha => ha ▸ hab⟩

omit [DecidableRel r] in
theorem nodup_of_pairwise (h : l.Pairwise r) : l.Nodup := by
  refine List.Pairwise.imp ?_ h
  rintro a b hab rfl
  exact irrefl_of r a hab

omit [DecidableRel r] in
/-- The place of a new element in a sorted sequence. -/
theorem split_of_pairwise (h : l.Pairwise r) (hu : u ∉ l) :
    ∃ as bs, l = as ++ bs ∧ (∀ a ∈ as, r a u) ∧ ∀ b ∈ bs, r u b := by
  induction l with
  | nil => exact ⟨[], [], rfl, List.forall_mem_nil _, List.forall_mem_nil _⟩
  | cons a l ih =>
    obtain ⟨hal, hl⟩ := List.pairwise_cons.mp h
    rcases trichotomous_of r a u with hlt | rfl | hgt
    · obtain ⟨as, bs, rfl, has, hbs⟩ := ih hl fun hm => hu (List.mem_cons_of_mem _ hm)
      exact ⟨a :: as, bs, rfl, List.forall_mem_cons.mpr ⟨hlt, has⟩, hbs⟩
    · exact absurd List.mem_cons_self hu
    · exact ⟨[], a :: l, rfl, List.forall_mem_nil _,
        List.forall_mem_cons.mpr ⟨hgt, fun b hb => trans_of r hgt (hal b hb)⟩⟩

/-- A new element comes in at its place. -/
theorem elements_insert_of_split {as bs : List α} (hl : elements t = as ++ bs)
    (has : ∀ a ∈ as, r a u) (hbs : ∀ b ∈ bs, r u b) :
    elements (insert r B t u) = as ++ u :: bs := by
  have hpoint : insertionPoint r t u = as.length :=
    partitionPoint_eq hl (fun a ha => asymm_of r (has a ha)) fun b hb hn => hn (hbs b hb)
  have hlast : ((elements t).take (insertionPoint r t u)).getLast?.all fun a => decide (r a u) := by
    rw [hpoint, hl, List.take_left]
    cases hc : as.getLast? with
    | none => rfl
    | some a => simp [has a (List.mem_of_getLast? hc)]
  rw [insert, if_pos hlast, B.elements_rebuild, hpoint, hl, insertIdx_length]

theorem pairwise_insert (h : (elements t).Pairwise r) :
    (elements (insert r B t u)).Pairwise r := by
  by_cases hu : u ∈ elements t
  · rwa [insert_of_inPlace (inPlace_of_pairwise h) hu]
  · obtain ⟨as, bs, hl, has, hbs⟩ := split_of_pairwise h hu
    rw [elements_insert_of_split hl has hbs]
    rw [hl] at h
    obtain ⟨hpas, hpbs, hab⟩ := List.pairwise_append.mp h
    refine List.pairwise_append.mpr ⟨hpas, List.pairwise_cons.mpr ⟨hbs, hpbs⟩, fun a ha b hb => ?_⟩
    rcases List.mem_cons.mp hb with rfl | hb
    · exact has a ha
    · exact hab a ha b hb

omit [IsStrictTotalOrder α r] in
theorem pairwise_erase (h : (elements t).Pairwise r) : (elements (erase r B t u)).Pairwise r := by
  unfold erase
  split_ifs
  · rw [B.elements_rebuild]
    exact h.sublist (List.eraseIdx_sublist _ _)
  · exact h

end Sorted

/-- A member that is not in its place is not found in some tree with these elements. -/
theorem exists_contains_eq_false [IsStrictTotalOrder α r] (hnd : l.Nodup) (hu : u ∈ l)
    (h : ¬ InPlace r u l) : ∃ t, elements t = l ∧ contains r t u = false := by
  obtain ⟨as, bs, rfl⟩ := List.append_of_mem hu
  obtain ⟨-, hbs, has⟩ := List.nodup_append.mp hnd
  have hua : u ∉ as := fun hm => has u hm u List.mem_cons_self rfl
  have hub : u ∉ bs := (List.nodup_cons.mp hbs).1
  by_cases hleft : ∀ a ∈ as, r a u
  · have hright : ∃ b ∈ bs, ¬ r u b := by
      by_contra hn
      simp only [not_exists, not_and, not_not] at hn
      refine h (List.pairwise_append.mpr ⟨?_, List.pairwise_cons.mpr ⟨?_, ?_⟩, ?_⟩)
      · exact List.pairwise_of_forall_mem_list fun a ha b hb =>
          ⟨fun he => absurd (he ▸ hb) hua, fun he => absurd (he ▸ ha) hua⟩
      · exact fun b hb => ⟨fun he => absurd (he ▸ hb) hub, fun _ => hn b hb⟩
      · exact List.pairwise_of_forall_mem_list fun a ha b hb =>
          ⟨fun he => absurd (he ▸ hb) hub, fun he => absurd (he ▸ ha) hub⟩
      · exact fun a ha b hb => ⟨fun _ => hleft a ha, fun he => absurd (he ▸ ha) hua⟩
    -- with this element as the root, the search goes to the right of it
    obtain ⟨b, hb, hr⟩ := hright
    obtain ⟨ys, zs, rfl⟩ := List.append_of_mem hb
    refine ⟨.node b (spine (as ++ u :: ys)) (spine zs), by simp [elements], ?_⟩
    cases hc : contains r _ u with
    | false => rfl
    | true =>
      have hfound := getElem?_of_contains hc
      have hbu : r b u := by
        rcases trichotomous_of r b u with hlt | rfl | hgt
        · exact hlt
        · exact absurd hb hub
        · exact absurd hgt hr
      rw [lowerBound, partitionPoint, if_pos hbu, elements, elements_spine, elements_spine,
        List.getElem?_append_right (by omega), List.getElem?_cons, if_neg (by omega)] at hfound
      exact absurd (List.mem_append_right _ (List.mem_cons_of_mem _ (List.mem_of_getElem? hfound)))
        hub
  · -- with this element as the root, the search goes to the left of it
    simp only [not_forall] at hleft
    obtain ⟨a, ha, hr⟩ := hleft
    obtain ⟨xs, ys, rfl⟩ := List.append_of_mem ha
    refine ⟨.node a (spine xs) (spine (ys ++ u :: bs)), by simp [elements], ?_⟩
    cases hc : contains r _ u with
    | false => rfl
    | true =>
      have hfound := getElem?_of_contains hc
      have hle := partitionPoint_le (fun a => r a u) (spine xs)
      rw [elements_spine] at hle
      rw [lowerBound, partitionPoint, if_neg hr, elements, elements_spine, elements_spine,
        List.append_cons, List.getElem?_append_left (by simpa using Nat.lt_succ_of_le hle)]
        at hfound
      refine absurd (List.mem_of_getElem? hfound) fun hm => hua ?_
      rw [List.append_cons]
      exact List.mem_append_left _ hm

end SearchTree
