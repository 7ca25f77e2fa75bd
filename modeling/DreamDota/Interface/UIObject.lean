import DreamDota.Lib.Teardown

/-!
# The end of the user interface

Frames, textures, labels and what is made of them. Every constructor comes to `Frame::Frame`, which
registers the object, and every destructor to `Frame::~Frame`. Of what is drawn nothing is here.

1. The constructors, and what the destructors delete.
2. `UIObject.tree`: an object as a tree of parts; `holds_create`: what its constructor makes.
3. `UI_Cleanup` is the loop of `Teardown`; `Forest.tornDown_iff`: when it deletes everything once.
-/

namespace DreamDota.UI

open Teardown

/-! ## Constructors -/

/-- `Frame::Frame`, which ends with `UI_Add`. -/
def newFrame (h : Heap) (this : ℕ) : Heap where
  objects := Function.update h.objects this (some ⟨none, []⟩)
  registered := insert this h.registered
  deleted := h.deleted

/-- `Texture::Texture`. -/
def newTexture (h : Heap) (this : ℕ) : Heap := newFrame h this

/-- `Label::Label`. -/
def newLabel (h : Heap) (this : ℕ) : Heap := newFrame h this

/-- `Frame::setOwner`. -/
def setOwner (h : Heap) (this owner : ℕ) : Heap :=
  let o := (h.objects this).map fun o => { o with owner := some owner }
  { h with objects := Function.update h.objects this o }

/-- The object now is of a class whose destructor deletes `parts`. -/
def setParts (h : Heap) (this : ℕ) (parts : List ℕ) : Heap :=
  let o := (h.objects this).map fun o => { o with parts }
  { h with objects := Function.update h.objects this o }

/-- The addresses of a `Bar` and of its parts. -/
structure Bar where
  this : ℕ
  background : ℕ
  fillbar : ℕ
  border : ℕ
  deriving DecidableEq, Repr

/-- `~Bar`. -/
def Bar.parts (o : Bar) : List ℕ := [o.fillbar, o.border, o.background]

/-- `Bar::Bar`. -/
def newBar (h : Heap) (o : Bar) : Heap :=
  let h := newFrame h o.this
  let h := newTexture h o.background
  let h := setOwner h o.background o.this
  let h := newTexture h o.fillbar
  let h := setOwner h o.fillbar o.this
  let h := newTexture h o.border
  let h := setOwner h o.border o.this
  setParts h o.this o.parts

structure BarValued where
  bar : Bar
  label : ℕ
  deriving DecidableEq, Repr

/-- `~BarValued`, then `~Bar`. -/
def BarValued.parts (o : BarValued) : List ℕ := o.label :: o.bar.parts

/-- `BarValued::BarValued`. The label has no owner. -/
def newBarValued (h : Heap) (o : BarValued) : Heap :=
  let h := newBar h o.bar
  let h := newLabel h o.label
  setParts h o.bar.this o.parts

structure BarIndicator where
  barValued : BarValued
  border : ℕ
  deriving DecidableEq, Repr

/-- `~BarIndicator`, then `~BarValued`. Its `border` is not the one of the bar. -/
def BarIndicator.parts (o : BarIndicator) : List ℕ := o.border :: o.barValued.parts

/-- `BarIndicator::BarIndicator`. The border has the indicator for its parent, but no owner. -/
def newBarIndicator (h : Heap) (o : BarIndicator) : Heap :=
  let h := newBarValued h o.barValued
  let h := newFrame h o.border
  setParts h o.barValued.bar.this o.parts

structure MultiIcon where
  this : ℕ
  passiveCover : ℕ
  cornerLabel : ℕ
  bottomLabel : ℕ
  bottomBar : Bar
  deriving DecidableEq, Repr

/-- `~MultiIcon`. -/
def MultiIcon.parts (o : MultiIcon) : List ℕ :=
  [o.bottomBar.this, o.bottomLabel, o.cornerLabel, o.passiveCover]

/-- `MultiIcon::MultiIcon`. None of the parts has an owner. -/
def newMultiIcon (h : Heap) (o : MultiIcon) : Heap :=
  let h := newTexture h o.this
  let h := newTexture h o.passiveCover
  let h := newLabel h o.cornerLabel
  let h := newLabel h o.bottomLabel
  let h := newBar h o.bottomBar
  setParts h o.this o.parts

/-- An object with the addresses that `new` gave. -/
inductive UIObject
  | frame (this : ℕ)
  | texture (this : ℕ)
  | label (this : ℕ)
  | bar (o : Bar)
  | barValued (o : BarValued)
  | barIndicator (o : BarIndicator)
  | multiIcon (o : MultiIcon)
  deriving DecidableEq, Repr

/-! ## Trees -/

def Bar.addresses (o : Bar) : List ℕ := o.this :: o.parts

namespace UIObject

def create (h : Heap) : UIObject → Heap
  | frame this => newFrame h this
  | texture this => newTexture h this
  | label this => newLabel h this
  | bar o => newBar h o
  | barValued o => newBarValued h o
  | barIndicator o => newBarIndicator h o
  | multiIcon o => newMultiIcon h o

/-- The object and its parts. -/
def addresses : UIObject → List ℕ
  | frame this | texture this | label this => [this]
  | bar o => o.addresses
  | barValued o => o.label :: o.bar.addresses
  | barIndicator o => o.border :: o.barValued.label :: o.barValued.bar.addresses
  | multiIcon o =>
    o.this :: o.passiveCover :: o.cornerLabel :: o.bottomLabel :: o.bottomBar.addresses

/-- The object and the parts whose owner it is. -/
def owned : UIObject → List ℕ
  | frame this | texture this | label this => [this]
  | bar o => o.addresses
  | barValued o => o.bar.addresses
  | barIndicator o => o.barValued.bar.addresses
  | multiIcon o => [o.this]

end UIObject

def leaf (a : ℕ) (owned : Bool) : Tree := .node a owned []

def Bar.trees (o : Bar) : List Tree :=
  [leaf o.fillbar true, leaf o.border true, leaf o.background true]

/-- The parts in the order of the destructors. -/
def UIObject.tree : UIObject → Tree
  | .frame this | .texture this | .label this => leaf this false
  | .bar o => .node o.this false o.trees
  | .barValued o => .node o.bar.this false (leaf o.label false :: o.bar.trees)
  | .barIndicator o =>
    .node o.barValued.bar.this false
      (leaf o.border false :: leaf o.barValued.label false :: o.barValued.bar.trees)
  | .multiIcon o =>
    .node o.this false
      [.node o.bottomBar.this false o.bottomBar.trees, leaf o.bottomLabel false,
        leaf o.cornerLabel false, leaf o.passiveCover false]

theorem mem_postorder_tree {u : UIObject} {a : ℕ} : a ∈ u.tree.postorder ↔ a ∈ u.addresses := by
  cases u <;>
    simp only [UIObject.tree, UIObject.addresses, Bar.addresses, Bar.parts, Bar.trees, leaf,
      Tree.postorder, Tree.postorderAll, List.nil_append, List.append_nil, List.cons_append,
      List.mem_cons, List.not_mem_nil, or_false] <;>
    tauto

theorem mem_group_tree {u : UIObject} {a : ℕ} : a ∈ u.tree.group ↔ a ∈ u.owned := by
  cases u <;>
    simp [UIObject.tree, UIObject.owned, Bar.addresses, Bar.parts, Bar.trees, leaf, Tree.group,
      Tree.groupAll, Tree.owned]

theorem topFirst_tree {u : UIObject} :
    u.tree.TopFirst ↔ ∃ a ∈ u.owned, ∀ b ∈ u.addresses, a ≤ b := by
  simp only [Tree.TopFirst, mem_group_tree, mem_postorder_tree]

theorem nodup_tree {u : UIObject} (hn : u.addresses.Nodup) : u.tree.postorder.Nodup := by
  have hlen : u.tree.postorder.length = u.addresses.length := by cases u <;> rfl
  have hsub : u.addresses ⊆ u.tree.postorder := fun _ => mem_postorder_tree.mpr
  exact (hn.subperm hsub).perm_of_length_le hlen.le |>.nodup_iff.mp hn

/-! ## What a constructor makes -/

section Heap

variable (h : Heap) (this a : ℕ)

theorem newFrame_objects :
    (newFrame h this).objects a = if a = this then some ⟨none, []⟩ else h.objects a :=
  Function.update_apply h.objects this (some ⟨none, []⟩) a

theorem mem_newFrame : a ∈ (newFrame h this).registered ↔ a = this ∨ a ∈ h.registered :=
  Finset.mem_insert

theorem setOwner_objects (owner : ℕ) :
    (setOwner h this owner).objects a =
      if a = this then (h.objects this).map fun o => { o with owner := some owner }
      else h.objects a :=
  Function.update_apply h.objects this _ a

theorem setParts_objects (parts : List ℕ) :
    (setParts h this parts).objects a =
      if a = this then (h.objects this).map fun o => { o with parts } else h.objects a :=
  Function.update_apply h.objects this _ a

end Heap

/-- The parts of a bar have the bar for their owner. -/
theorem newBar_objects (h : Heap) (o : Bar) (hn : o.addresses.Nodup) (a : ℕ) :
    (newBar h o).objects a =
      if a = o.this then some ⟨none, o.parts⟩
      else if a ∈ o.parts then some ⟨some o.this, []⟩ else h.objects a := by
  simp only [Bar.addresses, Bar.parts, List.nodup_cons, List.mem_cons, not_or] at hn
  simp only [newBar, newTexture, setParts_objects, setOwner_objects, newFrame_objects]
  grind [Bar.parts]

theorem mem_newBar (h : Heap) (o : Bar) (a : ℕ) :
    a ∈ (newBar h o).registered ↔ a ∈ o.addresses ∨ a ∈ h.registered := by
  simp only [newBar, newTexture, setParts, setOwner, mem_newFrame, Bar.addresses, Bar.parts,
    List.mem_cons, List.not_mem_nil]
  tauto

theorem mem_create (h : Heap) (u : UIObject) (a : ℕ) :
    a ∈ (u.create h).registered ↔ a ∈ h.registered ∨ a ∈ u.addresses := by
  cases u <;>
    simp only [UIObject.create, newBarIndicator, newBarValued, newMultiIcon, newTexture, newLabel,
      setParts, mem_newFrame, mem_newBar, UIObject.addresses, List.mem_cons, List.not_mem_nil] <;>
    tauto

theorem create_deleted (h : Heap) (u : UIObject) : (u.create h).deleted = h.deleted := by
  cases u <;> rfl

/-- The objects that were there before stay. -/
theorem create_frame (h : Heap) (u : UIObject) {a : ℕ} (ha : a ∉ u.addresses) :
    (u.create h).objects a = h.objects a := by
  cases u <;>
    simp only [UIObject.addresses, Bar.addresses, Bar.parts, List.mem_cons, List.not_mem_nil,
      or_false, not_or] at ha <;>
    simp only [UIObject.create, newBarIndicator, newBarValued, newMultiIcon, newBar, newTexture,
      newLabel, setParts_objects, setOwner_objects, newFrame_objects, ha, if_false]

theorem mem_entries_bar {o : Bar} {a : ℕ} {e : ℕ × Object} :
    e ∈ Tree.entriesAll a o.trees ↔ e.1 ∈ o.parts ∧ e.2 = ⟨some a, []⟩ := by
  obtain ⟨b, x⟩ := e
  simp only [Bar.trees, Bar.parts, leaf, Tree.entriesAll, Tree.entries, List.map_nil, if_true,
    List.cons_append, List.nil_append, List.mem_cons, List.not_mem_nil, Prod.mk.injEq, or_false]
  tauto

/-- A part of a bar, in whatever the bar is a part of. -/
theorem newBar_part (h : Heap) {o : Bar} (hn : o.addresses.Nodup) {a : ℕ} (ha : a ∈ o.parts) :
    (newBar h o).objects a = some ⟨some o.this, []⟩ := by
  have hne : a ≠ o.this := fun heq => (List.nodup_cons.mp hn).1 (heq ▸ ha)
  rw [newBar_objects h o hn, if_neg hne, if_pos ha]

theorem newBar_this (h : Heap) {o : Bar} (hn : o.addresses.Nodup) :
    (newBar h o).objects o.this = some ⟨none, o.parts⟩ := by
  rw [newBar_objects h o hn, if_pos rfl]

theorem newBar_of_notMem (h : Heap) {o : Bar} {a : ℕ} (ha : a ∉ o.addresses) :
    (newBar h o).objects a = h.objects a := create_frame h (.bar o) ha

theorem newBarValued_objects (h : Heap) {o : BarValued}
    (hn : (o.label :: o.bar.addresses).Nodup) (a : ℕ) :
    (newBarValued h o).objects a =
      if a = o.bar.this then some ⟨none, o.parts⟩
      else if a = o.label then some ⟨none, []⟩ else (newBar h o.bar).objects a := by
  obtain ⟨hlabel, hn⟩ := List.nodup_cons.mp hn
  have hne : o.bar.this ≠ o.label := fun heq => hlabel (heq ▸ List.mem_cons_self)
  simp only [newBarValued, newLabel, setParts_objects, newFrame_objects, if_neg hne,
    newBar_this h hn, Option.map_some]

theorem newBarIndicator_objects (h : Heap) {o : BarIndicator}
    (hn : (o.border :: o.barValued.label :: o.barValued.bar.addresses).Nodup) (a : ℕ) :
    (newBarIndicator h o).objects a =
      if a = o.barValued.bar.this then some ⟨none, o.parts⟩
      else if a = o.border then some ⟨none, []⟩
      else (newBarValued h o.barValued).objects a := by
  obtain ⟨hborder, hn⟩ := List.nodup_cons.mp hn
  have hne : o.barValued.bar.this ≠ o.border := fun heq =>
    hborder (heq ▸ List.mem_cons_of_mem _ List.mem_cons_self)
  simp only [newBarIndicator, setParts_objects, newFrame_objects, if_neg hne,
    newBarValued_objects h hn, if_true, Option.map_some]

theorem alive_create (h : Heap) (u : UIObject) (hn : u.addresses.Nodup) :
    (u.create h).Alive none u.tree := by
  intro e he
  cases u with
  | frame this | texture this | label this =>
    obtain rfl := List.mem_singleton.mp he
    exact (newFrame_objects h this this).trans (if_pos rfl)
  | bar o =>
    rcases List.mem_cons.mp he with rfl | he
    · exact newBar_this h hn
    · obtain ⟨ha, he⟩ := mem_entries_bar.mp he
      exact (newBar_part h hn ha).trans (congrArg some he.symm)
  | barValued o =>
    obtain ⟨hlabel, hbar⟩ := List.nodup_cons.mp hn
    refine (newBarValued_objects h hn e.1).trans ?_
    rcases List.mem_cons.mp he with rfl | he
    · exact if_pos rfl
    rcases List.mem_cons.mp he with rfl | he
    · have hthis : o.label ≠ o.bar.this := fun heq => hlabel (heq ▸ List.mem_cons_self)
      exact (if_neg hthis).trans (if_pos rfl)
    · obtain ⟨ha, he⟩ := mem_entries_bar.mp he
      have hthis : e.1 ≠ o.bar.this := fun heq => (List.nodup_cons.mp hbar).1 (heq ▸ ha)
      have hne : e.1 ≠ o.label := fun heq => hlabel (heq ▸ List.mem_cons_of_mem _ ha)
      rw [if_neg hthis, if_neg hne, newBar_part h hbar ha, he]
  | barIndicator o =>
    obtain ⟨hborder, hlabel⟩ := List.nodup_cons.mp hn
    obtain ⟨hlabel', hbar⟩ := List.nodup_cons.mp hlabel
    refine (newBarIndicator_objects h hn e.1).trans ?_
    rw [newBarValued_objects h hlabel]
    rcases List.mem_cons.mp he with rfl | he
    · exact if_pos rfl
    rcases List.mem_cons.mp he with rfl | he
    · have hthis : o.border ≠ o.barValued.bar.this := fun heq =>
        hborder (heq ▸ List.mem_cons_of_mem _ List.mem_cons_self)
      exact (if_neg hthis).trans (if_pos rfl)
    rcases List.mem_cons.mp he with rfl | he
    · have hthis : o.barValued.label ≠ o.barValued.bar.this := fun heq =>
        hlabel' (heq ▸ List.mem_cons_self)
      have hne : o.barValued.label ≠ o.border := fun heq =>
        hborder (heq ▸ List.mem_cons_self)
      simp [hthis, hne]
    · obtain ⟨ha, he⟩ := mem_entries_bar.mp he
      have hthis : e.1 ≠ o.barValued.bar.this := fun heq => (List.nodup_cons.mp hbar).1 (heq ▸ ha)
      have hne : e.1 ≠ o.barValued.label := fun heq => hlabel' (heq ▸ List.mem_cons_of_mem _ ha)
      have hne' : e.1 ≠ o.border := fun heq =>
        hborder (heq ▸ List.mem_cons_of_mem _ (List.mem_cons_of_mem _ ha))
      rw [if_neg hthis, if_neg hne', if_neg hthis, if_neg hne, newBar_part h hbar ha, he]
  | multiIcon o =>
    obtain ⟨hthis, hn⟩ := List.nodup_cons.mp hn
    obtain ⟨hcover, hn⟩ := List.nodup_cons.mp hn
    obtain ⟨hcorner, hn⟩ := List.nodup_cons.mp hn
    obtain ⟨hbottom, hbar⟩ := List.nodup_cons.mp hn
    simp only [List.mem_cons, not_or] at hthis hcover hcorner
    have hbar_ne : ∀ a ∈ o.bottomBar.addresses, a ≠ o.this := fun a ha heq =>
      hthis.2.2.2 (heq ▸ ha)
    simp only [UIObject.create, newMultiIcon, newTexture, newLabel, setParts_objects]
    rcases List.mem_cons.mp he with rfl | he
    · simp only [newBar_of_notMem _ hthis.2.2.2, newFrame_objects]
      simp [hthis]
      rfl
    rcases List.mem_append.mp he with he | he
    · rcases List.mem_cons.mp he with rfl | he
      · rw [if_neg (hbar_ne _ List.mem_cons_self), newBar_this _ hbar]
        rfl
      · obtain ⟨ha, he⟩ := mem_entries_bar.mp he
        rw [if_neg (hbar_ne _ (List.mem_cons_of_mem _ ha)), newBar_part _ hbar ha, he]
    · simp only [leaf, Tree.entriesAll, Tree.entries, List.cons_append, List.nil_append,
        List.mem_cons, List.not_mem_nil, or_false] at he
      rcases he with rfl | rfl | rfl
      · simp [newBar_of_notMem _ hbottom, newFrame_objects, Ne.symm hthis.2.2.1]
      · simp [newBar_of_notMem _ hcorner.2, newFrame_objects, hcorner.1, Ne.symm hthis.2.1]
      · simp [newBar_of_notMem _ hcover.2.2, newFrame_objects, hcover.1, hcover.2.1,
          Ne.symm hthis.1]

theorem holds_create {h : Heap} {F : List Tree} (hh : h.Holds F) {u : UIObject}
    (hn : u.addresses.Nodup) (hfree : ∀ a ∈ u.addresses, a ∉ Tree.postorderAll F) :
    (u.create h).Holds (F ++ [u.tree]) := by
  refine hh.concat (alive_create h u hn) (fun a ha => ?_) (fun a => ?_) (fun a ha => ?_)
    (nodup_tree hn)
  · exact create_frame h u (mt mem_postorder_tree.mpr ha)
  · rw [mem_create, mem_postorder_tree]
  · exact hfree a (mem_postorder_tree.mp ha)

/-! ## Forests -/

/-- Objects in the order in which they are made. -/
structure Forest where
  objects : List UIObject
  distinct : (objects.flatMap UIObject.addresses).Nodup

/-- The heap after the constructors. -/
def Forest.heap (F : Forest) : Heap := F.objects.foldl UIObject.create Heap.empty

theorem holds_foldl {us : List UIObject} {h : Heap} {F : List Tree} (hh : h.Holds F)
    (hn : (us.flatMap UIObject.addresses).Nodup)
    (hfree : ∀ a ∈ us.flatMap UIObject.addresses, a ∉ Tree.postorderAll F) :
    (us.foldl UIObject.create h).Holds (F ++ us.map UIObject.tree) := by
  induction us generalizing h F with
  | nil => rwa [List.map_nil, List.append_nil]
  | cons u us ih =>
    rw [List.flatMap_cons] at hn hfree
    obtain ⟨hu, hus, hdis⟩ := List.nodup_append.mp hn
    have hcreate := holds_create hh hu fun a ha => hfree a (List.mem_append_left _ ha)
    rw [List.foldl_cons, List.map_cons, List.append_cons]
    refine ih hcreate hus fun a ha hmem => ?_
    rw [Tree.postorderAll_eq, List.flatMap_append, ← Tree.postorderAll_eq] at hmem
    rcases List.mem_append.mp hmem with hmem | hmem
    · exact hfree a (List.mem_append_right _ ha) hmem
    · obtain ⟨t, ht, hmem⟩ := List.mem_flatMap.mp hmem
      rw [List.mem_singleton.mp ht, mem_postorder_tree] at hmem
      exact hdis a hmem a ha rfl

theorem Forest.holds (F : Forest) : F.heap.Holds (F.objects.map UIObject.tree) :=
  holds_foldl Heap.holds_empty F.distinct fun _ _ => List.not_mem_nil

theorem Forest.heap_deleted (F : Forest) : F.heap.deleted = [] := by
  have hfoldl : ∀ us : List UIObject, ∀ h : Heap,
      (us.foldl UIObject.create h).deleted = h.deleted := by
    intro us
    induction us with
    | nil => exact fun _ => rfl
    | cons u us ih => exact fun h => (ih _).trans (create_deleted h u)
  exact hfoldl F.objects Heap.empty

/-- `UI_Cleanup`, with `k` for the loop over the owners and the destructors, and `n` for the loop
over the set. -/
def uiCleanup (k n : ℕ) (h : Heap) : Option Heap := h.cleanup k n

/-- `UI_Cleanup` ends without following a pointer to a deleted object, and has deleted each of the
registered objects once. -/
def Forest.TornDown (F : Forest) : Prop :=
  ∃ k n h', uiCleanup k n F.heap = some h' ∧ h'.registered = ∅ ∧
    h'.deleted.Perm F.heap.registered.toList

theorem Forest.tornDown_iff_topFirst (F : Forest) :
    F.TornDown ↔ ∀ u ∈ F.objects, u.tree.TopFirst :=
  (F.holds.cleanup_iff F.heap_deleted).trans List.forall_mem_map

/-- Every object at the top has to come before the parts whose owner it is not, or one of the parts
whose owner it is has to. -/
theorem Forest.tornDown_iff (F : Forest) :
    F.TornDown ↔ ∀ u ∈ F.objects, ∃ a ∈ u.owned, ∀ b ∈ u.addresses, a ≤ b := by
  rw [F.tornDown_iff_topFirst]
  exact forall₂_congr fun _ _ => topFirst_tree

/-- A bar with its label at the smallest address. -/
theorem not_tornDown_label : ¬∀ F : Forest, F.TornDown := by
  intro hall
  let F : Forest := ⟨[.barValued ⟨⟨1, 2, 3, 4⟩, 0⟩], by decide⟩
  have htop := F.tornDown_iff_topFirst.mp (hall F) _ List.mem_cons_self
  exact absurd htop (by decide)

end DreamDota.UI
