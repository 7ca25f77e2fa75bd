import DreamDota.Lib.Grid
import DreamDota.Lib.Session
import Mathlib.Data.List.Nodup

/-!
# The table of the interface

`Table.cpp`: the cells of a table own the elements they are given, and the rows own their frames. The
layout that `refresh` computes, the titles and the tags are left out: nothing of them is read by
what is modelled here.

`deleted`, `destroyed` and the numbers of the frames are history.

1. `Stored`: what the calls keep.
2. `Guarded`: a call that does not set an element again with another flag, and does not hand over
   one that the table has deleted.
3. `lifeOk_iff`: the lives of a table in which every element is deleted once.
-/

namespace DreamDota

/-- An `IUIObject`, by the order of the constructions. -/
abbrev Element := ℕ

/-- A `UISimpleFrame`, by the order of the constructions. -/
abbrev RowFrame := ℕ

structure Table where
  elements : Grid (Option Element)
  elementsPassiveFlag : Grid Bool
  rowCount : ℕ
  columnCount : ℕ
  rowFrames : List (Option RowFrame)
  framesMade : ℕ
  deleted : List Element
  destroyed : List RowFrame
  deriving DecidableEq, Repr

/-- The calls of a table. -/
inductive TableCall where
  | setRowColumnCount (rowCount columnCount : ℕ)
  | setElement (row column : ℕ) (elem : Option Element) (passiveHeight : Bool)
  | refresh
  deriving DecidableEq, Repr

namespace Table

/-- `elements[row][column]`. -/
def element (t : Table) (row column : ℕ) : Option Element := t.elements.cell none row column

/-- `elementsPassiveFlag[row][column]`. -/
def passiveFlag (t : Table) (row column : ℕ) : Bool := t.elementsPassiveFlag.cell false row column

/-- The elements in the cells. -/
def stored (t : Table) : List Element := t.elements.entries

/-! ## `setRowColumnCount` -/

/-- The rows that the first loop passes over. -/
def cutRows (t : Table) (rowCount : ℕ) : Grid (Option Element) :=
  if rowCount < t.rowCount then
    (t.elements.take (min t.rowCount t.elements.length)).drop rowCount
  else []

/-- The row frames that the first loop passes over. -/
def cutFrames (t : Table) (rowCount : ℕ) : List (Option RowFrame) :=
  if rowCount < t.rowCount then
    (t.rowFrames.take (min t.rowCount t.elements.length)).drop rowCount
  else []

/-- The parts of the rows that the second loop passes over. -/
def cutColumns (t : Table) (rowCount columnCount : ℕ) : Grid (Option Element) :=
  if columnCount < t.columnCount then
    (t.elements.take (min rowCount t.elements.length)).map fun row =>
      (row.take (min t.columnCount row.length)).drop columnCount
  else []

def setRowColumnCount (t : Table) (rowCount columnCount : ℕ) : Table :=
  if t.rowCount = rowCount ∧ t.columnCount = columnCount then t
  else
    { t with
      elements := t.elements.resize none rowCount columnCount
      elementsPassiveFlag := t.elementsPassiveFlag.resize false rowCount columnCount
      rowCount := rowCount
      columnCount := columnCount
      rowFrames := t.rowFrames.takeD rowCount none
      deleted := t.deleted ++
        ((t.cutRows rowCount).entries ++ (t.cutColumns rowCount columnCount).entries)
      destroyed := t.destroyed ++ (t.cutFrames rowCount).reduceOption }

/-! ## The other calls -/

/-- The cell is one of the table. -/
def InRange (t : Table) (row column : ℕ) : Prop := row < t.rowCount ∧ column < t.columnCount

instance (t : Table) (row column : ℕ) : Decidable (t.InRange row column) :=
  inferInstanceAs (Decidable (_ ∧ _))

def setElement (t : Table) (row column : ℕ) (elem : Option Element) (passiveHeight : Bool) :
    Table :=
  if t.InRange row column then
    if t.element row column = elem ∧ t.passiveFlag row column = passiveHeight then t
    else
      { t with
        elements := t.elements.setCell row column elem
        elementsPassiveFlag := t.elementsPassiveFlag.setCell row column passiveHeight
        deleted := t.deleted ++ (t.element row column).toList }
  else t

/-- The frames of `refresh`: each row without one gets a new one. -/
def makeFrames (next : ℕ) : List (Option RowFrame) → List (Option RowFrame)
  | [] => []
  | none :: frames => some next :: makeFrames (next + 1) frames
  | some frame :: frames => some frame :: makeFrames next frames

def refresh (t : Table) : Table :=
  { t with
    rowFrames := makeFrames t.framesMade t.rowFrames
    framesMade := t.framesMade + (t.rowFrames.filter Option.isNone).length }

/-- The constructor. It sets its parameters to 0 in place of the members, which are
`rowCount₀` and `columnCount₀` then. -/
def new (rowCount₀ columnCount₀ : ℕ) : Table :=
  (⟨[], [], rowCount₀, columnCount₀, [], 0, [], []⟩ : Table).setRowColumnCount 0 0

/-- The destructor. -/
def destroy (t : Table) : Table :=
  { t with
    elements := []
    rowFrames := []
    deleted := t.deleted ++ t.elements.entries
    destroyed := t.destroyed ++ t.rowFrames.reduceOption }

def call (t : Table) : TableCall → Table
  | .setRowColumnCount rowCount columnCount => t.setRowColumnCount rowCount columnCount
  | .setElement row column elem passiveHeight => t.setElement row column elem passiveHeight
  | .refresh => t.refresh

/-! ## What the calls do -/

/-- The sizes that a table keeps. -/
structure Shaped (t : Table) : Prop where
  elements : t.elements.Shape t.rowCount t.columnCount
  flags : t.elementsPassiveFlag.Shape t.rowCount t.columnCount
  frames : t.rowFrames.length = t.rowCount

/-- The elements that the table has to delete or has deleted. -/
def owned (t : Table) : List Element := t.stored ++ t.deleted

/-- The element that a call puts into a cell. -/
def incoming (t : Table) : TableCall → Option Element
  | .setElement row column elem passiveHeight =>
    if t.InRange row column ∧
      ¬ (t.element row column = elem ∧ t.passiveFlag row column = passiveHeight) then elem
    else none
  | _ => none

variable {t : Table} {c : TableCall} {e : Element} {row column rowCount columnCount : ℕ}

theorem length_makeFrames (next : ℕ) (frames : List (Option RowFrame)) :
    (makeFrames next frames).length = frames.length := by
  induction frames generalizing next with
  | nil => rfl
  | cons frame frames ih => cases frame <;> exact congrArg (· + 1) (ih _)

theorem Shaped.setRowColumnCount (h : Shaped t) (rowCount columnCount : ℕ) :
    Shaped (t.setRowColumnCount rowCount columnCount) := by
  unfold Table.setRowColumnCount
  split_ifs
  · exact h
  · exact ⟨Grid.shape_resize .., Grid.shape_resize .., List.takeD_length ..⟩

theorem Shaped.setElement (h : Shaped t) (row column : ℕ) (elem : Option Element) (f : Bool) :
    Shaped (t.setElement row column elem f) := by
  unfold Table.setElement
  split_ifs
  · exact h
  · exact ⟨h.elements.setCell .., h.flags.setCell .., h.frames⟩
  · exact h

theorem Shaped.call (h : Shaped t) (c : TableCall) : Shaped (t.call c) := by
  cases c with
  | setRowColumnCount rowCount columnCount => exact h.setRowColumnCount rowCount columnCount
  | setElement row column elem f => exact h.setElement row column elem f
  | refresh => exact ⟨h.elements, h.flags, (length_makeFrames _ _).trans h.frames⟩

/-- The members before the constructor sets the counts do not matter. -/
theorem new_eq (rowCount₀ columnCount₀ : ℕ) : new rowCount₀ columnCount₀ = new 0 0 := by
  unfold new setRowColumnCount
  split_ifs with h h' h'
  · obtain ⟨rfl, rfl⟩ : rowCount₀ = 0 ∧ columnCount₀ = 0 := h
    rfl
  · exact absurd ⟨rfl, rfl⟩ h'
  · simp [cutRows, cutColumns, cutFrames, Grid.resize, Grid.entries]
  · exact absurd ⟨rfl, rfl⟩ h'

theorem shaped_new (rowCount₀ columnCount₀ : ℕ) : Shaped (new rowCount₀ columnCount₀) := by
  rw [new_eq]
  exact ⟨.nil 0, .nil 0, rfl⟩

/-- An element is in a cell of the table. -/
theorem Shaped.inRange (h : Shaped t) (he : t.element row column = some e) :
    t.InRange row column := by
  have hcell : t.elements.cell none row column ≠ none := by
    rw [← element, he]
    exact Option.some_ne_none e
  exact h.elements.cell_lt hcell

theorem Shaped.element_setElement (h : Shaped t) (hin : t.InRange row column)
    (elem : Option Element) (f : Bool) (row' column' : ℕ) :
    (t.setElement row column elem f).element row' column' =
      if row' = row ∧ column' = column then elem else t.element row' column' := by
  unfold Table.setElement
  rw [if_pos hin]
  split_ifs with hsame hcell hcell
  · obtain ⟨rfl, rfl⟩ := hcell
    exact hsame.1
  · rfl
  · obtain ⟨rfl, rfl⟩ := hcell
    exact Grid.cell_setCell_self h.elements hin.1 hin.2
  · exact Grid.cell_setCell_of_ne (not_and_or.mp hcell)

theorem element_setRowColumnCount (hrow : row < rowCount) (hcolumn : column < columnCount) :
    (t.setRowColumnCount rowCount columnCount).element row column = t.element row column := by
  unfold setRowColumnCount
  split_ifs
  · rfl
  · exact Grid.cell_resize hrow hcolumn

@[simp] theorem rowCount_setElement (row column : ℕ) (elem : Option Element) (f : Bool) :
    (t.setElement row column elem f).rowCount = t.rowCount := by
  unfold setElement
  split_ifs <;> rfl

@[simp] theorem columnCount_setElement (row column : ℕ) (elem : Option Element) (f : Bool) :
    (t.setElement row column elem f).columnCount = t.columnCount := by
  unfold setElement
  split_ifs <;> rfl

theorem counts_setRowColumnCount (t : Table) (rowCount columnCount : ℕ) :
    (t.setRowColumnCount rowCount columnCount).rowCount = rowCount ∧
      (t.setRowColumnCount rowCount columnCount).columnCount = columnCount := by
  unfold setRowColumnCount
  split_ifs with h
  · exact h
  · exact ⟨rfl, rfl⟩

/-- A resize puts nothing into a cell. -/
theorem Shaped.element_of_setRowColumnCount (h : Shaped t)
    (he : (t.setRowColumnCount rowCount columnCount).element row column = some e) :
    t.element row column = some e := by
  have hin := (h.setRowColumnCount rowCount columnCount).inRange he
  obtain ⟨hrows, hcolumns⟩ := t.counts_setRowColumnCount rowCount columnCount
  rw [InRange, hrows, hcolumns] at hin
  rwa [element_setRowColumnCount hin.1 hin.2] at he

/-! ### The loops of `setRowColumnCount` -/

theorem entries_cutRows (h : Shaped t) (rowCount : ℕ) :
    (t.cutRows rowCount).entries = Grid.entries (t.elements.drop rowCount) := by
  unfold cutRows
  split_ifs with hlt
  · rw [h.elements.length, Nat.min_self, ← h.elements.length, List.take_length]
  · rw [List.drop_eq_nil_of_le (by rw [h.elements.length]; omega)]

theorem entries_cutColumns (h : Shaped t) (rowCount columnCount : ℕ) :
    (t.cutColumns rowCount columnCount).entries =
      Grid.entries ((t.elements.take rowCount).map fun row => row.drop columnCount) := by
  have hrow : ∀ l ∈ t.elements.take rowCount, l.length = t.columnCount := fun l hl =>
    h.elements.row l (List.mem_of_mem_take hl)
  unfold cutColumns
  split_ifs with hlt
  · have htake : t.elements.take (min rowCount t.elements.length) = t.elements.take rowCount := by
      rw [← List.take_eq_take_min]
    rw [htake]
    congr 1
    refine List.map_congr_left fun l hl => ?_
    rw [hrow l hl, Nat.min_self, ← hrow l hl, List.take_length]
  · rw [Grid.entries_map]
    refine (List.flatMap_eq_nil_iff.mpr fun l hl => ?_).symm
    rw [List.drop_eq_nil_of_le (by rw [hrow l hl]; omega)]
    rfl

/-- A call takes over what it puts into a cell, and loses nothing. -/
theorem owned_call (h : Shaped t) (c : TableCall) :
    (t.call c).owned.Perm ((t.incoming c).toList ++ t.owned) := by
  cases c with
  | setRowColumnCount rowCount columnCount =>
    show (t.setRowColumnCount rowCount columnCount).owned.Perm t.owned
    unfold setRowColumnCount
    split_ifs
    · exact List.Perm.refl _
    · simp only [owned, stored, entries_cutRows h, entries_cutColumns h]
      have hp := Grid.entries_resize t.elements rowCount columnCount
      refine List.Perm.trans ?_ (hp.append_right _)
      rw [List.append_assoc]
      exact List.perm_append_comm.append_left _
  | setElement row column elem f =>
    simp only [call, setElement, incoming]
    by_cases hr : t.InRange row column
    · by_cases hs : t.element row column = elem ∧ t.passiveFlag row column = f
      · rw [if_pos hr, if_pos hs, if_neg (not_and_not_right.mpr fun _ => hs)]
        exact List.Perm.refl _
      · rw [if_pos hr, if_neg hs, if_pos ⟨hr, hs⟩]
        have hp := Grid.entries_setCell h.elements hr.1 hr.2 elem
        simp only [owned, stored]
        rw [← List.append_assoc elem.toList]
        refine List.Perm.trans ?_ (hp.append_right _)
        rw [List.append_assoc]
        exact List.perm_append_comm.append_left _
    · rw [if_neg hr, if_neg fun h => hr h.1]
      exact List.Perm.refl _
  | refresh => exact List.Perm.refl _

/-- Only elements of the table are deleted. -/
theorem mem_deleted_call (h : Shaped t) (he : e ∈ (t.call c).deleted) :
    e ∈ t.deleted ∨ e ∈ t.stored := by
  cases c with
  | setRowColumnCount rowCount columnCount =>
    simp only [call, setRowColumnCount] at he
    split_ifs at he
    · exact .inl he
    · rcases List.mem_append.mp he with hold | hcut
      · exact .inl hold
      · rw [entries_cutRows h, entries_cutColumns h] at hcut
        exact .inr ((Grid.entries_resize ..).subset (List.mem_append_right _ hcut))
  | setElement row column elem f =>
    simp only [call, setElement] at he
    split_ifs at he
    · exact .inl he
    · rcases List.mem_append.mp he with hold | hcell
      · exact .inl hold
      · exact .inr (Grid.mem_entries_iff_cell.mpr ⟨row, column, Option.mem_toList.mp hcell⟩)
    · exact .inl he
  | refresh => exact .inl he

/-! ## The law -/

/-- The state that the table has to be in: the sizes agree, the elements in the cells are live, and
none has been deleted twice. -/
structure Sound (t : Table) : Prop extends Shaped t where
  live : ∀ e ∈ t.stored, e ∉ t.deleted
  once : t.deleted.Nodup

/-- An element is deleted when it leaves the table. -/
structure DeletesLeaving (t t' : Table) : Prop where
  only : ∀ e ∈ t'.deleted, e ∈ t.deleted ∨ e ∈ t.stored
  leaving : ∀ e ∈ t.stored, e ∈ t'.deleted ↔ e ∉ t'.stored

/-- The elements handed to the table. -/
def given (calls : List TableCall) : List Element :=
  calls.filterMap fun c =>
    match c with
    | .setElement _ _ elem _ => elem
    | _ => none

/-- The caller gives each element to at most one cell. -/
def OneCell (calls : List TableCall) : Prop :=
  ∀ row column row' column' e f f', .setElement row column (some e) f ∈ calls →
    .setElement row' column' (some e) f' ∈ calls → row = row' ∧ column = column'

/-- A life of a table: the constructor, the calls and the destructor. -/
structure LifeOk (rowCount₀ columnCount₀ : ℕ) (calls : List TableCall) : Prop where
  states : Session.Always call (new rowCount₀ columnCount₀) calls Sound
  steps : Session.Steps call (new rowCount₀ columnCount₀) calls fun t c =>
    DeletesLeaving t (t.call c)
  final : ∀ e ∈ given calls,
    (calls.foldl call (new rowCount₀ columnCount₀)).destroy.deleted.count e = 1

/-- The call does not set an element again with another flag, and hands over a live element. -/
def Guarded (t : Table) : TableCall → Prop
  | .setElement row column (some e) passiveHeight =>
    t.InRange row column →
      e ∉ t.deleted ∧ ¬ (t.element row column = some e ∧ t.passiveFlag row column ≠ passiveHeight)
  | _ => True

instance (t : Table) : (c : TableCall) → Decidable (Guarded t c)
  | .setElement _ _ (some _) _ => inferInstanceAs (Decidable (_ → _))
  | .setElement _ _ none _ | .setRowColumnCount .. | .refresh => isTrue trivial

/-- An element that is handed over for a cell of the table. -/
def Accepted (t : Table) (calls : List TableCall) (e : Element) : Prop :=
  ∃ pre row column f, pre ++ [.setElement row column (some e) f] <+: calls ∧
    (pre.foldl call t).InRange row column

/-! ## What the calls keep -/

/-- What guarded calls out of `calls` keep. -/
structure Stored (calls : List TableCall) (t : Table) : Prop extends Shaped t where
  nodup : t.owned.Nodup
  place : ∀ row column e, t.element row column = some e →
    ∃ f, .setElement row column (some e) f ∈ calls

variable {calls : List TableCall}

theorem Stored.sound (h : Stored calls t) : Sound t where
  toShaped := h.toShaped
  live := fun _ he hd => List.disjoint_of_nodup_append h.nodup he hd
  once := h.nodup.of_append_right

theorem stored_new (rowCount₀ columnCount₀ : ℕ) (calls : List TableCall) :
    Stored calls (new rowCount₀ columnCount₀) where
  toShaped := shaped_new _ _
  nodup := by rw [new_eq]; exact List.nodup_nil
  place := by
    intro row column e he
    have hcell : (new rowCount₀ columnCount₀).elements.cell none row column ≠ none := by
      rw [← element, he]
      exact Option.some_ne_none e
    have hlt := (shaped_new rowCount₀ columnCount₀).elements.cell_lt hcell
    rw [new_eq] at hlt
    exact absurd hlt.1 (Nat.not_lt_zero _)

/-- The elements come into the cells by the calls. -/
theorem place_call (h : Stored calls t) (hc : c ∈ calls)
    (he : (t.call c).element row column = some e) :
    ∃ f, .setElement row column (some e) f ∈ calls := by
  cases c with
  | setRowColumnCount rowCount columnCount =>
    simp only [call, setRowColumnCount] at he
    split_ifs at he
    · exact h.place row column e he
    · have hcell : (t.elements.resize none rowCount columnCount).cell none row column ≠ none := by
        rw [show Grid.cell _ _ _ _ = _ from he]
        exact Option.some_ne_none e
      have hlt := (Grid.shape_resize t.elements none rowCount columnCount).cell_lt hcell
      refine h.place row column e ?_
      rw [← he]
      exact (Grid.cell_resize hlt.1 hlt.2).symm
  | setElement row' column' elem f =>
    simp only [call, setElement] at he
    split_ifs at he with hr hs
    · exact h.place row column e he
    · by_cases hcell : row ≠ row' ∨ column ≠ column'
      · refine h.place row column e ?_
        rw [← he]
        exact (Grid.cell_setCell_of_ne hcell).symm
      · rw [not_or, not_not, not_not] at hcell
        obtain ⟨rfl, rfl⟩ := hcell
        have hself : elem = some e :=
          (Grid.cell_setCell_self h.elements hr.1 hr.2).symm.trans he
        exact ⟨f, hself ▸ hc⟩
    · exact h.place row column e he
  | refresh => exact h.place row column e he

theorem Stored.call (h : Stored calls t) (hone : OneCell calls) (hc : c ∈ calls)
    (hg : Guarded t c) : Stored calls (t.call c) where
  toShaped := h.toShaped.call c
  place := fun _ _ _ => place_call h hc
  nodup := by
    rw [(owned_call h.toShaped c).nodup_iff]
    cases c with
    | setElement row column elem f =>
      cases elem with
      | none => simpa [incoming] using h.nodup
      | some e =>
        by_cases hin : t.InRange row column ∧
            ¬ (t.element row column = some e ∧ t.passiveFlag row column = f)
        · obtain ⟨hdel, hsame⟩ := hg hin.1
          rw [incoming, if_pos hin]
          show (e :: t.owned).Nodup
          refine List.nodup_cons.mpr ⟨fun hm => ?_, h.nodup⟩
          refine (List.mem_append.mp hm).elim (fun hst => ?_) hdel
          -- the element is in a cell, which is the one of this call
          obtain ⟨row', column', hcell⟩ := Grid.mem_entries_iff_cell.mp hst
          obtain ⟨f', hm'⟩ := h.place row' column' e hcell
          obtain ⟨rfl, rfl⟩ := hone _ _ _ _ e _ _ hm' hc
          exact hin.2 ⟨hcell, by_contra fun hf => hsame ⟨hcell, hf⟩⟩
        · rw [incoming, if_neg hin]
          exact h.nodup
    | _ => exact h.nodup

/-- A call that is not guarded leaves a deleted element in its cell. -/
theorem guarded_of_sound (h : Sound t) (h' : Sound (t.call c)) : Guarded t c := by
  cases c with
  | setElement row column elem f =>
    cases elem with
    | none => trivial
    | some e =>
      intro hr
      by_cases hs : t.element row column = some e ∧ t.passiveFlag row column = f
      · have hst : e ∈ t.stored := Grid.mem_entries_iff_cell.mpr ⟨row, column, hs.1⟩
        exact ⟨h.live e hst, fun hn => hn.2 hs.2⟩
      · have hcall : t.call (.setElement row column (some e) f) =
            { t with
              elements := t.elements.setCell row column (some e)
              elementsPassiveFlag := t.elementsPassiveFlag.setCell row column f
              deleted := t.deleted ++ (t.element row column).toList } := by
          simp only [call, setElement, if_pos hr, if_neg hs]
        rw [hcall] at h'
        have hst : e ∈ (t.elements.setCell row column (some e)).entries :=
          Grid.mem_entries_iff_cell.mpr ⟨row, column,
            Grid.cell_setCell_self h.elements hr.1 hr.2⟩
        have hlive := h'.live e hst
        refine ⟨fun hd => hlive (List.mem_append_left _ hd), fun hn => ?_⟩
        refine hlive (List.mem_append_right _ ?_)
        rw [hn.1]
        exact List.mem_singleton_self e
  | _ => trivial

theorem deletesLeaving_call (h : Sound t) (h' : Sound (t.call c)) :
    DeletesLeaving t (t.call c) where
  only := fun _ => mem_deleted_call h.toShaped
  leaving := by
    intro e he
    constructor
    · exact fun hd hst => h'.live e hst hd
    · intro hst
      have hm : e ∈ (t.call c).owned :=
        (owned_call h.toShaped c).symm.subset
          (List.mem_append_right _ (List.mem_append_left _ he))
      exact (List.mem_append.mp hm).resolve_left hst

/-! ## Lives -/

/-- The elements that the table has to delete are those it has accepted. -/
theorem mem_owned_iff (h : Shaped t) :
    e ∈ (calls.foldl call t).owned ↔ e ∈ t.owned ∨ Accepted t calls e := by
  induction calls using List.reverseRecOn with
  | nil =>
    refine ⟨.inl, fun hm => hm.resolve_right ?_⟩
    rintro ⟨pre, row, column, f, hp, -⟩
    exact absurd hp.length_le (by simp)
  | append_singleton calls c ih =>
    have hshaped : Shaped (calls.foldl call t) :=
      (Session.Always.of_step (I := Shaped) (fun _ c _ hs => hs.call c) h).last
    rw [Session.foldl_concat, (owned_call hshaped c).mem_iff, List.mem_append, ih,
      Option.mem_toList]
    constructor
    · rintro (hin | hold | ⟨pre, row, column, f, hp, hr⟩)
      · cases c with
        | setElement row column elem f =>
          rw [incoming] at hin
          split_ifs at hin with hr
          subst hin
          exact .inr ⟨calls, row, column, f, List.prefix_rfl, hr.1⟩
        | _ => cases hin
      · exact .inl hold
      · exact .inr ⟨pre, row, column, f, hp.trans (List.prefix_append _ _), hr⟩
    · rintro (hold | ⟨pre, row, column, f, hp, hr⟩)
      · exact .inr (.inl hold)
      · rcases List.prefix_concat_iff.mp hp with heq | hp'
        · obtain ⟨rfl, hc⟩ := List.append_inj' heq rfl
          obtain rfl : TableCall.setElement row column (some e) f = c := by simpa using hc
          by_cases hs : (pre.foldl call t).element row column = some e ∧
              (pre.foldl call t).passiveFlag row column = f
          · right
            rw [← ih]
            exact List.mem_append_left _ (Grid.mem_entries_iff_cell.mpr ⟨row, column, hs.1⟩)
          · left
            rw [incoming, if_pos ⟨hr, hs⟩]
        · exact .inr (.inr ⟨pre, row, column, f, hp', hr⟩)

theorem destroy_perm (t : Table) : t.destroy.deleted.Perm t.owned := List.perm_append_comm

/-- **Ownership of the elements of a table.** The states of a life are sound, elements are deleted
when they leave the table, and each is deleted once, if and only if no call sets an element again
with another flag or hands over a deleted one, and every element is handed over for a cell of the
table at some time. -/
theorem lifeOk_iff (rowCount₀ columnCount₀ : ℕ) (calls : List TableCall) (hone : OneCell calls) :
    LifeOk rowCount₀ columnCount₀ calls ↔
      Session.Steps call (new rowCount₀ columnCount₀) calls Guarded ∧
        ∀ e ∈ given calls, Accepted (new rowCount₀ columnCount₀) calls e := by
  have hnew := stored_new rowCount₀ columnCount₀ calls
  have hstates : Session.Always call (new rowCount₀ columnCount₀) calls Sound ↔
      Session.Steps call (new rowCount₀ columnCount₀) calls Guarded := by
    refine Session.always_iff_steps (I := Stored calls) (fun t c hc h _ hg => ?_)
      (fun t c _ _ h h' => guarded_of_sound h h') hnew hnew.sound
    have h' := h.call hone hc hg
    exact ⟨h', h'.sound⟩
  have howned : (new rowCount₀ columnCount₀).owned = [] := by rw [new_eq]; rfl
  constructor
  · intro hok
    refine ⟨hstates.mp hok.states, fun e he => ?_⟩
    have hcount := hok.final e he
    have hm : e ∈ (calls.foldl call (new rowCount₀ columnCount₀)).owned :=
      (destroy_perm _).subset (List.count_pos_iff.mp (by omega))
    rw [mem_owned_iff hnew.toShaped, howned] at hm
    exact hm.resolve_left (by simp)
  · rintro ⟨hguard, hacc⟩
    have hsound := hstates.mpr hguard
    refine ⟨hsound, fun pre c hp => ?_, fun e he => ?_⟩
    · have h' := hsound _ hp
      rw [Session.foldl_concat] at h'
      exact deletesLeaving_call (hsound pre ((List.prefix_append _ _).trans hp)) h'
    · have hkept : Stored calls (calls.foldl call (new rowCount₀ columnCount₀)) :=
        (Session.Always.of_steps (fun t c hc h hg => h.call hone hc hg) hnew hguard).last
      refine List.count_eq_one_of_mem ((destroy_perm _).nodup_iff.mpr hkept.nodup) ?_
      rw [(destroy_perm _).mem_iff, mem_owned_iff hnew.toShaped]
      exact .inr (hacc e he)

/-- An element is set again with another flag. -/
def resetCalls : List TableCall :=
  [.setRowColumnCount 1 1, .setElement 0 0 (some 0) false, .setElement 0 0 (some 0) true]

/-- It is deleted and stays in its cell, and the destructor deletes it again. -/
theorem element_deleted_twice :
    OneCell resetCalls ∧ ¬ LifeOk 0 0 resetCalls ∧
      (resetCalls.foldl call (new 0 0)).stored = [0] ∧
      (resetCalls.foldl call (new 0 0)).deleted = [0] ∧
      (resetCalls.foldl call (new 0 0)).destroy.deleted = [0, 0] := by
  refine ⟨?_, fun h => ?_, by decide, by decide, by decide⟩
  · intro row column row' column' e f f' h h'
    simp [resetCalls] at h h'
    omega
  · exact absurd (h.final 0 (by decide)) (by decide)

/-- Elements are replaced, cut off and left to the destructor. -/
def replaceCalls : List TableCall :=
  [.setRowColumnCount 2 2, .setElement 0 0 (some 0) false, .refresh,
    .setElement 0 0 (some 1) true, .setElement 1 1 (some 2) false, .setRowColumnCount 3 1]

theorem lifeOk_replaceCalls : LifeOk 3 0 replaceCalls := by
  refine (lifeOk_iff 3 0 replaceCalls ?_).mpr ⟨by decide, ?_⟩
  · intro row column row' column' e f f' h h'
    simp [replaceCalls] at h h'
    rcases h with h | h | h <;> rcases h' with h' | h' | h' <;> simp_all
  · intro e he
    rw [show given replaceCalls = [0, 1, 2] by decide] at he
    simp only [List.mem_cons, List.not_mem_nil, or_false] at he
    rcases he with rfl | rfl | rfl
    · exact ⟨replaceCalls.take 1, 0, 0, false, by decide, by decide⟩
    · exact ⟨replaceCalls.take 3, 0, 0, true, by decide, by decide⟩
    · exact ⟨replaceCalls.take 4, 1, 1, false, by decide, by decide⟩

end Table

end DreamDota
