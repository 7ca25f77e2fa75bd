import Mathlib.Data.List.GetD
import Mathlib.Data.List.Perm.Basic
import Mathlib.Data.List.ReduceOption
import Mathlib.Data.List.TakeDrop
import Mathlib.Tactic.Common

/-!
# Vectors of vectors

A vector of rows, each a vector of cells, as C++ programs keep them: `List.takeD` is the `resize` of
a vector. Where a cell may be empty, `entries` are the entries of the cells that are not. A resize
keeps some of them and leaves the others, `entries_resize`, and so does the assignment of one cell,
`entries_setCell`.
-/

/-- A vector of vectors. -/
abbrev Grid (β : Type*) := List (List β)

namespace Grid

variable {α β : Type*}

/-- The content of a cell, `d` outside the grid. -/
def cell (g : Grid β) (d : β) (row column : ℕ) : β := (g.getD row []).getD column d

def setCell (g : Grid β) (row column : ℕ) (b : β) : Grid β := g.modify row fun l => l.set column b

/-- `resize` of the rows, and then of every row. -/
def resize (g : Grid β) (d : β) (rows columns : ℕ) : Grid β :=
  (g.takeD rows []).map fun l => l.takeD columns d

/-- The grid has `rows` rows, each of `columns` cells. -/
structure Shape (g : Grid β) (rows columns : ℕ) : Prop where
  length : g.length = rows
  row : ∀ l ∈ g, l.length = columns

theorem Shape.nil (columns : ℕ) : Shape ([] : Grid β) 0 columns := ⟨rfl, List.forall_mem_nil _⟩

theorem shape_resize (g : Grid β) (d : β) (rows columns : ℕ) :
    Shape (g.resize d rows columns) rows columns where
  length := by rw [resize, List.length_map, List.takeD_length]
  row := by
    intro l hl
    obtain ⟨l', -, rfl⟩ := List.mem_map.mp hl
    exact List.takeD_length ..

theorem Shape.setCell {g : Grid β} {rows columns : ℕ} (h : Shape g rows columns) (row column : ℕ)
    (b : β) : Shape (g.setCell row column b) rows columns where
  length := by rw [Grid.setCell, List.length_modify, h.length]
  row := by
    intro l hl
    obtain ⟨i, hi, rfl⟩ := List.getElem_of_mem hl
    simp only [Grid.setCell, List.length_modify] at hi
    have hrow := h.row _ (List.getElem_mem hi)
    simp only [Grid.setCell, List.getElem_modify]
    split_ifs
    · rw [List.length_set, hrow]
    · exact hrow

/-! ## Cells -/

section Cells

variable {g : Grid β} {d b : β} {rows columns row column row' column' : ℕ}

theorem getD_takeD (l : List β) (d : β) {n i : ℕ} (h : i < n) :
    (l.takeD n d).getD i d = l.getD i d := by
  induction n generalizing l i with
  | zero => omega
  | succ n ih =>
    rw [List.takeD_succ]
    cases i with
    | zero => cases l <;> rfl
    | succ i =>
      rw [List.getD_cons_succ, ih _ (Nat.lt_of_succ_lt_succ h)]
      cases l <;> rfl

/-- A cell that a resize keeps keeps its content. -/
theorem cell_resize (hrow : row < rows) (hcolumn : column < columns) :
    (g.resize d rows columns).cell d row column = g.cell d row column := by
  have hlen : row < (g.takeD rows []).length := by rwa [List.takeD_length]
  have hget : (g.resize d rows columns).getD row [] = (g.getD row []).takeD columns d := by
    rw [resize, List.getD_eq_getElem _ _ (by rwa [List.length_map]), List.getElem_map,
      ← List.getD_eq_getElem _ [] hlen, getD_takeD _ _ hrow]
  rw [cell, hget, getD_takeD _ _ hcolumn]
  rfl

/-- A cell with a content of its own is in the grid. -/
theorem Shape.cell_lt (h : Shape g rows columns) (hcell : g.cell d row column ≠ d) :
    row < rows ∧ column < columns := by
  have hrow : row < g.length := by
    by_contra hr
    rw [cell, List.getD_eq_default _ _ (Nat.le_of_not_lt hr), List.getD_nil] at hcell
    exact hcell rfl
  have hcolumn : column < g[row].length := by
    by_contra hc
    rw [cell, List.getD_eq_getElem _ _ hrow,
      List.getD_eq_default _ _ (Nat.le_of_not_lt hc)] at hcell
    exact hcell rfl
  rw [h.row _ (List.getElem_mem hrow)] at hcolumn
  exact ⟨h.length ▸ hrow, hcolumn⟩

theorem getD_setCell (g : Grid β) (b : β) (row column row' : ℕ) :
    (g.setCell row column b).getD row' [] =
      if row = row' then (g.getD row' []).set column b else g.getD row' [] := by
  by_cases hr : row' < g.length
  · have hr' : row' < (g.setCell row column b).length := by rwa [setCell, List.length_modify]
    rw [List.getD_eq_getElem _ _ hr', List.getD_eq_getElem _ _ hr]
    exact List.getElem_modify ..
  · have hr' : (g.setCell row column b).length ≤ row' := by
      rw [setCell, List.length_modify]
      omega
    rw [List.getD_eq_default _ _ hr', List.getD_eq_default _ _ (Nat.le_of_not_lt hr), List.set_nil,
      ite_self]

theorem cell_setCell_self (h : Shape g rows columns) (hrow : row < rows)
    (hcolumn : column < columns) : (g.setCell row column b).cell d row column = b := by
  have hr : row < g.length := h.length ▸ hrow
  have hc : column < (g.getD row []).length := by
    rw [List.getD_eq_getElem _ _ hr]
    rwa [h.row _ (List.getElem_mem hr)]
  rw [cell, getD_setCell, if_pos rfl, List.getD_eq_getElem _ _ (by rwa [List.length_set]),
    List.getElem_set_self]

theorem cell_setCell_of_ne (h : row' ≠ row ∨ column' ≠ column) :
    (g.setCell row column b).cell d row' column' = g.cell d row' column' := by
  rw [cell, getD_setCell]
  split_ifs with heq
  · have hne : column' ≠ column := h.resolve_left fun hn => hn heq.symm
    rw [List.getD_eq_getElem?_getD, List.getElem?_set_ne hne.symm, ← List.getD_eq_getElem?_getD]
    rfl
  · rfl

end Cells

/-! ## Entries -/

/-- The entries that are present, row by row. -/
def entries (g : Grid (Option α)) : List α := g.flatten.reduceOption

variable {g : Grid (Option α)} {a : α} {rows columns row column : ℕ}

theorem mem_entries : a ∈ g.entries ↔ ∃ l ∈ g, some a ∈ l := by
  rw [entries, List.reduceOption_mem_iff, List.mem_flatten]

theorem entries_append (g h : Grid (Option α)) : entries (g ++ h) = g.entries ++ h.entries := by
  rw [entries, List.flatten_append, List.reduceOption_append]
  rfl

theorem entries_cons (l : List (Option α)) (g : Grid (Option α)) :
    entries (l :: g) = l.reduceOption ++ g.entries := by
  rw [entries, List.flatten_cons, List.reduceOption_append]
  rfl

theorem entries_map (f : List (Option α) → List (Option α)) (g : Grid (Option α)) :
    entries (g.map f) = g.flatMap fun l => (f l).reduceOption := by
  induction g with
  | nil => rfl
  | cons l g ih => rw [List.map_cons, entries_cons, List.flatMap_cons, ih]

/-- The entries are the contents of the cells. -/
theorem mem_entries_iff_cell : a ∈ g.entries ↔ ∃ row column, g.cell none row column = some a := by
  rw [mem_entries]
  constructor
  · rintro ⟨l, hl, ha⟩
    obtain ⟨row, hrow, rfl⟩ := List.getElem_of_mem hl
    obtain ⟨column, hcolumn, hcell⟩ := List.getElem_of_mem ha
    refine ⟨row, column, ?_⟩
    rw [cell, List.getD_eq_getElem _ _ hrow, List.getD_eq_getElem _ _ hcolumn, hcell]
  · rintro ⟨row, column, hcell⟩
    by_cases hrow : row < g.length
    · rw [cell, List.getD_eq_getElem _ _ hrow] at hcell
      by_cases hcolumn : column < g[row].length
      · rw [List.getD_eq_getElem _ _ hcolumn] at hcell
        exact ⟨g[row], List.getElem_mem hrow, hcell ▸ List.getElem_mem hcolumn⟩
      · rw [List.getD_eq_default _ _ (Nat.le_of_not_lt hcolumn)] at hcell
        cases hcell
    · rw [cell, List.getD_eq_default _ _ (Nat.le_of_not_lt hrow), List.getD_nil] at hcell
      cases hcell

theorem reduceOption_cons (b : Option α) (l : List (Option α)) :
    (b :: l).reduceOption = b.toList ++ l.reduceOption := by
  rw [← List.singleton_append, List.reduceOption_append, List.reduceOption_singleton]

/-- A row with one cell assigned. -/
theorem reduceOption_set (l : List (Option α)) (hi : column < l.length) (b : Option α) :
    ((l.set column b).reduceOption ++ l[column].toList).Perm (b.toList ++ l.reduceOption) := by
  induction l generalizing column with
  | nil => exact absurd hi (Nat.not_lt_zero _)
  | cons c l ih =>
    cases column with
    | zero =>
      rw [List.set_cons_zero, List.getElem_cons_zero, reduceOption_cons, reduceOption_cons,
        List.append_assoc]
      exact List.perm_append_comm.append_left _
    | succ column =>
      rw [List.set_cons_succ, List.getElem_cons_succ, reduceOption_cons, reduceOption_cons,
        List.append_assoc]
      refine ((ih (Nat.lt_of_succ_lt_succ hi)).append_left _).trans ?_
      rw [← List.append_assoc, ← List.append_assoc]
      exact List.perm_append_comm.append_right _

/-- The entry assigned comes in and the one that it replaces goes out. -/
theorem entries_setCell (h : Shape g rows columns) (hrow : row < rows) (hcolumn : column < columns)
    (b : Option α) :
    ((g.setCell row column b).entries ++ (g.cell none row column).toList).Perm
      (b.toList ++ g.entries) := by
  have hr : row < g.length := h.length ▸ hrow
  have hc : column < g[row].length := by rwa [h.row _ (List.getElem_mem hr)]
  have hcell : g.cell none row column = g[row][column] := by
    rw [cell, List.getD_eq_getElem _ _ hr, List.getD_eq_getElem _ _ hc]
  have hset : g.setCell row column b =
      g.take row ++ g[row].set column b :: g.drop (row + 1) := by
    rw [setCell, List.modify_eq_take_cons_drop hr]
  have hentries : g.entries =
      entries (g.take row) ++ (g[row].reduceOption ++ entries (g.drop (row + 1))) := by
    rw [← entries_cons, ← entries_append, List.getElem_cons_drop, List.take_append_drop]
  rw [hset, hcell, hentries, entries_append, entries_cons, List.append_assoc]
  have hp := reduceOption_set g[row] hc b
  generalize g[row].reduceOption = old at *
  generalize (g[row].set column b).reduceOption = new at *
  generalize entries (g.take row) = before
  generalize entries (g.drop (row + 1)) = after
  calc before ++ (new ++ after ++ g[row][column].toList)
      _ |>.Perm (before ++ (new ++ g[row][column].toList ++ after)) := by
        rw [List.append_assoc, List.append_assoc]
        exact (List.perm_append_comm.append_left _).append_left _
      _ |>.Perm (before ++ (b.toList ++ old ++ after)) := (hp.append_right _).append_left _
      _ |>.Perm (b.toList ++ (before ++ (old ++ after))) := by
        rw [List.append_assoc, ← List.append_assoc, ← List.append_assoc b.toList]
        exact List.perm_append_comm.append_right _

/-! ## The entries after a resize -/

theorem reduceOption_takeD (l : List (Option α)) (n : ℕ) :
    (l.takeD n none).reduceOption = (l.take n).reduceOption := by
  induction n generalizing l with
  | zero => rfl
  | succ n ih =>
    rw [List.takeD_succ, reduceOption_cons]
    cases l with
    | nil =>
      rw [List.take_nil]
      exact (ih []).trans (congrArg _ (List.take_nil ..))
    | cons c l =>
      rw [List.take_succ_cons, reduceOption_cons]
      exact congrArg _ (ih l)

/-- The cells that a resize adds are empty. -/
theorem entries_resize_eq (g : Grid (Option α)) (rows columns : ℕ) :
    (g.resize none rows columns).entries = entries ((g.take rows).map fun l => l.take columns) := by
  induction rows generalizing g with
  | zero => rfl
  | succ rows ih =>
    rw [resize, List.takeD_succ, List.map_cons, entries_cons, reduceOption_takeD]
    cases g with
    | nil =>
      have hrest := ih []
      rw [List.take_nil] at hrest ⊢
      rw [show ([] : Grid (Option α)).head?.getD [] = [] from rfl, List.take_nil]
      exact hrest
    | cons l g =>
      rw [List.take_succ_cons, List.map_cons, entries_cons]
      exact congrArg _ (ih g)

/-- A resize keeps the entries of the cells that stay, and leaves those of the rows that are cut off
and, in the rows that stay, those of the columns that are cut off. -/
theorem entries_resize (g : Grid (Option α)) (rows columns : ℕ) :
    ((g.resize none rows columns).entries ++ (entries (g.drop rows) ++
      entries ((g.take rows).map fun l => l.drop columns))).Perm g.entries := by
  have hrows : g.entries = entries (g.take rows) ++ entries (g.drop rows) := by
    rw [← entries_append, List.take_append_drop]
  have hcolumns : (entries ((g.take rows).map fun l => l.take columns) ++
      entries ((g.take rows).map fun l => l.drop columns)).Perm (entries (g.take rows)) := by
    have hkept : entries (g.take rows) =
        (g.take rows).flatMap fun l => (l.take columns).reduceOption ++
          (l.drop columns).reduceOption := by
      rw [← List.map_id (g.take rows), entries_map, List.map_id]
      refine List.flatMap_congr fun l _ => ?_
      rw [← List.reduceOption_append, List.take_append_drop]
      rfl
    rw [entries_map, entries_map, hkept]
    exact List.flatMap_append_perm _ _ _
  rw [entries_resize_eq, hrows]
  refine (List.perm_append_comm.append_left _).trans ?_
  rw [← List.append_assoc]
  exact hcolumns.append_right _

end Grid
