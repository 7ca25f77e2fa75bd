import DreamDota.Interface.Table
import DreamDota.Units.GroupUnits

/-!
# The production panel

`InformationPanel.cpp`: a row of the panel shows what the units of one player produce, with one icon
for each type of building under construction, of upgrade and of unit or research in a queue. The
units come in groups by `GroupUnits`, and each of three loops takes a group out and shows its icon,
until nothing is left. Tags and corners are left out.

`RefreshOk` is what a refresh is to show. `Arranged` is what the panel keeps; the casts of
`getElement` are right then.
-/

namespace DreamDota

open Classes UnitGroup

inductive ProgressIconRefreshType where
  | typeConstruction
  | typeUpgrade
  | typeQueue
  deriving DecidableEq, Repr

structure ProgressIcon where
  refreshType : ProgressIconRefreshType
  units : UnitGroup
  clickerJumpGroup : UnitGroup
  id : BitVec 32
  idIndex : BitVec 32

/-- What is in the cells of the panel. -/
inductive PanelElement where
  | raceIcon (playerNumber : ℕ)
  | progressIcon (icon : ProgressIcon)

def PanelElement.isRaceIcon : PanelElement → Bool
  | .raceIcon _ => true
  | .progressIcon _ => false

/-- The panel and the elements that have been made for it, by their numbers. -/
structure ProductionPanel where
  table : Table
  made : List PanelElement

namespace ProductionPanel

variable (B : SearchTree.Balancing UnitHandle) (game : GameUnits)

/-! ## The code -/

/-- The table of a new game. -/
def new (rowCount columnCount : ℕ) : ProductionPanel := ⟨Table.new rowCount columnCount, []⟩

/-- `ProductionPanel->setRowColumnCount`. -/
def setRowColumnCount (panel : ProductionPanel) (rowCount columnCount : ℕ) : ProductionPanel :=
  { panel with table := panel.table.setRowColumnCount rowCount columnCount }

/-- `getElement`. -/
def getElement (panel : ProductionPanel) (row column : ℕ) : Option Element :=
  if panel.table.InRange row column then panel.table.element row column else none

/-- A new element is made and handed to `setElement`. -/
def setNew (panel : ProductionPanel) (row column : ℕ) (e : PanelElement) (passiveHeight : Bool) :
    ProductionPanel where
  table := panel.table.setElement row column (some panel.made.length) passiveHeight
  made := panel.made ++ [e]

/-- `raceIcon->player()`. -/
def player (panel : ProductionPanel) (e : Element) : Option ℕ :=
  match panel.made[e]? with
  | some (.raceIcon playerNumber) => some playerNumber
  | _ => none

/-- The first column. -/
def showRaceIcon (panel : ProductionPanel) (row player : ℕ) : ProductionPanel :=
  match panel.getElement row 0 with
  | some raceIcon =>
    if panel.player raceIcon = some player then panel
    else panel.setNew row 0 (.raceIcon player) true
  | none => panel.setNew row 0 (.raceIcon player) true

/-- `ProgressIcon::ProgressIcon`. -/
def newProgressIcon : ProgressIcon :=
  ⟨.typeQueue, UnitGroup.new game.priorities, UnitGroup.new game.priorities, 0, 0xFFFFFFFF⟩

/-- The icon of a column, which is made if there is none, is assigned, and the column is the next
one. -/
def showIcon (row : ℕ) (icon : ProgressIcon) (s : ProductionPanel × ℕ) : ProductionPanel × ℕ :=
  match s.1.getElement row s.2 with
  | some e => ({ s.1 with made := s.1.made.set e (.progressIcon icon) }, s.2 + 1)
  | none =>
    let e := s.1.made.length
    let panel := s.1.setNew row s.2 (.progressIcon (newProgressIcon game)) false
    ({ panel with made := panel.made.set e (.progressIcon icon) }, s.2 + 1)

/-- What is assigned to the icon of a group. -/
def groupIcon (refreshType : ProgressIconRefreshType) (g : UnitGroup) (id idIndex : BitVec 32) :
    ProgressIcon :=
  ⟨refreshType, UnitGroup.copy B g, UnitGroup.copy B g, id, idIndex⟩

/-- `getUnit(0)->typeId()`. -/
def firstType (g : UnitGroup) : BitVec 32 := (g.getUnit 0).elim 0 game.getUnitTypeId

/-- The group of a building under construction. -/
def pickConstruction (units : UnitGroup) : UnitGroup × BitVec 32 :=
  let g := game.groupUnits B (some units) (firstType game units) PlayerGroup.all none
    UnitFilter.empty 0
  (g, firstType game g)

/-- The scan for the units with the type of the first one. -/
def pickType (typeOf : UnitHandle → BitVec 32) (units : UnitGroup) : UnitGroup × BitVec 32 :=
  match units.members with
  | [] => (UnitGroup.new game.priorities, 0)
  | first :: rest =>
    let add (g : UnitGroup) (u : UnitHandle) :=
      if typeOf u = typeOf first then g.add B (some u) else g
    (rest.foldl add ((UnitGroup.new game.priorities).add B (some first)), typeOf first)

def showConstruction (row : ℕ) (g : UnitGroup × BitVec 32) :
    ProductionPanel × ℕ → ProductionPanel × ℕ :=
  showIcon game row (groupIcon B .typeConstruction g.1 g.2 0)

def showUpgrade (row : ℕ) (g : UnitGroup × BitVec 32) : ProductionPanel × ℕ → ProductionPanel × ℕ :=
  showIcon game row (groupIcon B .typeUpgrade g.1 g.2 0)

def showQueue (row player : ℕ) (g : UnitGroup × BitVec 32) (s : ProductionPanel × ℕ) :
    ProductionPanel × ℕ :=
  if g.2 ≠ 0 then
    showIcon game row (groupIcon B .typeQueue g.1 g.2 (game.getPlayerTechCount player g.2)) s
  else s

/-- The columns from one on are set to `NULL`. -/
def clearFrom (panel : ProductionPanel) (row column : ℕ) : ProductionPanel :=
  { panel with
    table := (List.range' column (panel.table.columnCount - column)).foldl
      (fun table i => table.setElement row i none false) panel.table }

/-- The units of a player with a property. -/
def playerGroup (playerUnits : UnitGroup) (flag : UnitFilter.UnitFlag) : UnitGroup :=
  game.groupUnits B (some playerUnits) 0 PlayerGroup.all none
    (UnitFilter.of [flag] [] UnitFilter.playerAny) 0

/-- `RefreshProductionContent` for the units of a player, with the column after the last icon.
`fuel` bounds the turns of each of the loops. -/
def refreshProductionContent (fuel row player : ℕ) (playerUnits : UnitGroup)
    (panel : ProductionPanel) : Option (ProductionPanel × ℕ) :=
  let panel := panel.showRaceIcon row player
  let playerConstructions := playerGroup B game playerUnits .underConstruction
  let playerUpgrades := playerGroup B game playerUnits .underUpgrade
  let playerQueues := playerGroup B game playerUnits .underQueue
  let panel := panel.setRowColumnCount panel.table.rowCount (max panel.table.columnCount
    (1 + playerConstructions.size + playerUpgrades.size + playerQueues.size))
  do
    let s ← GameUnits.drain B (pickConstruction B game) (showConstruction B game row) fuel
      playerConstructions (panel, 1)
    let s ← GameUnits.drain B (pickType B game game.upgradeType) (showUpgrade B game row) fuel
      playerUpgrades s
    let s ← GameUnits.drain B (pickType B game game.queueType) (showQueue B game row player) fuel
      playerQueues s
    some (s.1.clearFrom row s.2, s.2)

/-- `ProductionPanelPlayerUnits`, which `RefreshProduction` fills with the units by their owners. -/
def productionPanelPlayerUnits (productionUnits : UnitGroup) : ℕ → UnitGroup :=
  productionUnits.members.foldl (fun groups unit =>
    let owner := (game.answers unit).owner.toNat
    if owner < 16 then Function.update groups owner ((groups owner).add B (some unit)) else groups)
    fun _ => UnitGroup.new game.priorities

/-- The panels of a game. -/
inductive Reachable : ProductionPanel → Prop
  | new (rowCount columnCount : ℕ) : Reachable (new rowCount columnCount)
  | setRowColumnCount {panel : ProductionPanel} (h : Reachable panel) (rowCount columnCount : ℕ) :
    Reachable (panel.setRowColumnCount rowCount columnCount)
  | refresh {panel : ProductionPanel} (h : Reachable panel) (game : GameUnits)
    (fuel row player : ℕ) (playerUnits : UnitGroup) {panel' : ProductionPanel} {column : ℕ}
    (hrun : panel.refreshProductionContent B game fuel row player playerUnits =
      some (panel', column)) : Reachable panel'

/-! ## What a refresh is to show -/

/-- The icon in a cell. -/
def iconAt (panel : ProductionPanel) (row column : ℕ) : Option ProgressIcon :=
  (panel.getElement row column).bind fun e =>
    match panel.made[e]? with
    | some (.progressIcon icon) => some icon
    | _ => none

/-- The unit is in the group of the icon of a column. -/
def ShownAt (panel : ProductionPanel) (row : ℕ) (kind : ProgressIconRefreshType) (column : ℕ)
    (unit : UnitHandle) : Prop :=
  ∃ icon, panel.iconAt row column = some icon ∧ icon.refreshType = kind ∧ unit ∈ icon.units.members

/-- The icons of one kind are a partition of the units by type. -/
structure KindOk (panel : ProductionPanel) (row : ℕ) (kind : ProgressIconRefreshType)
    (units : UnitHandle → Prop) (typeOf : UnitHandle → BitVec 32) : Prop where
  unique : ∀ unit, units unit → ∃! column, panel.ShownAt row kind column unit
  only : ∀ column unit, panel.ShownAt row kind column unit → units unit
  share : ∀ unit unit', units unit → units unit' →
    ((∃ column, panel.ShownAt row kind column unit ∧ panel.ShownAt row kind column unit') ↔
      typeOf unit = typeOf unit')

/-- The unit has a property without regard to a player. -/
def IsUnder (flag : UnitFilter.UnitFlag) (unit : UnitHandle) : Prop :=
  UnitFilter.holds game.players (game.answers unit) UnitFilter.playerAny flag = true

/-- What the row of a player shows after a refresh that ended at a column. -/
structure RefreshOk (playerUnits : UnitGroup) (row : ℕ) (s : ProductionPanel × ℕ) : Prop where
  construction : s.1.KindOk row .typeConstruction
    (fun unit => unit ∈ playerUnits.members ∧ IsUnder game .underConstruction unit)
    game.getUnitTypeId
  upgrade : s.1.KindOk row .typeUpgrade
    (fun unit => unit ∈ playerUnits.members ∧ IsUnder game .underUpgrade unit) game.upgradeType
  queue : s.1.KindOk row .typeQueue
    (fun unit => unit ∈ playerUnits.members ∧ game.queueType unit ≠ 0) game.queueType
  nonzero : ∀ column icon, s.1.iconAt row column = some icon → icon.refreshType = .typeQueue →
    icon.id ≠ 0
  shown : ∀ column, (s.1.iconAt row column).isSome ↔ 1 ≤ column ∧ column < s.2
  inTable : s.2 ≤ s.1.table.columnCount
  null : ∀ column, s.2 ≤ column → s.1.table.element row column = none

/-! ## What the panel keeps -/

variable {B game} {panel : ProductionPanel} {row column rowCount columnCount : ℕ} {e : Element}
  {icon : ProgressIcon}

/-- No element is in two cells, and the race icons are those of the first column. -/
structure Arranged (panel : ProductionPanel) : Prop where
  shaped : panel.table.Shaped
  distinct : ∀ row column row' column' e, panel.table.element row column = some e →
    panel.table.element row' column' = some e → row' = row ∧ column' = column
  kind : ∀ row column e, panel.table.element row column = some e →
    panel.made[e]?.map PanelElement.isRaceIcon = some (decide (column = 0))

/-- The elements in the cells have been made. -/
theorem Arranged.lt (h : Arranged panel) (he : panel.table.element row column = some e) :
    e < panel.made.length := by
  by_contra hge
  have hkind := h.kind row column e he
  rw [List.getElem?_eq_none (Nat.le_of_not_lt hge)] at hkind
  cases hkind

theorem Arranged.getElement_eq (h : Arranged panel) (row column : ℕ) :
    panel.getElement row column = panel.table.element row column := by
  unfold getElement
  split_ifs with hin
  · rfl
  · exact (Option.eq_none_iff_forall_not_mem.mpr fun e he => hin (h.shaped.inRange he)).symm

theorem arranged_new (rowCount columnCount : ℕ) : Arranged (new rowCount columnCount) := by
  have hshaped := Table.shaped_new rowCount columnCount
  have hnone {row column : ℕ} {e : Element} :
      (Table.new rowCount columnCount).element row column ≠ some e := by
    intro he
    have hin := hshaped.inRange he
    rw [Table.new_eq] at hin
    exact Nat.not_lt_zero _ hin.1
  exact ⟨hshaped, fun _ _ _ _ _ he => absurd he hnone, fun _ _ _ he => absurd he hnone⟩

theorem Arranged.setRowColumnCount (h : Arranged panel) (rowCount columnCount : ℕ) :
    Arranged (panel.setRowColumnCount rowCount columnCount) where
  shaped := h.shaped.setRowColumnCount rowCount columnCount
  distinct row column row' column' e he he' := h.distinct row column row' column' e
    (h.shaped.element_of_setRowColumnCount he) (h.shaped.element_of_setRowColumnCount he')
  kind row column e he := h.kind row column e (h.shaped.element_of_setRowColumnCount he)

/-- An element that is made for a cell. -/
theorem Arranged.setNew (h : Arranged panel) {x : PanelElement} {f : Bool}
    (hx : x.isRaceIcon = decide (column = 0)) : Arranged (panel.setNew row column x f) := by
  have hold {row' column' : ℕ} {e : Element} (he : panel.table.element row' column' = some e) :
      (panel.made ++ [x])[e]?.map PanelElement.isRaceIcon = some (decide (column' = 0)) := by
    rw [List.getElem?_append_left (h.lt he)]
    exact h.kind row' column' e he
  by_cases hin : panel.table.InRange row column
  · have helement := h.shaped.element_setElement hin (some panel.made.length) f
    refine ⟨h.shaped.setElement .., fun r c r' c' e he he' => ?_, fun r c e he => ?_⟩
    · rw [ProductionPanel.setNew, helement] at he he'
      split_ifs at he he' with hc hc' hc'
      · exact ⟨hc'.1.trans hc.1.symm, hc'.2.trans hc.2.symm⟩
      · obtain rfl := Option.some.inj he
        exact absurd (h.lt he') (Nat.lt_irrefl _)
      · obtain rfl := Option.some.inj he'
        exact absurd (h.lt he) (Nat.lt_irrefl _)
      · exact h.distinct r c r' c' e he he'
    · rw [ProductionPanel.setNew, helement] at he
      split_ifs at he with hc
      · obtain rfl := Option.some.inj he
        rw [ProductionPanel.setNew, List.getElem?_concat_length, Option.map_some, hx, hc.2]
      · exact hold he
  · have hsame : panel.table.setElement row column (some panel.made.length) f = panel.table := by
      rw [Table.setElement, if_neg hin]
    refine ⟨?_, ?_, ?_⟩
    · rw [ProductionPanel.setNew, hsame]
      exact h.shaped
    · rw [ProductionPanel.setNew, hsame]
      exact h.distinct
    · rw [ProductionPanel.setNew, hsame]
      exact fun r c e he => hold he

/-- The assignment to an icon that is not in the first column. -/
theorem Arranged.assign (h : Arranged panel)
    (he : ∀ row column, panel.table.element row column = some e → column ≠ 0) :
    Arranged { panel with made := panel.made.set e (.progressIcon icon) } where
  shaped := h.shaped
  distinct := h.distinct
  kind row column e' he' := by
    by_cases heq : e = e'
    · subst heq
      rw [List.getElem?_set_self (h.lt he'), Option.map_some, decide_eq_false (he row column he')]
      rfl
    · rw [List.getElem?_set_ne heq]
      exact h.kind row column e' he'

theorem Arranged.showRaceIcon (h : Arranged panel) (row player : ℕ) :
    Arranged (panel.showRaceIcon row player) := by
  unfold ProductionPanel.showRaceIcon
  split
  · split_ifs
    · exact h
    · exact h.setNew rfl
  · exact h.setNew rfl

theorem counts_showRaceIcon (panel : ProductionPanel) (row player : ℕ) :
    (panel.showRaceIcon row player).table.rowCount = panel.table.rowCount := by
  unfold ProductionPanel.showRaceIcon
  split
  · split_ifs
    · rfl
    · exact Table.rowCount_setElement ..
  · exact Table.rowCount_setElement ..

theorem Arranged.showIcon {s : ProductionPanel × ℕ} (h : Arranged s.1) (hcolumn : s.2 ≠ 0)
    (row : ℕ) (icon : ProgressIcon) : Arranged (showIcon game row icon s).1 := by
  unfold ProductionPanel.showIcon
  split
  · rename_i e he
    rw [h.getElement_eq] at he
    exact h.assign fun row' column' he' => (h.distinct _ _ _ _ e he he').2 ▸ hcolumn
  · rename_i he
    have hnew : Arranged (s.1.setNew row s.2 (.progressIcon (newProgressIcon game)) false) :=
      h.setNew (decide_eq_false hcolumn).symm
    refine hnew.assign fun row' column' he' => ?_
    have hkind := hnew.kind row' column' _ he'
    rw [ProductionPanel.setNew, List.getElem?_concat_length, Option.map_some,
      Option.some_inj] at hkind
    exact of_decide_eq_false hkind.symm

variable (game) in
theorem counts_showIcon (row : ℕ) (icon : ProgressIcon) (s : ProductionPanel × ℕ) :
    (showIcon game row icon s).1.table.rowCount = s.1.table.rowCount ∧
      (showIcon game row icon s).1.table.columnCount = s.1.table.columnCount ∧
      (showIcon game row icon s).2 = s.2 + 1 := by
  unfold showIcon
  split
  · exact ⟨rfl, rfl, rfl⟩
  · exact ⟨Table.rowCount_setElement .., Table.columnCount_setElement .., rfl⟩

/-- The icon is in its column, and the other columns show what they did. -/
theorem iconAt_showIcon {s : ProductionPanel × ℕ} (h : Arranged s.1) (hcolumn : s.2 ≠ 0)
    (hin : s.1.table.InRange row s.2) (column : ℕ) :
    (showIcon game row icon s).1.iconAt row column =
      if column = s.2 then some icon else s.1.iconAt row column := by
  have harranged : Arranged (showIcon game row icon s).1 := h.showIcon hcolumn row icon
  unfold iconAt
  rw [harranged.getElement_eq, h.getElement_eq]
  unfold showIcon
  cases he : s.1.getElement row s.2 with
  | some e =>
    have hcell := h.getElement_eq row s.2 ▸ he
    split_ifs with hc
    · rw [hc, hcell, Option.bind_some, List.getElem?_set_self (h.lt hcell)]
    · cases he' : s.1.table.element row column with
      | none => rfl
      | some e' =>
        have hne : e ≠ e' := by
          rintro rfl
          exact hc (h.distinct _ _ _ _ e hcell he').2
        rw [Option.bind_some, Option.bind_some, List.getElem?_set_ne hne]
  | none =>
    show ((s.1.table.setElement row s.2 (some s.1.made.length) false).element row column).bind _ = _
    rw [h.shaped.element_setElement hin]
    split_ifs with hc hc' hc'
    · rw [Option.bind_some, List.getElem?_set_self (by simp [ProductionPanel.setNew])]
    · exact absurd hc.2 hc'
    · exact absurd ⟨rfl, hc'⟩ hc
    · cases he' : s.1.table.element row column with
      | none => rfl
      | some e' =>
        have hlt := h.lt he'
        rw [Option.bind_some, Option.bind_some, List.getElem?_set_ne (Nat.ne_of_gt hlt),
          ProductionPanel.setNew, List.getElem?_append_left hlt]

/-- What every icon that is shown keeps, the body of each loop keeps. -/
theorem body_induction (I : ProductionPanel × ℕ → Prop) (row player : ℕ)
    (hshow : ∀ icon s, I s → I (showIcon game row icon s)) (g : UnitGroup × BitVec 32)
    {s : ProductionPanel × ℕ} (hs : I s) : I (showConstruction B game row g s) ∧
      I (showUpgrade B game row g s) ∧ I (showQueue B game row player g s) := by
  refine ⟨hshow _ _ hs, hshow _ _ hs, ?_⟩
  unfold showQueue
  split_ifs
  · exact hshow _ _ hs
  · exact hs

theorem clearFrom_induction (I : Table → Prop)
    (hset : ∀ t i, I t → I (t.setElement row i none false)) (h : I panel.table) :
    I (panel.clearFrom row column).table := by
  unfold clearFrom
  generalize List.range' column (panel.table.columnCount - column) = columns
  show I (columns.foldl _ panel.table)
  generalize panel.table = t at h
  induction columns generalizing t with
  | nil => exact h
  | cons i columns ih => exact ih _ (hset t i h)

theorem Arranged.setElement_none (h : Arranged panel) (row column : ℕ) :
    Arranged { panel with table := panel.table.setElement row column none false } := by
  have hold {row' column' : ℕ} {e : Element}
      (he : (panel.table.setElement row column none false).element row' column' = some e) :
      panel.table.element row' column' = some e := by
    by_cases hin : panel.table.InRange row column
    · rw [h.shaped.element_setElement hin] at he
      split_ifs at he
      exact he
    · rwa [Table.setElement, if_neg hin] at he
  exact ⟨h.shaped.setElement .., fun _ _ _ _ _ he he' => h.distinct _ _ _ _ _ (hold he) (hold he'),
    fun _ _ _ he => h.kind _ _ _ (hold he)⟩

theorem Arranged.clearFrom (h : Arranged panel) (row column : ℕ) :
    Arranged (panel.clearFrom row column) := by
  refine clearFrom_induction (fun t => Arranged { panel with table := t }) (fun t i ht => ?_) h
  exact ht.setElement_none row i

/-- Every panel of a game is arranged. -/
theorem Reachable.arranged (h : Reachable B panel) : Arranged panel := by
  induction h with
  | new rowCount columnCount => exact arranged_new rowCount columnCount
  | setRowColumnCount h rowCount columnCount ih => exact ih.setRowColumnCount rowCount columnCount
  | @refresh panel h game fuel row player playerUnits panel' column hrun ih =>
    let I (s : ProductionPanel × ℕ) : Prop := Arranged s.1 ∧ s.2 ≠ 0
    have hshow : ∀ icon s, I s → I (showIcon game row icon s) := fun icon s hs =>
      ⟨hs.1.showIcon hs.2 row icon, (counts_showIcon game row icon s).2.2 ▸ Nat.succ_ne_zero _⟩
    have hbody (g : UnitGroup × BitVec 32) (s : ProductionPanel × ℕ) (hs : I s) :=
      body_induction (B := B) I row player hshow g hs
    have hstart (rows columns : ℕ) :
        I ((panel.showRaceIcon row player).setRowColumnCount rows columns, 1) :=
      ⟨(ih.showRaceIcon row player).setRowColumnCount rows columns, Nat.one_ne_zero⟩
    simp only [refreshProductionContent, Option.bind_eq_bind, Option.bind_eq_some_iff,
      Option.some_inj] at hrun
    obtain ⟨s₁, h₁, s₂, h₂, s₃, h₃, heq⟩ := hrun
    have hs₁ : I s₁ := GameUnits.drain_induction I (fun g s hs => (hbody g s hs).1)
      (hstart _ _) h₁
    have hs₂ : I s₂ := GameUnits.drain_induction I (fun g s hs => (hbody g s hs).2.1) hs₁ h₂
    have hs₃ : I s₃ := GameUnits.drain_induction I (fun g s hs => (hbody g s hs).2.2) hs₂ h₃
    rw [← (Prod.mk.inj heq).1]
    exact hs₃.1.clearFrom row s₃.2

end ProductionPanel

end DreamDota
