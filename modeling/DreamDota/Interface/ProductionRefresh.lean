import DreamDota.Interface.ProductionPanel

/-!
# The refresh of the production panel

1. The groups that the loops pick are the units with the type of the first one.
2. `Shows.drain`: a loop shows the classes of its units by type, one after the other.
3. `production_partition`: what a refresh shows.
-/

namespace DreamDota

open Classes UnitGroup

namespace ProductionPanel

/-! ## The groups -/

variable {B : SearchTree.Balancing UnitHandle} {game : GameUnits} {panel : ProductionPanel}
  {playerUnits units : UnitGroup} {flag : UnitFilter.UnitFlag} {unit : UnitHandle}
  {typeOf : UnitHandle → BitVec 32} {row rows columns : ℕ} {icons : List ProgressIcon}
  {s : ProductionPanel × ℕ}

theorem firstType_eq {a : UnitHandle} {l : List UnitHandle} (h : units.members = a :: l) :
    firstType game units = game.getUnitTypeId a := by
  rw [firstType, UnitGroup.getUnit, h]
  rfl

/-- The first loop picks the units with the type of the first one. -/
theorem picks_construction : game.Picks
    (fun unit => game.getUnitTypeId unit ≠ 0 ∧ (game.answers unit).owner.toNat < 16)
    game.getUnitTypeId (pickConstruction B game) := by
  intro units a l h hp hm
  have hmembers : (pickConstruction B game units).1.members =
      a :: withKey game.getUnitTypeId a l := by
    rw [pickConstruction, GameUnits.members_groupUnits h, firstType_eq hm, hm, ← withKey_cons_self]
    refine List.filter_congr fun unit hunit => ?_
    obtain ⟨-, howner⟩ := hp unit (hm ▸ hunit)
    have hne : (game.getUnitTypeId a == 0) = false :=
      beq_eq_false_iff_ne.mpr (hp a (hm ▸ List.mem_cons_self)).1
    rw [GameUnits.isMatched_all howner, hne, Bool.false_or, beq_self_eq_true, Bool.true_or,
      Bool.and_true, Bool.eq_iff_iff, beq_iff_eq, decide_eq_true_iff]
    exact eq_comm
  exact ⟨GameUnits.inOrder_groupUnits, hmembers, firstType_eq hmembers⟩

/-- So do the scans. -/
theorem picks_type (typeOf : UnitHandle → BitVec 32) :
    game.Picks (fun _ => True) typeOf (pickType B game typeOf) := by
  intro units a l h _ hm
  have hstart : game.InOrder ((UnitGroup.new game.priorities).add B (some a)) :=
    GameUnits.inOrder_new.add (some a)
  have hpick : pickType B game typeOf units = (((UnitGroup.new game.priorities).add B
      (some a)).addAll B (withKey typeOf a l), typeOf a) := by
    rw [pickType, hm, UnitGroup.addAll, withKey, List.foldl_filter]
    simp only [decide_eq_true_iff]
  have hin : game.InOrder (pickType B game typeOf units).1 := hpick ▸ hstart.addAll _
  refine ⟨hin, ?_, by rw [hpick]⟩
  rw [← withKey_cons_self, withKey, ← hm]
  refine hin.members_eq (h.pairwise_filter _) fun unit => ?_
  have hnew : unit ∉ (UnitGroup.new game.priorities).members := List.not_mem_nil
  rw [hpick, hstart.mem_addAll, GameUnits.inOrder_new.sorted.mem_add, hm, ← withKey,
    withKey_cons_self, List.mem_cons]
  tauto

theorem inOrder_playerGroup : game.InOrder (playerGroup B game playerUnits flag) :=
  GameUnits.inOrder_groupUnits

/-- The units of a player with a property are those that match the filter. -/
theorem mem_playerGroup (h : game.InOrder playerUnits)
    (howner : ∀ unit ∈ playerUnits.members, (game.answers unit).owner.toNat < 16) :
    unit ∈ (playerGroup B game playerUnits flag).members ↔ unit ∈ playerUnits.members ∧
      UnitFilter.filterMatch game.players (game.answers unit)
        (UnitFilter.of [flag] [] UnitFilter.playerAny) = true := by
  have hfilter : (UnitFilter.of [flag] [] UnitFilter.playerAny == UnitFilter.empty) = false := by
    refine beq_eq_false_iff_ne.mpr fun heq => ?_
    have hplayer : UnitFilter.playerAny = 0 := congrArg UnitFilter.player heq
    exact absurd hplayer (by decide)
  rw [playerGroup, GameUnits.members_groupUnits h, List.mem_filter]
  refine and_congr_right fun hunit => ?_
  rw [GameUnits.isMatched_all (howner unit hunit), hfilter, beq_self_eq_true, Bool.true_or,
    Bool.true_and, Bool.false_or]

/-- An existing unit matches a filter for one property, which is not the queue, if it has it. -/
theorem filterMatch_iff_isUnder (hobject : (game.answers unit).object = true)
    (hflag : ¬ flag.Relative) (hqueue : flag ≠ .underQueue) :
    UnitFilter.filterMatch game.players (game.answers unit)
      (UnitFilter.of [flag] [] UnitFilter.playerAny) = true ↔ IsUnder game flag unit := by
  refine Iff.trans ((UnitFilter.filterMatch_iff hobject).mpr fun hrequires => ?_)
    (UnitFilter.matches_require fun hrelative => absurd hrelative hflag)
  rw [UnitFilter.requires_of, decide_eq_true_iff, List.mem_singleton] at hrequires
  exact absurd hrequires.symm hqueue

theorem abilityType_ne_zero {slot : Option (BitVec 32)} (h : GameUnits.abilityType slot ≠ 0) :
    slot ≠ none ∧ slot.any UnitFilter.hasQueue = true := by
  cases slot with
  | none => exact absurd rfl h
  | some typeId =>
    rw [GameUnits.abilityType] at h
    split_ifs at h with hused
    · refine ⟨Option.some_ne_none _, ?_⟩
      rw [Option.any_some, UnitFilter.hasQueue, Bool.and_eq_true, bne_iff_ne, bne_iff_ne]
      exact hused
    · exact absurd rfl h

/-- A unit with a queue type matches the filter for the queue. -/
theorem filterMatch_underQueue (hobject : (game.answers unit).object = true)
    (hqueue : game.queueType unit ≠ 0) :
    UnitFilter.filterMatch game.players (game.answers unit)
      (UnitFilter.of [.underQueue] [] UnitFilter.playerAny) = true := by
  obtain ⟨hsome, hholds⟩ := abilityType_ne_zero hqueue
  refine ((UnitFilter.filterMatch_iff hobject).mpr fun _ => .inl hsome).mpr ?_
  exact (UnitFilter.matches_require fun hrelative =>
    absurd hrelative (by unfold UnitFilter.UnitFlag.Relative; decide)).mpr hholds

/-- The units of the players stand in the order of the priorities and are those of their owners. -/
theorem inOrder_playerUnits (B : SearchTree.Balancing UnitHandle) (game : GameUnits)
    (units : UnitGroup) (player : ℕ) :
    game.InOrder (productionPanelPlayerUnits B game units player) ∧
      ∀ unit, unit ∈ (productionPanelPlayerUnits B game units player).members ↔
        unit ∈ units.members ∧ (game.answers unit).owner.toNat = player ∧ player < 16 := by
  unfold productionPanelPlayerUnits
  induction units.members using List.reverseRecOn with
  | nil => exact ⟨GameUnits.inOrder_new, fun unit => by simp [UnitGroup.new, UnitGroup.members,
      SearchTree.elements]⟩
  | append_singleton l a ih =>
    obtain ⟨hin, hmem⟩ := ih
    rw [List.foldl_append, List.foldl_cons, List.foldl_nil]
    set groups := List.foldl _ _ l
    simp only [List.mem_append, List.mem_singleton]
    split_ifs with howner
    · by_cases hplayer : (game.answers a).owner.toNat = player
      · subst hplayer
        rw [Function.update_self]
        refine ⟨hin.add (some a), fun unit => ?_⟩
        rw [hin.sorted.mem_add, hmem]
        constructor
        · rintro (rfl | ⟨hunit, hrest⟩)
          · exact ⟨.inr rfl, rfl, howner⟩
          · exact ⟨.inl hunit, hrest⟩
        · rintro ⟨hunit | hunit, hrest⟩
          · exact .inr ⟨hunit, hrest⟩
          · exact .inl hunit
      · rw [Function.update_of_ne (Ne.symm hplayer)]
        refine ⟨hin, fun unit => ?_⟩
        rw [hmem]
        constructor
        · exact fun h => ⟨.inl h.1, h.2⟩
        · rintro ⟨hunit | rfl, hrest⟩
          · exact ⟨hunit, hrest⟩
          · exact absurd hrest.1 hplayer
    · refine ⟨hin, fun unit => ?_⟩
      rw [hmem]
      constructor
      · exact fun h => ⟨.inl h.1, h.2⟩
      · rintro ⟨hunit | rfl, rfl, hlt⟩
        · exact ⟨hunit, rfl, hlt⟩
        · exact absurd hlt howner

/-! ## The loops -/

/-- The columns from the second one on show the icons, up to the present column. -/
structure Shows (rows columns row : ℕ) (icons : List ProgressIcon) (s : ProductionPanel × ℕ) :
    Prop where
  arranged : Arranged s.1
  rowCount : s.1.table.rowCount = rows
  columnCount : s.1.table.columnCount = columns
  column : s.2 = icons.length + 1
  icons : ∀ i icon, icons[i]? = some icon → s.1.iconAt row (i + 1) = some icon

theorem Shows.showIcon (h : Shows rows columns row icons s) (hrow : row < rows)
    (hcolumn : icons.length + 1 < columns) (icon : ProgressIcon) :
    Shows rows columns row (icons ++ [icon]) (showIcon game row icon s) := by
  have hne : s.2 ≠ 0 := by rw [h.column]; exact Nat.succ_ne_zero _
  have hin : s.1.table.InRange row s.2 := by
    rw [Table.InRange, h.rowCount, h.columnCount, h.column]
    exact ⟨hrow, hcolumn⟩
  obtain ⟨hrows, hcolumns, hnext⟩ := counts_showIcon game row icon s
  refine ⟨h.arranged.showIcon hne row icon, hrows.trans h.rowCount, hcolumns.trans h.columnCount,
    ?_, fun i icon' hi => ?_⟩
  · rw [hnext, h.column, List.length_append, List.length_singleton]
  · rw [iconAt_showIcon h.arranged hne hin, h.column]
    rcases Nat.lt_trichotomy i icons.length with hlt | rfl | hgt
    · rw [if_neg (by omega)]
      rw [List.getElem?_append_left hlt] at hi
      exact h.icons i icon' hi
    · rw [if_pos rfl]
      rwa [List.getElem?_concat_length] at hi
    · rw [List.getElem?_eq_none (by simp; omega)] at hi
      cases hi

/-- The icon of a group, if there is to be one. -/
def shownIcon (B : SearchTree.Balancing UnitHandle) (kind : ProgressIconRefreshType)
    (wanted : BitVec 32 → Bool) (idIndex : BitVec 32 → BitVec 32) (g : UnitGroup × BitVec 32) :
    Option ProgressIcon :=
  if wanted g.2 then some (groupIcon B kind g.1 g.2 (idIndex g.2)) else none

variable {kind : ProgressIconRefreshType} {wanted : BitVec 32 → Bool}
  {idIndex : BitVec 32 → BitVec 32}

theorem Shows.foldl (h : Shows rows columns row icons s) (hrow : row < rows)
    (groups : List (UnitGroup × BitVec 32)) (hroom : icons.length + groups.length < columns) :
    Shows rows columns row (icons ++ groups.filterMap (shownIcon B kind wanted idIndex))
      (groups.foldl (fun s g => (shownIcon B kind wanted idIndex g).elim s fun icon =>
        ProductionPanel.showIcon game row icon s) s) := by
  induction groups generalizing icons s with
  | nil => rwa [List.filterMap_nil, List.append_nil]
  | cons g groups ih =>
    rw [List.length_cons] at hroom
    rw [List.foldl_cons]
    cases hicon : shownIcon B kind wanted idIndex g with
    | none =>
      rw [List.filterMap_cons_none hicon]
      exact ih h (by omega)
    | some icon =>
      rw [List.filterMap_cons_some hicon, List.append_cons]
      refine ih (h.showIcon hrow (by omega) icon) ?_
      rw [List.length_append, List.length_singleton]
      omega

/-- The icons of one kind that are shown for the classes of some units. -/
structure IconsOf (kind : ProgressIconRefreshType) (typeOf : UnitHandle → BitVec 32)
    (wanted : BitVec 32 → Bool) (units : List UnitHandle) (icons : List ProgressIcon) : Prop where
  kind : ∀ icon ∈ icons, icon.refreshType = kind
  group : ∀ icon ∈ icons, wanted icon.id = true ∧
    ∃ a ∈ units, icon.id = typeOf a ∧ icon.units.members = withKey typeOf a units
  all : ∀ a ∈ units, wanted (typeOf a) = true →
    ∃ icon ∈ icons, icon.units.members = withKey typeOf a units
  disjoint : icons.Pairwise fun icon icon' =>
    ∀ unit ∈ icon.units.members, unit ∉ icon'.units.members

theorem iconsOf_groups {units : List UnitHandle} {groups : List (UnitGroup × BitVec 32)}
    (h : game.AreClasses typeOf units groups) : IconsOf kind typeOf wanted units
      (groups.filterMap (shownIcon B kind wanted idIndex)) := by
  have hshown {g : UnitGroup × BitVec 32} {icon : ProgressIcon} (hg : g ∈ groups)
      (hicon : shownIcon B kind wanted idIndex g = some icon) : wanted g.2 = true ∧
        icon.refreshType = kind ∧ icon.id = g.2 ∧ icon.units.members = g.1.members := by
    unfold shownIcon at hicon
    split_ifs at hicon with hwanted
    obtain rfl := Option.some.inj hicon
    exact ⟨hwanted, rfl, rfl, GameUnits.members_copy (h.inOrder g hg)⟩
  have hclass {c : List UnitHandle} : c ∈ groups.map (fun g => g.1.members) ↔
      ∃ a ∈ units, c = withKey typeOf a units := by
    rw [h.members, mem_classes]
  constructor
  · intro icon hicon
    obtain ⟨g, hg, hicon⟩ := List.mem_filterMap.mp hicon
    exact (hshown hg hicon).2.1
  · intro icon hicon
    obtain ⟨g, hg, hicon⟩ := List.mem_filterMap.mp hicon
    obtain ⟨hwanted, -, hid, hmembers⟩ := hshown hg hicon
    obtain ⟨a, ha, hkey⟩ := hclass.mp (List.mem_map_of_mem hg)
    refine ⟨hid ▸ hwanted, a, ha, ?_, hmembers.trans hkey⟩
    rw [hid, h.typeId g hg a (hkey ▸ mem_withKey.mpr ⟨ha, rfl⟩)]
  · intro a ha hwanted
    obtain ⟨g, hg, hkey⟩ := List.mem_map.mp (hclass.mpr ⟨a, ha, rfl⟩)
    have htype : typeOf a = g.2 := h.typeId g hg a (hkey ▸ mem_withKey.mpr ⟨ha, rfl⟩)
    have hicon : shownIcon B kind wanted idIndex g =
        some (groupIcon B kind g.1 g.2 (idIndex g.2)) := if_pos (htype ▸ hwanted)
    exact ⟨_, List.mem_filterMap.mpr ⟨g, hg, hicon⟩, (hshown hg hicon).2.2.2.trans hkey⟩
  · have hpairwise := h.members ▸ pairwise_classes typeOf units
    rw [List.pairwise_map] at hpairwise
    rw [List.pairwise_filterMap]
    refine hpairwise.imp_of_mem fun {g g'} hg hg' hkeys icon hicon icon' hicon' => ?_
    intro unit hunit hunit'
    rw [(hshown hg hicon).2.2.2] at hunit
    rw [(hshown hg' hicon').2.2.2] at hunit'
    exact hkeys unit hunit unit hunit' rfl

/-- A loop ends, and shows the classes of its units by type. -/
theorem Shows.drain {p : UnitHandle → Prop} {pick : UnitGroup → UnitGroup × BitVec 32}
    {body : UnitGroup × BitVec 32 → ProductionPanel × ℕ → ProductionPanel × ℕ}
    (h : Shows rows columns row icons s) (hrow : row < rows) (hpick : game.Picks p typeOf pick)
    (hunits : game.InOrder units) (hp : ∀ unit ∈ units.members, p unit)
    (hbody : body = fun g s => (shownIcon B kind wanted idIndex g).elim s fun icon =>
      ProductionPanel.showIcon game row icon s)
    (hroom : icons.length + units.size < columns) : ∃ shown s',
      IconsOf kind typeOf wanted units.members shown ∧ shown.length ≤ units.size ∧
        Shows rows columns row (icons ++ shown) s' ∧
          ∀ fuel, units.size ≤ fuel → GameUnits.drain B pick body fuel units s = some s' := by
  subst hbody
  obtain ⟨groups, hclasses, hrun⟩ := GameUnits.drain_eq (B := B) hpick hunits hp
  have hlength : groups.length ≤ units.size := by
    rw [← List.length_map fun g : UnitGroup × BitVec 32 => g.1.members, hclasses.members]
    exact length_classes_le _ _
  exact ⟨_, _, iconsOf_groups hclasses, (List.length_filterMap_le _ _).trans hlength,
    h.foldl hrow groups (by omega), fun fuel hfuel => hrun _ fuel s hfuel⟩

/-! ## The end of the row -/

theorem element_foldl_none {t : Table} (h : t.Shaped) (cleared : List ℕ)
    (hin : ∀ i ∈ cleared, t.InRange row i) (column : ℕ) :
    (cleared.foldl (fun t i => t.setElement row i none false) t).element row column =
      if column ∈ cleared then none else t.element row column := by
  induction cleared generalizing t with
  | nil => rw [List.foldl_nil, if_neg List.not_mem_nil]
  | cons i cleared ih =>
    have hi := hin i List.mem_cons_self
    have hrest : ∀ j ∈ cleared, (t.setElement row i none false).InRange row j := fun j hj => by
      rw [Table.InRange, Table.rowCount_setElement, Table.columnCount_setElement]
      exact hin j (List.mem_cons_of_mem _ hj)
    rw [List.foldl_cons, ih (h.setElement row i none false) hrest, h.element_setElement hi]
    by_cases hcleared : column ∈ cleared
    · rw [if_pos hcleared, if_pos (List.mem_cons_of_mem _ hcleared)]
    · rw [if_neg hcleared]
      by_cases heq : column = i
      · rw [if_pos ⟨rfl, heq⟩, if_pos (heq ▸ List.mem_cons_self)]
      · rw [if_neg fun h => heq h.2, if_neg fun h => (List.mem_cons.mp h).elim heq hcleared]

theorem columnCount_clearFrom (first : ℕ) :
    (panel.clearFrom row first).table.columnCount = panel.table.columnCount :=
  clearFrom_induction (fun t => t.columnCount = panel.table.columnCount)
    (fun _ _ h => (Table.columnCount_setElement ..).trans h) rfl

theorem element_clearFrom (h : Arranged panel) (hrow : row < panel.table.rowCount)
    (first column : ℕ) : (panel.clearFrom row first).table.element row column =
      if first ≤ column then none else panel.table.element row column := by
  unfold clearFrom
  rw [element_foldl_none h.shaped _ fun i hi => ?_]
  · simp only [List.mem_range'_1]
    by_cases hfirst : first ≤ column
    · rw [if_pos hfirst]
      split_ifs with hcleared
      · rfl
      · refine Option.eq_none_iff_forall_not_mem.mpr fun e he => hcleared ⟨hfirst, ?_⟩
        have hlt := (h.shaped.inRange he).2
        omega
    · rw [if_neg hfirst, if_neg fun hcleared => hfirst hcleared.1]
  · rw [List.mem_range'_1] at hi
    exact ⟨hrow, by omega⟩

/-- The race icon is no icon of a group. -/
theorem Arranged.iconAt_zero (h : Arranged panel) (row : ℕ) : panel.iconAt row 0 = none := by
  rw [iconAt, h.getElement_eq]
  cases he : panel.table.element row 0 with
  | none => rfl
  | some e =>
    have hkind := h.kind row 0 e he
    rw [Option.bind_some]
    cases hmade : panel.made[e]? with
    | none => rfl
    | some x =>
      cases x with
      | raceIcon player => rfl
      | progressIcon icon =>
        rw [hmade] at hkind
        cases hkind

/-- The row when the columns after the icons have been cleared. -/
theorem Shows.iconAt_clearFrom (h : Shows rows columns row icons s) (hrow : row < rows)
    (column : ℕ) (icon : ProgressIcon) : (s.1.clearFrom row s.2).iconAt row column = some icon ↔
      0 < column ∧ icons[column - 1]? = some icon := by
  have harranged := h.arranged.clearFrom row s.2
  have hicon : (s.1.clearFrom row s.2).iconAt row column =
      if s.2 ≤ column then none else s.1.iconAt row column := by
    rw [iconAt, iconAt, harranged.getElement_eq, h.arranged.getElement_eq,
      element_clearFrom h.arranged (h.rowCount ▸ hrow)]
    split_ifs <;> rfl
  rw [hicon, h.column]
  rcases Nat.eq_zero_or_pos column with rfl | hpos
  · rw [if_neg (by omega), h.arranged.iconAt_zero]
    exact iff_of_false (Option.some_ne_none icon).symm fun h => Nat.lt_irrefl 0 h.1
  · obtain ⟨i, rfl⟩ : ∃ i, column = i + 1 := ⟨column - 1, by omega⟩
    rw [Nat.add_sub_cancel]
    split_ifs with hle
    · have hnone : icons[i]? = none := List.getElem?_eq_none (by omega)
      rw [hnone]
      exact iff_of_false id fun h => (Option.some_ne_none icon).symm h.2
    · have hi : icons[i]? = some icons[i] := List.getElem?_eq_getElem (by omega)
      rw [h.icons i _ hi, hi]
      exact ⟨fun heq => ⟨hpos, heq⟩, fun h => h.2⟩

/-- Icons of one kind have no unit in common. -/
def Separate (icon icon' : ProgressIcon) : Prop :=
  icon.refreshType = icon'.refreshType → ∀ unit ∈ icon.units.members, unit ∉ icon'.units.members

theorem kindOk_of_icons {units : List UnitHandle} {ofKind : List ProgressIcon}
    {p : UnitHandle → Prop}
    (hicons : ∀ column icon, panel.iconAt row column = some icon ↔
      0 < column ∧ icons[column - 1]? = some icon)
    (hseparate : icons.Pairwise Separate)
    (hkind : ∀ icon, icon ∈ ofKind ↔ icon ∈ icons ∧ icon.refreshType = kind)
    (h : IconsOf kind typeOf wanted units ofKind)
    (hp : ∀ unit, p unit ↔ unit ∈ units ∧ wanted (typeOf unit) = true) :
    KindOk panel row kind p typeOf := by
  -- an icon in a column is one of its kind
  have hshown {column : ℕ} {unit : UnitHandle} (hat : panel.ShownAt row kind column unit) :
      ∃ i icon, column = i + 1 ∧ icons[i]? = some icon ∧ icon.refreshType = kind ∧
        icon ∈ ofKind ∧ unit ∈ icon.units.members := by
    obtain ⟨icon, hat, hk, hunit⟩ := hat
    obtain ⟨hpos, hi⟩ := (hicons column icon).mp hat
    exact ⟨column - 1, icon, by omega, hi, hk,
      (hkind icon).mpr ⟨List.mem_of_getElem? hi, hk⟩, hunit⟩
  have hof {unit : UnitHandle} (hunit : p unit) : ∃ column icon, 0 < column ∧
      panel.iconAt row column = some icon ∧ icon.refreshType = kind ∧
        icon.units.members = withKey typeOf unit units := by
    obtain ⟨hmem, hwanted⟩ := (hp unit).mp hunit
    obtain ⟨icon, hicon, hmembers⟩ := h.all unit hmem hwanted
    obtain ⟨hin, hk⟩ := (hkind icon).mp hicon
    obtain ⟨i, hi⟩ := List.mem_iff_getElem?.mp hin
    exact ⟨i + 1, icon, Nat.succ_pos i, (hicons _ _).mpr ⟨Nat.succ_pos i, hi⟩, hk, hmembers⟩
  constructor
  · intro unit hunit
    obtain ⟨column, icon, -, hat, hk, hmembers⟩ := hof hunit
    have hself : unit ∈ icon.units.members :=
      hmembers ▸ mem_withKey.mpr ⟨((hp unit).mp hunit).1, rfl⟩
    refine ⟨column, ⟨icon, hat, hk, hself⟩, fun column' hat' => ?_⟩
    obtain ⟨i, a, rfl, hi, hka, -, hua⟩ := hshown ⟨icon, hat, hk, hself⟩
    obtain ⟨j, b, rfl, hj, hkb, -, hub⟩ := hshown hat'
    obtain ⟨hilt, rfl⟩ := List.getElem?_eq_some_iff.mp hi
    obtain ⟨hjlt, rfl⟩ := List.getElem?_eq_some_iff.mp hj
    have hpair := List.pairwise_iff_getElem.mp hseparate
    rcases Nat.lt_trichotomy i j with hlt | rfl | hgt
    · exact absurd hub (hpair i j hilt hjlt hlt (hka.trans hkb.symm) unit hua)
    · rfl
    · exact absurd hua (hpair j i hjlt hilt hgt (hkb.trans hka.symm) unit hub)
  · intro column unit hat
    obtain ⟨i, icon, -, -, -, hicon, hunit⟩ := hshown hat
    obtain ⟨hwanted, a, -, hid, hmembers⟩ := h.group icon hicon
    obtain ⟨hmem, htype⟩ := mem_withKey.mp (hmembers ▸ hunit)
    exact (hp unit).mpr ⟨hmem, by rwa [htype, ← hid]⟩
  · intro unit unit' hunit hunit'
    constructor
    · rintro ⟨column, hat, hat'⟩
      obtain ⟨i, icon, rfl, hi, -, hicon, hin⟩ := hshown hat
      obtain ⟨j, icon', heq, hj, -, -, hin'⟩ := hshown hat'
      obtain rfl : i = j := Nat.succ.inj heq
      obtain rfl := Option.some.inj (hi.symm.trans hj)
      obtain ⟨-, a, -, -, hmembers⟩ := h.group icon hicon
      rw [hmembers, mem_withKey] at hin hin'
      rw [hin.2, hin'.2]
    · intro htype
      obtain ⟨column, icon, -, hat, hk, hmembers⟩ := hof hunit
      refine ⟨column, ⟨icon, hat, hk, ?_⟩, ⟨icon, hat, hk, ?_⟩⟩
      · exact hmembers ▸ mem_withKey.mpr ⟨((hp unit).mp hunit).1, rfl⟩
      · exact hmembers ▸ mem_withKey.mpr ⟨((hp unit').mp hunit').1, htype.symm⟩

/-- The icons of a kind among all that are shown. -/
theorem mem_iff_kind {ofKind others shown : List ProgressIcon}
    (hkind : ∀ icon ∈ ofKind, icon.refreshType = kind)
    (hothers : ∀ icon ∈ others, icon.refreshType ≠ kind)
    (hshown : ∀ icon, icon ∈ shown ↔ icon ∈ ofKind ∨ icon ∈ others) (icon : ProgressIcon) :
    icon ∈ ofKind ↔ icon ∈ shown ∧ icon.refreshType = kind := by
  rw [hshown]
  constructor
  · exact fun h => ⟨.inl h, hkind icon h⟩
  · rintro ⟨h | h, heq⟩
    · exact h
    · exact absurd heq (hothers icon h)

theorem IconsOf.kind_ne {units : List UnitHandle} {other : ProgressIconRefreshType}
    (h : IconsOf kind typeOf wanted units icons) (hne : kind ≠ other) :
    ∀ icon ∈ icons, icon.refreshType ≠ other := fun icon hicon => h.kind icon hicon ▸ hne

theorem IconsOf.separate {units : List UnitHandle} (h : IconsOf kind typeOf wanted units icons) :
    icons.Pairwise Separate :=
  h.disjoint.imp fun {icon icon'} hdisjoint (_ : icon.refreshType = icon'.refreshType) => hdisjoint

/-- Lists of separate icons of different kinds. -/
theorem separate_append {shown shown' : List ProgressIcon} (h : shown.Pairwise Separate)
    (h' : shown'.Pairwise Separate)
    (hkinds : ∀ icon ∈ shown, ∀ icon' ∈ shown', icon.refreshType ≠ icon'.refreshType) :
    (shown ++ shown').Pairwise Separate :=
  List.pairwise_append.mpr ⟨h, h', fun icon hicon icon' hicon' heq =>
    absurd heq (hkinds icon hicon icon' hicon')⟩

/-- A unit that exists has an object and a type. -/
structure Existing (game : GameUnits) (unit : UnitHandle) : Prop where
  object : (game.answers unit).object = true
  getUnitTypeId : game.getUnitTypeId unit ≠ 0

theorem size_playerGroup_le (h : game.InOrder playerUnits) (flag : UnitFilter.UnitFlag) :
    (playerGroup B game playerUnits flag).size ≤ playerUnits.size := by
  rw [UnitGroup.size, playerGroup, GameUnits.members_groupUnits h]
  exact List.length_filter_le _ _

variable (B game row) in
theorem showConstruction_eq : showConstruction B game row = fun g s =>
    (shownIcon B .typeConstruction (fun _ => true) (fun _ => 0) g).elim s fun icon =>
      showIcon game row icon s := rfl

variable (B game row) in
theorem showUpgrade_eq : showUpgrade B game row = fun g s =>
    (shownIcon B .typeUpgrade (fun _ => true) (fun _ => 0) g).elim s fun icon =>
      showIcon game row icon s := rfl

variable (B game row) in
theorem showQueue_eq (player : ℕ) : showQueue B game row player = fun g s =>
    (shownIcon B .typeQueue (fun id => decide (id ≠ 0)) (game.getPlayerTechCount player) g).elim s
      fun icon => showIcon game row icon s := by
  funext g s
  unfold showQueue shownIcon
  simp only [decide_eq_true_iff]
  split_ifs <;> rfl

/-- The three loops of a refresh end, and the icons of the three kinds follow each other. -/
theorem loops_end (hpanel : Arranged panel) (h : game.InOrder playerUnits)
    (hexist : ∀ unit ∈ playerUnits.members, Existing game unit)
    (howner : ∀ unit ∈ playerUnits.members, (game.answers unit).owner.toNat < 16)
    (hrow : row < panel.table.rowCount) (player : ℕ) : ∃ rows columns c u q s, row < rows ∧
      IconsOf .typeConstruction game.getUnitTypeId (fun _ => true)
        (playerGroup B game playerUnits .underConstruction).members c ∧
      IconsOf .typeUpgrade game.upgradeType (fun _ => true)
        (playerGroup B game playerUnits .underUpgrade).members u ∧
      IconsOf .typeQueue game.queueType (fun id => decide (id ≠ 0))
        (playerGroup B game playerUnits .underQueue).members q ∧
      Shows rows columns row (c ++ u ++ q) s ∧ s.2 ≤ columns ∧
      ∀ fuel, playerUnits.size ≤ fuel → panel.refreshProductionContent B game fuel row player
        playerUnits = some (s.1.clearFrom row s.2, s.2) := by
  have hconstruction : ∀ unit ∈ (playerGroup B game playerUnits .underConstruction).members,
      game.getUnitTypeId unit ≠ 0 ∧ (game.answers unit).owner.toNat < 16 := fun unit hunit => by
    have hm := ((mem_playerGroup h howner).mp hunit).1
    exact ⟨(hexist unit hm).getUnitTypeId, howner unit hm⟩
  have hsize (flag : UnitFilter.UnitFlag) {fuel : ℕ} (hfuel : playerUnits.size ≤ fuel) :
      (playerGroup B game playerUnits flag).size ≤ fuel := (size_playerGroup_le h flag).trans hfuel
  have hin (flag : UnitFilter.UnitFlag) : game.InOrder (playerGroup B game playerUnits flag) :=
    inOrder_playerGroup
  obtain ⟨first, hfirst⟩ : ∃ first, panel.showRaceIcon row player = first := ⟨_, rfl⟩
  obtain ⟨rows, hrows⟩ : ∃ rows, first.table.rowCount = rows := ⟨_, rfl⟩
  obtain ⟨columns, hcolumns⟩ : ∃ columns, max first.table.columnCount
      (1 + (playerGroup B game playerUnits .underConstruction).size +
        (playerGroup B game playerUnits .underUpgrade).size +
        (playerGroup B game playerUnits .underQueue).size) = columns := ⟨_, rfl⟩
  have hroom : 1 + (playerGroup B game playerUnits .underConstruction).size +
      (playerGroup B game playerUnits .underUpgrade).size +
      (playerGroup B game playerUnits .underQueue).size ≤ columns := hcolumns ▸ le_max_right _ _
  have hlt : row < rows := by rwa [← hrows, ← hfirst, counts_showRaceIcon]
  have hstart : Shows rows columns row [] (first.setRowColumnCount rows columns, 1) := by
    obtain ⟨hr, hc⟩ := first.table.counts_setRowColumnCount rows columns
    have harranged : Arranged first := hfirst ▸ hpanel.showRaceIcon row player
    exact ⟨harranged.setRowColumnCount _ _, hr, hc, rfl, fun i icon hi => absurd hi (by simp)⟩
  obtain ⟨c, s₁, hc, hclen, hs₁, hrun₁⟩ := hstart.drain hlt (picks_construction (B := B))
    (hin _) hconstruction (showConstruction_eq B game row) (by rw [List.length_nil]; omega)
  rw [List.nil_append] at hs₁
  obtain ⟨u, s₂, hu, hulen, hs₂, hrun₂⟩ := hs₁.drain hlt
    (picks_type (B := B) game.upgradeType) (hin .underUpgrade) (fun _ _ => trivial)
    (showUpgrade_eq B game row) (by omega)
  obtain ⟨q, s₃, hq, hqlen, hs₃, hrun₃⟩ := hs₂.drain hlt
    (picks_type (B := B) game.queueType) (hin .underQueue) (fun _ _ => trivial)
    (showQueue_eq B game row player) (by rw [List.length_append]; omega)
  refine ⟨rows, columns, c, u, q, s₃, hlt, hc, hu, hq, hs₃, ?_, fun fuel hfuel => ?_⟩
  · rw [hs₃.column, List.length_append, List.length_append]
    omega
  · simp only [refreshProductionContent, hfirst, hrows, hcolumns, hrun₁ fuel (hsize _ hfuel),
      hrun₂ fuel (hsize _ hfuel), hrun₃ fuel (hsize _ hfuel), Option.bind_eq_bind, Option.bind_some]

/-- **The production panel.** For the units of any player, out of units that exist and whose
priorities are fixed, the three loops of a refresh end. Then every unit under construction, under
upgrade or with a queue type is in the group of exactly one icon of that kind, two of them share an
icon if and only if their types are the same, no icon is for the queue type 0, the icons are in
columns of the table, and the columns after the last icon are empty. -/
theorem production_partition (B : SearchTree.Balancing UnitHandle) (game : GameUnits)
    {panel : ProductionPanel} (hpanel : Reachable B panel) {units : UnitGroup}
    (hexist : ∀ unit ∈ units.members, Existing game unit) {row : ℕ}
    (hrow : row < panel.table.rowCount) (player : ℕ) :
    let playerUnits := productionPanelPlayerUnits B game units player
    ∃ s, (∀ fuel, playerUnits.size ≤ fuel →
        panel.refreshProductionContent B game fuel row player playerUnits = some s) ∧
      RefreshOk game playerUnits row s := by
  intro playerUnits
  obtain ⟨hin, hmem⟩ := inOrder_playerUnits B game units player
  have hexists : ∀ unit ∈ playerUnits.members, Existing game unit := fun unit hunit =>
    hexist unit ((hmem unit).mp hunit).1
  have howner : ∀ unit ∈ playerUnits.members, (game.answers unit).owner.toNat < 16 :=
    fun unit hunit => by
      obtain ⟨-, rfl, hlt⟩ := (hmem unit).mp hunit
      exact hlt
  obtain ⟨rows, columns, c, u, q, s, hlt, hc, hu, hq, hs, hcolumn, hrun⟩ :=
    loops_end (B := B) hpanel.arranged hin hexists howner hrow player
  refine ⟨_, hrun, ?_⟩
  have hicons := hs.iconAt_clearFrom hlt
  have hseparate : (c ++ u ++ q).Pairwise Separate := by
    refine separate_append (separate_append hc.separate hu.separate ?_) hq.separate ?_
    · exact fun i hi j hj => hu.kind j hj ▸ hc.kind_ne (by decide) i hi
    · intro i hi j hj
      rw [hq.kind j hj]
      rcases List.mem_append.mp hi with hi | hi
      · exact hc.kind_ne (by decide) i hi
      · exact hu.kind_ne (by decide) i hi
  have hmemc : ∀ icon, icon ∈ c ↔ icon ∈ c ++ u ++ q ∧ icon.refreshType = .typeConstruction :=
    mem_iff_kind hc.kind (List.forall_mem_append.mpr
      ⟨hu.kind_ne (by decide), hq.kind_ne (by decide)⟩) fun icon => by simp
  have hmemu : ∀ icon, icon ∈ u ↔ icon ∈ c ++ u ++ q ∧ icon.refreshType = .typeUpgrade :=
    mem_iff_kind hu.kind (List.forall_mem_append.mpr
      ⟨hc.kind_ne (by decide), hq.kind_ne (by decide)⟩) fun icon => by simp [or_left_comm]
  have hmemq : ∀ icon, icon ∈ q ↔ icon ∈ c ++ u ++ q ∧ icon.refreshType = .typeQueue :=
    mem_iff_kind hq.kind (List.forall_mem_append.mpr
      ⟨hc.kind_ne (by decide), hu.kind_ne (by decide)⟩) fun icon => by
        rw [List.mem_append, or_comm, List.mem_append]
  have hunder (flag : UnitFilter.UnitFlag) (hflag : ¬ flag.Relative) (hne : flag ≠ .underQueue)
      (unit : UnitHandle) : unit ∈ playerUnits.members ∧ IsUnder game flag unit ↔
        unit ∈ (playerGroup B game playerUnits flag).members ∧ true = true := by
    rw [mem_playerGroup hin howner, and_iff_left (rfl : true = true)]
    exact and_congr_right fun hunit =>
      (filterMatch_iff_isUnder (hexists unit hunit).object hflag hne).symm
  have hqueue (unit : UnitHandle) : unit ∈ playerUnits.members ∧ game.queueType unit ≠ 0 ↔
      unit ∈ (playerGroup B game playerUnits .underQueue).members ∧
        decide (game.queueType unit ≠ 0) = true := by
    rw [mem_playerGroup hin howner, decide_eq_true_iff, and_assoc]
    exact and_congr_right fun hunit =>
      ⟨fun h => ⟨filterMatch_underQueue (hexists unit hunit).object h, h⟩, fun h => h.2⟩
  constructor
  · exact kindOk_of_icons hicons hseparate hmemc hc
      (hunder _ (by unfold UnitFilter.UnitFlag.Relative; decide) (by decide))
  · exact kindOk_of_icons hicons hseparate hmemu hu
      (hunder _ (by unfold UnitFilter.UnitFlag.Relative; decide) (by decide))
  · exact kindOk_of_icons hicons hseparate hmemq hq hqueue
  · intro column icon hat hkind
    have hicon := (hmemq icon).mpr ⟨List.mem_of_getElem? ((hicons column icon).mp hat).2, hkind⟩
    exact of_decide_eq_true (hq.group icon hicon).1
  · intro column
    show ((s.1.clearFrom row s.2).iconAt row column).isSome ↔ 1 ≤ column ∧ column < s.2
    rw [Option.isSome_iff_exists]
    constructor
    · rintro ⟨icon, hat⟩
      obtain ⟨hpos, hi⟩ := (hicons column icon).mp hat
      obtain ⟨hlast, -⟩ := List.getElem?_eq_some_iff.mp hi
      rw [hs.column]
      exact ⟨hpos, by omega⟩
    · rintro ⟨hpos, hlast⟩
      rw [hs.column] at hlast
      exact ⟨_, (hicons column _).mpr ⟨hpos, List.getElem?_eq_getElem (by omega)⟩⟩
  · rwa [columnCount_clearFrom, hs.columnCount]
  · intro column hle
    rw [element_clearFrom hs.arranged (hs.rowCount ▸ hlt), if_pos hle]

/-- Two buildings under construction and one that trains. -/
def threeBuildings : GameUnits where
  priorities _ := none
  players := UnitFilter.plainPlayers
  answers unit := { UnitFilter.plainUnit with
    getUnitAbilityLevel := fun ability =>
      if ability = UnitFilter.abilityBuildInProgress ∧ unit < 3 then 1 else 0
    queueItemType := if unit = 3 then some 0x68666F6F else none }
  getUnitTypeId unit := if unit = 1 then 0x68746F77 else 0x68626172
  upgradeTypeId _ := none
  getPlayerTechCount _ _ := 1
  unitGrabAll := [1, 2, 3]

/-- They are shown in the first row of a panel that had no column. -/
theorem production_threeBuildings :
    let units := (⟨SearchTree.spine [1, 2, 3], threeBuildings.priorities⟩ : UnitGroup)
    let playerUnits := productionPanelPlayerUnits SearchTree.unbalanced threeBuildings units 0
    let panel := (new 0 2).setRowColumnCount 1 0
    ∃ s, (∀ fuel, playerUnits.size ≤ fuel → panel.refreshProductionContent SearchTree.unbalanced
        threeBuildings fuel 0 0 playerUnits = some s) ∧
      RefreshOk threeBuildings playerUnits 0 s :=
  production_partition SearchTree.unbalanced threeBuildings (.setRowColumnCount (.new 0 2) 1 0)
    (fun unit _ => ⟨rfl, by unfold threeBuildings; dsimp only; split_ifs <;> decide⟩)
    (by decide) 0

end ProductionPanel

end DreamDota
