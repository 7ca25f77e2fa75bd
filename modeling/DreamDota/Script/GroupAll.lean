import DreamDota.Lib.Session
import DreamDota.Units.UnitGroup
import Mathlib.Data.Finset.Image

/-!
# The unit snapshot of the natives

`GetUnitGroupAll` of `ScriptNatives.cpp` keeps one group for all natives and takes it again when the
clock has changed. `GroupAll` and `last_grab_time` outlive the games, but the `Unit` objects and the
clock do not.

The group is a set here: `UnitGroup` has its container. `taken` and `moments` are history.

1. `event_good`: what every event keeps.
2. `callOk_iff`: the calls that use a snapshot of their own game.
3. `callsOk_iff`: the sessions in which all calls do.
-/

namespace DreamDota.GroupAll

/-! ## The code -/

/-- A `Unit` object, by the game that has made it and its handle: `GetUnit` makes one at most for
each handle. -/
structure UnitPtr where
  game : ℕ
  handleId : UnitHandle
  deriving DecidableEq, Repr

structure State where
  /-- The number of games before this one. -/
  game : ℕ
  /-- The keys of `UnitMap`. -/
  unitMap : Finset UnitHandle
  /-- What `UnitGrabAll` finds, by handle. -/
  units : List UnitHandle
  /-- `TimeRaw()`. -/
  time : ℕ
  groupAll : Finset UnitPtr
  lastGrabTime : ℕ
  /-- History: the game in which `GroupAll` was taken. -/
  taken : Option ℕ
  /-- History: what `UnitGrabAll` has found since the clock has its value. -/
  moments : List (List UnitHandle)

namespace State

/-- The first game, when it begins. -/
def init (units : List UnitHandle) : State where
  game := 0
  unitMap := ∅
  units := units
  time := 0
  groupAll := ∅
  lastGrabTime := 0
  taken := none
  moments := [units]

/-- The object of a handle in this game. -/
def ptr (s : State) (handle : UnitHandle) : UnitPtr := ⟨s.game, handle⟩

/-- `GetUnit`. A handle is the handle of a unit if `UnitGrabAll` finds it. -/
def getUnit (s : State) (handle : UnitHandle) : Option UnitPtr × State :=
  if handle = 0 then (none, s)
  else if handle ∉ s.unitMap then
    if handle ∈ s.units then
      (some (s.ptr handle), { s with unitMap := insert handle s.unitMap })
    else (none, s)
  else (some (s.ptr handle), s)

/-- `GroupAll.add`, where `none` is a null pointer. -/
def add (s : State) : Option UnitPtr → State
  | some unit => { s with groupAll := insert unit s.groupAll }
  | none => s

/-- The body of the loop of `GroupAddUnitAll`. -/
def addUnit (s : State) (u : UnitHandle) : State := (s.getUnit u).2.add (s.getUnit u).1

/-- `GroupAddUnitAll` of `GroupAll`. -/
def groupAddUnitAll (s : State) : State := s.units.foldl addUnit s

def getUnitGroupAll (s : State) : State :=
  if s.lastGrabTime ≠ s.time then
    groupAddUnitAll
      { s with lastGrabTime := s.time, groupAll := ∅, taken := some s.game }
  else s

/-- The loop of the natives: the handles of the units of the group that pass the test. -/
def groupUnits (test : UnitPtr → Bool) (s : State) : Finset UnitHandle × State :=
  let s := s.getUnitGroupAll
  ((s.groupAll.filter fun u => test u).image UnitPtr.handleId, s)

def GroupUnitAll : State → Finset UnitHandle × State := groupUnits fun _ => true

def GroupUnitsOfType (isUnitType : UnitHandle → BitVec 32 → Bool) (type : BitVec 32) :
    State → Finset UnitHandle × State := groupUnits fun u => isUnitType u.handleId type

def GroupUnitsOfTypeId (typeId : UnitPtr → BitVec 32) (type_id : BitVec 32) :
    State → Finset UnitHandle × State := groupUnits fun u => typeId u == type_id

def GroupUnitsOfPlayer (owner : UnitPtr → BitVec 32) (player_id : BitVec 32) :
    State → Finset UnitHandle × State := groupUnits fun u => owner u == player_id

def GroupUnitsInRange {α : Type} (isUnitInRangeXY : UnitHandle → α → α → α → Bool) (x y r : α) :
    State → Finset UnitHandle × State := groupUnits fun u => isUnitInRangeXY u.handleId x y r

/-- The end of a game and the beginning of the next one: `UnitManager_Cleanup` and
`GameTime_Reset`. -/
def nextGame (s : State) (units : List UnitHandle) : State :=
  { s with game := s.game + 1, unitMap := ∅, units := units, time := 0, moments := [units] }

/-- `GameTime_Update`: the clock goes on. -/
def tick (s : State) (elapsed : ℕ) : State :=
  { s with
    time := s.time + elapsed
    moments := if elapsed = 0 then s.moments else [s.units] }

/-- Units come into the game and leave it. -/
def change (s : State) (units : List UnitHandle) : State :=
  { s with units := units, moments := units :: s.moments }

end State

/-- The arguments of a call of one of the five natives, with what the game answers. -/
inductive Native where
  | groupUnitAll
  | groupUnitsOfType (isUnitType : UnitHandle → BitVec 32 → Bool) (type : BitVec 32)
  | groupUnitsOfTypeId (typeId : UnitPtr → BitVec 32) (type_id : BitVec 32)
  | groupUnitsOfPlayer (owner : UnitPtr → BitVec 32) (player_id : BitVec 32)
  | groupUnitsInRange (isUnitInRangeXY : UnitHandle → ℚ → ℚ → ℚ → Bool) (x y r : ℚ)

def Native.call : Native → State → Finset UnitHandle × State
  | groupUnitAll => State.GroupUnitAll
  | groupUnitsOfType isUnitType type => State.GroupUnitsOfType isUnitType type
  | groupUnitsOfTypeId typeId type_id => State.GroupUnitsOfTypeId typeId type_id
  | groupUnitsOfPlayer owner player_id => State.GroupUnitsOfPlayer owner player_id
  | groupUnitsInRange isUnitInRangeXY x y r => State.GroupUnitsInRange isUnitInRangeXY x y r

inductive Event where
  | nextGame (units : List UnitHandle)
  | tick (elapsed : ℕ)
  | change (units : List UnitHandle)
  /-- A call of `GetUnit` from elsewhere. -/
  | getUnit (handle : UnitHandle)
  | native (native : Native)

def event (s : State) : Event → State
  | .nextGame units => s.nextGame units
  | .tick elapsed => s.tick elapsed
  | .change units => s.change units
  | .getUnit handle => (s.getUnit handle).2
  | .native native => (native.call s).2

/-! ## The law -/

/-- The objects of the units that `UnitGrabAll` finds; 0 is the handle of nothing. -/
def State.snapshot (s : State) (units : List UnitHandle) : Finset UnitPtr :=
  (units.toFinset.erase 0).image s.ptr

/-- The `Unit` objects of this game. -/
def State.Alive (s : State) (u : UnitPtr) : Prop := u.game = s.game ∧ u.handleId ∈ s.unitMap

instance (s : State) (u : UnitPtr) : Decidable (s.Alive u) := inferInstanceAs (Decidable (_ ∧ _))

/-- The group that a call uses: its units belong to this game, and they are all units at a moment
of the present time. -/
structure GroupOk (s : State) : Prop where
  alive : ∀ u ∈ s.getUnitGroupAll.groupAll, s.getUnitGroupAll.Alive u
  snapshot : ∃ units ∈ s.moments, s.getUnitGroupAll.groupAll = s.snapshot units

/-- The law, over all calls of a session that begins with the first game. -/
def CallsOk (units : List UnitHandle) (events : List Event) : Prop :=
  Session.Steps event (State.init units) events fun s e => ∀ native, e = .native native → GroupOk s

/-- The group has been taken in this game or is going to be, or there was and is no unit. -/
def Current (s : State) : Prop :=
  s.lastGrabTime ≠ s.time ∨ s.taken = some s.game ∨
    (s.groupAll = ∅ ∧ ∃ units ∈ s.moments, ∀ handle ∈ units, handle = 0)

/-! ## The loop over all units -/

namespace State

theorem addUnit_zero (s : State) : s.addUnit 0 = s := by simp [addUnit, getUnit, add]

/-- A unit is added with its object, which is made if there is none. -/
theorem addUnit_eq (s : State) {u : UnitHandle} (hu : u ∈ s.units) (h0 : u ≠ 0) :
    s.addUnit u =
      { s with unitMap := insert u s.unitMap, groupAll := insert (s.ptr u) s.groupAll } := by
  by_cases hmap : u ∈ s.unitMap
  · simp [addUnit, getUnit, add, h0, hmap]
  · simp [addUnit, getUnit, add, h0, hmap, hu]

theorem snapshot_cons {s : State} {u : UnitHandle} (h0 : u ≠ 0) (us : List UnitHandle) :
    s.snapshot (u :: us) = insert (s.ptr u) (s.snapshot us) := by
  rw [snapshot, List.toFinset_cons, Finset.erase_insert_of_ne h0, Finset.image_insert]
  rfl

theorem snapshot_cons_zero (s : State) (us : List UnitHandle) :
    s.snapshot (0 :: us) = s.snapshot us := by
  rw [snapshot, List.toFinset_cons, Finset.erase_insert_eq_erase]
  rfl

theorem addUnits_eq (us : List UnitHandle) {s : State} (hus : ∀ u ∈ us, u ∈ s.units) :
    us.foldl addUnit s =
      { s with
        unitMap := s.unitMap ∪ us.toFinset.erase 0
        groupAll := s.groupAll ∪ s.snapshot us } := by
  induction us generalizing s with
  | nil => simp [snapshot]
  | cons u us ih =>
    have hrest : ∀ u' ∈ us, u' ∈ s.units := fun u' hu' => hus u' (List.mem_cons_of_mem _ hu')
    rw [List.foldl_cons]
    by_cases h0 : u = 0
    · rw [h0, addUnit_zero, ih hrest, snapshot_cons_zero, List.toFinset_cons,
        Finset.erase_insert_eq_erase]
    · rw [addUnit_eq s (hus u List.mem_cons_self) h0,
        ih (s := { s with
          unitMap := insert u s.unitMap, groupAll := insert (s.ptr u) s.groupAll }) hrest,
        snapshot_cons h0, List.toFinset_cons, Finset.erase_insert_of_ne h0, Finset.union_insert,
        Finset.insert_union, Finset.union_insert, Finset.insert_union]
      rfl

/-- What a call leaves that takes the group. -/
theorem getUnitGroupAll_of_ne {s : State} (h : s.lastGrabTime ≠ s.time) : s.getUnitGroupAll =
    { s with
      lastGrabTime := s.time
      taken := some s.game
      unitMap := s.unitMap ∪ s.units.toFinset.erase 0
      groupAll := s.snapshot s.units } := by
  rw [getUnitGroupAll, if_pos h, groupAddUnitAll, addUnits_eq _ fun _ hu => hu, Finset.empty_union]
  rfl

theorem getUnitGroupAll_of_eq {s : State} (h : s.lastGrabTime = s.time) : s.getUnitGroupAll = s :=
  if_neg (not_not.mpr h)

theorem mem_snapshot {s : State} {units : List UnitHandle} {u : UnitPtr} :
    u ∈ s.snapshot units ↔ u.game = s.game ∧ u.handleId ≠ 0 ∧ u.handleId ∈ units := by
  simp only [snapshot, Finset.mem_image, Finset.mem_erase, List.mem_toFinset]
  constructor
  · rintro ⟨handle, h, rfl⟩
    exact ⟨rfl, h⟩
  · rintro ⟨hgame, h⟩
    exact ⟨u.handleId, h, by rw [ptr, ← hgame]⟩

theorem snapshot_eq_empty {s : State} {units : List UnitHandle} :
    s.snapshot units = ∅ ↔ ∀ handle ∈ units, handle = 0 := by
  rw [Finset.eq_empty_iff_forall_notMem]
  constructor
  · intro h handle hmem
    by_contra h0
    exact h (s.ptr handle) (mem_snapshot.mpr ⟨rfl, h0, hmem⟩)
  · intro h u hu
    obtain ⟨-, h0, hmem⟩ := mem_snapshot.mp hu
    exact h0 (h _ hmem)

/-! ## The invariant -/

/-- A group taken in this game holds its objects, and those of a moment of the present time if the
time is still the same. Any other group holds objects of earlier games. -/
structure Good (s : State) : Prop where
  now : s.units ∈ s.moments
  taken_le : ∀ game, s.taken = some game → game ≤ s.game
  stale : s.taken ≠ some s.game → ∀ u ∈ s.groupAll, u.game < s.game
  alive : s.taken = some s.game → ∀ u ∈ s.groupAll, s.Alive u
  clock : s.taken = some s.game → s.lastGrabTime ≤ s.time
  snapshot : s.taken = some s.game → s.lastGrabTime = s.time →
    ∃ units ∈ s.moments, s.groupAll = s.snapshot units

theorem good_init (units : List UnitHandle) : (init units).Good where
  now := List.mem_singleton_self _
  taken_le _ h := by cases h
  stale _ u hu := absurd hu (Finset.notMem_empty u)
  alive h := by cases h
  clock h := by cases h
  snapshot h := by cases h

variable {s : State}

theorem Good.nextGame (h : s.Good) (units : List UnitHandle) : (s.nextGame units).Good := by
  have hother : s.taken ≠ some (s.game + 1) := fun heq => by
    have := h.taken_le _ heq
    omega
  have hpast : ∀ u ∈ s.groupAll, u.game < s.game + 1 := fun u hu => by
    by_cases htaken : s.taken = some s.game
    · exact (h.alive htaken u hu).1 ▸ Nat.lt_succ_self _
    · exact (h.stale htaken u hu).trans (Nat.lt_succ_self _)
  exact {
    now := List.mem_singleton_self _
    taken_le := fun game hgame => (h.taken_le game hgame).trans (Nat.le_succ _)
    stale := fun _ => hpast
    alive := fun heq => absurd heq hother
    clock := fun heq => absurd heq hother
    snapshot := fun heq => absurd heq hother }

theorem Good.tick (h : s.Good) (elapsed : ℕ) : (s.tick elapsed).Good where
  now := by
    by_cases h0 : elapsed = 0
    · simpa [State.tick, h0] using h.now
    · simp [State.tick, h0]
  taken_le := h.taken_le
  stale := h.stale
  alive := h.alive
  clock htaken := (h.clock htaken).trans (Nat.le_add_right _ _)
  snapshot htaken htime := by
    have hclock := h.clock htaken
    replace htime : s.lastGrabTime = s.time + elapsed := htime
    obtain rfl : elapsed = 0 := by omega
    simpa [State.tick] using h.snapshot htaken htime

theorem Good.change (h : s.Good) (units : List UnitHandle) : (s.change units).Good where
  now := List.mem_cons_self
  taken_le := h.taken_le
  stale := h.stale
  alive := h.alive
  clock := h.clock
  snapshot htaken htime :=
    let ⟨units', hmem, heq⟩ := h.snapshot htaken htime
    ⟨units', List.mem_cons_of_mem _ hmem, heq⟩

/-- More objects. -/
theorem Good.insert (h : s.Good) (handle : UnitHandle) :
    ({ s with unitMap := Insert.insert handle s.unitMap } : State).Good where
  now := h.now
  taken_le := h.taken_le
  stale := h.stale
  alive htaken u hu := ⟨(h.alive htaken u hu).1, Finset.mem_insert_of_mem (h.alive htaken u hu).2⟩
  clock := h.clock
  snapshot := h.snapshot

theorem Good.getUnit (h : s.Good) (handle : UnitHandle) : (s.getUnit handle).2.Good := by
  unfold State.getUnit
  split_ifs
  · exact h
  · exact h
  · exact h.insert handle
  · exact h

/-- After a call, the group is one of this game or nothing has changed. -/
theorem Good.getUnitGroupAll (h : s.Good) : s.getUnitGroupAll.Good := by
  by_cases htime : s.lastGrabTime = s.time
  · rw [getUnitGroupAll_of_eq htime]
    exact h
  · rw [getUnitGroupAll_of_ne htime]
    exact {
      now := h.now
      taken_le := fun game hgame => (Option.some.inj hgame).ge
      stale := fun hne => absurd rfl hne
      alive := fun _ u hu => by
        obtain ⟨hgame, h0, hmem⟩ := mem_snapshot.mp hu
        exact ⟨hgame, Finset.mem_union_right _ (Finset.mem_erase.mpr ⟨h0, by simpa using hmem⟩)⟩
      clock := fun _ => le_rfl
      snapshot := fun _ _ => ⟨s.units, h.now, rfl⟩ }

end State

theorem Native.call_state (native : Native) (s : State) :
    (native.call s).2 = s.getUnitGroupAll := by
  cases native <;> rfl

theorem event_good {s : State} (h : s.Good) (e : Event) : (event s e).Good := by
  cases e with
  | nextGame units => exact h.nextGame units
  | tick elapsed => exact h.tick elapsed
  | change units => exact h.change units
  | getUnit handle => exact h.getUnit handle
  | native native =>
    rw [event, native.call_state]
    exact h.getUnitGroupAll

/-! ## The calls -/

/-- The calls that use a snapshot of their own game. -/
theorem groupOk_iff {s : State} (h : s.Good) : GroupOk s ↔ Current s := by
  by_cases htime : s.lastGrabTime = s.time
  · have hsame := State.getUnitGroupAll_of_eq htime
    by_cases htaken : s.taken = some s.game
    · refine ⟨fun _ => .inr (.inl htaken), fun _ => ⟨?_, ?_⟩⟩
      · rw [hsame]
        exact h.alive htaken
      · rw [hsame]
        exact h.snapshot htaken htime
    · constructor
      · intro hok
        have hempty : s.groupAll = ∅ := by
          refine Finset.eq_empty_of_forall_notMem fun u hu => ?_
          have hgame := (hok.alive u (by rw [hsame]; exact hu)).1
          rw [hsame] at hgame
          exact absurd hgame (h.stale htaken u hu).ne
        obtain ⟨units, hmem, heq⟩ := hok.snapshot
        rw [hsame, hempty] at heq
        exact .inr (.inr ⟨hempty, units, hmem, State.snapshot_eq_empty.mp heq.symm⟩)
      · rintro (hne | heq | ⟨hempty, units, hmem, hzero⟩)
        · exact absurd htime hne
        · exact absurd heq htaken
        · refine ⟨fun u hu => ?_, units, hmem, ?_⟩
          · rw [hsame, hempty] at hu
            exact absurd hu (Finset.notMem_empty u)
          · rw [hsame, hempty, State.snapshot_eq_empty.mpr hzero]
  · refine ⟨fun _ => .inl htime, fun _ => ?_⟩
    have hnew := State.getUnitGroupAll_of_ne htime
    have hgood := h.getUnitGroupAll
    refine ⟨hgood.alive (by rw [hnew]), s.units, h.now, by rw [hnew]⟩

/-- **The unit snapshot.** In a session of games, all calls use the units of their own game at a
moment of the present time if and only if the clock has changed since the group was taken, or the
group was taken in the same game, or there are no units. -/
theorem callsOk_iff (units : List UnitHandle) (events : List Event) : CallsOk units events ↔
    Session.Steps event (State.init units) events
      fun s e => ∀ native, e = .native native → Current s := by
  have hgood : Session.Always event (State.init units) events State.Good :=
    Session.Always.of_step (fun s e _ h => event_good h e) (State.good_init units)
  constructor
  · intro h pre e hp native he
    have hpre := hgood pre ((List.prefix_append _ _).trans hp)
    exact (groupOk_iff hpre).mp (h pre e hp native he)
  · intro h pre e hp native he
    have hpre := hgood pre ((List.prefix_append _ _).trans hp)
    exact (groupOk_iff hpre).mpr (h pre e hp native he)

/-- The first call of a game comes at the time of the last call of the game before, and it uses a
unit that has been deleted. -/
theorem not_callsOk_same_time :
    ¬ CallsOk [7] [.tick 5, .native .groupUnitAll, .nextGame [8], .tick 5, .native .groupUnitAll] := by
  intro h
  have hok := h [.tick 5, .native .groupUnitAll, .nextGame [8], .tick 5] (.native .groupUnitAll)
    List.prefix_rfl .groupUnitAll rfl
  exact absurd (hok.alive ⟨0, 7⟩ (by decide)) (by decide)

end DreamDota.GroupAll
