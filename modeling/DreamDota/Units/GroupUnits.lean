import DreamDota.Lib.Classes
import DreamDota.Units.UnitFilter
import DreamDota.Units.UnitGroup
import Mathlib.Data.List.Sort

/-!
# Groups of units with a property

`GroupUnits` of `UnitGroup.cpp` and the operations that take a whole group. A region is the property
of a unit to stand in it.

The priorities stay fixed here. Then every group stands in the order of the priorities, and two groups
with the same members are the same sequence: `groupUnits` filters the sequence of the members, and
`removeGroup` takes out what the other group has.

`drain` is a loop that picks a group out of a group and takes it out until nothing is left. If the
picks are the units with the type of the first one, it ends with the classes by type.
-/

namespace DreamDota

/-! ## Groups of players -/

structure PlayerGroup where
  players : List Bool
  playerCount : ℕ
  deriving DecidableEq, Repr

namespace PlayerGroup

def new : PlayerGroup := ⟨List.replicate 16 false, 0⟩

def add (group : PlayerGroup) (inPlayerId : ℕ) : PlayerGroup :=
  if inPlayerId < 16 ∧ group.players.getD inPlayerId false = false then
    ⟨group.players.set inPlayerId true, group.playerCount + 1⟩
  else group

def has (group : PlayerGroup) (inPlayerId : ℕ) : Bool := group.players.getD inPlayerId false

/-- `PlayerGroupAll`. -/
def all : PlayerGroup := (List.range 16).foldl add new

theorem has_all {player : ℕ} (h : player < 16) : all.has player = true := by
  have hall : ∀ player < 16, all.has player = true := by decide
  exact hall player h

end PlayerGroup

/-! ## `GroupUnits` -/

/-- What the game answers while the priorities stay fixed. `upgradeTypeId` is what a unit becomes by
its ability `'AUnP'`, if it has the ability. -/
structure GameUnits where
  priorities : SelectionPriorities
  players : UnitFilter.Players
  answers : UnitHandle → UnitFilter.UnitAnswers
  getUnitTypeId : UnitHandle → BitVec 32
  upgradeTypeId : UnitHandle → Option (BitVec 32)
  getPlayerTechCount : ℕ → BitVec 32 → BitVec 32
  unitGrabAll : List UnitHandle

namespace UnitGroup

variable (B : SearchTree.Balancing UnitHandle)

/-- `getUnit`. -/
def getUnit (g : UnitGroup) (index : ℕ) : Option UnitHandle := g.members[index]?

/-- `add`, unit by unit. -/
def addAll (g : UnitGroup) (units : List UnitHandle) : UnitGroup :=
  units.foldl (fun g unit => g.add B (some unit)) g

/-- `remove` of a whole group. -/
def removeGroup (g otherGroup : UnitGroup) : UnitGroup :=
  otherGroup.members.foldl (fun g unit => g.remove B (some unit)) g

/-- What `copy` makes of a group, whatever it held. The game is the same for both. -/
def copy (otherGroup : UnitGroup) : UnitGroup :=
  (new otherGroup.game).addAll B otherGroup.members

end UnitGroup

namespace GameUnits

open UnitGroup

variable (B : SearchTree.Balancing UnitHandle) (game : GameUnits)

/-- The tests that `GroupAddUnits` makes of a unit. -/
def isMatched (inUnitTypeId : BitVec 32) (owners : PlayerGroup)
    (inRegion : Option (UnitHandle → Bool)) (inUnitFilter : UnitFilter) (u : UnitHandle) : Bool :=
  (inUnitTypeId == 0 || inUnitTypeId == game.getUnitTypeId u) &&
  (owners.playerCount == 0 || owners.has (game.answers u).owner.toNat) &&
  inRegion.all (fun hasPoint => hasPoint u) &&
  (inUnitFilter == UnitFilter.empty ||
    UnitFilter.filterMatch game.players (game.answers u) inUnitFilter)

/-- The loop of `GroupAddUnits`. It breaks when the limit is reached, where 0 is no limit. -/
def addMatched (isMatched : UnitHandle → Bool) (maxCount : ℕ) :
    List UnitHandle → ℕ → UnitGroup → UnitGroup
  | [], _, group => group
  | u :: units, count, group =>
    if isMatched u && (maxCount == 0 || decide (count < maxCount)) then
      if maxCount != 0 && decide (maxCount ≤ count + 1) then group.add B (some u)
      else addMatched isMatched maxCount units (count + 1) (group.add B (some u))
    else addMatched isMatched maxCount units count group

/-- `GroupAddUnits`. Without a group to take the units from, these are all units. -/
def groupAddUnits (group : UnitGroup) (fromGroup : Option UnitGroup) (inUnitTypeId : BitVec 32)
    (owners : PlayerGroup) (inRegion : Option (UnitHandle → Bool)) (inUnitFilter : UnitFilter)
    (maxCount : ℕ) : UnitGroup :=
  let units := match fromGroup with
    | none => game.unitGrabAll
    | some fromGroup => fromGroup.members
  addMatched B (game.isMatched inUnitTypeId owners inRegion inUnitFilter) maxCount units 0 group

def groupUnits (fromGroup : Option UnitGroup) (inUnitTypeId : BitVec 32) (owners : PlayerGroup)
    (inRegion : Option (UnitHandle → Bool)) (inUnitFilter : UnitFilter) (maxCount : ℕ) :
    UnitGroup :=
  game.groupAddUnits B (new game.priorities) fromGroup inUnitTypeId owners inRegion inUnitFilter
    maxCount

/-- What is read from the ability, if the unit has it and there is something. -/
def abilityType : Option (BitVec 32) → BitVec 32
  | some typeId => if typeId ≠ 0 ∧ typeId ≠ 0xFFFFFFFF then typeId else 0
  | none => 0

/-- `Unit::queueType`. -/
def queueType (unit : UnitHandle) : BitVec 32 := abilityType (game.answers unit).queueItemType

/-- `Unit::upgradeType`. -/
def upgradeType (unit : UnitHandle) : BitVec 32 := abilityType (game.upgradeTypeId unit)

/-! ## Groups in the order of the priorities -/

/-- The group stands in the order of the priorities. -/
structure InOrder (g : UnitGroup) : Prop where
  game : g.game = game.priorities
  sorted : g.Sorted

variable {B game} {g g' other : UnitGroup} {units : List UnitHandle} {unit : UnitHandle}

theorem inOrder_new : game.InOrder (new game.priorities) := ⟨rfl, sorted_new _⟩

theorem InOrder.add (h : game.InOrder g) (o : Option UnitHandle) : game.InOrder (g.add B o) := by
  refine ⟨?_, h.sorted.add o⟩
  cases o with
  | none => exact h.game
  | some unit => exact h.game

theorem InOrder.remove (h : game.InOrder g) (o : Option UnitHandle) :
    game.InOrder (g.remove B o) := by
  refine ⟨?_, h.sorted.remove o⟩
  cases o with
  | none => exact h.game
  | some unit => exact h.game

/-- Groups in order with the same members are the same sequence. -/
theorem InOrder.members_eq (h : game.InOrder g) {l : List UnitHandle}
    (hl : l.Pairwise (unitgroupcomp game.priorities)) (hmem : ∀ unit, unit ∈ g.members ↔ unit ∈ l) :
    g.members = l := by
  have hsorted : g.members.Pairwise (unitgroupcomp game.priorities) := h.game ▸ h.sorted
  exact hsorted.eq_of_mem_iff hl hmem

/-- Any selection of the members keeps the order. -/
theorem InOrder.pairwise_filter (h : game.InOrder g) (p : UnitHandle → Bool) :
    (g.members.filter p).Pairwise (unitgroupcomp game.priorities) := by
  have hsorted : g.members.Pairwise (unitgroupcomp game.priorities) := h.game ▸ h.sorted
  exact hsorted.filter p

theorem InOrder.addAll (h : game.InOrder g) (units : List UnitHandle) :
    game.InOrder (g.addAll B units) := by
  induction units generalizing g with
  | nil => exact h
  | cons unit units ih => exact ih (h.add (some unit))

theorem InOrder.mem_addAll (h : game.InOrder g) :
    unit ∈ (g.addAll B units).members ↔ unit ∈ units ∨ unit ∈ g.members := by
  induction units generalizing g with
  | nil => simp [UnitGroup.addAll]
  | cons a units ih =>
    show unit ∈ ((g.add B (some a)).addAll B units).members ↔ _
    rw [ih (h.add (some a)), h.sorted.mem_add, List.mem_cons]
    tauto

theorem InOrder.removeGroup (h : game.InOrder g) (other : UnitGroup) :
    game.InOrder (g.removeGroup B other) := by
  unfold UnitGroup.removeGroup
  generalize other.members = units
  induction units generalizing g with
  | nil => exact h
  | cons unit units ih => exact ih (h.remove (some unit))

theorem InOrder.mem_removeGroup (h : game.InOrder g) :
    unit ∈ (g.removeGroup B other).members ↔ unit ∉ other.members ∧ unit ∈ g.members := by
  unfold UnitGroup.removeGroup
  generalize other.members = units
  induction units generalizing g with
  | nil => simp
  | cons a units ih =>
    rw [List.foldl_cons, ih (h.remove (some a)), h.sorted.mem_remove, List.mem_cons]
    tauto

/-- What is left when a group is taken out. -/
theorem InOrder.members_removeGroup (h : game.InOrder g) :
    (g.removeGroup B other).members = g.members.filter fun unit => unit ∉ other.members := by
  refine (h.removeGroup other).members_eq (h.pairwise_filter _) fun unit => ?_
  rw [h.mem_removeGroup, List.mem_filter, decide_eq_true_iff, and_comm]

theorem inOrder_copy (h : game.InOrder other) : game.InOrder (copy B other) :=
  InOrder.addAll (h.game ▸ inOrder_new) _

theorem members_copy (h : game.InOrder other) : (copy B other).members = other.members := by
  have hnew : game.InOrder (new other.game) := h.game ▸ inOrder_new
  have hpairwise : other.members.Pairwise (unitgroupcomp game.priorities) := h.game ▸ h.sorted
  refine (inOrder_copy h).members_eq hpairwise fun unit => ?_
  rw [copy, hnew.mem_addAll]
  exact ⟨fun hm => hm.resolve_right List.not_mem_nil, .inl⟩

/-- Without a limit the loop adds the matched units. -/
theorem addMatched_eq (p : UnitHandle → Bool) (units : List UnitHandle) (count : ℕ)
    (group : UnitGroup) : addMatched B p 0 units count group = group.addAll B (units.filter p) := by
  induction units generalizing count group with
  | nil => rfl
  | cons u units ih =>
    cases hp : p u with
    | false =>
      rw [addMatched, hp, List.filter_cons_of_neg (by rw [hp]; exact Bool.false_ne_true)]
      exact ih count group
    | true =>
      rw [addMatched, hp, List.filter_cons_of_pos hp]
      exact ih (count + 1) (group.add B (some u))

variable {inUnitTypeId : BitVec 32} {owners : PlayerGroup} {inRegion : Option (UnitHandle → Bool)}
  {inUnitFilter : UnitFilter}

theorem inOrder_groupUnits : game.InOrder
    (game.groupUnits B (some g) inUnitTypeId owners inRegion inUnitFilter 0) := by
  rw [groupUnits, groupAddUnits, addMatched_eq]
  exact inOrder_new.addAll _

/-- Out of a group in order, the matched units. -/
theorem members_groupUnits (h : game.InOrder g) :
    (game.groupUnits B (some g) inUnitTypeId owners inRegion inUnitFilter 0).members =
      g.members.filter (game.isMatched inUnitTypeId owners inRegion inUnitFilter) := by
  refine inOrder_groupUnits.members_eq (h.pairwise_filter _) fun unit => ?_
  rw [groupUnits, groupAddUnits, addMatched_eq, inOrder_new.mem_addAll]
  exact ⟨fun hm => hm.resolve_right List.not_mem_nil, .inl⟩

/-- `PlayerGroupAll` and no region leave the tests for the type and for the filter. -/
theorem isMatched_all (howner : (game.answers unit).owner.toNat < 16) :
    game.isMatched inUnitTypeId PlayerGroup.all none inUnitFilter unit =
      ((inUnitTypeId == 0 || inUnitTypeId == game.getUnitTypeId unit) &&
        (inUnitFilter == UnitFilter.empty ||
          UnitFilter.filterMatch game.players (game.answers unit) inUnitFilter)) := by
  rw [isMatched, PlayerGroup.has_all howner, Bool.or_true, Bool.and_true, Option.all_none,
    Bool.and_true]

/-! ## Taking groups out -/

open Classes

section Drain

variable {σ : Type*}

variable (B) in
/-- `while (units->size() > 0)`: a group is picked with its type and taken out, and the body shows
it. Without fuel the loop is still running. -/
def drain (pick : UnitGroup → UnitGroup × BitVec 32) (body : UnitGroup × BitVec 32 → σ → σ) :
    ℕ → UnitGroup → σ → Option σ
  | 0, units, s => if 0 < units.size then none else some s
  | fuel + 1, units, s =>
    if 0 < units.size then
      drain pick body fuel (units.removeGroup B (pick units).1) (body (pick units) s)
    else some s

variable (game) in
/-- Out of units with `p`, the pick is the group of the units with the type of the first one. -/
def Picks (p : UnitHandle → Prop) (typeOf : UnitHandle → BitVec 32)
    (pick : UnitGroup → UnitGroup × BitVec 32) : Prop :=
  ∀ units a l, game.InOrder units → (∀ unit ∈ units.members, p unit) → units.members = a :: l →
    game.InOrder (pick units).1 ∧ (pick units).1.members = a :: withKey typeOf a l ∧
      (pick units).2 = typeOf a

variable (game) in
/-- The groups are the classes by type. -/
structure AreClasses (typeOf : UnitHandle → BitVec 32) (units : List UnitHandle)
    (groups : List (UnitGroup × BitVec 32)) : Prop where
  inOrder : ∀ g ∈ groups, game.InOrder g.1
  members : groups.map (fun g => g.1.members) = classes typeOf units
  typeId : ∀ g ∈ groups, ∀ unit ∈ g.1.members, typeOf unit = g.2

variable {p : UnitHandle → Prop} {typeOf : UnitHandle → BitVec 32}
  {pick : UnitGroup → UnitGroup × BitVec 32}

/-- Each turn takes out the class of the first unit. -/
theorem Picks.members_removeGroup (hpick : game.Picks p typeOf pick) (h : game.InOrder g)
    (hp : ∀ unit ∈ g.members, p unit) {a : UnitHandle} {l : List UnitHandle}
    (hm : g.members = a :: l) :
    (g.removeGroup B (pick g).1).members = without typeOf a l := by
  obtain ⟨-, hmembers, -⟩ := hpick g a l h hp hm
  rw [h.members_removeGroup, hmembers, hm, ← withKey_cons_self, ← without_cons_self, without]
  refine List.filter_congr fun unit hunit => decide_eq_decide.mpr ?_
  rw [mem_withKey]
  exact ⟨fun hnot heq => hnot ⟨hunit, heq⟩, fun hne hin => hne hin.2⟩

/-- With fuel for every unit the loop ends, and its body has been run for the classes. -/
theorem drain_eq (hpick : game.Picks p typeOf pick) (h : game.InOrder g)
    (hp : ∀ unit ∈ g.members, p unit) : ∃ groups, game.AreClasses typeOf g.members groups ∧
      ∀ (body : UnitGroup × BitVec 32 → σ → σ) (fuel : ℕ) (s : σ), g.size ≤ fuel →
        drain B pick body fuel g s = some (groups.foldl (fun s g => body g s) s) := by
  generalize hm : g.members = units
  induction units using classes.induct typeOf generalizing g with
  | case1 =>
    have hsize : g.size = 0 := by rw [size, hm, List.length_nil]
    refine ⟨[], ⟨by simp, by rw [classes]; rfl, by simp⟩, fun body fuel s _ => ?_⟩
    cases fuel with
    | zero => rw [drain, hsize, if_neg (Nat.lt_irrefl 0)]; rfl
    | succ fuel => rw [drain, hsize, if_neg (Nat.lt_irrefl 0)]; rfl
  | case2 a l ih =>
    obtain ⟨hin, hmembers, htype⟩ := hpick g a l h hp hm
    have hleft := hpick.members_removeGroup (B := B) h hp hm
    have hpleft : ∀ unit ∈ (g.removeGroup B (pick g).1).members, p unit := fun unit hunit =>
      hp unit (h.mem_removeGroup.mp hunit).2
    obtain ⟨groups, hclasses, hrun⟩ := ih (h.removeGroup _) hpleft hleft
    refine ⟨pick g :: groups, ⟨?_, ?_, ?_⟩, fun body fuel s hfuel => ?_⟩
    · exact List.forall_mem_cons.mpr ⟨hin, hclasses.inOrder⟩
    · rw [List.map_cons, hclasses.members, hmembers, classes]
    · refine List.forall_mem_cons.mpr ⟨fun unit hunit => ?_, hclasses.typeId⟩
      rw [hmembers, ← withKey_cons_self, mem_withKey] at hunit
      rw [hunit.2, htype]
    · have hsize : g.size = l.length + 1 := by rw [size, hm, List.length_cons]
      obtain ⟨fuel, rfl⟩ : ∃ n, fuel = n + 1 := ⟨fuel - 1, by omega⟩
      have hless : (g.removeGroup B (pick g).1).size ≤ fuel := by
        rw [size, hleft]
        exact (length_without_le typeOf a l).trans (by omega)
      rw [drain, if_pos (by omega), hrun body fuel _ hless]
      rfl

/-- What every run of the body keeps, the loop keeps. -/
theorem drain_induction {body : UnitGroup × BitVec 32 → σ → σ} (I : σ → Prop)
    (hbody : ∀ g s, I s → I (body g s)) {fuel : ℕ} {units : UnitGroup} {s s' : σ} (hs : I s)
    (hrun : drain B pick body fuel units s = some s') : I s' := by
  induction fuel generalizing units s with
  | zero =>
    rw [drain] at hrun
    split_ifs at hrun
    exact Option.some.inj hrun ▸ hs
  | succ fuel ih =>
    rw [drain] at hrun
    split_ifs at hrun
    · exact ih (hbody _ _ hs) hrun
    · exact Option.some.inj hrun ▸ hs

end Drain

end GameUnits

end DreamDota
