import DreamDota.Lib.Runs
import DreamDota.Units.UnitGroup

/-!
# The number of unit types of a group

`UnitGroup::countUnitTypeId` of `UnitGroup.cpp` goes through the group and counts where the type of
a unit differs from the type of the unit before it. What `Unit::typeId` asks the game is a
parameter, and the counter is not bounded: a group has less than `2^32` units.

The loop counts the runs of equal types (`countUnitTypeId_eq_runs`). The order of a group is made of
priorities and handles, so a type may have several runs: `countUnitTypeId_iff` says when none has.
-/

namespace DreamDota

open SearchTree

namespace UnitGroup

/-! ## The code -/

/-- The body of the loop: `lastTypeId` and `count` change. -/
def countStep (typeId : UnitHandle → BitVec 32) (s : BitVec 32 × ℕ) (unit : UnitHandle) :
    BitVec 32 × ℕ :=
  (typeId unit, if s.1 ≠ typeId unit then s.2 + 1 else s.2)

def countUnitTypeId (typeId : UnitHandle → BitVec 32) (g : UnitGroup) : ℕ :=
  (g.members.foldl (countStep typeId) (0, 0)).2

/-- The type ids of the group. -/
def typeIds (typeId : UnitHandle → BitVec 32) (g : UnitGroup) : Finset (BitVec 32) :=
  (g.members.map typeId).toFinset

/-! ## What the loop counts -/

variable (typeId : UnitHandle → BitVec 32) (g : UnitGroup)

/-- From any unit on, the loop counts the runs that begin after `lastTypeId`. -/
theorem countUnitTypeId_loop (units : List UnitHandle) (lastTypeId : BitVec 32) (count : ℕ) :
    (units.foldl (countStep typeId) (lastTypeId, count)).2 + 1 =
      count + ((units.map typeId).destutter' (· ≠ ·) lastTypeId).length := by
  induction units generalizing lastTypeId count with
  | nil => rfl
  | cons unit units ih =>
    rw [List.foldl_cons, List.map_cons]
    by_cases hne : lastTypeId ≠ typeId unit
    · have hstep : countStep typeId (lastTypeId, count) unit = (typeId unit, count + 1) := by
        rw [countStep, if_pos hne]
      rw [hstep, ih, List.destutter'_cons_pos _ hne, List.length_cons]
      exact Nat.succ_add_eq_add_succ count _
    · have hstep : countStep typeId (lastTypeId, count) unit = (lastTypeId, count) := by
        rw [countStep, if_neg hne, ← not_not.mp hne]
      rw [hstep, ih, List.destutter'_cons_neg _ hne]

variable {typeId g}

/-- Where no type is the 0 that `lastTypeId` begins with, every run is counted. -/
theorem countUnitTypeId_eq_runs (hne : ∀ unit ∈ g.members, typeId unit ≠ 0) :
    g.countUnitTypeId typeId = ((g.members.map typeId).destutter (· ≠ ·)).length := by
  have hloop := countUnitTypeId_loop typeId g.members 0 0
  change g.countUnitTypeId typeId + 1 = _ at hloop
  cases hmembers : g.members with
  | nil =>
    rw [hmembers, List.map_nil, List.destutter'_nil, List.length_singleton] at hloop
    exact Nat.succ.inj hloop
  | cons unit units =>
    have hfirst : (0 : BitVec 32) ≠ typeId unit := (hne unit (by simp [hmembers])).symm
    rw [hmembers, List.map_cons, List.destutter'_cons_pos _ hfirst, List.length_cons,
      zero_add] at hloop
    exact Nat.succ.inj hloop

/-- The order of the iterators is all that matters: no type may come back in it. -/
theorem countUnitTypeId_eq_card_iff (hne : ∀ unit ∈ g.members, typeId unit ≠ 0) :
    g.countUnitTypeId typeId = (g.typeIds typeId).card ↔ Runs.Grouped (g.members.map typeId) := by
  rw [countUnitTypeId_eq_runs hne]
  exact Runs.length_destutter_eq_card_iff

/-- A group that is counted as one type is not empty and all of one type, in every order. Nothing
else is asked by `Formation.cpp`. -/
theorem countUnitTypeId_eq_one_iff (hne : ∀ unit ∈ g.members, typeId unit ≠ 0) :
    g.countUnitTypeId typeId = 1 ↔
      ∃ unit ∈ g.members, ∀ other ∈ g.members, typeId other = typeId unit := by
  rw [countUnitTypeId_eq_runs hne, Runs.length_destutter_eq_one_iff]
  simp only [List.mem_map, exists_exists_and_eq_and, forall_exists_index, and_imp,
    forall_apply_eq_imp_iff₂]

/-! ## The number of the types -/

/-- **Number of unit types.** The types of a group are counted if and only if between two units of
one type, in the order of priorities and handles, there are only units of this type. -/
theorem countUnitTypeId_iff (typeId : UnitHandle → BitVec 32) (g : UnitGroup) (hsorted : g.Sorted)
    (hne : ∀ unit ∈ g.members, typeId unit ≠ 0) :
    g.countUnitTypeId typeId = (g.typeIds typeId).card ↔
      ∀ a ∈ g.members, ∀ b ∈ g.members, ∀ c ∈ g.members,
        unitgroupcomp g.game a b → unitgroupcomp g.game b c →
          typeId a = typeId c → typeId b = typeId a := by
  rw [countUnitTypeId_eq_card_iff hne]
  exact Runs.grouped_map_iff_of_pairwise hsorted

/-- Three units of one priority. -/
def threeUnits : UnitGroup :=
  (((new fun _ => none).add unbalanced (some 1)).add unbalanced (some 2)).add unbalanced (some 3)

theorem threeUnits_sorted : threeUnits.Sorted := (((sorted_new _).add _).add _).add _

/-- `'hfoo'` and `'hpea'`: the second unit is of the other type. -/
def interleaved (unit : UnitHandle) : BitVec 32 := if unit = 2 then 0x68706561 else 0x68666F6F

/-- The last one is. -/
def apart (unit : UnitHandle) : BitVec 32 := if unit = 3 then 0x68706561 else 0x68666F6F

/-- Two types that stand apart are counted. -/
theorem countUnitTypeId_apart :
    threeUnits.countUnitTypeId apart = (threeUnits.typeIds apart).card :=
  (countUnitTypeId_iff apart threeUnits threeUnits_sorted (by decide +kernel)).mpr
    (by decide +kernel)

/-- The same two types count as three where they are interleaved. -/
theorem not_countUnitTypeId_interleaved :
    (¬ ∀ (typeId : UnitHandle → BitVec 32) (g : UnitGroup), g.Sorted →
      (∀ unit ∈ g.members, typeId unit ≠ 0) →
        g.countUnitTypeId typeId = (g.typeIds typeId).card) ∧
    threeUnits.members = [1, 2, 3] ∧ threeUnits.typeIds interleaved = threeUnits.typeIds apart ∧
    threeUnits.countUnitTypeId interleaved = 3 ∧ threeUnits.countUnitTypeId apart = 2 := by
  have hthree : threeUnits.countUnitTypeId interleaved = 3 := by decide +kernel
  refine ⟨fun h => ?_, by decide +kernel, by decide +kernel, hthree, by decide +kernel⟩
  have heq := h interleaved threeUnits threeUnits_sorted (by decide +kernel)
  rw [hthree] at heq
  exact absurd heq (by decide +kernel)

end UnitGroup

end DreamDota
