import DreamDota.Units.UnitGroup
import Mathlib.Analysis.Real.Sqrt

/-!
# The nearest unit of a group

`UnitGroup::nearestUnit` of `UnitGroup.cpp`: the loop begins with a bound for the square of the
distance, and a unit that is not within the bound is never taken. The numbers are exact.

`nearestUnit_loop` is what the loop has found among the first units, and `nearestOk_iff` the groups
in which it finds the nearest unit.
-/

namespace DreamDota

namespace UnitGroup

/-! ## The code -/

/-- `Point`. -/
structure Point (α : Type) where
  x : α
  y : α

section Model

variable {α : Type} [Field α] [LinearOrder α]

/-- The value `leastDsqr` begins with. -/
def dsqrBound : α := 9999999

/-- `dsqr`. -/
def dsqr (position : UnitHandle → Point α) (p : Point α) (unit : UnitHandle) : α :=
  ((position unit).x - p.x) ^ 2 + ((position unit).y - p.y) ^ 2

/-- The body of the loop: `nearestUnit` and `leastDsqr` change. -/
def nearestStep (position : UnitHandle → Point α) (p : Point α) (s : Option UnitHandle × α)
    (unit : UnitHandle) : Option UnitHandle × α :=
  if s.2 > dsqr position p unit then (some unit, dsqr position p unit) else s

/-- `nearestUnit`, which also returns what it stores at `distance`. -/
def nearestUnit (sqrt : α → α) (position : UnitHandle → Point α) (g : UnitGroup) (p : Point α) :
    Option UnitHandle × α :=
  let r := g.members.foldl (nearestStep position p) (none, dsqrBound)
  (r.1, sqrt r.2)

end Model

/-! ## What it is to find -/

section Nearest

variable {position : UnitHandle → Point ℝ} {g : UnitGroup} {p : Point ℝ}

/-- The distance of a unit. -/
noncomputable def distance (position : UnitHandle → Point ℝ) (p : Point ℝ)
    (unit : UnitHandle) : ℝ :=
  Real.sqrt (dsqr position p unit)

/-- A unit that is returned is a nearest one, its distance is stored, and no unit is returned for
the empty group only. -/
structure NearestOk (position : UnitHandle → Point ℝ) (g : UnitGroup) (p : Point ℝ)
    (r : Option UnitHandle × ℝ) : Prop where
  nearest : ∀ unit, r.1 = some unit → unit ∈ g.members ∧
    (∀ other ∈ g.members, distance position p unit ≤ distance position p other) ∧
    r.2 = distance position p unit
  null : r.1 = none → g.members = []

variable (position p) in
/-- After the first units, the one that is kept is a nearest one of them, if one is within the
bound. -/
theorem nearestUnit_loop (units : List UnitHandle) :
    let s := units.foldl (nearestStep position p) (none, dsqrBound)
    (∀ unit, s.1 = some unit → unit ∈ units ∧ s.2 = dsqr position p unit ∧ s.2 < dsqrBound) ∧
    (s.1 = none → s.2 = dsqrBound) ∧ ∀ unit ∈ units, s.2 ≤ dsqr position p unit := by
  induction units using List.reverseRecOn with
  | nil => exact ⟨fun unit h => absurd h (by simp), fun _ => rfl,
      fun unit h => absurd h List.not_mem_nil⟩
  | append_singleton units unit ih =>
    obtain ⟨hsome, hnone, hleast⟩ := ih
    rw [List.foldl_append, List.foldl_cons, List.foldl_nil]
    set s := units.foldl (nearestStep position p) (none, dsqrBound)
    have hbound : s.2 ≤ dsqrBound := by
      cases h : s.1 with
      | none => exact (hnone h).le
      | some unit => exact (hsome unit h).2.2.le
    unfold nearestStep
    split_ifs with hless
    · refine ⟨fun unit' h => ?_, fun h => absurd h (by simp), fun unit' h => ?_⟩
      · obtain rfl := Option.some.inj h
        exact ⟨List.mem_append_right _ (List.mem_singleton_self _), rfl, hless.trans_le hbound⟩
      · rcases List.mem_append.mp h with h | h
        · exact hless.le.trans (hleast unit' h)
        · rw [List.mem_singleton.mp h]
    · refine ⟨fun unit' h => ?_, hnone, fun unit' h => ?_⟩
      · exact ⟨List.mem_append_left _ (hsome unit' h).1, (hsome unit' h).2⟩
      · rcases List.mem_append.mp h with h | h
        · exact hleast unit' h
        · rw [List.mem_singleton.mp h]
          exact not_lt.mp hless

/-- **The nearest unit.** It is found if and only if the group is empty or the square of the
distance of some member is less than the bound of the loop. -/
theorem nearestOk_iff : NearestOk position g p (nearestUnit Real.sqrt position g p) ↔
    g.members = [] ∨ ∃ unit ∈ g.members, dsqr position p unit < 9999999 := by
  obtain ⟨hsome, hnone, hleast⟩ := nearestUnit_loop position p g.members
  set s := g.members.foldl (nearestStep position p) (none, dsqrBound) with hs
  have hunit : (nearestUnit Real.sqrt position g p).1 = s.1 := rfl
  have hstored : (nearestUnit Real.sqrt position g p).2 = Real.sqrt s.2 := rfl
  constructor
  · intro h
    cases hfound : s.1 with
    | none => exact .inl (h.null (hunit.trans hfound))
    | some unit =>
      obtain ⟨hmem, hdsqr, hlt⟩ := hsome unit hfound
      exact .inr ⟨unit, hmem, hdsqr ▸ hlt⟩
  · intro h
    refine ⟨fun unit hfound => ?_, fun hfound => ?_⟩
    · obtain ⟨hmem, hdsqr, -⟩ := hsome unit (hunit.symm.trans hfound)
      refine ⟨hmem, fun other hother => Real.sqrt_le_sqrt ?_, by rw [hstored, hdsqr]; rfl⟩
      exact hdsqr ▸ hleast other hother
    · rcases h with h | ⟨unit, hmem, hlt⟩
      · exact h
      · have hle := hleast unit hmem
        rw [hnone (hunit.symm.trans hfound)] at hle
        exact absurd hlt (not_lt.mpr hle)

end Nearest

/-- A group of one unit. -/
def oneUnit : UnitGroup := ⟨.node 1 .nil .nil, fun _ => none⟩

/-- The unit stands 4000 to the right of the point and is not found. -/
theorem not_nearestOk_far_unit :
    ¬ NearestOk (fun _ => ⟨4000, 0⟩) oneUnit ⟨0, 0⟩
      (nearestUnit Real.sqrt (fun _ => ⟨4000, 0⟩) oneUnit ⟨0, 0⟩) ∧
    (nearestUnit Real.sqrt (fun _ => ⟨4000, 0⟩) oneUnit ⟨0, 0⟩).1 = none := by
  have hnull : (nearestUnit Real.sqrt (fun _ => ⟨4000, 0⟩) oneUnit ⟨0, 0⟩).1 = none := by
    have hfar : ¬ (dsqrBound : ℝ) > dsqr (fun _ => ⟨4000, 0⟩) ⟨0, 0⟩ 1 := by
      norm_num [dsqrBound, dsqr]
    show (nearestStep (fun _ => ⟨4000, 0⟩) ⟨0, 0⟩ (none, dsqrBound) 1).1 = none
    rw [nearestStep, if_neg hfar]
  exact ⟨fun h => List.cons_ne_nil _ _ (h.null hnull), hnull⟩

end UnitGroup

end DreamDota
