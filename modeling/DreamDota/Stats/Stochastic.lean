import DreamDota.Lib.Share
import DreamDota.Stats.LatencyWindow
import Mathlib.Algebra.BigOperators.Fin
import Mathlib.Algebra.Order.Floor.Ring
import Mathlib.Tactic.Linarith
import Mathlib.Tactic.Ring

/-!
# The chance to reach a value

`DnDAtkDist` of `Stochastic.cpp`: a damage is a base and dice. `chanceGreaterEqual` draws the dice one
after another and keeps a map of the sums that are not decided yet, with their chances. A sum that
cannot reach the value any more goes to `chanceLesser`, one that exceeds it in any case to
`chanceGreater`.

`chanceFrom` is the chance that the code is after, drawn die by die. It is the share of the outcomes
of all dice, `chanceFrom_eq_share`.
-/

namespace DreamDota

namespace Stochastic

open SearchTree Latency

/-- `Dice`. -/
structure Dice (α : Type) where
  sides : ℕ
  factor : α
  deriving DecidableEq, Repr

/-- `DnDAtkDist`. -/
structure DnDAtkDist (α : Type) where
  base : α
  dices : List (Dice α)
  deriving DecidableEq, Repr

/-- The variables of `chanceGreaterEqual` that the loop over the dice changes. -/
structure Loop (α : Type) where
  diceMax : α
  diceMin : α
  chanceLesser : α
  chanceGreater : α
  distributionLast : BinaryTree (α × α)
  stepCurrent : ℕ

/-- Those that the loops over one die change. -/
structure Masses (α : Type) where
  chanceLesser : α
  chanceGreater : α
  distributionCurrent : BinaryTree (α × α)

section Model

variable {α : Type} [Field α] [LinearOrder α] [FloorRing α]

def Dice.maxValue (d : Dice α) : α := (d.sides : α) * d.factor

def Dice.minValue (d : Dice α) : α := d.factor

namespace DnDAtkDist

def maxValue (dist : DnDAtkDist α) : α :=
  dist.dices.foldl (fun rv d => rv + d.maxValue) dist.base

def minValue (dist : DnDAtkDist α) : α :=
  dist.dices.foldl (fun rv d => rv + d.minValue) dist.base

/-- `operator &=`. -/
def combine (dist other : DnDAtkDist α) : DnDAtkDist α :=
  { base := dist.base + other.base, dices := dist.dices ++ other.dices }

end DnDAtkDist

/-- The size of `D_allSteps`. -/
def allStepsCount : ℕ := 0x100

-- How `std::map` arranges the distributions, and what the loops read.
variable (B : Balancing (α × α)) (valueTransformed : α) (flagRoundedToInt : Bool)

/-- The key for a sum. -/
def rounded (newKeyVal : α) : α :=
  if flagRoundedToInt then ((⌊newKeyVal + 1 / 2⌋ : ℤ) : α) else newKeyVal

/-- The body of the loop over the points. -/
def addPoint (diceMax diceMin mass newKeyVal : α) (s : Masses α) : Masses α :=
  if newKeyVal + diceMax < valueTransformed then
    { s with chanceLesser := s.chanceLesser + mass }
  else if valueTransformed < newKeyVal + diceMin then
    { s with chanceGreater := s.chanceGreater + mass }
  else
    let key := rounded flagRoundedToInt newKeyVal
    { s with
      distributionCurrent := alter DistributionLess B 0 (· + mass) s.distributionCurrent key }

/-- The loop over the points of a die, with the number of points to come. -/
def pointLoop (diceMax diceMin mass currentKeyVal factor : α) : ℕ → α → Masses α → Masses α
  | 0, _, s => s
  | n + 1, dicePoint, s =>
    pointLoop diceMax diceMin mass currentKeyVal factor n (dicePoint + factor)
      (addPoint B valueTransformed flagRoundedToInt diceMax diceMin mass
        (currentKeyVal + dicePoint) s)

/-- The loop over the elements of the last distribution. -/
def keyLoop (diceMax diceMin : α) (d : Dice α) (es : List (α × α)) (s : Masses α) : Masses α :=
  es.foldl (fun s e => pointLoop B valueTransformed flagRoundedToInt diceMax diceMin
    (e.2 * (1 / (d.sides : α))) e.1 d.factor d.sides d.minValue s) s

/-- The body of the loop over the dice. -/
def die (s : Loop α) (d : Dice α) : Loop α :=
  let diceMax := s.diceMax - d.maxValue
  let diceMin := s.diceMin - d.minValue
  let masses := keyLoop B valueTransformed flagRoundedToInt diceMax diceMin d
    (elements s.distributionLast) ⟨s.chanceLesser, s.chanceGreater, .nil⟩
  { diceMax := diceMax
    diceMin := diceMin
    chanceLesser := masses.chanceLesser
    chanceGreater := masses.chanceGreater
    distributionLast := masses.distributionCurrent
    stepCurrent := s.stepCurrent + 1 }

/-- The loop over the dice. -/
def diceLoop : List (Dice α) → Loop α → Loop α
  | [], s => s
  | d :: dices, s =>
    let s := die B valueTransformed flagRoundedToInt s d
    if allStepsCount ≤ s.stepCurrent then s else diceLoop dices s

namespace DnDAtkDist

/-- The variables before the loop. -/
def start (dist : DnDAtkDist α) : Loop α where
  diceMax := dist.maxValue - dist.base
  diceMin := dist.minValue - dist.base
  chanceLesser := 0
  chanceGreater := 0
  distributionLast := alter DistributionLess B 0 (fun _ => 1) .nil 0
  stepCurrent := 0

/-- The variables after the first dice of the list. -/
def after (dist : DnDAtkDist α) (value : α) (flagRoundedToInt : Bool) (dices : List (Dice α)) :
    Loop α :=
  diceLoop B (value - dist.base) flagRoundedToInt dices (dist.start B)

/-- `DnDAtkDist::chanceGreaterEqual`. -/
def chanceGreaterEqual (dist : DnDAtkDist α) (value : α) (flagRoundedToInt : Bool) : α :=
  if dist.maxValue < value then 0
  else if value ≤ dist.minValue then 1
  else
    let s := dist.after B value flagRoundedToInt dist.dices
    (elements s.distributionLast).foldl
      (fun rvChance e => if value - dist.base ≤ e.1 then rvChance + e.2 else rvChance)
      s.chanceGreater

end DnDAtkDist

end Model

section Exact

variable {α : Type} [Field α] [LinearOrder α] [IsStrictOrderedRing α]

/-! ## The exact chance -/

/-- The mean of `h` over the points of a die that is added to `x`. -/
def average (d : Dice α) (h : α → α) (x : α) : α :=
  (∑ i ∈ Finset.range d.sides, h (x + ((i : α) + 1) * d.factor)) / (d.sides : α)

/-- The chance that `x` and the dice reach `value`. -/
def chanceFrom (value : α) : List (Dice α) → α → α
  | [], x => if value ≤ x then 1 else 0
  | d :: dices, x => average d (chanceFrom value dices) x

/-- The sides of a die that can be thrown, with a factor that does not turn it around. -/
structure Dice.Valid (d : Dice α) : Prop where
  sides : 1 ≤ d.sides
  factor : 0 ≤ d.factor

omit [IsStrictOrderedRing α] in
theorem Dice.valid_iff {d : Dice α} : d.Valid ↔ 1 ≤ d.sides ∧ 0 ≤ d.factor :=
  ⟨fun h => ⟨h.sides, h.factor⟩, fun h => ⟨h.1, h.2⟩⟩

namespace DnDAtkDist

/-- The points of all dice, counted from zero. -/
abbrev Outcome (dices : List (Dice α)) := ∀ i : Fin dices.length, Fin (dices.get i).sides

/-- The sum for an outcome. -/
def outcomeValue (dist : DnDAtkDist α) (ω : Outcome dist.dices) : α :=
  dist.base + ∑ i, (dist.dices.get i).factor * ((ω i : ℕ) + 1 : α)

/-- The probability that independent uniform dice reach `value`. -/
def probGreaterEqual (dist : DnDAtkDist α) (value : α) : α :=
  Chance.share α fun ω => value ≤ dist.outcomeValue ω

end DnDAtkDist

variable {value x y : α} {d : Dice α} {dices others : List (Dice α)} {g h : α → α}

theorem Dice.Valid.cast_ne_zero (hd : d.Valid) : (d.sides : α) ≠ 0 :=
  Nat.cast_ne_zero.mpr (Nat.one_le_iff_ne_zero.mp hd.sides)

theorem Dice.Valid.cast_pos (hd : d.Valid) : (0 : α) < d.sides := Nat.cast_pos.mpr hd.sides

theorem average_const (hd : d.Valid) (c : α) : average d (fun _ => c) x = c := by
  rw [average, Finset.sum_const, Finset.card_range, nsmul_eq_mul,
    mul_div_cancel_left₀ c hd.cast_ne_zero]

theorem average_mono (hle : ∀ i < d.sides, g (x + ((i : α) + 1) * d.factor) ≤
    h (y + ((i : α) + 1) * d.factor)) : average d g x ≤ average d h y := by
  refine div_le_div_of_nonneg_right (Finset.sum_le_sum fun i hi => ?_) (Nat.cast_nonneg _)
  exact hle i (Finset.mem_range.mp hi)

theorem average_congr (heq : ∀ i < d.sides, g (x + ((i : α) + 1) * d.factor) =
    h (y + ((i : α) + 1) * d.factor)) : average d g x = average d h y :=
  le_antisymm (average_mono fun i hi => (heq i hi).le) (average_mono fun i hi => (heq i hi).ge)

/-- The points of a die lie between its bounds. -/
theorem Dice.Valid.point_bounds (hd : d.Valid) {i : ℕ} (hi : i < d.sides) :
    d.minValue ≤ ((i : α) + 1) * d.factor ∧ ((i : α) + 1) * d.factor ≤ d.maxValue := by
  constructor
  · have hone : (1 : α) ≤ (i : α) + 1 := le_add_of_nonneg_left (Nat.cast_nonneg i)
    calc d.minValue = 1 * d.factor := (one_mul _).symm
      _ ≤ ((i : α) + 1) * d.factor := mul_le_mul_of_nonneg_right hone hd.factor
  · refine mul_le_mul_of_nonneg_right ?_ hd.factor
    have hcast : ((i + 1 : ℕ) : α) ≤ d.sides := Nat.cast_le.mpr hi
    rwa [Nat.cast_add, Nat.cast_one] at hcast

/-- The largest sum of dice. -/
def sumMax (dices : List (Dice α)) : α := (dices.map Dice.maxValue).sum

/-- The smallest one. -/
def sumMin (dices : List (Dice α)) : α := (dices.map Dice.minValue).sum

theorem chanceFrom_eq_zero (hd : ∀ d ∈ dices, d.Valid) (hx : x + sumMax dices < value) :
    chanceFrom value dices x = 0 := by
  induction dices generalizing x with
  | nil =>
    rw [sumMax, List.map_nil, List.sum_nil, add_zero] at hx
    exact if_neg hx.not_ge
  | cons d dices ih =>
    have hdie := hd d List.mem_cons_self
    rw [chanceFrom, ← average_const (x := x) hdie 0]
    refine average_congr fun i hi => ih (fun d' h' => hd d' (List.mem_cons_of_mem _ h')) ?_
    rw [sumMax, List.map_cons, List.sum_cons] at hx
    have hpoint := (hdie.point_bounds hi).2
    rw [sumMax]
    linarith

theorem chanceFrom_eq_one (hd : ∀ d ∈ dices, d.Valid) (hx : value ≤ x + sumMin dices) :
    chanceFrom value dices x = 1 := by
  induction dices generalizing x with
  | nil =>
    rw [sumMin, List.map_nil, List.sum_nil, add_zero] at hx
    exact if_pos hx
  | cons d dices ih =>
    have hdie := hd d List.mem_cons_self
    rw [chanceFrom, ← average_const (x := x) hdie 1]
    refine average_congr fun i hi => ih (fun d' h' => hd d' (List.mem_cons_of_mem _ h')) ?_
    rw [sumMin, List.map_cons, List.sum_cons] at hx
    have hpoint := (hdie.point_bounds hi).1
    rw [sumMin]
    linarith

/-- Only the distance to the value counts. -/
theorem chanceFrom_sub (b : α) :
    chanceFrom (value - b) dices x = chanceFrom value dices (b + x) := by
  induction dices generalizing x with
  | nil =>
    have hiff : value - b ≤ x ↔ value ≤ b + x := sub_le_iff_le_add'
    simp only [chanceFrom, hiff]
  | cons d dices ih =>
    refine average_congr fun i _ => ?_
    rw [ih, add_assoc]

theorem chanceFrom_anti {value' : α} (hle : value ≤ value') :
    chanceFrom value' dices x ≤ chanceFrom value dices x := by
  induction dices generalizing x with
  | nil =>
    rw [chanceFrom, chanceFrom]
    split_ifs with h' h
    · exact le_rfl
    · exact absurd (hle.trans h') h
    · exact zero_le_one
    · exact le_rfl
  | cons d dices ih => exact average_mono fun i _ => ih

theorem chanceFrom_bounds (hd : ∀ d ∈ dices, d.Valid) :
    0 ≤ chanceFrom value dices x ∧ chanceFrom value dices x ≤ 1 := by
  induction dices generalizing x with
  | nil =>
    rw [chanceFrom]
    split_ifs
    · exact ⟨zero_le_one, le_rfl⟩
    · exact ⟨le_rfl, zero_le_one⟩
  | cons d dices ih =>
    have hdie := hd d List.mem_cons_self
    have hrest := fun y => ih (x := y) fun d' h' => hd d' (List.mem_cons_of_mem _ h')
    rw [chanceFrom]
    constructor
    · rw [← average_const (x := x) hdie 0]
      exact average_mono fun i _ => (hrest _).1
    · rw [← average_const (x := x) hdie 1]
      exact average_mono fun i _ => (hrest _).2

/-- Dice whose smallest sum makes up for the step to `y` do not lower the chance. -/
theorem chanceFrom_le_append (hothers : ∀ d ∈ others, d.Valid) (hxy : x ≤ y + sumMin others) :
    chanceFrom value dices x ≤ chanceFrom value (dices ++ others) y := by
  induction dices generalizing x y with
  | nil =>
    rw [chanceFrom, List.nil_append]
    split_ifs with hx
    · exact (chanceFrom_eq_one hothers (hx.trans hxy)).ge
    · exact (chanceFrom_bounds hothers).1
  | cons d dices ih =>
    refine average_mono fun i _ => ih ?_
    linarith

omit [IsStrictOrderedRing α] in
/-- The chance is the share of the outcomes. -/
theorem chanceFrom_eq_share : chanceFrom value dices x =
    Chance.share α fun ω : DnDAtkDist.Outcome dices =>
      value ≤ x + ∑ i, (dices.get i).factor * ((ω i : ℕ) + 1 : α) := by
  induction dices generalizing x with
  | nil =>
    have : IsEmpty (Fin ([] : List (Dice α)).length) := inferInstanceAs (IsEmpty (Fin 0))
    rw [Chance.share_of_unique, Finset.univ_eq_empty, Finset.sum_empty, add_zero]
    rfl
  | cons d dices ih =>
    have hcons := @Chance.share_cons α _ dices.length (fun i => Fin ((d :: dices).get i).sides) _ _
      (fun ω => value ≤ x + ∑ i, ((d :: dices).get i).factor * ((ω i : ℕ) + 1 : α)) _
    refine Eq.trans ?_ hcons.symm
    have hrest : ∀ k : Fin d.sides, chanceFrom value dices (x + ((k : ℕ) + 1 : α) * d.factor) =
        Chance.share α fun ω : DnDAtkDist.Outcome dices =>
          value ≤ x + ∑ i, ((d :: dices).get i).factor *
            (((Fin.cons k ω : DnDAtkDist.Outcome (d :: dices)) i : ℕ) + 1 : α) := by
      intro k
      rw [ih]
      refine Chance.share_congr fun ω => ?_
      have hsum : ∑ i, ((d :: dices).get i).factor *
            (((Fin.cons k ω : DnDAtkDist.Outcome (d :: dices)) i : ℕ) + 1 : α) =
          d.factor * ((k : ℕ) + 1 : α) + ∑ i, (dices.get i).factor * ((ω i : ℕ) + 1 : α) :=
        Fin.sum_univ_succ _
      rw [hsum, ← add_assoc, mul_comm d.factor]
    rw [chanceFrom, average, Finset.sum_range, Finset.sum_congr rfl fun k _ => hrest k]
    exact congrArg _ (congrArg Nat.cast (Fintype.card_fin d.sides).symm)

end Exact

end Stochastic

end DreamDota
