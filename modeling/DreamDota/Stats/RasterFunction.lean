import Mathlib.Algebra.BigOperators.Intervals
import Mathlib.Algebra.Order.Field.Basic
import Mathlib.Algebra.Order.Field.Rat
import Mathlib.Data.Nat.Cast.Order.Field
import Mathlib.Tactic.Linarith
import Mathlib.Tactic.Ring

/-!
# Functions on a raster

`Function` of `Stochastic.cpp`: the values of a function from `_offset` on, one for each
`RASTER_UNIT`. The numbers are exact, and the counters of the rasters do not overflow.

`smooth` means to replace every value by the mean of the values around it. Its loop for the first
value starts below the index zero of an unsigned counter and does nothing, so all means are too small
by the first one: `smooth_values`. They are right if and only if the first one is zero,
`smooth_iff`.
-/

namespace DreamDota

namespace Stochastic

/-- `Function`. -/
structure RasterFunction (α : Type) where
  offset : α
  values : List α
  deriving DecidableEq, Repr

/-- `RASTER_UNIT`. -/
def rasterUnit {α : Type} [Field α] : α := 1 / (100 : ℕ)

/-! ## `smooth` -/

section Model

variable {α : Type} [Field α]

/-- An element of `tempValues`, and 0 where the index is out of range. -/
def tempValue (tempValues : List α) (index : BitVec 32) : α :=
  if index < BitVec.ofNat 32 tempValues.length then tempValues.getD index.toNat 0 else 0

/-- The values of the counter in `for (uint32_t i = first; i <= last; ++i)`, where `last` is not the
largest number. -/
def counterRange (first last : BitVec 32) : List (BitVec 32) :=
  if first ≤ last then
    (List.range (last.toNat - first.toNat + 1)).map fun k => first + BitVec.ofNat 32 k
  else []

/-- The body of the loop: `initCalc` and `_values` change. -/
def smoothStep (tempValues : List α) (radius : BitVec 32) (s : Bool × List α) (i : ℕ) :
    Bool × List α :=
  let index := BitVec.ofNat 32 i
  let smoothSize : α := ((radius * 2 + 1).toNat : α)
  if !s.1 then
    let tmp := (counterRange (index - radius) (index + radius)).foldl
      (fun tmp rangeIndex => tmp + tempValue tempValues rangeIndex) 0
    (true, s.2.set i (tmp / smoothSize))
  else
    let subVal := tempValue tempValues (index - radius - 1) / smoothSize
    let addVal := tempValue tempValues (index + radius) / smoothSize
    (true, s.2.set i (s.2.getD (i - 1) 0 - subVal + addVal))

namespace RasterFunction

def smooth (f : RasterFunction α) (radius : BitVec 32) : RasterFunction α :=
  if radius = 0 then f
  else
    { f with
      values := ((List.range f.values.length).foldl (smoothStep f.values radius)
        (false, f.values)).2 }

/-- The mean of the values around the index `i`, where those outside count as 0. -/
def windowAverage (f : RasterFunction α) (radius i : ℕ) : α :=
  (∑ j ∈ Finset.Icc (i - radius) (min (f.values.length - 1) (i + radius)), f.values.getD j 0) /
    (2 * radius + 1 : ℕ)

/-- The values that a smoothed function is to have. -/
def averages (f : RasterFunction α) (radius : ℕ) : List α :=
  (List.range f.values.length).map (f.windowAverage radius)

end RasterFunction

end Model

/-! ## Windows -/

/-- When the window moves on by one, a value comes in and one leaves. -/
theorem windowSum_succ {α : Type*} [AddCommGroup α] (g : ℕ → α) (radius i : ℕ) :
    ∑ j ∈ Finset.Ico (i + 1 - radius) (i + 1 + radius + 1), g j =
      ∑ j ∈ Finset.Ico (i - radius) (i + radius + 1), g j -
        (if radius ≤ i then g (i - radius) else 0) + g (i + 1 + radius) := by
  rw [Finset.sum_Ico_succ_top (by omega), show i + 1 + radius = i + radius + 1 by omega]
  congr 1
  split_ifs with hle
  · rw [Finset.sum_eq_sum_Ico_succ_bot (by omega : i - radius < i + radius + 1),
      show i + 1 - radius = i - radius + 1 by omega, add_sub_cancel_left]
  · rw [show i + 1 - radius = i - radius by omega, sub_zero]

section Smooth

variable {α : Type} [Field α] {f : RasterFunction α} {radius : BitVec 32} {l : List α} {i : ℕ}

/-- The sum of the values around the index `i`. -/
def windowSum (l : List α) (radius i : ℕ) : α :=
  ∑ j ∈ Finset.Ico (i - radius) (i + radius + 1), l.getD j 0

theorem getD_eq_zero (h : l.length ≤ i) : l.getD i 0 = 0 := by
  rw [List.getD_eq_getElem?_getD, List.getElem?_eq_none h]
  rfl

theorem RasterFunction.windowAverage_eq (f : RasterFunction α) (r i : ℕ) :
    f.windowAverage r i = windowSum f.values r i / (2 * r + 1 : α) := by
  have hsub : Finset.Icc (i - r) (min (f.values.length - 1) (i + r)) ⊆
      Finset.Ico (i - r) (i + r + 1) := by
    intro j hj
    rw [Finset.mem_Icc] at hj
    rw [Finset.mem_Ico]
    omega
  have hsize : ((2 * r + 1 : ℕ) : α) = 2 * r + 1 := by push_cast; rfl
  rw [windowAverage, windowSum, hsize, Finset.sum_subset hsub fun j hj hnot => ?_]
  rw [Finset.mem_Ico] at hj
  rw [Finset.mem_Icc] at hnot
  exact getD_eq_zero (by omega)

/-- The window at the first index holds the first values. -/
theorem windowSum_zero (r : ℕ) : windowSum l r 0 = (l.take (r + 1)).sum := by
  have hsum (l : List α) (n : ℕ) : ∑ j ∈ Finset.range n, l.getD j 0 = (l.take n).sum := by
    induction n generalizing l with
    | zero => rfl
    | succ n ih =>
      cases l with
      | nil => simp
      | cons a l =>
        rw [Finset.sum_range_succ', List.take_succ_cons, List.sum_cons, ← ih, add_comm]
        rfl
  rw [windowSum, Nat.zero_sub, Nat.zero_add, Nat.Ico_zero_eq_range, hsum]

theorem tempValue_of_lt (hl : l.length < 2 ^ 32) {index : BitVec 32} :
    tempValue l index = l.getD index.toNat 0 := by
  unfold tempValue
  split_ifs with hlt
  · rfl
  · refine (getD_eq_zero ?_).symm
    rw [BitVec.lt_def, BitVec.toNat_ofNat, Nat.mod_eq_of_lt hl] at hlt
    omega

/-- The value that comes in. -/
theorem tempValue_add (hbound : radius.toNat + l.length < 2 ^ 31) (hi : i < l.length) :
    tempValue l (BitVec.ofNat 32 i + radius) = l.getD (i + radius.toNat) 0 := by
  rw [tempValue_of_lt (by omega), BitVec.toNat_add, BitVec.toNat_ofNat,
    Nat.mod_eq_of_lt (by omega : i < 2 ^ 32), Nat.mod_eq_of_lt (by omega)]

/-- The value that leaves. An index below zero has come round to a large one. -/
theorem tempValue_sub (hbound : radius.toNat + l.length < 2 ^ 31) (hi : i + 1 < l.length) :
    tempValue l (BitVec.ofNat 32 (i + 1) - radius - 1) =
      if radius.toNat ≤ i then l.getD (i - radius.toNat) 0 else 0 := by
  rw [tempValue_of_lt (by omega)]
  split_ifs with hle
  · congr 1
    bv_omega
  · exact getD_eq_zero (by bv_omega)

/-- The loop for the first value does nothing. -/
theorem counterRange_first (hpos : 0 < radius.toNat) (hbound : radius.toNat < 2 ^ 31) :
    counterRange (BitVec.ofNat 32 0 - radius) (BitVec.ofNat 32 0 + radius) = [] := by
  refine if_neg ?_
  bv_omega

theorem toNat_smoothSize (hbound : radius.toNat < 2 ^ 31) :
    (((radius * 2 + 1 : BitVec 32).toNat : ℕ) : α) = 2 * (radius.toNat : α) + 1 := by
  have hnat : (radius * 2 + 1 : BitVec 32).toNat = 2 * radius.toNat + 1 := by bv_omega
  rw [hnat]
  push_cast
  ring

/-- What the loop has done after the first indices: their windows are too small by the first one. -/
theorem smooth_loop (hpos : 0 < radius.toNat) (hbound : radius.toNat + l.length < 2 ^ 31) {k : ℕ}
    (hk : k ≤ l.length) :
    let s := (List.range k).foldl (smoothStep l radius) (false, l)
    s.1 = decide (0 < k) ∧ s.2.length = l.length ∧ ∀ i < k, s.2.getD i 0 =
      (windowSum l radius.toNat i - windowSum l radius.toNat 0) / (2 * (radius.toNat : α) + 1) := by
  induction k with
  | zero => exact ⟨rfl, rfl, fun i hi => absurd hi (Nat.not_lt_zero i)⟩
  | succ k ih =>
    obtain ⟨hcalc, hlen, hvals⟩ := ih (by omega)
    rw [List.range_succ, List.foldl_append, List.foldl_cons, List.foldl_nil]
    set s := (List.range k).foldl (smoothStep l radius) (false, l) with hs
    have hset (a : α) (i : ℕ) (hi : i < k + 1)
        (hlast : a = (windowSum l radius.toNat k - windowSum l radius.toNat 0) /
          (2 * (radius.toNat : α) + 1)) : (s.2.set k a).getD i 0 =
        (windowSum l radius.toNat i - windowSum l radius.toNat 0) /
          (2 * (radius.toNat : α) + 1) := by
      rw [List.getD_eq_getElem?_getD, List.getElem?_set]
      split_ifs with hik hlt
      · rw [← hik, ← hlast]
        rfl
      · omega
      · rw [← List.getD_eq_getElem?_getD]
        exact hvals i (by omega)
    unfold smoothStep
    rw [hcalc]
    cases k with
    | zero =>
      -- the loop over the window does not run
      refine ⟨rfl, (List.length_set ..).trans hlen, fun i hi => hset _ i hi ?_⟩
      rw [counterRange_first hpos (by omega), List.foldl_nil, zero_div, sub_self, zero_div]
    | succ k =>
      refine ⟨rfl, (List.length_set ..).trans hlen, fun i hi => hset _ i hi ?_⟩
      rw [tempValue_sub hbound (by omega), tempValue_add hbound (by omega), Nat.add_sub_cancel,
        hvals k (by omega), toNat_smoothSize (by omega)]
      have hnext := windowSum_succ (fun j => l.getD j 0) radius.toNat k
      rw [← windowSum, ← windowSum] at hnext
      rw [hnext]
      ring

/-- All means are too small by the first one. -/
theorem smooth_values (hpos : 0 < radius) (hbound : radius.toNat + f.values.length < 2 ^ 31) :
    (f.smooth radius).values = (List.range f.values.length).map fun i =>
      f.windowAverage radius.toNat i - f.windowAverage radius.toNat 0 := by
  have hne : radius ≠ 0 := by
    rintro rfl
    exact absurd hpos (by decide)
  have hloop := smooth_loop (l := f.values) (k := f.values.length) (by bv_omega) hbound le_rfl
  obtain ⟨-, hlen, hvals⟩ := hloop
  unfold RasterFunction.smooth
  rw [if_neg hne]
  refine List.ext_getElem (by rw [List.length_map, List.length_range]; exact hlen) fun i hi _ => ?_
  have hi' : i < f.values.length := hlen ▸ hi
  rw [List.getElem_map, List.getElem_range, f.windowAverage_eq, f.windowAverage_eq, ← sub_div,
    ← hvals i hi', List.getD_eq_getElem?_getD, List.getElem?_eq_getElem hi]
  rfl

end Smooth

section Exact

variable {α : Type} [Field α] [LinearOrder α] [IsStrictOrderedRing α] {f : RasterFunction α}
  {radius : BitVec 32}

/-- **Smoothing.** The values are replaced by the means around them if and only if the first of
these means is zero: the sum of the values up to the index `radius` is. -/
theorem smooth_iff (hpos : 0 < radius) (hbound : radius.toNat + f.values.length < 2 ^ 31) :
    (f.smooth radius).values = f.averages radius.toNat ↔
      (f.values.take (radius.toNat + 1)).sum = 0 := by
  have hsize : (2 * (radius.toNat : α) + 1) ≠ 0 := by positivity
  have hzero : f.windowAverage radius.toNat 0 = 0 ↔
      (f.values.take (radius.toNat + 1)).sum = 0 := by
    rw [f.windowAverage_eq, windowSum_zero, div_eq_zero_iff, or_iff_left hsize]
  rw [smooth_values hpos hbound, RasterFunction.averages, ← hzero, List.map_inj_left]
  constructor
  · intro h
    rcases Nat.eq_zero_or_pos f.values.length with hlen | hlen
    · rw [hzero, List.length_eq_zero_iff.mp hlen]
      simp
    · exact sub_eq_self.mp (h 0 (List.mem_range.mpr hlen))
  · intro h i _
    rw [h, sub_zero]

end Exact

/-- A function whose first values add up to zero. -/
theorem smooth_zero_first : ((⟨0, [0, 0, 6, 3]⟩ : RasterFunction ℚ).smooth 1).values = [0, 2, 3, 3] :=
  (smooth_iff (by decide) (by decide)).mpr (by decide +kernel) |>.trans (by decide +kernel)

/-- The values 1, 2 and 3 with the radius 1. Their means are 1, 2 and 5/3. -/
theorem not_smooth_three_values :
    ¬ ((⟨0, [1, 2, 3]⟩ : RasterFunction ℚ).smooth 1).values =
        (⟨0, [1, 2, 3]⟩ : RasterFunction ℚ).averages 1 ∧
      ((⟨0, [1, 2, 3]⟩ : RasterFunction ℚ).smooth 1).values = [0, 1, 2 / 3] := by
  decide +kernel

end Stochastic

end DreamDota
