import DreamDota.Stats.ChanceGreaterEqual
import DreamDota.Stats.RasterFunction

/-!
# The convolution with the latency distribution

`Function::convolution` of `Stochastic.cpp` adds up products under keys that are rounded to the
raster, in a map, and `Function::setValueFromDiscrete` makes a function of the map. The latter fills
the gaps between two keys with the value of the first of them, and leaves out the last value.

1. `fillLoop_eq`: what is pushed for one key.
2. `fill_values`: a map whose values vanish before every gap and at its end is rasterised as it is.
3. `tight_produced`: the products are such a map if the last value of the function is 0.
4. `elements_grid`: the map holds the sums of the products.
5. `convolution_values`: the function that comes out.
-/

namespace DreamDota

namespace Stochastic

open SearchTree Latency

section Model

variable {α : Type} [Field α] [LinearOrder α]

theorem rasterUnit_pos [IsStrictOrderedRing α] : (0 : α) < rasterUnit := by
  unfold rasterUnit
  positivity

/-! ## The code -/

/-- The loop of `setValueFromDiscrete` that goes up to the key `currX`: `index` and `_values`. -/
def fillLoop [IsStrictOrderedRing α] [FloorRing α] (offset currX prevY : α) (index : ℕ)
    (values : List α) : ℕ × List α :=
  if offset + index * rasterUnit < currX then
    fillLoop offset currX prevY (index + 1) (values ++ [prevY])
  else (index, values)
termination_by (⌈(currX - offset) / rasterUnit⌉ - index).toNat
decreasing_by
  have hlt : (index : α) < (currX - offset) / rasterUnit := by
    rw [lt_div_iff₀ rasterUnit_pos]
    linarith
  have hceil : (index : ℤ) < ⌈(currX - offset) / rasterUnit⌉ := by
    rw [Int.lt_ceil]
    exact_mod_cast hlt
  push_cast
  omega

variable [IsStrictOrderedRing α] [FloorRing α]

/-- The variables that the loop over the map changes. -/
structure FillState (α : Type) where
  index : ℕ
  prevY : α
  values : List α

/-- The body of the loop over the map. -/
def fillStep (offset : α) (s : FillState α) (e : α × α) : FillState α :=
  let r := fillLoop offset e.1 s.prevY s.index s.values
  ⟨r.1, e.2, r.2⟩

/-- `setValueFromDiscrete`. It does not read `minBase`. -/
def setValueFromDiscrete (discreteValueMap : BinaryTree (α × α)) : RasterFunction α :=
  match elements discreteValueMap with
  | [] => ⟨0, []⟩
  | e :: es => ⟨e.1, ((e :: es).foldl (fillStep e.1) ⟨0, 0, []⟩).values ++ [0]⟩

/-- `(int)x`. -/
def toInt (x : α) : ℤ := if 0 ≤ x then ⌊x⌋ else ⌈x⌉

/-- The body of the loop over the values: `tempValMap` changes. -/
def convolutionStep (B : Balancing (α × α)) (f : RasterFunction α)
    (discreteValueMap : BinaryTree (α × α)) (tempValMap : BinaryTree (α × α)) (i : ℕ) :
    BinaryTree (α × α) :=
  let value := f.values.getD i 0
  let key := rasterUnit * (i : α) + f.offset
  (elements discreteValueMap).foldl
    (fun tempValMap e => alter DistributionLess B 0 (· + value * e.2) tempValMap
      ((toInt ((key + e.1) / rasterUnit) : α) * rasterUnit)) tempValMap

def RasterFunction.convolution (B : Balancing (α × α)) (f : RasterFunction α)
    (discreteValueMap : BinaryTree (α × α)) : RasterFunction α :=
  if f.offset ≠ 0 ∧ f.values.length ≠ 0 ∧ (elements discreteValueMap).length ≠ 0 then
    setValueFromDiscrete
      ((List.range f.values.length).foldl (convolutionStep B f discreteValueMap) .nil)
  else f

/-! ## What it is to compute -/

/-- The value that a function has at a point of its raster. -/
def RasterFunction.HasValue (f : RasterFunction α) (x y : α) : Prop :=
  ∃ i : ℕ, f.offset + i * rasterUnit = x ∧ f.values[i]? = some y

/-- The point of the raster to which the shifted key of a value is rounded down, as a multiple of
`RASTER_UNIT`. -/
def RasterFunction.gridKey (f : RasterFunction α) (i : ℕ) (shift : α) : ℤ :=
  ⌊(f.offset + i * rasterUnit + shift) / rasterUnit⌋

/-- The products of the values and the weights, with their keys. -/
def RasterFunction.produced (f : RasterFunction α) (shifts : List (α × α)) : List (ℤ × α) :=
  (List.range f.values.length).flatMap fun i =>
    shifts.map fun e => (f.gridKey i e.1, f.values.getD i 0 * e.2)

/-- The function `g` has at every point of the raster between the smallest and the largest key that
is produced the sum of all products for it, and it begins at the smallest one. -/
structure ConvolutionOk (f g : RasterFunction α) (shifts : List (α × α)) : Prop where
  offset : ∀ k, IsLeast {k | k ∈ (f.produced shifts).map Prod.fst} k → g.offset = k * rasterUnit
  value : ∀ a ∈ (f.produced shifts).map Prod.fst, ∀ b ∈ (f.produced shifts).map Prod.fst,
    ∀ k, a ≤ k → k ≤ b → g.HasValue (k * rasterUnit) (amountAt (f.produced shifts) k)

end Model

section Fill

variable {α : Type} [Field α] [LinearOrder α] [IsStrictOrderedRing α] [FloorRing α]
  {k₀ k : ℤ} {y prevY : α} {index d d' : ℕ} {values : List α} {F : ℤ → α} {keys : Set ℤ}
  {rest : List ℤ}

/-- Up to the key that is `d` points from the offset, the previous value is pushed. -/
theorem fillLoop_eq (hk : k = k₀ + d) (hindex : index ≤ d) :
    fillLoop ((k₀ : α) * rasterUnit) (k * rasterUnit) prevY index values =
      (d, values ++ List.replicate (d - index) prevY) := by
  have hcond (i : ℕ) : (k₀ : α) * rasterUnit + i * rasterUnit < k * rasterUnit ↔ i < d := by
    rw [← add_mul, mul_lt_mul_iff_left₀ rasterUnit_pos, hk]
    push_cast
    rw [add_lt_add_iff_left, Nat.cast_lt]
  induction hgap : d - index generalizing index values with
  | zero =>
    have heq : index = d := by omega
    rw [fillLoop, if_neg (by rw [hcond]; omega), heq, List.replicate_zero, List.append_nil]
  | succ n ih =>
    rw [fillLoop, if_pos (by rw [hcond]; omega), ih (by omega) (by omega), List.append_assoc,
      List.replicate_succ]
    rfl

/-- The entry of a map at a point of the raster. -/
def gridEntry (F : ℤ → α) (k : ℤ) : α × α := (k * rasterUnit, F k)

/-- The state after the key that is `d` points from the offset, if the raster has the values of `F`
up to there. -/
def filled (F : ℤ → α) (k₀ : ℤ) (d : ℕ) : FillState α :=
  ⟨d, F (k₀ + d), (List.range d).map fun (i : ℕ) => F (k₀ + i)⟩

/-- The gap is filled rightly if `F` has the same value there. -/
theorem fillStep_filled (hd : d ≤ d') (hgap : ∀ i, d ≤ i → i < d' → F (k₀ + i) = F (k₀ + d)) :
    fillStep ((k₀ : α) * rasterUnit) (filled F k₀ d) (gridEntry F (k₀ + d')) =
      filled F k₀ d' := by
  have hvalues : (List.range d).map (fun (i : ℕ) => F (k₀ + i)) ++
      List.replicate (d' - d) (F (k₀ + d)) = (List.range d').map fun (i : ℕ) => F (k₀ + i) := by
    obtain ⟨n, rfl⟩ := Nat.exists_eq_add_of_le hd
    rw [List.range_add, List.map_append, List.map_map, Nat.add_sub_cancel_left]
    congr 1
    refine (List.eq_replicate_of_mem fun y hy => ?_).trans (by rw [List.length_map,
      List.length_range]) |>.symm
    obtain ⟨i, hi, rfl⟩ := List.mem_map.mp hy
    exact hgap (d + i) (by omega) (by have := List.mem_range.mp hi; omega)
  unfold fillStep filled gridEntry
  rw [fillLoop_eq (d := d') rfl hd, hvalues]

/-- A function on the raster that is zero outside the keys, and at every key that has no key right
behind it. -/
structure Tight (keys : Set ℤ) (F : ℤ → α) : Prop where
  outside : ∀ k, k ∉ keys → F k = 0
  last : ∀ k, k + 1 ∉ keys → F k = 0

/-- The rest of the map is rasterised as it is, up to its last key. -/
theorem fill_rest (hF : Tight keys F) (hsorted : ((k₀ + d) :: rest).Pairwise (· < ·))
    (hkeys : ∀ k, k₀ + d < k → (k ∈ keys ↔ k ∈ rest)) :
    ∃ n, rest.foldl (fun s k => fillStep ((k₀ : α) * rasterUnit) s (gridEntry F k))
        (filled F k₀ d) = filled F k₀ n ∧
      d ≤ n ∧ ∀ k, k₀ + n < k → k ∉ keys := by
  induction rest generalizing d with
  | nil => exact ⟨d, rfl, le_rfl, fun k hk => by rw [hkeys k hk]; exact List.not_mem_nil⟩
  | cons k rest ih =>
    obtain ⟨hfirst, hrest⟩ := List.pairwise_cons.mp hsorted
    have hlt : k₀ + d < k := hfirst k List.mem_cons_self
    obtain ⟨d', rfl⟩ : ∃ d' : ℕ, k = k₀ + d' := ⟨(k - k₀).toNat, by omega⟩
    have hbetween (j : ℤ) (hj : k₀ + d < j) (hj' : j < k₀ + d') : j ∉ keys := by
      rw [hkeys j hj, List.mem_cons, not_or]
      refine ⟨by omega, fun hmem => ?_⟩
      have := List.rel_of_pairwise_cons hrest hmem
      omega
    have hgap (i : ℕ) (hi : d ≤ i) (hi' : i < d') : F (k₀ + i) = F (k₀ + d) := by
      rcases Nat.eq_or_lt_of_le hi with rfl | hlt'
      · rfl
      · rw [hF.outside _ (hbetween _ (by omega) (by omega)),
          hF.last (k₀ + d) (hbetween _ (by omega) (by omega))]
    rw [List.foldl_cons, fillStep_filled (by omega) hgap]
    obtain ⟨n, hfold, hn, hlast⟩ := ih hrest fun j hj => by
      rw [hkeys j (by omega), List.mem_cons, or_iff_right (by omega)]
    exact ⟨n, hfold, by omega, hlast⟩

/-- A map whose pairs are those of `F` at the keys is rasterised as it is. -/
theorem fill_values {t : BinaryTree (α × α)} (hF : Tight keys F)
    (hsorted : (k₀ :: rest).Pairwise (· < ·)) (hkeys : ∀ k, k ∈ keys ↔ k ∈ k₀ :: rest)
    (helements : elements t = (k₀ :: rest).map (gridEntry F)) :
    ∃ n : ℕ, setValueFromDiscrete t =
        ⟨k₀ * rasterUnit, (List.range (n + 1)).map fun (i : ℕ) => F (k₀ + i)⟩ ∧
      ∀ k, k₀ + n < k → k ∉ keys := by
  obtain ⟨n, hfold, -, hlast⟩ := fill_rest (d := 0) hF
    (by rw [Nat.cast_zero, add_zero]; exact hsorted) fun k hk => by
      rw [hkeys, List.mem_cons, or_iff_right (by omega)]
  have hfirst : fillStep ((k₀ : α) * rasterUnit) ⟨0, 0, []⟩ (gridEntry F k₀) = filled F k₀ 0 := by
    unfold fillStep gridEntry filled
    rw [fillLoop_eq (d := 0) (by rw [Nat.cast_zero, add_zero]) le_rfl, Nat.cast_zero, add_zero]
    rfl
  have hend : F (k₀ + n) = 0 := hF.last _ (hlast _ (by omega))
  refine ⟨n, ?_, hlast⟩
  unfold setValueFromDiscrete
  rw [helements, List.map_cons]
  simp only
  have hkey : (gridEntry F k₀).1 = (k₀ : α) * rasterUnit := rfl
  rw [List.foldl_cons, List.foldl_map, hkey, hfirst, hfold, List.range_succ, List.map_append,
    List.map_singleton, hend]
  rfl

end Fill

section Convolution

variable {α : Type} [Field α] [LinearOrder α] [IsStrictOrderedRing α] [FloorRing α]
  {B : Balancing (α × α)} {f : RasterFunction α} {m : BinaryTree (α × α)} {shifts : List (α × α)}
  {i : ℕ} {k : ℤ} {shift : α}

/-- The next value is shifted to the next point. -/
theorem gridKey_succ : f.gridKey (i + 1) shift = f.gridKey i shift + 1 := by
  have hne : (rasterUnit : α) ≠ 0 := rasterUnit_pos.ne'
  rw [RasterFunction.gridKey, RasterFunction.gridKey, ← Int.floor_add_one]
  congr 1
  field_simp
  push_cast
  ring

omit [IsStrictOrderedRing α] in
theorem mem_produced {e : ℤ × α} : e ∈ f.produced shifts ↔
    ∃ i < f.values.length, ∃ s ∈ shifts, (f.gridKey i s.1, f.values.getD i 0 * s.2) = e := by
  simp only [RasterFunction.produced, List.mem_flatMap, List.mem_range, List.mem_map]

/-- The keys that are produced. -/
def RasterFunction.keys (f : RasterFunction α) (shifts : List (α × α)) : Set ℤ :=
  {k | k ∈ (f.produced shifts).map Prod.fst}

/-- A key with no key right behind it is produced by the last value only. -/
theorem tight_produced (hlast : f.values.getLast? = some 0) :
    Tight (f.keys shifts) (amountAt (f.produced shifts)) where
  outside _ hk := amountAt_eq_zero hk
  last k hk := by
    refine List.sum_eq_zero fun w hw => ?_
    obtain ⟨e, he, rfl⟩ := List.mem_map.mp hw
    split_ifs with hek
    · obtain ⟨i, hi, s, hs, rfl⟩ := mem_produced.mp he
      by_cases hnext : i + 1 < f.values.length
      · refine absurd ?_ hk
        rw [← hek, ← gridKey_succ]
        exact List.mem_map_of_mem (f := Prod.fst) (mem_produced.mpr ⟨i + 1, hnext, s, hs, rfl⟩)
      · rw [List.getLast?_eq_getElem?, show f.values.length - 1 = i by omega] at hlast
        rw [List.getD_eq_getElem?_getD, hlast]
        exact zero_mul _
    · rfl

/-- All shifted keys are non-negative: to be cut off and to be rounded down is the same. -/
def RasterFunction.ShiftsNonneg (f : RasterFunction α) (shifts : List (α × α)) : Prop :=
  ∀ i < f.values.length, ∀ e ∈ shifts, 0 ≤ f.offset + i * rasterUnit + e.1

/-- `tempValMap` sums up the products. -/
theorem tempValMap_eq (h : f.ShiftsNonneg (elements m)) :
    (List.range f.values.length).foldl (convolutionStep B f m) .nil =
      accumulate DistributionLess B
        ((f.produced (elements m)).map fun e => ((e.1 : α) * rasterUnit, e.2)) := by
  rw [accumulate, List.foldl_map, RasterFunction.produced, List.foldl_flatMap]
  refine List.foldl_ext _ _ _ fun t i hi => ?_
  unfold convolutionStep
  rw [List.foldl_map]
  refine List.foldl_ext _ _ _ fun t e he => ?_
  have hkey : toInt ((rasterUnit * (i : α) + f.offset + e.1) / rasterUnit) = f.gridKey i e.1 := by
    rw [show rasterUnit * (i : α) + f.offset + e.1 = f.offset + i * rasterUnit + e.1 by ring]
    exact if_pos (div_nonneg (h i (List.mem_range.mp hi) e he) rasterUnit_pos.le)
  simp only [hkey]

omit [FloorRing α] in
theorem rasterUnit_injective : (fun k : ℤ => (k : α) * rasterUnit).Injective := fun _ _ h =>
  Int.cast_injective (mul_right_cancel₀ rasterUnit_pos.ne' h)

/-- The points of the raster are told apart. -/
theorem separated_grid {es : List (ℤ × α)} (h : ∀ e ∈ es, 0 ≤ e.1) :
    Separated ((es.map fun e => ((e.1 : α) * rasterUnit, e.2)).map Prod.fst) := by
  have hunit : 1 / 100000 < (rasterUnit : α) := by
    unfold rasterUnit
    norm_num
  refine separated_of_multiples hunit fun a ha => ?_
  rw [List.map_map] at ha
  obtain ⟨e, he, rfl⟩ := List.mem_map.mp ha
  refine ⟨e.1.toNat, ?_⟩
  rw [← Int.cast_natCast, Int.toNat_of_nonneg (h e he)]
  rfl

/-- The map in which amounts are added up at points of the raster: the points in their order, with
what is added at them. -/
theorem elements_grid (es : List (ℤ × α)) (h : ∀ e ∈ es, 0 ≤ e.1) :
    ∃ ks : List ℤ, ks.Pairwise (· < ·) ∧ (∀ k, k ∈ es.map Prod.fst ↔ k ∈ ks) ∧
      elements (accumulate DistributionLess B (es.map fun e => ((e.1 : α) * rasterUnit, e.2))) =
        ks.map (gridEntry (amountAt es)) := by
  set t := accumulate DistributionLess B (es.map fun e => ((e.1 : α) * rasterUnit, e.2)) with ht
  have hord : Ordered DistributionLess t := ordered_accumulate
  have hmem (e : α × α) : e ∈ elements t ↔
      ∃ k ∈ es.map Prod.fst, gridEntry (amountAt es) k = e := by
    rw [ht, sums_accumulate (separated_grid h) e, List.map_map]
    constructor
    · rintro ⟨hkey, hval⟩
      obtain ⟨e', he', heq⟩ := List.mem_map.mp hkey
      have heq' : (e'.1 : α) * rasterUnit = e.1 := heq
      refine ⟨e'.1, List.mem_map_of_mem he', Prod.ext heq' ?_⟩
      rw [hval, ← heq']
      exact (amountAt_rename rasterUnit_injective).symm
    · rintro ⟨k, hk, rfl⟩
      obtain ⟨e', he', rfl⟩ := List.mem_map.mp hk
      exact ⟨List.mem_map_of_mem he', (amountAt_rename rasterUnit_injective).symm⟩
  choose! key hkey hentry using fun e => (hmem e).mp
  refine ⟨(elements t).map key, ?_, fun k => ?_, ?_⟩
  · refine List.pairwise_map.mpr (List.Pairwise.imp_of_mem ?_ hord)
    intro a b ha hb hab
    rw [← hentry a ha, ← hentry b hb] at hab
    have hlt : (key a : α) * rasterUnit < key b * rasterUnit := by
      unfold DistributionLess gridEntry at hab
      linarith
    exact_mod_cast lt_of_mul_lt_mul_right hlt rasterUnit_pos.le
  · constructor
    · intro hk
      have hin := (hmem (gridEntry (amountAt es) k)).mpr ⟨k, hk, rfl⟩
      refine List.mem_map.mpr ⟨_, hin, rasterUnit_injective (α := α) ?_⟩
      exact congrArg Prod.fst (hentry _ hin)
    · intro hk
      obtain ⟨e, he, rfl⟩ := List.mem_map.mp hk
      exact hkey e he
  · rw [List.map_map]
    refine (List.map_id _).symm.trans (List.map_congr_left fun e he => ?_)
    exact (hentry e he).symm

/-- **The convolution.** If the last value is 0 and no shifted key is negative, the new function has
at every point of the raster the sum of the products for it, from the smallest key on. -/
theorem convolution_values (hoffset : f.offset ≠ 0) (hlast : f.values.getLast? = some 0)
    (hnonneg : f.ShiftsNonneg (elements m)) :
    ConvolutionOk f (f.convolution B m) (elements m) := by
  have hsize : f.values.length ≠ 0 := by
    intro hlen
    rw [List.length_eq_zero_iff.mp hlen] at hlast
    cases hlast
  obtain ⟨ks, hsorted, hkeys, helements⟩ := elements_grid (B := B)
    (f.produced (elements m)) fun e he => by
      obtain ⟨i, hi, s, hs, rfl⟩ := mem_produced.mp he
      exact Int.floor_nonneg.mpr (div_nonneg (hnonneg i hi s hs) rasterUnit_pos.le)
  cases ks with
  | nil =>
    -- no key is produced
    exact ⟨fun k hk => absurd ((hkeys k).mp hk.1) List.not_mem_nil,
      fun a ha => absurd ((hkeys a).mp ha) List.not_mem_nil⟩
  | cons k₀ rest =>
    have hmap : (elements m).length ≠ 0 := by
      intro hlen
      obtain ⟨e, he, -⟩ := List.mem_map.mp ((hkeys k₀).mpr List.mem_cons_self)
      obtain ⟨i, -, s, hs, -⟩ := mem_produced.mp he
      rw [List.length_eq_zero_iff.mp hlen] at hs
      exact absurd hs List.not_mem_nil
    have hleast (k : ℤ) (hk : k ∈ (f.produced (elements m)).map Prod.fst) : k₀ ≤ k := by
      rcases List.mem_cons.mp ((hkeys k).mp hk) with rfl | hk'
      · exact le_rfl
      · exact (List.rel_of_pairwise_cons hsorted hk').le
    obtain ⟨n, hfill, hend⟩ := fill_values (tight_produced hlast) hsorted hkeys helements
    rw [RasterFunction.convolution, if_pos ⟨hoffset, hsize, hmap⟩, tempValMap_eq hnonneg, hfill]
    refine ⟨fun k hk => ?_, fun a ha b hb k hak hkb => ?_⟩
    · have hk₀ : k₀ = k := le_antisymm (hleast k hk.1) (hk.2 ((hkeys k₀).mpr List.mem_cons_self))
      rw [hk₀]
    · have hlow : k₀ ≤ k := (hleast a ha).trans hak
      have hhigh : b ≤ k₀ + n := not_lt.mp fun hlt => hend b hlt hb
      refine ⟨(k - k₀).toNat, ?_, ?_⟩
      · have hcast : (((k - k₀).toNat : ℕ) : α) = (k : α) - k₀ := by
          rw [← Int.cast_natCast, Int.toNat_of_nonneg (by omega), Int.cast_sub]
        simp only [hcast]
        ring
      · rw [List.getElem?_map, List.getElem?_range (by omega), Option.map_some,
          show k₀ + ((k - k₀).toNat : ℤ) = k by omega]

end Convolution

/-- The values 1 and 2 with two shifts. The products for the smallest key are 1/4. -/
theorem convolution_two_shifts :
    ConvolutionOk (⟨1, [1, 2, 0]⟩ : RasterFunction ℚ)
      (RasterFunction.convolution unbalanced ⟨1, [1, 2, 0]⟩
        (.node (-1 / 200, 1 / 4) .nil (.node (1 / 20, 3 / 4) .nil .nil)))
      [(-1 / 200, 1 / 4), (1 / 20, 3 / 4)] ∧
    amountAt ((⟨1, [1, 2, 0]⟩ : RasterFunction ℚ).produced
      [(-1 / 200, 1 / 4), (1 / 20, 3 / 4)]) 99 = 1 / 4 :=
  ⟨convolution_values (by decide +kernel) rfl
    (by unfold RasterFunction.ShiftsNonneg; decide +kernel), by decide +kernel⟩

end Stochastic

end DreamDota
