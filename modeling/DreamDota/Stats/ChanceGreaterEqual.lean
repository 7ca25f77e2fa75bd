import DreamDota.Stats.Stochastic
import Mathlib.Data.Rat.Floor

/-!
# What the loops over the dice keep

The steps:

1. The three nested loops are one fold over the new sums and their masses, `keyLoop_eq`. What every
   sum does to a quantity gives what a die does to it, `account_keyLoop`.
2. A die keeps the total of the masses, `conserves_die`, with any keys. All dice do, `conserves_after`.
3. Where the sums of a step are told apart, a die keeps the chance that the masses stand for,
   `expect_die`. All dice do, `expect_after`.
4. The chance at the end is the result.
-/

namespace DreamDota

namespace Stochastic

open SearchTree Latency

section Loops

set_option linter.unusedSectionVars false

variable {α : Type} [Field α] [LinearOrder α] [IsStrictOrderedRing α] [FloorRing α]
  {B : Balancing (α × α)} {flagRoundedToInt : Bool} {value x diceMax diceMin c key : α}
  {d : Dice α} {dices rest : List (Dice α)} {g h : α → α} {es : List (α × α)} {m : Masses α}
  {s : Loop α} {dist other : DnDAtkDist α}

/-- The sums that arise with a die, with their masses. -/
def newKeyVals (d : Dice α) (es : List (α × α)) : List (α × α) :=
  es.flatMap fun e => (List.range d.sides).map fun (i : ℕ) =>
    (e.1 + ((i : α) + 1) * d.factor, e.2 * (1 / (d.sides : α)))

theorem pointLoop_eq (mass key factor dicePoint : α) (n : ℕ) :
    pointLoop B value flagRoundedToInt diceMax diceMin mass key factor n dicePoint m =
      (List.range n).foldl (fun m (i : ℕ) => addPoint B value flagRoundedToInt diceMax diceMin mass
        (key + (dicePoint + (i : α) * factor)) m) m := by
  induction n generalizing dicePoint m with
  | zero => rfl
  | succ n ih =>
    rw [pointLoop, ih, List.range_succ_eq_map, List.foldl_cons, List.foldl_map, Nat.cast_zero,
      zero_mul, add_zero]
    congr 1
    funext m i
    rw [Nat.cast_succ, add_mul, one_mul, add_assoc dicePoint, add_comm factor]

theorem keyLoop_eq : keyLoop B value flagRoundedToInt diceMax diceMin d es m =
    (newKeyVals d es).foldl
      (fun m e => addPoint B value flagRoundedToInt diceMax diceMin e.2 e.1 m) m := by
  rw [keyLoop, newKeyVals, List.foldl_flatMap]
  congr 1
  funext m e
  rw [pointLoop_eq, List.foldl_map]
  congr 1
  funext m i
  rw [Dice.minValue, add_mul, one_mul, add_comm d.factor]

theorem sum_newKeyVals : ((newKeyVals d es).map fun e => e.2 * h e.1).sum =
    (es.map fun e => e.2 * average d h e.1).sum := by
  induction es with
  | nil => rfl
  | cons e es ih =>
    have hsum : ((List.range d.sides).map fun (i : ℕ) =>
        e.2 * (1 / (d.sides : α)) * h (e.1 + ((i : α) + 1) * d.factor)).sum =
        ∑ i ∈ Finset.range d.sides,
          e.2 * (1 / (d.sides : α)) * h (e.1 + ((i : α) + 1) * d.factor) := rfl
    rw [List.map_cons, List.sum_cons, ← ih, newKeyVals, List.flatMap_cons, List.map_append,
      List.sum_append, List.map_map]
    congr 1
    refine hsum.trans ?_
    rw [← Finset.mul_sum, average]
    ring

/-- The masses between two dice. -/
def Loop.masses (s : Loop α) : Masses α :=
  ⟨s.chanceLesser, s.chanceGreater, s.distributionLast⟩

/-- What holds without a sum and is kept by every sum holds after the die, and a quantity that every
sum raises by its mass times `h` is raised by the means of `h`. -/
theorem account_die (B : Balancing (α × α)) (value : α) (flagRoundedToInt : Bool) (s : Loop α)
    (d : Dice α) {I : Masses α → Prop} {q : Masses α → α}
    (hstart : I ⟨s.chanceLesser, s.chanceGreater, .nil⟩)
    (hstep : ∀ e ∈ newKeyVals d (elements s.distributionLast), ∀ m, I m →
      I (addPoint B value flagRoundedToInt (s.diceMax - d.maxValue) (s.diceMin - d.minValue)
        e.2 e.1 m) ∧
      q (addPoint B value flagRoundedToInt (s.diceMax - d.maxValue) (s.diceMin - d.minValue)
        e.2 e.1 m) = q m + e.2 * h e.1) :
    I (die B value flagRoundedToInt s d).masses ∧
    q (die B value flagRoundedToInt s d).masses =
      q ⟨s.chanceLesser, s.chanceGreater, .nil⟩ +
        ((elements s.distributionLast).map fun e => e.2 * average d h e.1).sum := by
  have hmasses : (die B value flagRoundedToInt s d).masses =
      keyLoop B value flagRoundedToInt (s.diceMax - d.maxValue) (s.diceMin - d.minValue) d
        (elements s.distributionLast) ⟨s.chanceLesser, s.chanceGreater, .nil⟩ := rfl
  rw [hmasses, keyLoop_eq, ← sum_newKeyVals]
  generalize newKeyVals d (elements s.distributionLast) = news at hstep
  generalize (⟨s.chanceLesser, s.chanceGreater, .nil⟩ : Masses α) = m at hstart
  induction news generalizing m with
  | nil => exact ⟨hstart, (add_zero _).symm⟩
  | cons e news ih =>
    obtain ⟨hI, hq⟩ := hstep e List.mem_cons_self m hstart
    obtain ⟨hI', hq'⟩ := ih (fun e' he' => hstep e' (List.mem_cons_of_mem _ he')) _ hI
    refine ⟨hI', ?_⟩
    rw [List.foldl_cons, hq', hq, List.map_cons, List.sum_cons, add_assoc]

/-! ## The masses -/

/-- The total of the masses. -/
def Masses.mass (m : Masses α) : α :=
  total m.distributionCurrent + m.chanceLesser + m.chanceGreater

structure Masses.Nonneg (m : Masses α) : Prop where
  lesser : 0 ≤ m.chanceLesser
  greater : 0 ≤ m.chanceGreater
  current : ∀ e ∈ elements m.distributionCurrent, 0 ≤ e.2

theorem mass_addPoint :
    (addPoint B value flagRoundedToInt diceMax diceMin c key m).mass = m.mass + c := by
  unfold addPoint Masses.mass
  split_ifs
  · ring
  · ring
  · rw [total_alter]
    ring

theorem Masses.Nonneg.addPoint (hm : m.Nonneg) (hc : 0 ≤ c) :
    (addPoint B value flagRoundedToInt diceMax diceMin c key m).Nonneg := by
  unfold Stochastic.addPoint
  split_ifs
  · exact { hm with lesser := add_nonneg hm.lesser hc }
  · exact { hm with greater := add_nonneg hm.greater hc }
  · have hadd : ∀ w : α, 0 ≤ w → 0 ≤ w + c := fun w hw => add_nonneg hw hc
    exact { hm with current := forall_alter (f := (· + c)) hm.current (hadd 0 le_rfl) hadd }

theorem nonneg_of_mem_newKeyVals (hes : ∀ e ∈ es, 0 ≤ e.2) {e : α × α}
    (he : e ∈ newKeyVals d es) : 0 ≤ e.2 := by
  obtain ⟨e', he', hmem⟩ := List.mem_flatMap.mp he
  obtain ⟨i, -, rfl⟩ := List.mem_map.mp hmem
  exact mul_nonneg (hes e' he') (div_nonneg zero_le_one (Nat.cast_nonneg _))

/-- A die moves mass and makes none. -/
theorem conserves_die (hd : d.Valid) (hs : s.masses.Nonneg) :
    (die B value flagRoundedToInt s d).masses.Nonneg ∧
      (die B value flagRoundedToInt s d).masses.mass = s.masses.mass := by
  have hstart : Masses.Nonneg (⟨s.chanceLesser, s.chanceGreater, .nil⟩ : Masses α) :=
    { hs with current := fun e he => absurd he List.not_mem_nil }
  have hkeep := account_die B value flagRoundedToInt s d (q := Masses.mass) (h := fun _ => 1) hstart
    fun e he m hm => ⟨hm.addPoint (nonneg_of_mem_newKeyVals hs.current he),
      mass_addPoint.trans (congrArg _ (mul_one e.2).symm)⟩
  refine ⟨hkeep.1, hkeep.2.trans ?_⟩
  simp only [average_const hd, mul_one]
  unfold Masses.mass Loop.masses total
  simp only [elements, List.map_nil, List.sum_nil]
  ring

/-! ## All dice -/

theorem diceLoop_eq_foldl (h : s.stepCurrent + dices.length ≤ allStepsCount) :
    diceLoop B value flagRoundedToInt dices s = dices.foldl (die B value flagRoundedToInt) s := by
  induction dices generalizing s with
  | nil => rfl
  | cons d dices ih =>
    rw [List.length_cons] at h
    rw [diceLoop, List.foldl_cons]
    have hstep : (die B value flagRoundedToInt s d).stepCurrent = s.stepCurrent + 1 := rfl
    split_ifs with hlast
    · -- The last step that there is room for has no die after it.
      rw [hstep] at hlast
      obtain rfl : dices = [] := List.length_eq_zero_iff.mp (by omega)
      rfl
    · exact ih (by omega)

theorem after_concat (h : (dices ++ [d]).length ≤ allStepsCount) :
    dist.after B value flagRoundedToInt (dices ++ [d]) =
      die B (value - dist.base) flagRoundedToInt (dist.after B value flagRoundedToInt dices) d := by
  have hzero : (dist.start B).stepCurrent = 0 := rfl
  have hprefix : dices.length ≤ allStepsCount := by
    rw [List.length_append, List.length_singleton] at h
    omega
  rw [DnDAtkDist.after, diceLoop_eq_foldl (by omega), List.foldl_append, DnDAtkDist.after,
    diceLoop_eq_foldl (by omega)]
  rfl

theorem elements_start : elements (dist.start B).distributionLast = [(0, 1)] :=
  elements_alter_nil (d := 0) (f := fun _ => (1 : α))

theorem start_masses :
    (dist.start B).masses.Nonneg ∧ (dist.start B).masses.mass = 1 := by
  refine ⟨⟨le_rfl, le_rfl, fun e he => ?_⟩, ?_⟩
  · have he' : e ∈ elements (dist.start B).distributionLast := he
    rw [elements_start, List.mem_singleton] at he'
    rw [he']
    exact zero_le_one
  · have htotal : total (dist.start B).distributionLast = 1 := by
      rw [total, elements_start]
      exact List.sum_singleton
    change total (dist.start B).distributionLast + 0 + 0 = 1
    rw [htotal, add_zero, add_zero]

/-- After every die the masses are a distribution. -/
theorem conserves_after (hlen : dices.length ≤ allStepsCount) (hd : ∀ d ∈ dices, d.Valid) :
    (dist.after B value flagRoundedToInt dices).masses.Nonneg ∧
      (dist.after B value flagRoundedToInt dices).masses.mass = 1 := by
  induction dices using List.reverseRecOn with
  | nil => exact start_masses
  | append_singleton dices d ih =>
    have hlen' : dices.length ≤ allStepsCount := by
      rw [List.length_append] at hlen
      omega
    obtain ⟨hnonneg, hmass⟩ := ih hlen' fun d' h' => hd d' (List.mem_append_left _ h')
    rw [after_concat hlen, ← hmass]
    exact conserves_die (hd d (List.mem_append_right _ (List.mem_singleton_self d))) hnonneg

/-! ## The chance that the masses stand for -/

/-- The chance that the dice to come bring a sum to `value`. -/
def expect (value : α) (dices : List (Dice α)) (m : Masses α) : α :=
  m.chanceGreater + weigh (chanceFrom value dices) m.distributionCurrent

/-- Sums that the comparator of the map tells apart. -/
def Separated (keys : List α) : Prop :=
  ∀ a ∈ keys, ∀ b ∈ keys, a = b ∨ DistributionLess a b ∨ DistributionLess b a

/-- The sums that arise at the same step, for every step. -/
def KeysSeparated (B : Balancing (α × α)) (dist : DnDAtkDist α) (value : α) : Prop :=
  ∀ dices d rest, dist.dices = dices ++ d :: rest → Separated
    ((newKeyVals d (elements (dist.after B value false dices).distributionLast)).map Prod.fst)

/-- Sums that are multiples of one number which is not too small are told apart. -/
theorem separated_of_multiples {keys : List α} {f : α} (hf : 1 / 100000 < f)
    (hkeys : ∀ a ∈ keys, ∃ n : ℕ, a = n * f) : Separated keys := by
  intro a ha b hb
  obtain ⟨n, rfl⟩ := hkeys a ha
  obtain ⟨k, rfl⟩ := hkeys b hb
  have hf0 : 0 < f := lt_trans (by positivity) hf
  rcases lt_trichotomy n k with hlt | rfl | hlt
  · have hcast : (n : α) + 1 ≤ k := by exact_mod_cast hlt
    have hstep : ((n : α) + 1) * f ≤ k * f := mul_le_mul_of_nonneg_right hcast hf0.le
    refine .inr (.inl ?_)
    unfold DistributionLess
    linarith
  · exact .inl rfl
  · have hcast : (k : α) + 1 ≤ n := by exact_mod_cast hlt
    have hstep : ((k : α) + 1) * f ≤ n * f := mul_le_mul_of_nonneg_right hcast hf0.le
    refine .inr (.inr ?_)
    unfold DistributionLess
    linarith

theorem multiples_newKeyVals {f : α} (hd : d.factor = f)
    (hes : ∀ e ∈ es, ∃ n : ℕ, e.1 = n * f) : ∀ e ∈ newKeyVals d es, ∃ n : ℕ, e.1 = n * f := by
  intro e he
  obtain ⟨e', he', hmem⟩ := List.mem_flatMap.mp he
  obtain ⟨i, -, rfl⟩ := List.mem_map.mp hmem
  obtain ⟨n, hn⟩ := hes e' he'
  refine ⟨n + (i + 1), ?_⟩
  rw [hn, hd]
  push_cast
  ring

theorem keys_addPoint {keys : List α} (hm : ∀ e ∈ elements m.distributionCurrent, e.1 ∈ keys)
    (hkey : key ∈ keys) : ∀ e ∈ elements
      (addPoint B value false diceMax diceMin c key m).distributionCurrent, e.1 ∈ keys := by
  unfold addPoint
  split_ifs
  · exact hm
  · exact hm
  · intro e he
    change e ∈ elements (alter DistributionLess B 0 (· + c) m.distributionCurrent key) at he
    rcases key_of_mem_alter he with hnew | ⟨a, ha, hold⟩
    · rw [hnew]
      exact hkey
    · rw [← hold]
      exact hm a ha

/-- The keys of the map are among the sums that arose. -/
theorem keys_die : ∀ e ∈ elements (die B value false s d).distributionLast,
    e.1 ∈ (newKeyVals d (elements s.distributionLast)).map Prod.fst := by
  refine (account_die _ _ _ _ _ (I := fun m => ∀ e ∈ elements m.distributionCurrent, e.1 ∈
    (newKeyVals d (elements s.distributionLast)).map Prod.fst) (q := fun _ => 0) (h := fun _ => 0)
    (fun e he => absurd he List.not_mem_nil) fun e he m hm =>
      ⟨keys_addPoint hm (List.mem_map_of_mem he), ?_⟩).1
  rw [mul_zero, add_zero]

theorem multiples_after {f : α} (hcount : dices.length ≤ allStepsCount)
    (hd : ∀ d ∈ dices, d.factor = f) :
    ∀ e ∈ elements (dist.after B value false dices).distributionLast, ∃ n : ℕ, e.1 = n * f := by
  induction dices using List.reverseRecOn with
  | nil =>
    intro e he
    have he' : e ∈ elements (dist.start B).distributionLast := he
    rw [elements_start, List.mem_singleton] at he'
    exact ⟨0, by rw [he', Nat.cast_zero, zero_mul]⟩
  | append_singleton dices d ih =>
    have hlen : dices.length ≤ allStepsCount := by
      rw [List.length_append] at hcount
      omega
    have hlast := hd d (List.mem_append_right _ (List.mem_singleton_self d))
    rw [after_concat hcount]
    intro e he
    obtain ⟨e', he', hkey⟩ := List.mem_map.mp (keys_die e he)
    rw [← hkey]
    exact multiples_newKeyVals hlast (ih hlen fun d' h' => hd d' (List.mem_append_left _ h')) e' he'

/-- Dice of one factor, as a unit throws them. -/
theorem keysSeparated_of_factor {f : α} (hf : 1 / 100000 < f)
    (hcount : dist.dices.length ≤ allStepsCount) (hd : ∀ d ∈ dist.dices, d.factor = f) :
    KeysSeparated B dist value := by
  intro dices d rest hdices
  rw [hdices] at hd
  rw [hdices, List.length_append] at hcount
  refine separated_of_multiples hf fun a ha => ?_
  obtain ⟨e, he, rfl⟩ := List.mem_map.mp ha
  refine multiples_newKeyVals (hd d (List.mem_append_right _ List.mem_cons_self)) ?_ e he
  exact multiples_after (by omega) fun d' h' => hd d' (List.mem_append_left _ h')

theorem expect_addPoint {keys : List α} (hd : ∀ d ∈ rest, d.Valid) (hsep : Separated keys)
    (hm : ∀ e ∈ elements m.distributionCurrent, e.1 ∈ keys) (hkey : key ∈ keys) :
    expect value rest (addPoint B value false (sumMax rest) (sumMin rest) c key m) =
      expect value rest m + c * chanceFrom value rest key := by
  unfold addPoint
  split_ifs with hlesser hgreater
  · rw [chanceFrom_eq_zero hd hlesser, mul_zero, add_zero]
    rfl
  · rw [chanceFrom_eq_one hd hgreater.le, mul_one]
    unfold expect
    ring
  · change m.chanceGreater + weigh (chanceFrom value rest)
      (alter DistributionLess B 0 (· + c) m.distributionCurrent key) = _
    rw [weigh_alter fun e he => hsep _ (hm e he) _ hkey, ← add_assoc]
    rfl

/-- A die keeps the chance that the masses stand for. -/
theorem expect_die (hd : ∀ d' ∈ d :: rest, d'.Valid) (hmax : s.diceMax = sumMax (d :: rest))
    (hmin : s.diceMin = sumMin (d :: rest))
    (hsep : Separated ((newKeyVals d (elements s.distributionLast)).map Prod.fst)) :
    expect value rest (die B value false s d).masses = expect value (d :: rest) s.masses := by
  have hmax' : s.diceMax - d.maxValue = sumMax rest := by
    rw [hmax, sumMax, List.map_cons, List.sum_cons, add_sub_cancel_left, sumMax]
  have hmin' : s.diceMin - d.minValue = sumMin rest := by
    rw [hmin, sumMin, List.map_cons, List.sum_cons, add_sub_cancel_left, sumMin]
  refine (account_die _ _ _ _ _ (I := fun m => ∀ e ∈ elements m.distributionCurrent, e.1 ∈
    (newKeyVals d (elements s.distributionLast)).map Prod.fst) (q := expect value rest)
    (h := chanceFrom value rest) (fun e he => absurd he List.not_mem_nil) fun e he m hm =>
      ⟨keys_addPoint hm (List.mem_map_of_mem he), ?_⟩).2.trans ?_
  · rw [hmax', hmin']
    exact expect_addPoint (fun d' h' => hd d' (List.mem_cons_of_mem _ h')) hsep hm
      (List.mem_map_of_mem he)
  · unfold expect weigh Loop.masses
    simp only [elements, List.map_nil, List.sum_nil, add_zero]
    rfl

theorem foldl_add (b : α) (dices : List (Dice α)) (f : Dice α → α) :
    dices.foldl (fun rv d => rv + f d) b = b + (dices.map f).sum := by
  induction dices generalizing b with
  | nil => exact (add_zero b).symm
  | cons d dices ih => rw [List.foldl_cons, ih, List.map_cons, List.sum_cons, add_assoc]

theorem start_diceMax : (dist.start B).diceMax = sumMax dist.dices := by
  change dist.dices.foldl (fun rv d => rv + d.maxValue) dist.base - dist.base = _
  rw [foldl_add, add_sub_cancel_left, sumMax]

theorem start_diceMin : (dist.start B).diceMin = sumMin dist.dices := by
  change dist.dices.foldl (fun rv d => rv + d.minValue) dist.base - dist.base = _
  rw [foldl_add, add_sub_cancel_left, sumMin]

/-- After every die the masses stand for the chance of all dice. -/
theorem expect_after (hcount : dist.dices.length ≤ allStepsCount) (hd : ∀ d ∈ dist.dices, d.Valid)
    (hsep : KeysSeparated B dist value) (hdices : dist.dices = dices ++ rest) :
    (dist.after B value false dices).diceMax = sumMax rest ∧
    (dist.after B value false dices).diceMin = sumMin rest ∧
    expect (value - dist.base) rest (dist.after B value false dices).masses =
      chanceFrom value dist.dices dist.base := by
  induction dices using List.reverseRecOn generalizing rest with
  | nil =>
    obtain rfl : dist.dices = rest := hdices
    refine ⟨start_diceMax, start_diceMin, ?_⟩
    change 0 + weigh _ (dist.start B).distributionLast = _
    rw [weigh, elements_start, List.map_singleton, List.sum_singleton, one_mul, zero_add,
      chanceFrom_sub, add_zero]
  | append_singleton dices d ih =>
    have hsplit : dist.dices = dices ++ d :: rest := by
      rw [hdices, List.append_assoc]
      rfl
    obtain ⟨hmax, hmin, hexpect⟩ := ih hsplit
    have hlen : (dices ++ [d]).length ≤ allStepsCount := by
      rw [hdices, List.length_append] at hcount
      omega
    have hrest : ∀ d' ∈ d :: rest, d'.Valid := fun d' h' => hd d' <| by
      rw [hsplit]
      exact List.mem_append_right _ h'
    rw [after_concat hlen]
    refine ⟨?_, ?_, (expect_die hrest hmax hmin (hsep dices d rest hsplit)).trans hexpect⟩
    · change (dist.after B value false dices).diceMax - d.maxValue = _
      rw [hmax, sumMax, List.map_cons, List.sum_cons, add_sub_cancel_left, sumMax]
    · change (dist.after B value false dices).diceMin - d.minValue = _
      rw [hmin, sumMin, List.map_cons, List.sum_cons, add_sub_cancel_left, sumMin]

/-! ## The result -/

/-- The sum at the end. -/
theorem foldl_result (es : List (α × α)) (c : α) :
    es.foldl (fun rvChance e => if value ≤ e.1 then rvChance + e.2 else rvChance) c =
      c + (es.map fun e => e.2 * chanceFrom value [] e.1).sum := by
  induction es generalizing c with
  | nil => exact (add_zero c).symm
  | cons e es ih =>
    rw [List.foldl_cons, ih, List.map_cons, List.sum_cons, chanceFrom]
    split_ifs
    · rw [mul_one, add_assoc]
    · rw [mul_zero, zero_add]

theorem chanceGreaterEqual_eq_expect (hmax : ¬ dist.maxValue < value)
    (hmin : ¬ value ≤ dist.minValue) : dist.chanceGreaterEqual B value flagRoundedToInt =
      expect (value - dist.base) [] (dist.after B value flagRoundedToInt dist.dices).masses := by
  unfold DnDAtkDist.chanceGreaterEqual
  rw [if_neg hmax, if_neg hmin]
  exact foldl_result _ _

/-- The result is the chance. -/
theorem chanceGreaterEqual_eq_chanceFrom (hcount : dist.dices.length ≤ allStepsCount)
    (hd : ∀ d ∈ dist.dices, d.Valid) (hsep : KeysSeparated B dist value) :
    dist.chanceGreaterEqual B value false = chanceFrom value dist.dices dist.base := by
  have hmax : dist.maxValue = dist.base + sumMax dist.dices := foldl_add ..
  have hmin : dist.minValue = dist.base + sumMin dist.dices := foldl_add ..
  by_cases hlesser : dist.maxValue < value
  · rw [DnDAtkDist.chanceGreaterEqual, if_pos hlesser]
    rw [hmax] at hlesser
    exact (chanceFrom_eq_zero hd hlesser).symm
  by_cases hgreater : value ≤ dist.minValue
  · rw [DnDAtkDist.chanceGreaterEqual, if_neg hlesser, if_pos hgreater]
    rw [hmin] at hgreater
    exact (chanceFrom_eq_one hd hgreater).symm
  rw [chanceGreaterEqual_eq_expect hlesser hgreater]
  exact (expect_after hcount hd hsep (List.append_nil _).symm).2.2

/-- `chanceGreaterEqual` computes the probability that the base and the dice reach the value. -/
theorem chanceGreaterEqual_eq_prob (hcount : dist.dices.length ≤ allStepsCount)
    (hd : ∀ d ∈ dist.dices, d.Valid) (hsep : KeysSeparated B dist value) :
    dist.chanceGreaterEqual B value false = dist.probGreaterEqual value :=
  (chanceGreaterEqual_eq_chanceFrom hcount hd hsep).trans chanceFrom_eq_share

/-- Three points of damage more than the base, with two dice. -/
theorem chanceGreaterEqual_eq_prob_two_dice :
    (⟨10, [⟨2, 1⟩, ⟨3, 1⟩]⟩ : DnDAtkDist ℚ).chanceGreaterEqual unbalanced 13 false =
      (⟨10, [⟨2, 1⟩, ⟨3, 1⟩]⟩ : DnDAtkDist ℚ).probGreaterEqual 13 :=
  chanceGreaterEqual_eq_prob (by decide) (by simp [Dice.valid_iff])
    (keysSeparated_of_factor (f := (1 : ℚ)) (by norm_num) (by decide) (by simp))

theorem expect_bounds (hd : ∀ d ∈ rest, d.Valid) (hm : m.Nonneg) :
    0 ≤ expect value rest m ∧ expect value rest m ≤ m.mass := by
  have hterm : ∀ e ∈ elements m.distributionCurrent,
      0 ≤ e.2 * chanceFrom value rest e.1 ∧ e.2 * chanceFrom value rest e.1 ≤ e.2 := fun e he =>
    ⟨mul_nonneg (hm.current e he) (chanceFrom_bounds hd).1,
      mul_le_of_le_one_right (hm.current e he) (chanceFrom_bounds hd).2⟩
  have hnonneg : 0 ≤ weigh (chanceFrom value rest) m.distributionCurrent := by
    refine List.sum_nonneg fun c hc => ?_
    obtain ⟨e, he, rfl⟩ := List.mem_map.mp hc
    exact (hterm e he).1
  have hle : weigh (chanceFrom value rest) m.distributionCurrent ≤ total m.distributionCurrent :=
    List.sum_le_sum fun e he => (hterm e he).2
  have hlesser := hm.lesser
  have hgreater := hm.greater
  unfold expect Masses.mass
  constructor <;> linarith

/-- The result is a chance, also with rounded sums. -/
theorem chanceGreaterEqual_bounds (hcount : dist.dices.length ≤ allStepsCount)
    (hd : ∀ d ∈ dist.dices, d.Valid) :
    0 ≤ dist.chanceGreaterEqual B value flagRoundedToInt ∧
      dist.chanceGreaterEqual B value flagRoundedToInt ≤ 1 := by
  by_cases hlesser : dist.maxValue < value
  · rw [DnDAtkDist.chanceGreaterEqual, if_pos hlesser]
    exact ⟨le_rfl, zero_le_one⟩
  by_cases hgreater : value ≤ dist.minValue
  · rw [DnDAtkDist.chanceGreaterEqual, if_neg hlesser, if_pos hgreater]
    exact ⟨zero_le_one, le_rfl⟩
  have hafter : (dist.after B value flagRoundedToInt dist.dices).masses.Nonneg ∧
      (dist.after B value flagRoundedToInt dist.dices).masses.mass = 1 := conserves_after hcount hd
  rw [chanceGreaterEqual_eq_expect hlesser hgreater, ← hafter.2]
  exact expect_bounds (List.forall_mem_nil _) hafter.1

/-- The masses are a distribution after every die and the result is a chance. Where the sums of a
step are told apart, it does not rise with the value, and it does not fall where a distribution of
nothing less than zero is added. -/
theorem chanceGreaterEqual_mass_and_mono (B : Balancing (α × α)) :
    (∀ (dist : DnDAtkDist α) (value : α) (flagRoundedToInt : Bool),
      dist.dices.length ≤ allStepsCount → (∀ d ∈ dist.dices, d.Valid) →
      (∀ dices rest, dist.dices = dices ++ rest →
        (dist.after B value flagRoundedToInt dices).masses.mass = 1) ∧
      0 ≤ dist.chanceGreaterEqual B value flagRoundedToInt ∧
      dist.chanceGreaterEqual B value flagRoundedToInt ≤ 1) ∧
    (∀ (dist : DnDAtkDist α) (value value' : α),
      dist.dices.length ≤ allStepsCount → (∀ d ∈ dist.dices, d.Valid) →
      KeysSeparated B dist value → KeysSeparated B dist value' → value ≤ value' →
      dist.chanceGreaterEqual B value' false ≤ dist.chanceGreaterEqual B value false) ∧
    (∀ (dist other : DnDAtkDist α) (value : α),
      (dist.combine other).dices.length ≤ allStepsCount →
      (∀ d ∈ (dist.combine other).dices, d.Valid) →
      KeysSeparated B dist value → KeysSeparated B (dist.combine other) value →
      0 ≤ other.minValue →
      dist.chanceGreaterEqual B value false ≤
        (dist.combine other).chanceGreaterEqual B value false) := by
  refine ⟨fun dist value flag hcount hd => ⟨fun dices rest hdices => ?_,
    chanceGreaterEqual_bounds hcount hd⟩, fun dist value value' hcount hd hsep hsep' hle => ?_,
    fun dist other value hcount hd hsep hsep' hmin => ?_⟩
  · rw [hdices] at hd
    rw [hdices, List.length_append] at hcount
    exact (conserves_after (by omega) fun d h => hd d (List.mem_append_left _ h)).2
  · rw [chanceGreaterEqual_eq_chanceFrom hcount hd hsep,
      chanceGreaterEqual_eq_chanceFrom hcount hd hsep']
    exact chanceFrom_anti hle
  · have hdices : (dist.combine other).dices = dist.dices ++ other.dices := rfl
    have hsum : other.minValue = other.base + sumMin other.dices := foldl_add ..
    rw [hsum] at hmin
    rw [chanceGreaterEqual_eq_chanceFrom hcount hd hsep']
    rw [hdices] at hcount hd ⊢
    rw [List.length_append] at hcount
    rw [chanceGreaterEqual_eq_chanceFrom (by omega)
      (fun d h => hd d (List.mem_append_left _ h)) hsep]
    refine chanceFrom_le_append (fun d h => hd d (List.mem_append_right _ h)) ?_
    change dist.base ≤ dist.base + other.base + sumMin other.dices
    linarith

theorem chanceGreaterEqual_mass_and_mono_two_dice :
    ((⟨10, [⟨2, 1⟩]⟩ : DnDAtkDist ℚ).after unbalanced 12 true [⟨2, 1⟩]).masses.mass = 1 ∧
    (⟨10, [⟨2, 1⟩]⟩ : DnDAtkDist ℚ).chanceGreaterEqual unbalanced 12 false ≤
      (⟨10, [⟨2, 1⟩]⟩ : DnDAtkDist ℚ).chanceGreaterEqual unbalanced 11 false ∧
    (⟨10, [⟨2, 1⟩]⟩ : DnDAtkDist ℚ).chanceGreaterEqual unbalanced 12 false ≤
      ((⟨10, [⟨2, 1⟩]⟩ : DnDAtkDist ℚ).combine ⟨0, [⟨3, 1⟩]⟩).chanceGreaterEqual unbalanced 12
        false := by
  have hone : ∀ d ∈ ([⟨2, 1⟩] : List (Dice ℚ)), d.Valid := by simp [Dice.valid_iff]
  have htwo : ∀ d ∈ ([⟨2, 1⟩, ⟨3, 1⟩] : List (Dice ℚ)), d.Valid := by simp [Dice.valid_iff]
  have hsep : ∀ value, KeysSeparated unbalanced (⟨10, [⟨2, 1⟩]⟩ : DnDAtkDist ℚ) value :=
    fun _ => keysSeparated_of_factor (f := (1 : ℚ)) (by norm_num) (by decide) (by simp)
  obtain ⟨hmass, hvalue, happend⟩ := chanceGreaterEqual_mass_and_mono (unbalanced : Balancing (ℚ × ℚ))
  refine ⟨(hmass ⟨10, [⟨2, 1⟩]⟩ 12 true (by decide) hone).1 [⟨2, 1⟩] [] rfl,
    hvalue _ 11 12 (by decide) hone (hsep 11) (hsep 12) (by norm_num),
    happend _ ⟨0, [⟨3, 1⟩]⟩ 12 (by decide) htwo (hsep 12) ?_ ?_⟩
  · exact keysSeparated_of_factor (f := (1 : ℚ)) (by norm_num) (by decide)
      (by simp [DnDAtkDist.combine])
  · simp [DnDAtkDist.minValue, Dice.minValue]

end Loops

end Stochastic

end DreamDota
