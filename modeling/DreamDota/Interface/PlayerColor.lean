import Mathlib.Algebra.Order.Floor.Ring
import Mathlib.Data.Rat.Floor
import Mathlib.Tactic.FieldSimp
import Mathlib.Tactic.FinCases
import Mathlib.Tactic.Linarith
import Mathlib.Tactic.NormNum
import Mathlib.Tactic.Positivity
import Mathlib.Tactic.Ring

/-!
# Colours of players

`RGB2HSV`, `HSV2RGB` and `GetPlayerColor` of `Player.cpp`. The numbers are exact.

The colours with a hue lie in six sectors, and `sectorColor` is the colour at a place in a sector.

1. `hsv2rgb_sector`: `HSV2RGB` gives the colour at its place.
2. `rgb2hsv_sector`: `RGB2HSV` gives the place of the colour, although it splits the circle in
   another way.
3. `exists_sector`: every colour that is not grey is at a place.
4. `color_conversion`: the round trips, and the brightening.
5. `correctLightness_bytes`: the bytes of a player's brighter colour.
-/

namespace DreamDota

namespace PlayerColor

/-! ## The code -/

@[ext] structure RGB (α : Type) where
  r : α
  g : α
  b : α
  deriving DecidableEq, Repr

structure HSV (α : Type) where
  h : α
  s : α
  v : α
  deriving DecidableEq, Repr

section Model

variable {α : Type} [Field α] [LinearOrder α] [FloorRing α]

/-- The part of a number before the point. -/
def truncate (x : α) : ℤ := if 0 ≤ x then ⌊x⌋ else ⌈x⌉

/-- `fmod`. The result has the sign of `x`. -/
def fmod (x y : α) : α := x - y * truncate (x / y)

/-- `RGB2HSV`. -/
def rgb2hsv (c : RGB α) : HSV α :=
  let M := max (max c.r c.g) c.b
  let m := min (min c.r c.g) c.b
  let C := M - m
  let H :=
    if C = 0 then 0
    else if M = c.r then fmod ((c.g - c.b) / C) 6
    else if M = c.g then (c.b - c.r) / C + (2 : ℕ)
    else if M = c.b then (c.r - c.g) / C + (4 : ℕ)
    else 0
  let H := fmod (H * 60) 360
  ⟨if H < 0 then H + 360 else H, if C = 0 then 0 else C / M, M⟩

/-- `HSV2RGB`. Its last branch reports an error. -/
def hsv2rgb (c : HSV α) : Option (RGB α) :=
  let C := c.v * c.s
  let H2 := c.h / 60
  let X := C * (1 - |fmod H2 (2 : ℕ) - 1|)
  let m := c.v - C
  if 0 ≤ H2 ∧ H2 < 1 then some ⟨C + m, X + m, 0 + m⟩
  else if 1 ≤ H2 ∧ H2 < (2 : ℕ) then some ⟨X + m, C + m, 0 + m⟩
  else if (2 : ℕ) ≤ H2 ∧ H2 < (3 : ℕ) then some ⟨0 + m, C + m, X + m⟩
  else if (3 : ℕ) ≤ H2 ∧ H2 < (4 : ℕ) then some ⟨0 + m, X + m, C + m⟩
  else if (4 : ℕ) ≤ H2 ∧ H2 < (5 : ℕ) then some ⟨X + m, 0 + m, C + m⟩
  else if (5 : ℕ) ≤ H2 ∧ H2 < (6 : ℕ) then some ⟨C + m, 0 + m, X + m⟩
  else none

/-- The brighter value in `GetPlayerColor`. -/
def brightValue (V : α) : α := min 1 (V * (8 / 5))

/-- What `GetPlayerColor` does to the channels of a colour. -/
def brighten (c : RGB α) : Option (RGB α) :=
  let c := rgb2hsv c
  hsv2rgb { c with v := brightValue c.v }

end Model

/-- `Color`. -/
structure Color where
  b : BitVec 8
  g : BitVec 8
  r : BitVec 8
  a : BitVec 8
  deriving DecidableEq, Repr

/-- The constructor of `Color`. -/
def Color.of (r g b : BitVec 8) (a : BitVec 8 := 0xFF) : Color := ⟨b, g, r, a⟩

/-- `Color::WHITE`. -/
def Color.white : Color := .of 0xFF 0xFF 0xFF

/-- `PlayerColors`. -/
def playerColors : Vector Color 12 := #v[
  .of 255 3 3, .of 0 66 255, .of 28 230 185, .of 84 0 129, .of 255 252 1, .of 254 128 0,
  .of 32 192 0, .of 229 91 176, .of 149 150 151, .of 126 191 241, .of 16 98 70, .of 78 42 4]

/-- The channels as numbers between 0 and 1. -/
def Color.channels (color : Color) : RGB ℚ :=
  ⟨(color.r.toNat : ℚ) / 255, (color.g.toNat : ℚ) / 255, (color.b.toNat : ℚ) / 255⟩

/-- `(uint8_t)x`. -/
def toByte (x : ℚ) : BitVec 8 := BitVec.ofInt 8 (truncate x)

/-- What `GetPlayerColor` does if the lightness is to be corrected. An error leaves black
channels. -/
def correctLightness (color : Color) : Color :=
  let c := (brighten color.channels).getD ⟨0, 0, 0⟩
  { color with r := toByte (c.r * 255), g := toByte (c.g * 255), b := toByte (c.b * 255) }

/-- `GetPlayerColor`, where `color` is the number of the colour that the game has given to a
player. -/
def getPlayerColor (color : ℤ → Fin 12) (playerId : ℤ) (correntLightness : Bool) : Color :=
  if 0 ≤ playerId ∧ playerId ≤ 11 then
    if correntLightness then correctLightness (playerColors.get (color playerId))
    else playerColors.get (color playerId)
  else .white

/-! ## The places of the colours -/

section Sectors

variable {α : Type} [Field α] [LinearOrder α]

/-- The colour in a sector that is `t` away from its beginning. -/
def sectorColor (n : Fin 6) (s v t : α) : RGB α :=
  let p := v * (1 - s)
  let q := v * (1 - s * t)
  let u := v * (1 - s * (1 - t))
  match n with
  | 0 => ⟨v, u, p⟩
  | 1 => ⟨q, v, p⟩
  | 2 => ⟨p, v, u⟩
  | 3 => ⟨p, q, v⟩
  | 4 => ⟨u, p, v⟩
  | 5 => ⟨v, p, q⟩

/-- The hue of a place. -/
def sectorHue (n : Fin 6) (t : α) : α := ((n : ℕ) + t) * 60

/-- A place of a colour that is not grey. -/
structure Place (s v t : α) : Prop where
  s_pos : 0 < s
  s_le : s ≤ 1
  v_pos : 0 < v
  t_nonneg : 0 ≤ t
  t_lt : t < 1

end Sectors

section Conversion

set_option linter.unusedSectionVars false

variable {α : Type} [Field α] [LinearOrder α] [IsStrictOrderedRing α] [FloorRing α]
  {x y s v t k : α} {n : Fin 6} {c : RGB α}

/-- A rest stays, and multiples of the modulus go. -/
theorem fmod_add (h0 : 0 ≤ x) (h : x < y) (k : ℕ) : fmod (k * y + x) y = x := by
  have hy : 0 < y := h0.trans_lt h
  have hsum : 0 ≤ (k * y + x) / y := div_nonneg (by positivity) hy.le
  have hfloor : ⌊(k * y + x) / y⌋ = k := by
    rw [add_div, mul_div_cancel_right₀ _ hy.ne', Int.floor_natCast_add,
      Int.floor_eq_zero_iff.mpr ⟨div_nonneg h0 hy.le, (div_lt_one hy).mpr h⟩, add_zero]
  rw [fmod, truncate, if_pos hsum, hfloor, Int.cast_natCast]
  ring

theorem fmod_of_nonneg (h0 : 0 ≤ x) (h : x < y) : fmod x y = x := by
  have hzero := fmod_add h0 h 0
  rwa [Nat.cast_zero, zero_mul, zero_add] at hzero

theorem fmod_of_neg (h0 : x < 0) (h : -y < x) : fmod x y = x := by
  have hy : 0 < y := by linarith
  have hneg : x / y < 0 := div_neg_of_neg_of_pos h0 hy
  have hceil : ⌈x / y⌉ = 0 := by
    rw [Int.ceil_eq_zero_iff]
    exact ⟨by rw [lt_div_iff₀ hy]; linarith, hneg.le⟩
  rw [fmod, truncate, if_neg (not_le.mpr hneg), hceil, Int.cast_zero, mul_zero, sub_zero]

/-! ## From the place to the colour -/

/-- The wave that `HSV2RGB` follows goes up in the even sectors and down in the odd ones. -/
theorem wave (ht : 0 ≤ t) (ht1 : t < 1) (n : ℕ) :
    1 - |fmod (n + t) 2 - 1| = if n % 2 = 0 then t else 1 - t := by
  have hsplit : (n : α) = (n / 2 : ℕ) * 2 + (n % 2 : ℕ) := by
    exact_mod_cast (Nat.div_add_mod' n 2).symm
  rcases Nat.mod_two_eq_zero_or_one n with h | h
  · rw [hsplit, h, Nat.cast_zero, add_zero, fmod_add ht (by linarith), if_pos rfl,
      abs_of_neg (by linarith)]
    ring
  · rw [hsplit, h, Nat.cast_one, add_assoc, fmod_add (by linarith) (by linarith),
      if_neg Nat.one_ne_zero, abs_of_nonneg (by linarith)]
    ring

/-- The tests of `HSV2RGB` find the sector. -/
theorem between_iff (ht : 0 ≤ t) (ht1 : t < 1) {n k : ℕ} (hx : x = k) (hy : y = k + 1) :
    x ≤ n + t ∧ n + t < y ↔ n = k := by
  rw [hx, hy]
  constructor
  · rintro ⟨hlow, hhigh⟩
    have hk : (k : α) < (n + 1 : ℕ) := by
      push_cast
      linarith
    have hn : (n : α) < (k + 1 : ℕ) := by
      push_cast
      linarith
    rw [Nat.cast_lt] at hk hn
    omega
  · rintro rfl
    exact ⟨by linarith, by linarith⟩

/-- `HSV2RGB` gives the colour at a place. -/
theorem hsv2rgb_sector (ht : 0 ≤ t) (ht1 : t < 1) (n : Fin 6) :
    hsv2rgb ⟨sectorHue n t, s, v⟩ = some (sectorColor n s v t) := by
  have hH2 : sectorHue n t / 60 = (n : ℕ) + t := by
    rw [sectorHue, mul_div_cancel_right₀ _ (by norm_num)]
  unfold hsv2rgb
  simp only [Nat.cast_ofNat]
  simp only [hH2, wave ht ht1,
    between_iff ht ht1 (k := 0) (x := 0) (y := 1) (by norm_num) (by norm_num),
    between_iff ht ht1 (k := 1) (x := 1) (y := 2) (by norm_num) (by norm_num),
    between_iff ht ht1 (k := 2) (x := 2) (y := 3) (by norm_num) (by norm_num),
    between_iff ht ht1 (k := 3) (x := 3) (y := 4) (by norm_num) (by norm_num),
    between_iff ht ht1 (k := 4) (x := 4) (y := 5) (by norm_num) (by norm_num),
    between_iff ht ht1 (k := 5) (x := 5) (y := 6) (by norm_num) (by norm_num)]
  fin_cases n <;> simp [sectorColor] <;> constructor <;> ring

/-! ## From the colour to the place -/

/-- The largest and the smallest channel. -/
structure Extremes (c : RGB α) (high low : α) : Prop where
  r : low ≤ c.r ∧ c.r ≤ high
  g : low ≤ c.g ∧ c.g ≤ high
  b : low ≤ c.b ∧ c.b ≤ high
  high_mem : high = c.r ∨ high = c.g ∨ high = c.b
  low_mem : low = c.r ∨ low = c.g ∨ low = c.b

theorem Extremes.max_eq (h : Extremes c x y) : max (max c.r c.g) c.b = x := by
  refine le_antisymm (max_le (max_le h.r.2 h.g.2) h.b.2) ?_
  rcases h.high_mem with hx | hx | hx
  · exact hx.le.trans ((le_max_left _ _).trans (le_max_left _ _))
  · exact hx.le.trans ((le_max_right _ _).trans (le_max_left _ _))
  · exact hx.le.trans (le_max_right _ _)

theorem Extremes.min_eq (h : Extremes c x y) : min (min c.r c.g) c.b = y := by
  refine le_antisymm ?_ (le_min (le_min h.r.1 h.g.1) h.b.1)
  rcases h.low_mem with hy | hy | hy
  · exact ((min_le_left _ _).trans (min_le_left _ _)).trans hy.ge
  · exact ((min_le_left _ _).trans (min_le_right _ _)).trans hy.ge
  · exact (min_le_right _ _).trans hy.ge

/-- `RGB2HSV` in terms of the largest channel and its distance from the smallest one. The hue may
start below zero, and then a full circle is added. -/
theorem rgb2hsv_eq {H : α} (h : Extremes c v (v - v * s)) (hv : v ≠ 0) (hs : s ≠ 0)
    (hH : (if v = c.r then fmod ((c.g - c.b) / (v * s)) 6
      else if v = c.g then (c.b - c.r) / (v * s) + 2
      else if v = c.b then (c.r - c.g) / (v * s) + 4
      else 0) = H) (hlow : -1 ≤ H) (hhigh : H < 6) :
    rgb2hsv c = ⟨if H < 0 then (H + 6) * 60 else H * 60, s, v⟩ := by
  have hC : v - (v - v * s) = v * s := by ring
  have hfmod : fmod (H * 60) 360 = H * 60 := by
    rcases lt_or_ge H 0 with hneg | hpos
    · exact fmod_of_neg (by linarith) (by linarith)
    · exact fmod_of_nonneg (by linarith) (by linarith)
  have hsign : H * 60 < 0 ↔ H < 0 := by
    constructor <;> intro h <;> linarith
  unfold rgb2hsv
  simp only [h.max_eq, h.min_eq, hC, mul_ne_zero hv hs, if_false, Nat.cast_ofNat, hH, hfmod, hsign,
    mul_div_cancel_left₀ s hv]
  congr 1
  split_ifs
  · ring
  · rfl

/-- `RGB2HSV` gives the place of the colour. In the odd sectors the first colour has two largest
channels, and the earlier one is taken. -/
theorem rgb2hsv_sector (h : Place s v t) (n : Fin 6) :
    rgb2hsv (sectorColor n s v t) = ⟨sectorHue n t, s, v⟩ := by
  obtain ⟨hs, -, hv, ht, ht1⟩ := h
  have hd : 0 < v * s := mul_pos hv hs
  have hdt : 0 ≤ v * s * t := mul_nonneg hd.le ht
  have hdt1 : v * s * t < v * s := mul_lt_of_lt_one_right hd ht1
  have hp : v * (1 - s) = v - v * s := by ring
  have hq : v * (1 - s * t) = v - v * s * t := by ring
  have hu : v * (1 - s * (1 - t)) = v - v * s + v * s * t := by ring
  -- the distances of the channels, in units of the largest one
  have hup : (v - v * s + v * s * t - (v - v * s)) / (v * s) = t := by
    rw [add_sub_cancel_left, mul_div_cancel_left₀ _ hd.ne']
  have hpq : (v - v * s - (v - v * s * t)) / (v * s) = t - 1 := by
    rw [show v - v * s - (v - v * s * t) = v * s * (t - 1) by ring, mul_div_cancel_left₀ _ hd.ne']
  have htie : v = v - v * s * t ↔ t = 0 := by
    rw [eq_comm, sub_eq_self, mul_eq_zero, or_iff_right hd.ne']
  have hne : v ≠ v - v * s := by linarith
  have hvp : (v - (v - v * s)) / (v * s) = 1 := by
    rw [sub_sub_cancel, div_self hd.ne']
  have hvu : v ≠ v - v * s + v * s * t := by linarith
  fin_cases n <;> simp only [sectorColor, hp, hq, hu]
  · refine (rgb2hsv_eq (H := t) ⟨?_, ?_, ?_, .inl rfl, .inr (.inr rfl)⟩ hv.ne' hs.ne' ?_
      (by linarith) (by linarith)).trans ?_
    iterate 3 constructor <;> linarith
    · rw [if_pos rfl, hup, fmod_of_nonneg ht (by linarith)]
    · rw [if_neg (by linarith)]
      simp [sectorHue]
  · refine (rgb2hsv_eq (H := 1 + t) ⟨?_, ?_, ?_, .inr (.inl rfl), .inr (.inr rfl)⟩ hv.ne' hs.ne' ?_
      (by linarith) (by linarith)).trans ?_
    iterate 3 constructor <;> linarith
    · by_cases hzero : t = 0
      · rw [if_pos (htie.mpr hzero), hvp, fmod_of_nonneg zero_le_one (by norm_num), hzero, add_zero]
      · rw [if_neg (htie.not.mpr hzero), if_pos rfl, hpq]
        ring
    · rw [if_neg (by linarith)]
      simp [sectorHue]
  · refine (rgb2hsv_eq (H := 2 + t) ⟨?_, ?_, ?_, .inr (.inl rfl), .inl rfl⟩ hv.ne' hs.ne' ?_
      (by linarith) (by linarith)).trans ?_
    iterate 3 constructor <;> linarith
    · rw [if_neg hne, if_pos rfl, hup, add_comm]
    · rw [if_neg (by linarith)]
      simp [sectorHue]
  · refine (rgb2hsv_eq (H := 3 + t) ⟨?_, ?_, ?_, .inr (.inr rfl), .inl rfl⟩ hv.ne' hs.ne' ?_
      (by linarith) (by linarith)).trans ?_
    iterate 3 constructor <;> linarith
    · rw [if_neg hne]
      by_cases hzero : t = 0
      · rw [if_pos (htie.mpr hzero), hvp, hzero]
        norm_num
      · rw [if_neg (htie.not.mpr hzero), if_pos rfl, hpq]
        ring
    · rw [if_neg (by linarith)]
      simp [sectorHue]
  · refine (rgb2hsv_eq (H := 4 + t) ⟨?_, ?_, ?_, .inr (.inr rfl), .inr (.inl rfl)⟩ hv.ne' hs.ne' ?_
      (by linarith) (by linarith)).trans ?_
    iterate 3 constructor <;> linarith
    · rw [if_neg hvu, if_neg hne, if_pos rfl, hup, add_comm]
    · rw [if_neg (by linarith)]
      simp [sectorHue]
  · refine (rgb2hsv_eq (H := t - 1) ⟨?_, ?_, ?_, .inl rfl, .inr (.inl rfl)⟩ hv.ne' hs.ne' ?_
      (by linarith) (by linarith)).trans ?_
    iterate 3 constructor <;> linarith
    · rw [if_pos rfl, hpq, fmod_of_neg (by linarith) (by linarith)]
    · -- the only sector where a circle is added
      rw [if_pos (by linarith)]
      simp only [sectorHue]
      congr 1
      norm_num
      ring

theorem exists_saturation {high low : α} (hlow : 0 ≤ low) (hlt : low < high) :
    ∃ s, 0 < s ∧ s ≤ 1 ∧ high * s = high - low := by
  have hhigh : 0 < high := hlow.trans_lt hlt
  refine ⟨(high - low) / high, div_pos (sub_pos.mpr hlt) hhigh, ?_, mul_div_cancel₀ _ hhigh.ne'⟩
  rw [div_le_one hhigh]
  linarith

/-- A channel that goes up from the smallest one to the largest one. -/
theorem exists_rising {high mid low : α} (hlow : 0 ≤ low) (hmid : low ≤ mid) (hhigh : mid < high) :
    ∃ s t, Place s high t ∧ high * (1 - s) = low ∧ high * (1 - s * (1 - t)) = mid := by
  have hd : 0 < high - low := by linarith
  obtain ⟨s, hs, hs1, hsat⟩ := exists_saturation hlow (hmid.trans_lt hhigh)
  refine ⟨s, (mid - low) / (high - low), ⟨hs, hs1, by linarith, ?_, ?_⟩, by linarith, ?_⟩
  · exact div_nonneg (by linarith) hd.le
  · rw [div_lt_one hd]
    linarith
  · have hmul : (high - low) * ((mid - low) / (high - low)) = mid - low :=
      mul_div_cancel₀ _ hd.ne'
    calc high * (1 - s * (1 - (mid - low) / (high - low)))
        = high - high * s + high * s * ((mid - low) / (high - low)) := by ring
      _ = mid := by rw [hsat, hmul]; ring

/-- A channel that goes down from the largest one to the smallest one. -/
theorem exists_falling {high mid low : α} (hlow : 0 ≤ low) (hmid : low < mid) (hhigh : mid ≤ high) :
    ∃ s t, Place s high t ∧ high * (1 - s) = low ∧ high * (1 - s * t) = mid := by
  have hd : 0 < high - low := by linarith
  obtain ⟨s, hs, hs1, hsat⟩ := exists_saturation hlow (hmid.trans_le hhigh)
  refine ⟨s, (high - mid) / (high - low), ⟨hs, hs1, by linarith, ?_, ?_⟩, by linarith, ?_⟩
  · exact div_nonneg (by linarith) hd.le
  · rw [div_lt_one hd]
    linarith
  · have hmul : (high - low) * ((high - mid) / (high - low)) = high - mid :=
      mul_div_cancel₀ _ hd.ne'
    calc high * (1 - s * ((high - mid) / (high - low)))
        = high - high * s * ((high - mid) / (high - low)) := by ring
      _ = mid := by rw [hsat, hmul]; ring

/-- Every colour that is not grey is at a place. -/
theorem exists_sector (hr : 0 ≤ c.r) (hg : 0 ≤ c.g) (hb : 0 ≤ c.b)
    (hgrey : ¬ (c.r = c.g ∧ c.g = c.b)) :
    ∃ n s v t, Place s v t ∧ c = sectorColor n s v t := by
  obtain ⟨r, g, b⟩ := c
  simp only at hr hg hb hgrey
  rcases lt_or_ge g r with hgr | hrg
  · rcases le_or_gt b g with hbg | hgb
    · obtain ⟨s, t, hplace, hp, hu⟩ := exists_rising hb hbg hgr
      exact ⟨0, s, r, t, hplace, by simp only [sectorColor, hp, hu]⟩
    · rcases le_or_gt b r with hbr | hrb
      · obtain ⟨s, t, hplace, hp, hq⟩ := exists_falling hg hgb hbr
        exact ⟨5, s, r, t, hplace, by simp only [sectorColor, hp, hq]⟩
      · obtain ⟨s, t, hplace, hp, hu⟩ := exists_rising hg hgr.le hrb
        exact ⟨4, s, b, t, hplace, by simp only [sectorColor, hp, hu]⟩
  · rcases lt_or_ge b r with hbr | hrb
    · obtain ⟨s, t, hplace, hp, hq⟩ := exists_falling hb hbr hrg
      exact ⟨1, s, g, t, hplace, by simp only [sectorColor, hp, hq]⟩
    · rcases lt_or_ge b g with hbg | hgb
      · obtain ⟨s, t, hplace, hp, hu⟩ := exists_rising hr hrb hbg
        exact ⟨2, s, g, t, hplace, by simp only [sectorColor, hp, hu]⟩
      · rcases lt_or_eq_of_le hrg with hlt | rfl
        · obtain ⟨s, t, hplace, hp, hq⟩ := exists_falling hr hlt hgb
          exact ⟨3, s, b, t, hplace, by simp only [sectorColor, hp, hq]⟩
        · -- red and green are the same, and blue is another channel
          have hlt : r < b := lt_of_le_of_ne hgb fun heq => hgrey ⟨rfl, heq⟩
          obtain ⟨s, t, hplace, hp, hu⟩ := exists_rising hr le_rfl hlt
          exact ⟨4, s, b, t, hplace, by simp only [sectorColor, hp, hu]⟩

/-! ## All colours -/

/-- The channels are numbers between 0 and 1. -/
structure InUnit (c : RGB α) : Prop where
  r : 0 ≤ c.r ∧ c.r ≤ 1
  g : 0 ≤ c.g ∧ c.g ≤ 1
  b : 0 ≤ c.b ∧ c.b ≤ 1

/-- Every colour is where `RGB2HSV` says. The grey ones are at the beginning of the first sector. -/
theorem exists_place (h : InUnit c) : ∃ n s v t, (0 ≤ s ∧ s ≤ 1) ∧ (0 ≤ t ∧ t < 1) ∧
    c = sectorColor n s v t ∧ rgb2hsv c = ⟨sectorHue n t, s, v⟩ := by
  by_cases hgrey : c.r = c.g ∧ c.g = c.b
  · refine ⟨0, 0, c.b, 0, ⟨le_rfl, zero_le_one⟩, ⟨le_rfl, zero_lt_one⟩, ?_, ?_⟩
    · obtain ⟨r, g, b⟩ := c
      simp only at hgrey
      obtain ⟨rfl, rfl⟩ := hgrey
      simp [sectorColor]
    · have hzero : fmod (0 : α) 360 = 0 := fmod_of_nonneg le_rfl (by norm_num)
      simp [rgb2hsv, sectorHue, hgrey.1, hgrey.2, hzero]
  · obtain ⟨n, s, v, t, hplace, hc⟩ := exists_sector h.r.1 h.g.1 h.b.1 hgrey
    refine ⟨n, s, v, t, ⟨hplace.s_pos.le, hplace.s_le⟩, ⟨hplace.t_nonneg, hplace.t_lt⟩, hc, ?_⟩
    rw [hc, rgb2hsv_sector hplace]

/-- All channels times a factor. -/
def RGB.scale (c : RGB α) (k : α) : RGB α := ⟨c.r * k, c.g * k, c.b * k⟩

theorem sectorColor_scale (n : Fin 6) :
    sectorColor n s (v * k) t = (sectorColor n s v t).scale k := by
  fin_cases n <;> simp [sectorColor, RGB.scale] <;> constructor <;> ring

theorem sectorHue_range (ht : 0 ≤ t) (ht1 : t < 1) (n : Fin 6) :
    0 ≤ sectorHue n t ∧ sectorHue n t < 360 := by
  have hn : ((n : ℕ) : α) ≤ 5 := by exact_mod_cast Nat.lt_succ_iff.mp n.isLt
  have hn0 : (0 : α) ≤ (n : ℕ) := Nat.cast_nonneg _
  unfold sectorHue
  exact ⟨by positivity, by linarith⟩

/-- Every hue is in a sector. -/
theorem exists_hue (h0 : 0 ≤ x) (h : x < 360) :
    ∃ (n : Fin 6) (t : α), 0 ≤ t ∧ t < 1 ∧ x = sectorHue n t := by
  have hfloor : 0 ≤ ⌊x / 60⌋ := Int.floor_nonneg.mpr (by positivity)
  have hlt : ⌊x / 60⌋ < 6 := by
    rw [Int.floor_lt, div_lt_iff₀ (by norm_num)]
    norm_num
    exact h
  obtain ⟨n, hn⟩ := Int.eq_ofNat_of_zero_le hfloor
  have hcast : ((n : ℕ) : α) = (⌊x / 60⌋ : ℤ) := by
    rw [hn]
    exact (Int.cast_natCast n).symm
  refine ⟨⟨n, by omega⟩, Int.fract (x / 60), Int.fract_nonneg _, Int.fract_lt_one _, ?_⟩
  rw [sectorHue, hcast, Int.floor_add_fract, div_mul_cancel₀ _ (by norm_num)]

/-- The value is the largest channel. -/
theorem le_value (c : RGB α) : c.r ≤ (rgb2hsv c).v ∧ c.g ≤ (rgb2hsv c).v ∧ c.b ≤ (rgb2hsv c).v :=
  ⟨(le_max_left _ _).trans (le_max_left _ _), (le_max_right _ _).trans (le_max_left _ _),
    le_max_right _ _⟩

theorem value_pos (h : InUnit c) (hc : c ≠ ⟨0, 0, 0⟩) : 0 < (rgb2hsv c).v := by
  obtain ⟨hr, hg, hb⟩ := le_value c
  by_contra hv
  exact hc (RGB.ext (le_antisymm (by linarith) h.r.1) (le_antisymm (by linarith) h.g.1)
    (le_antisymm (by linarith) h.b.1))

theorem value_le_one (h : InUnit c) : (rgb2hsv c).v ≤ 1 :=
  max_le (max_le h.r.2 h.g.2) h.b.2

/-- The brighter colour is the colour times the quotient of the values. -/
theorem brighten_eq (h : InUnit c) (hc : c ≠ ⟨0, 0, 0⟩) :
    brighten c = some (c.scale (brightValue (rgb2hsv c).v / (rgb2hsv c).v)) := by
  obtain ⟨n, s, v, t, -, ⟨ht, ht1⟩, hcolor, hhsv⟩ := exists_place h
  have hv : 0 < v := by
    have hpos := value_pos h hc
    rwa [hhsv] at hpos
  unfold brighten
  simp only [hhsv]
  rw [hsv2rgb_sector ht ht1, ← mul_div_cancel₀ (brightValue v) hv.ne', sectorColor_scale, ← hcolor,
    mul_div_cancel₀ _ hv.ne']

theorem inUnit_bright (h : InUnit c) (hc : c ≠ ⟨0, 0, 0⟩) :
    InUnit (c.scale (brightValue (rgb2hsv c).v / (rgb2hsv c).v)) := by
  obtain ⟨hr, hg, hb⟩ := le_value c
  have hv := value_pos h hc
  set v := (rgb2hsv c).v with hvdef
  have hbright : 0 ≤ brightValue v := le_min zero_le_one (by positivity)
  have hchannel {x : α} (h0 : 0 ≤ x) (hx : x ≤ v) :
      0 ≤ x * (brightValue v / v) ∧ x * (brightValue v / v) ≤ 1 := by
    have hk : 0 ≤ brightValue v / v := div_nonneg hbright hv.le
    refine ⟨mul_nonneg h0 hk, ?_⟩
    calc x * (brightValue v / v) ≤ v * (brightValue v / v) := mul_le_mul_of_nonneg_right hx hk
      _ = brightValue v := mul_div_cancel₀ _ hv.ne'
      _ ≤ 1 := min_le_left _ _
  exact ⟨hchannel h.r.1 hr, hchannel h.g.1 hg, hchannel h.b.1 hb⟩

/-- **Colours.** `HSV2RGB` takes back what `RGB2HSV` does to a colour, and the other way round for
colours that are not grey, without an error. The brightening multiplies the channels by one
factor. -/
theorem color_conversion :
    (∀ c : RGB α, InUnit c → (0 ≤ (rgb2hsv c).h ∧ (rgb2hsv c).h < 360) ∧
      (0 ≤ (rgb2hsv c).s ∧ (rgb2hsv c).s ≤ 1) ∧ (0 ≤ (rgb2hsv c).v ∧ (rgb2hsv c).v ≤ 1) ∧
      hsv2rgb (rgb2hsv c) = some c) ∧
    (∀ h s v : α, 0 ≤ h → h < 360 → 0 < s → s ≤ 1 → 0 < v → v ≤ 1 →
      ∃ c, hsv2rgb ⟨h, s, v⟩ = some c ∧ rgb2hsv c = ⟨h, s, v⟩) ∧
    ∀ c : RGB α, InUnit c → c ≠ ⟨0, 0, 0⟩ → ∃ bright, brighten c = some bright ∧
      bright = c.scale (brightValue (rgb2hsv c).v / (rgb2hsv c).v) ∧ InUnit bright := by
  refine ⟨fun c hc => ?_, fun h s v h0 h360 hs hs1 hv _ => ?_, fun c hc hblack => ?_⟩
  · obtain ⟨n, s, v, t, hs, ⟨ht, ht1⟩, hcolor, hhsv⟩ := exists_place hc
    have hv0 : 0 ≤ (rgb2hsv c).v := hc.r.1.trans (le_value c).1
    have hv1 := value_le_one hc
    rw [hhsv] at hv0 hv1 ⊢
    exact ⟨sectorHue_range ht ht1 n, hs, ⟨hv0, hv1⟩,
      (hsv2rgb_sector ht ht1 n).trans (congrArg some hcolor.symm)⟩
  · obtain ⟨n, t, ht, ht1, rfl⟩ := exists_hue h0 h360
    exact ⟨_, hsv2rgb_sector ht ht1 n, rgb2hsv_sector ⟨hs, hs1, hv, ht, ht1⟩ n⟩
  · exact ⟨_, brighten_eq hc hblack, rfl, inUnit_bright hc hblack⟩

end Conversion

/-- The first player's colour. -/
theorem color_conversion_red :
    hsv2rgb (rgb2hsv (⟨1, 1 / 85, 1 / 85⟩ : RGB ℚ)) = some ⟨1, 1 / 85, 1 / 85⟩ :=
  (color_conversion.1 ⟨1, 1 / 85, 1 / 85⟩ ⟨by norm_num, by norm_num, by norm_num⟩).2.2.2

/-! ## The bytes -/

theorem inUnit_channels (color : Color) : InUnit color.channels := by
  have hbyte (x : BitVec 8) : 0 ≤ (x.toNat : ℚ) / 255 ∧ (x.toNat : ℚ) / 255 ≤ 1 := by
    have hx : (x.toNat : ℚ) ≤ 255 := by exact_mod_cast Nat.lt_succ_iff.mp x.isLt
    exact ⟨by positivity, by rw [div_le_one (by norm_num)]; exact hx⟩
  exact ⟨hbyte color.r, hbyte color.g, hbyte color.b⟩

/-- A byte that becomes brighter is the product with the factor, rounded down. -/
theorem toNat_toByte {x : BitVec 8} {k : ℚ} (h0 : 0 ≤ (x.toNat : ℚ) / 255 * k)
    (h1 : (x.toNat : ℚ) / 255 * k ≤ 1) :
    (toByte ((x.toNat : ℚ) / 255 * k * 255)).toNat = ⌊x.toNat * k⌋ := by
  have hprod : (x.toNat : ℚ) / 255 * k * 255 = x.toNat * k := by ring
  have h0' : 0 ≤ (x.toNat : ℚ) * k := by linarith
  have hfloor0 : 0 ≤ ⌊(x.toNat : ℚ) * k⌋ := Int.floor_nonneg.mpr h0'
  have hfloor : ⌊(x.toNat : ℚ) * k⌋ < 256 := by
    rw [Int.floor_lt]
    push_cast
    linarith
  rw [hprod, toByte, truncate, if_pos h0', BitVec.toNat_ofInt]
  omega

/-- The bytes of a player's brighter colour are those of its colour times one factor, rounded
down. -/
theorem correctLightness_bytes {color : Color} (hc : color.channels ≠ ⟨0, 0, 0⟩) :
    ∃ k : ℚ, k = brightValue (rgb2hsv color.channels).v / (rgb2hsv color.channels).v ∧
      (correctLightness color).r.toNat = ⌊color.r.toNat * k⌋ ∧
      (correctLightness color).g.toNat = ⌊color.g.toNat * k⌋ ∧
      (correctLightness color).b.toNat = ⌊color.b.toNat * k⌋ := by
  have hunit := inUnit_bright (inUnit_channels color) hc
  refine ⟨_, rfl, ?_⟩
  rw [correctLightness, brighten_eq (inUnit_channels color) hc, Option.getD_some]
  exact ⟨toNat_toByte hunit.r.1 hunit.r.2, toNat_toByte hunit.g.1 hunit.g.2,
    toNat_toByte hunit.b.1 hunit.b.2⟩

end PlayerColor

end DreamDota
