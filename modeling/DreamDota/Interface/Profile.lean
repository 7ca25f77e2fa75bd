import DreamDota.Lib.Decimal
import Mathlib.Algebra.Order.Round
import Mathlib.Data.Rat.Floor
import Mathlib.Tactic.Linarith
import Mathlib.Tactic.NormNum

/-!
# Settings

`Profile.cpp` stores numbers as texts. `ProfileSetInt` and `ProfileSetFloat` have ten characters for
a text and its NUL, and `ProfileFetchInt` and `ProfileFetchFloat` ask for a setting with a default
that stands for none.

The numbers are those of any ordered field. How `printf` rounds and what a `float` is are given by
`FloatArith`, and what the profile functions of Windows do by `ProfileFunctions`.

`settingOk_iff`: the settings that come back.
-/

namespace DreamDota

namespace Profile

abbrev Text := List Char

/-! ## What the code relies on -/

/-- `lpAppName` and `lpKeyName`. -/
structure Key where
  appName : Text
  keyName : Text
  deriving DecidableEq

/-- The profile functions of Windows: `WritePrivateProfileString`, and what the other two find. What
is written is read, and decimal texts are parsed. -/
structure ProfileFunctions where
  File : Type
  write : File → Key → Text → File
  read : File → Key → Option Text
  /-- What `GetPrivateProfileInt` makes of a text. -/
  parse : Text → BitVec 32
  read_write : ∀ file key text, read (write file key text) key = some text
  parse_ofInt : ∀ v : BitVec 32, parse (Decimal.ofInt v.toInt) = v

/-- The arithmetic of `float`. The integers of 24 bits are such numbers. -/
structure FloatArith (K : Type) [Field K] [LinearOrder K] where
  /-- The integer that `printf` rounds to. -/
  nearest : K → ℤ
  /-- What is left of a number in a `float`. -/
  toFloat : K → K
  nearest_spec : ∀ x, |x - nearest x| ≤ 1 / 2
  toFloat_monotone : Monotone toFloat
  toFloat_intCast : ∀ n : ℤ, |n| ≤ 2 ^ 24 → toFloat n = n

/-! ## The code -/

/-- `_stprintf_s` with room for `size` characters. A text that does not fit with its NUL goes to the
handler for invalid parameters, which ends the process: `none`. -/
def stprintfS (size : ℕ) (text : Text) : Option Text :=
  if text.length < size then some text else none

section Int

variable (w : ProfileFunctions)

def profileSetInt (file : w.File) (key : Key) (val : BitVec 32) : Option w.File := do
  let temp ← stprintfS 10 (Decimal.ofInt val.toInt)
  return w.write file key temp

def profileGetInt (file : w.File) (key : Key) (defaultVal : BitVec 32) : BitVec 32 :=
  match w.read file key with
  | some text => w.parse text
  | none => defaultVal

def profileFetchInt (file : w.File) (key : Key) (defaultVal : BitVec 32) :
    Option (BitVec 32 × w.File) :=
  let rv := profileGetInt w file key (-17236)
  if rv = -17236 then do
    let rv := defaultVal
    let file ← profileSetInt w file key rv
    return (rv, file)
  else some (rv, file)

end Int

section Float

variable {K : Type} [Field K] [LinearOrder K]

namespace FloatArith

variable (A : FloatArith K)

/-- A number in ten thousandths. -/
def tenThousandths (x : K) : ℤ := A.nearest (x * ((10 ^ 4 : ℕ) : K))

/-- A number rounded to four decimals. -/
def rounded (x : K) : K := A.toFloat (A.tenThousandths x / ((10 ^ 4 : ℕ) : K))

/-- `TEXT("%.4f")`. A number that is rounded to 0 keeps its sign. -/
def format (x : K) : Text :=
  Decimal.fixed 4 (decide (x < 0)) (A.tenThousandths x).natAbs

/-- `(float)_tstof(text)`, for a text without an exponent. -/
def tstof (text : Text) : K := A.toFloat (Decimal.value K text)

end FloatArith

variable (w : ProfileFunctions) (A : FloatArith K)

def profileSetFloat (file : w.File) (key : Key) (val : K) : Option w.File := do
  let temp ← stprintfS 10 (A.format val)
  return w.write file key temp

/-- `GetPrivateProfileString` has room for 19 characters and a NUL. -/
def profileGetFloat (file : w.File) (key : Key) (defaultVal : K) : Option K := do
  let text ← stprintfS 20 (A.format defaultVal)
  let rv := ((w.read file key).getD text).take 19
  return A.tstof rv

def profileFetchFloat (file : w.File) (key : Key) (defaultVal : K) : Option (K × w.File) := do
  let rv ← profileGetFloat w A file key (-28356)
  if rv = -28356 then
    let rv := defaultVal
    let file ← profileSetFloat w A file key rv
    return (rv, file)
  else return (rv, file)

/-! ## The law -/

/-- A value and a default. -/
inductive Setting (K : Type) where
  | int (v defaultVal : BitVec 32)
  | float (v defaultVal : K)

/-- The value is stored, both functions return it, and the stored text stays as it is. -/
def SettingOk (file : w.File) (key : Key) : Setting K → Prop
  | .int v defaultVal =>
    ∃ stored, profileSetInt w file key v = some stored ∧
      profileGetInt w stored key defaultVal = v ∧
      ∃ fetched, profileFetchInt w stored key defaultVal = some (v, fetched) ∧
        w.read fetched key = w.read stored key
  | .float v defaultVal =>
    ∃ stored, profileSetFloat w A file key v = some stored ∧
      profileGetFloat w A stored key defaultVal = some (A.rounded v) ∧
      ∃ fetched, profileFetchFloat w A stored key defaultVal = some (A.rounded v, fetched) ∧
        w.read fetched key = w.read stored key

/-- The texts of the value and of a default that is formatted fit, and the value is not the one that
stands for none, unless this is the default. -/
def Setting.Safe : Setting K → Prop
  | .int v defaultVal =>
    (-10 ^ 8 < v.toInt ∧ v.toInt < 10 ^ 9) ∧ (v = -17236 → defaultVal = -17236)
  | .float v defaultVal =>
    (-10 ^ 7 < A.tenThousandths v ∧ A.tenThousandths v < 10 ^ 8) ∧
      (-10 ^ 17 < A.tenThousandths defaultVal ∧ A.tenThousandths defaultVal < 10 ^ 18)

end Float

/-! ## Integers -/

section Int

variable (w : ProfileFunctions) (file : w.File) (key : Key)

theorem stprintfS_eq {size : ℕ} {text : Text} (h : text.length < size) :
    stprintfS size text = some text := if_pos h

theorem stprintfS_eq_none {size : ℕ} {text : Text} (h : ¬ text.length < size) :
    stprintfS size text = none := if_neg h

/-- The integers whose texts fit. -/
theorem ofInt_fits (v : BitVec 32) :
    (Decimal.ofInt v.toInt).length < 10 ↔ -10 ^ 8 < v.toInt ∧ v.toInt < 10 ^ 9 := by
  rw [← Decimal.length_ofInt_le (k := 8) (by decide)]
  exact Nat.lt_succ_iff

theorem profileSetInt_eq {v : BitVec 32} (h : (Decimal.ofInt v.toInt).length < 10) :
    profileSetInt w file key v = some (w.write file key (Decimal.ofInt v.toInt)) := by
  rw [profileSetInt, stprintfS_eq h]
  rfl

theorem profileSetInt_eq_none {v : BitVec 32} (h : ¬ (Decimal.ofInt v.toInt).length < 10) :
    profileSetInt w file key v = none := by
  rw [profileSetInt, stprintfS_eq_none h]
  rfl

theorem profileGetInt_write (v defaultVal : BitVec 32) :
    profileGetInt w (w.write file key (Decimal.ofInt v.toInt)) key defaultVal = v := by
  rw [profileGetInt, w.read_write]
  exact w.parse_ofInt v

/-- A fetch after a value that does not stand for none. -/
theorem profileFetchInt_write {v : BitVec 32} (defaultVal : BitVec 32) (h : v ≠ -17236) :
    profileFetchInt w (w.write file key (Decimal.ofInt v.toInt)) key defaultVal =
      some (v, w.write file key (Decimal.ofInt v.toInt)) := by
  unfold profileFetchInt
  rw [profileGetInt_write]
  exact if_neg h

/-- A fetch after the value that does. -/
theorem profileFetchInt_write_sentinel (defaultVal : BitVec 32) :
    let stored := w.write file key (Decimal.ofInt (-17236 : BitVec 32).toInt)
    profileFetchInt w stored key defaultVal =
      (profileSetInt w stored key defaultVal).map fun file => (defaultVal, file) := by
  intro stored
  unfold profileFetchInt
  rw [profileGetInt_write]
  exact (if_pos rfl).trans Option.map_eq_bind.symm

end Int

/-! ## Reals -/

section Float

variable {K : Type} [Field K] [LinearOrder K]
variable (w : ProfileFunctions) (A : FloatArith K) (file : w.File) (key : Key)

theorem profileSetFloat_eq {x : K} (h : (A.format x).length < 10) :
    profileSetFloat w A file key x = some (w.write file key (A.format x)) := by
  rw [profileSetFloat, stprintfS_eq h]
  rfl

theorem profileSetFloat_eq_none {x : K} (h : ¬ (A.format x).length < 10) :
    profileSetFloat w A file key x = none := by
  rw [profileSetFloat, stprintfS_eq_none h]
  rfl

theorem profileGetFloat_eq_none {defaultVal : K}
    (hdefault : ¬ (A.format defaultVal).length < 20) :
    profileGetFloat w A file key defaultVal = none := by
  rw [profileGetFloat, stprintfS_eq_none hdefault]
  rfl

/-- The integers that come back. -/
theorem settingOk_int_iff (v defaultVal : BitVec 32) :
    SettingOk w A file key (.int v defaultVal) ↔ Setting.Safe A (.int v defaultVal) := by
  rw [SettingOk, Setting.Safe, ← ofInt_fits]
  by_cases hfits : (Decimal.ofInt v.toInt).length < 10
  · rw [profileSetInt_eq w file key hfits]
    by_cases hv : v = -17236
    · subst hv
      refine ⟨?_, fun h => ⟨_, rfl, profileGetInt_write w file key _ _, ?_⟩⟩
      · rintro ⟨stored, hstored, -, fetched, hfetch, -⟩
        obtain rfl := Option.some.inj hstored
        refine ⟨hfits, fun _ => ?_⟩
        rw [profileFetchInt_write_sentinel] at hfetch
        obtain ⟨file', -, hpair⟩ := Option.map_eq_some_iff.mp hfetch
        exact (Prod.mk.inj hpair).1
      · obtain rfl := h.2 rfl
        rw [profileFetchInt_write_sentinel, profileSetInt_eq _ _ _ hfits]
        exact ⟨_, rfl, (w.read_write _ _ _).trans (w.read_write _ _ _).symm⟩
    · exact iff_of_true ⟨_, rfl, profileGetInt_write w file key v defaultVal, _,
        profileFetchInt_write w file key defaultVal hv, rfl⟩ ⟨hfits, fun h => absurd h hv⟩
  · rw [profileSetInt_eq_none w file key hfits]
    refine iff_of_false ?_ fun h => hfits h.1
    rintro ⟨stored, hstored, -⟩
    cases hstored

variable [IsStrictOrderedRing K]

namespace FloatArith

theorem nearest_intCast (n : ℤ) : A.nearest n = n := by
  have h := A.nearest_spec n
  rw [← Int.cast_sub] at h
  by_contra hne
  have hone : (1 : ℤ) ≤ |n - A.nearest n| := Int.one_le_abs (sub_ne_zero.mpr (Ne.symm hne))
  have hcast : (1 : K) ≤ |((n - A.nearest n : ℤ) : K)| := by
    rw [← Int.cast_abs]
    exact_mod_cast hone
  linarith

theorem nearest_nonpos {x : K} (h : x < 0) : A.nearest x ≤ 0 := by
  obtain ⟨hge, -⟩ := abs_le.mp (A.nearest_spec x)
  have hlt : ((A.nearest x : ℤ) : K) < (1 : ℤ) := by
    rw [Int.cast_one]
    linarith
  exact Int.lt_add_one_iff.mp (Int.cast_lt.mp hlt)

theorem nearest_nonneg {x : K} (h : 0 ≤ x) : 0 ≤ A.nearest x := by
  obtain ⟨-, hle⟩ := abs_le.mp (A.nearest_spec x)
  have hlt : ((-1 : ℤ) : K) < (A.nearest x : ℤ) := by
    rw [Int.cast_neg, Int.cast_one]
    linarith
  exact Int.cast_lt.mp hlt

/-- The sign of a number is that of its ten thousandths. -/
theorem tenThousandths_nonpos {x : K} (h : x < 0) : A.tenThousandths x ≤ 0 :=
  A.nearest_nonpos (mul_neg_of_neg_of_pos h (by norm_num))

theorem tenThousandths_nonneg {x : K} (h : 0 ≤ x) : 0 ≤ A.tenThousandths x :=
  A.nearest_nonneg (mul_nonneg h (by norm_num))

theorem value_format (x : K) :
    Decimal.value K (A.format x) = A.tenThousandths x / ((10 ^ 4 : ℕ) : K) := by
  have hcast : ((A.tenThousandths x).natAbs : K) = ((|A.tenThousandths x| : ℤ) : K) := by
    rw [← Int.natCast_natAbs, Int.cast_natCast]
  rw [format, Decimal.value_fixed, hcast]
  congr 1
  by_cases hneg : x < 0
  · rw [decide_eq_true hneg, if_pos rfl, abs_of_nonpos (A.tenThousandths_nonpos hneg),
      Int.cast_neg, neg_neg]
  · rw [decide_eq_false hneg, if_neg Bool.false_ne_true,
      abs_of_nonneg (A.tenThousandths_nonneg (not_lt.mp hneg))]

/-- What is formatted is read as the rounded number. -/
theorem tstof_format (x : K) : A.tstof (A.format x) = A.rounded x := by
  rw [tstof, value_format, rounded]

/-- The numbers that have room for a sign and `d` digits before the point, or for one more. -/
theorem length_format_le {d : ℕ} (hd : 0 < d) (x : K) :
    (A.format x).length ≤ d + 6 ↔
      -10 ^ (d + 4) < A.tenThousandths x ∧ A.tenThousandths x < 10 ^ (d + 5) := by
  have hpow : (0 : ℤ) < 10 ^ (d + 4) := pow_pos (by decide) _
  have hpow' : (0 : ℤ) < 10 ^ (d + 5) := pow_pos (by decide) _
  have hcast (e : ℕ) : (A.tenThousandths x).natAbs < 10 ^ e ↔ |A.tenThousandths x| < 10 ^ e := by
    rw [← Int.ofNat_lt, Int.natCast_pow, Int.natCast_natAbs]
    rfl
  have hlen := Decimal.length_fixed_le (k := 4) hd (decide (x < 0)) (A.tenThousandths x).natAbs
  rw [format, hlen, hcast]
  by_cases hneg : x < 0
  · have hnonpos := A.tenThousandths_nonpos hneg
    rw [decide_eq_true hneg, if_pos rfl, abs_of_nonpos hnonpos]
    omega
  · have hnonneg := A.tenThousandths_nonneg (not_lt.mp hneg)
    rw [decide_eq_false hneg, if_neg Bool.false_ne_true, abs_of_nonneg hnonneg]
    have hsucc : d + 1 + 4 = d + 5 := by omega
    rw [hsucc]
    omega

/-- A number with room for a sign and three digits is not the one that stands for none. -/
theorem rounded_ne_sentinel {x : K} (h : -10 ^ 7 < A.tenThousandths x) :
    A.rounded x ≠ -28356 := by
  have hle : ((-1000 : ℤ) : K) ≤ A.tenThousandths x / ((10 ^ 4 : ℕ) : K) := by
    rw [le_div_iff₀ (by norm_num)]
    have hcast : ((-10 ^ 7 : ℤ) : K) ≤ A.tenThousandths x := Int.cast_le.mpr h.le
    push_cast at hcast ⊢
    linarith
  have hmono := A.toFloat_monotone hle
  rw [A.toFloat_intCast (-1000) (by decide)] at hmono
  intro heq
  rw [rounded] at heq
  rw [heq] at hmono
  norm_num at hmono

theorem length_format_sentinel : (A.format (-28356)).length < 20 := by
  have hint : A.tenThousandths (-28356) = -283560000 := by
    have h := A.nearest_intCast (-283560000)
    rw [tenThousandths, ← h]
    congr 1
    norm_num
  refine Nat.lt_succ_of_le ((A.length_format_le (d := 13) (by decide) _).mpr ?_)
  rw [hint]
  decide

end FloatArith

theorem profileGetFloat_write {x defaultVal : K} (h : (A.format x).length < 10)
    (hdefault : (A.format defaultVal).length < 20) :
    profileGetFloat w A (w.write file key (A.format x)) key defaultVal = some (A.rounded x) := by
  have htake : (A.format x).take 19 = A.format x := List.take_of_length_le (by omega)
  rw [profileGetFloat, stprintfS_eq hdefault, ← A.tstof_format, ← htake]
  simp only [Option.bind_eq_bind, Option.bind_some, w.read_write, Option.getD_some, htake]
  rfl

/-- A fetch after a value whose text fits. -/
theorem profileFetchFloat_write {x : K} (defaultVal : K) (h : (A.format x).length < 10)
    (hrange : -10 ^ 7 < A.tenThousandths x) :
    profileFetchFloat w A (w.write file key (A.format x)) key defaultVal =
      some (A.rounded x, w.write file key (A.format x)) := by
  rw [profileFetchFloat, profileGetFloat_write w A file key h A.length_format_sentinel]
  exact if_neg (A.rounded_ne_sentinel hrange)

/-! ## The settings -/

/-- The reals that come back. -/
theorem settingOk_float_iff (v defaultVal : K) :
    SettingOk w A file key (.float v defaultVal) ↔ Setting.Safe A (.float v defaultVal) := by
  have hlen := A.length_format_le (d := 3) (by decide) v
  have hlen' := A.length_format_le (d := 13) (by decide) defaultVal
  rw [SettingOk, Setting.Safe, ← hlen, ← hlen', ← Nat.lt_succ_iff, ← Nat.lt_succ_iff]
  by_cases hfits : (A.format v).length < 10
  · by_cases hdefault : (A.format defaultVal).length < 20
    · refine iff_of_true ?_ ⟨hfits, hdefault⟩
      have hrange := (hlen.mp (Nat.le_of_lt_succ hfits)).1
      exact ⟨_, profileSetFloat_eq w A file key hfits,
        profileGetFloat_write w A file key hfits hdefault, _,
        profileFetchFloat_write w A file key defaultVal hfits hrange, rfl⟩
    · refine iff_of_false ?_ fun h => hdefault h.2
      rintro ⟨stored, -, hget, -⟩
      rw [profileGetFloat_eq_none w A stored key hdefault] at hget
      cases hget
  · refine iff_of_false ?_ fun h => hfits h.1
    rintro ⟨stored, hstored, -⟩
    rw [profileSetFloat_eq_none w A file key hfits] at hstored
    cases hstored

/-- **Settings.** A value comes back and its text stays if and only if its text has at most nine
characters and that of a formatted default at most 19, and the value does not stand for none. -/
theorem settingOk_iff (s : Setting K) : SettingOk w A file key s ↔ s.Safe A := by
  cases s with
  | int v defaultVal => exact settingOk_int_iff w A file key v defaultVal
  | float v defaultVal => exact settingOk_float_iff w A file key v defaultVal

end Float

/-! ## A profile -/

/-- Texts by key. -/
def textFile : ProfileFunctions where
  File := Key → Option Text
  write file key text := Function.update file key (some text)
  read file key := file key
  parse text := BitVec.ofInt 32 (Decimal.toInt text)
  read_write file key text := Function.update_self key (some text) file
  parse_ofInt v := by rw [Decimal.toInt_ofInt, BitVec.ofInt_toInt]

/-- Exact numbers. -/
def exactArith : FloatArith ℚ where
  nearest := round
  toFloat := id
  nearest_spec := abs_sub_round
  toFloat_monotone := monotone_id
  toFloat_intCast _ _ := rfl

/-- `KeyAutoRepeat` and `RepeatDelay`. -/
def repeatDelay : Key := ⟨"KeyAutoRepeat".toList, "RepeatDelay".toList⟩

theorem settingOk_repeatDelay :
    SettingOk textFile exactArith (fun _ => none) repeatDelay (.float (1 / 2) (3 / 10)) := by
  refine (settingOk_iff textFile exactArith (fun _ => none) repeatDelay _).mpr ?_
  have hhalf : exactArith.tenThousandths (1 / 2) = 5000 := by
    have h := exactArith.nearest_intCast 5000
    rw [FloatArith.tenThousandths, ← h]
    congr 1
    norm_num
  have hdefault : exactArith.tenThousandths (3 / 10) = 3000 := by
    have h := exactArith.nearest_intCast 3000
    rw [FloatArith.tenThousandths, ← h]
    congr 1
    norm_num
  rw [Setting.Safe, hhalf, hdefault]
  decide

/-- Ten digits. -/
theorem not_settingOk_tenDigits :
    ¬ SettingOk textFile exactArith (fun _ => none) repeatDelay (.int 1000000000 0) := by
  have hlong : ¬ (Decimal.ofInt (1000000000 : BitVec 32).toInt).length < 10 := by
    rw [ofInt_fits]
    decide
  rintro ⟨stored, hstored, -⟩
  cases hstored.symm.trans (profileSetInt_eq_none textFile (fun _ => none) repeatDelay hlong)

end Profile

end DreamDota
