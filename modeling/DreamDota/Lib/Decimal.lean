import Mathlib.Algebra.Order.Field.Basic
import Mathlib.Data.List.TakeWhile
import Mathlib.Tactic.Common
import Mathlib.Tactic.Ring

/-!
# Decimal texts

`ofInt` writes an integer, and `fixed` a number of `10 ^ k`-th parts with its point. `toInt` and
`value` read as many characters as belong to a number. What is written is read again, and the
lengths are those of the number.
-/

namespace Decimal

/-! ## Writing -/

/-- A minus sign. -/
def sign (neg : Bool) : List Char := if neg then ['-'] else []

def ofInt (v : ℤ) : List Char := sign (decide (v < 0)) ++ Nat.toDigits 10 v.natAbs

/-- The last `k` digits of a number. -/
def lastDigits : ℕ → ℕ → List Char
  | 0, _ => []
  | k + 1, m => lastDigits k (m / 10) ++ [Nat.digitChar (m % 10)]

/-- The number of `m` parts, of which `10 ^ k` are one. -/
def fixed (k : ℕ) (neg : Bool) (m : ℕ) : List Char :=
  sign neg ++ (Nat.toDigits 10 (m / 10 ^ k) ++ '.' :: lastDigits k m)

/-! ## Reading -/

/-- The value of a text, which may have a sign, from the value of a text without. -/
def signed {α : Type*} [Neg α] (read : List Char → α) : List Char → α
  | '-' :: s => -read s
  | s => read s

def toInt (s : List Char) : ℤ :=
  signed (fun s => (Nat.ofDigitChars 10 (s.takeWhile Char.isDigit) 0 : ℤ)) s

section Value

variable (K : Type*) [Field K]

/-- Digits, and more of them if there is a point. -/
def unsignedValue (s : List Char) : K :=
  let whole := s.takeWhile Char.isDigit
  match s.dropWhile Char.isDigit with
  | '.' :: t =>
    let frac := t.takeWhile Char.isDigit
    (Nat.ofDigitChars 10 (whole ++ frac) 0 : K) / ((10 ^ frac.length : ℕ) : K)
  | _ => (Nat.ofDigitChars 10 whole 0 : K)

def value (s : List Char) : K := signed (unsignedValue K) s

end Value

/-! ## Signs -/

theorem signed_sign {α : Type*} [Neg α] (read : List Char → α) (neg : Bool) {s : List Char}
    (h : s.head? ≠ some '-') :
    signed read (sign neg ++ s) = if neg then -read s else read s := by
  cases neg with
  | true => rfl
  | false =>
    show signed read s = read s
    unfold signed
    split
    · exact absurd rfl h
    · rfl

theorem length_sign (neg : Bool) : (sign neg).length = neg.toNat := by cases neg <;> rfl

/-! ## Digits -/

theorem all_isDigit_toDigits (n : ℕ) : ∀ c ∈ Nat.toDigits 10 n, c.isDigit = true :=
  fun _ => Nat.isDigit_of_mem_toDigits (by decide) (by decide)

theorem head?_toDigits_append (n : ℕ) (s : List Char) :
    (Nat.toDigits 10 n ++ s).head? ≠ some '-' := by
  intro h
  cases hdigits : Nat.toDigits 10 n with
  | nil => exact Nat.toDigits_ne_nil hdigits
  | cons c cs =>
    rw [hdigits] at h
    have hc := all_isDigit_toDigits n c (hdigits ▸ List.mem_cons_self)
    rw [show c = '-' from Option.some.inj h] at hc
    exact absurd hc (by decide)

@[simp] theorem length_lastDigits (k m : ℕ) : (lastDigits k m).length = k := by
  induction k generalizing m with
  | zero => rfl
  | succ k ih => rw [lastDigits, List.length_append, ih, List.length_singleton]

theorem all_isDigit_lastDigits (k m : ℕ) : ∀ c ∈ lastDigits k m, c.isDigit = true := by
  induction k generalizing m with
  | zero => exact fun c hc => absurd hc List.not_mem_nil
  | succ k ih =>
    intro c hc
    rcases List.mem_append.mp hc with hc | hc
    · exact ih _ c hc
    · rw [List.mem_singleton.mp hc, Nat.isDigit_digitChar]
      exact decide_eq_true (Nat.mod_lt m (by decide))

theorem ofDigitChars_lastDigits (k m n : ℕ) :
    Nat.ofDigitChars 10 (lastDigits k m) n = n * 10 ^ k + m % 10 ^ k := by
  induction k generalizing m with
  | zero => rw [lastDigits, Nat.ofDigitChars_nil, pow_zero, mul_one, Nat.mod_one, add_zero]
  | succ k ih =>
    rw [lastDigits, Nat.ofDigitChars_append, ih,
      Nat.ofDigitChars_cons_digitChar_of_lt_ten (Nat.mod_lt m (by decide)), Nat.ofDigitChars_nil,
      pow_succ', Nat.mod_mul]
    ring

/-- The digits before the point and those behind it. -/
theorem ofDigitChars_fixed (k m : ℕ) :
    Nat.ofDigitChars 10 (Nat.toDigits 10 (m / 10 ^ k) ++ lastDigits k m) 0 = m := by
  rw [Nat.ofDigitChars_append, Nat.ofDigitChars_ten_toDigits, ofDigitChars_lastDigits,
    Nat.div_add_mod']

/-! ## What is written is read again -/

theorem toInt_ofInt (v : ℤ) : toInt (ofInt v) = v := by
  have hread : Nat.ofDigitChars 10 ((Nat.toDigits 10 v.natAbs).takeWhile Char.isDigit) 0 =
      v.natAbs := by
    rw [List.takeWhile_eq_self_iff.mpr (all_isDigit_toDigits _), Nat.ofDigitChars_ten_toDigits]
  have hhead := head?_toDigits_append v.natAbs []
  rw [List.append_nil] at hhead
  rw [toInt, ofInt, signed_sign _ _ hhead, hread]
  split_ifs with hneg
  · have := of_decide_eq_true hneg
    omega
  · have := of_decide_eq_false (Bool.eq_false_of_not_eq_true hneg)
    omega

section Value

variable {K : Type*} [Field K]

theorem value_fixed (k : ℕ) (neg : Bool) (m : ℕ) :
    value K (fixed k neg m) = (if neg then -(m : K) else m) / ((10 ^ k : ℕ) : K) := by
  have hdigits := all_isDigit_toDigits (m / 10 ^ k)
  have hlast := all_isDigit_lastDigits k m
  have hpoint : ('.' :: lastDigits k m).takeWhile Char.isDigit = [] := rfl
  have hdrop : ('.' :: lastDigits k m).dropWhile Char.isDigit = '.' :: lastDigits k m := rfl
  have hread : unsignedValue K (Nat.toDigits 10 (m / 10 ^ k) ++ '.' :: lastDigits k m) =
      (m : K) / ((10 ^ k : ℕ) : K) := by
    simp only [unsignedValue, List.takeWhile_append_of_pos hdigits,
      List.dropWhile_append_of_pos hdigits, hpoint, hdrop, List.append_nil,
      List.takeWhile_eq_self_iff.mpr hlast, ofDigitChars_fixed, length_lastDigits]
  rw [value, fixed, signed_sign _ _ (head?_toDigits_append _ _), hread]
  split_ifs
  · exact (neg_div _ _).symm
  · rfl

end Value

/-! ## Lengths -/

/-- An integer with room for a sign and `k` digits, or for one digit more. -/
theorem length_ofInt_le {k : ℕ} (hk : 0 < k) (v : ℤ) :
    (ofInt v).length ≤ k + 1 ↔ -10 ^ k < v ∧ v < 10 ^ (k + 1) := by
  have hpow : (0 : ℤ) < 10 ^ k := pow_pos (by decide) k
  have hpow' : (0 : ℤ) < 10 ^ (k + 1) := pow_pos (by decide) (k + 1)
  rw [ofInt, List.length_append, length_sign]
  by_cases hneg : v < 0
  · have hlen := Nat.length_toDigits_le_iff (n := v.natAbs) (k := k) (by decide : 1 < 10) hk
    have hcast : v.natAbs < 10 ^ k ↔ -v < 10 ^ k := by
      rw [← Int.ofNat_lt, Int.natCast_pow, Int.natCast_natAbs, abs_of_neg hneg]
      rfl
    rw [decide_eq_true hneg, Bool.toNat_true]
    rw [hcast] at hlen
    omega
  · have hlen := Nat.length_toDigits_le_iff (n := v.natAbs) (k := k + 1) (by decide : 1 < 10)
      (Nat.succ_pos k)
    have hcast : v.natAbs < 10 ^ (k + 1) ↔ v < 10 ^ (k + 1) := by
      rw [← Int.ofNat_lt, Int.natCast_pow, Int.natCast_natAbs, abs_of_nonneg (not_lt.mp hneg)]
      rfl
    rw [decide_eq_false hneg, Bool.toNat_false]
    rw [hcast] at hlen
    omega

theorem length_fixed (k : ℕ) (neg : Bool) (m : ℕ) :
    (fixed k neg m).length = neg.toNat + (Nat.toDigits 10 (m / 10 ^ k)).length + 1 + k := by
  rw [fixed, List.length_append, List.length_append, List.length_cons, length_lastDigits,
    length_sign]
  omega

/-- A number with room for a sign and `d` digits before the point, or for one digit more. -/
theorem length_fixed_le {d k : ℕ} (hd : 0 < d) (neg : Bool) (m : ℕ) :
    (fixed k neg m).length ≤ d + 2 + k ↔ m < 10 ^ (if neg then d + k else d + 1 + k) := by
  have hpow : 0 < 10 ^ k := Nat.pow_pos (by decide)
  have hlen (e : ℕ) (he : 0 < e) :
      (Nat.toDigits 10 (m / 10 ^ k)).length ≤ e ↔ m < 10 ^ (e + k) := by
    rw [Nat.length_toDigits_le_iff (by decide) he, Nat.div_lt_iff_lt_mul hpow, pow_add]
  rw [length_fixed]
  cases neg with
  | true =>
    rw [if_pos rfl, ← hlen d hd, Bool.toNat_true]
    omega
  | false =>
    rw [if_neg Bool.false_ne_true, ← hlen (d + 1) (Nat.succ_pos d), Bool.toNat_false]
    omega

end Decimal
