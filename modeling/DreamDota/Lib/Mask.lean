import Mathlib.Tactic.Common

/-!
# Bit masks

A mask is a set of fields. A filter is made of two masks, for what is required and for what is
excluded: `passes` is the test of one field.
-/

namespace Mask

variable {w : ℕ}

/-- `mask & (1 << field)`. -/
def has (mask : BitVec w) (field : ℕ) : Bool := mask &&& (1#w <<< field) != 0#w

/-- The fields of a list, joined by `|`. -/
def ofFields (fields : List ℕ) : BitVec w :=
  fields.foldr (fun field mask => 1#w <<< field ||| mask) 0#w

theorem has_eq (mask : BitVec w) (field : ℕ) : has mask field = mask.getLsbD field := by
  rw [has, ← BitVec.twoPow_eq, BitVec.and_twoPow]
  split_ifs with h
  · have hfield : field < w := BitVec.lt_of_getLsbD h
    rw [h, bne_iff_ne]
    intro hzero
    have hbit := congrArg (fun mask : BitVec w => mask.getLsbD field) hzero
    simp [hfield] at hbit
  · rw [eq_false_of_ne_true h, bne_self_eq_false]

theorem has_ofFields (fields : List ℕ) (field : ℕ) (h : field < w) :
    has (ofFields fields : BitVec w) field = decide (field ∈ fields) := by
  rw [has_eq]
  induction fields with
  | nil => simp [ofFields]
  | cons a fields ih =>
    rw [ofFields, List.foldr_cons, ← ofFields, BitVec.getLsbD_or, ih, ← BitVec.twoPow_eq,
      BitVec.getLsbD_twoPow, List.decide_mem_cons]
    by_cases ha : a = field
    · simp [ha, h]
    · have hne : (field == a) = false := beq_eq_false_iff_ne.mpr (Ne.symm ha)
      simp [ha, hne]

/-- The test of one field: a required one has to hold, and an excluded one must not. -/
def passes (require exclude : BitVec w) (field : ℕ) (holds : Bool) : Bool :=
  if has require field && !holds then false
  else if has exclude field && holds then false
  else true

theorem passes_iff {require exclude : BitVec w} {field : ℕ} {holds : Bool} :
    passes require exclude field holds = true ↔
      (has require field = true → holds = true) ∧ (has exclude field = true → holds = false) := by
  unfold passes
  cases has require field <;> cases has exclude field <;> cases holds <;> decide

/-- One field is required. -/
theorem passes_require {i field : ℕ} {holds : Bool} (hi : i < w) :
    passes (1#w <<< i) 0#w field holds = true ↔ (i = field → holds = true) := by
  have hzero : has 0#w field = false := by rw [has_eq, BitVec.getLsbD_zero]
  rw [passes_iff, hzero, has_eq, ← BitVec.twoPow_eq, BitVec.getLsbD_twoPow]
  simp [hi]

end Mask
