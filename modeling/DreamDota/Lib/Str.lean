import Mathlib.Data.List.Basic
import Mathlib.Data.Int.Order.Basic

/-!
# Strings of Python

`find` and slices, for lists. A search that fails is `-1`, which is then an index like any other: as
the end of a slice it is counted from the end of the list.
-/

namespace Str

variable {α : Type*} {l p q r : List α} {c : α} {n : ℕ}

/-- `l[start:stop]` -/
def slice (l : List α) (start : ℕ) (stop : ℤ) : List α :=
  (l.take (if stop < 0 then (l.length + stop).toNat else stop.toNat)).drop start

/-- `l[start:stop]` of a part in the middle. -/
theorem slice_append (p q r : List α) :
    slice (p ++ (q ++ r)) p.length (p.length + q.length : ℕ) = q := by
  unfold slice
  rw [if_neg (by omega), Int.toNat_natCast, ← List.append_assoc, ← List.length_append,
    List.take_left, List.drop_left]

variable [DecidableEq α]

/-- `l.find(c, start)` -/
def find (l : List α) (c : α) (start : ℕ) : ℤ :=
  match (l.drop start).idxOf? c with
  | some k => (start + k : ℕ)
  | none => -1

theorem idxOf?_append_cons (h : c ∉ p) (q : List α) :
    (p ++ c :: q).idxOf? c = some p.length := by
  induction p with
  | nil => rw [List.nil_append, List.idxOf?_cons, if_pos (beq_self_eq_true c), List.length_nil]
  | cons a p ih =>
    rw [List.mem_cons, not_or] at h
    obtain ⟨hne, hmem⟩ := h
    rw [List.cons_append, List.idxOf?_cons, if_neg (fun heq => hne (beq_iff_eq.mp heq).symm),
      ih hmem, Option.map_some, List.length_cons]

/-- The first occurrence is found. -/
theorem find_eq (hdrop : l.drop n = p ++ c :: q) (h : c ∉ p) : find l c n = (n + p.length : ℕ) := by
  unfold find
  rw [hdrop, idxOf?_append_cons h]

theorem find_append (h : c ∉ p) (q : List α) : find (p ++ c :: q) c 0 = p.length := by
  rw [find_eq List.drop_zero h, Nat.zero_add]

theorem find_eq_neg_one (h : c ∉ l.drop n) : find l c n = -1 := by
  unfold find
  rw [List.idxOf?_eq_none_iff.mpr h]

end Str
