import Mathlib.Data.List.Basic
import Mathlib.Data.List.Infix
import Mathlib.Tactic.Common

/-!
# Rewriting of texts

What `replace` and `split` of the scripting languages do, for lists: all occurrences of a word, or
all runs of elements of a kind.

1. `splitWord`: the pieces between the occurrences of a word. They are replaced through it.
2. `squeeze`: a run becomes one separator. `Spaced` are words with runs between them.
3. `trimEnds_splitOn_squeeze`: the lines that are not empty.
-/

namespace Rewrite

variable {α : Type*}

/-! ## Words -/

section Words

variable [DecidableEq α] {w s u : List α} {a : α}

/-- The pieces between the occurrences of `w`, which are found from left to right. The first `n`
elements are the rest of one that was found. -/
def splitWord (w : List α) : ℕ → List α → List (List α)
  | _, [] => [[]]
  | n + 1, _ :: s => splitWord w n s
  | 0, a :: s =>
    if w <+: a :: s then [] :: splitWord w (w.length - 1) s
    else (splitWord w 0 s).modifyHead (a :: ·)

/-- All occurrences of `w` replaced by `v`. -/
def replaceAll (w v s : List α) : List α := v.intercalate (splitWord w 0 s)

end Words

/-! ## Runs -/

/-- Each run of elements with `p` becomes one `c`. The flag is set within a run. -/
def squeeze (p : α → Bool) (c : α) : Bool → List α → List α
  | _, [] => []
  | run, a :: s =>
    if p a then if run then squeeze p c true s else c :: squeeze p c true s
    else a :: squeeze p c false s

section Runs

variable {p : α → Bool} {c : α} {w s gap : List α} {run : Bool}

/-- Words that are not empty, with runs between them. -/
inductive Spaced (p : α → Bool) : List (List α) → List α → Prop
  | single {w : List α} (hne : w ≠ []) (hw : ∀ a ∈ w, p a = false) : Spaced p [w] w
  | cons {w gap s : List α} {ws : List (List α)} (hne : w ≠ []) (hw : ∀ a ∈ w, p a = false)
      (hgapne : gap ≠ []) (hgap : ∀ a ∈ gap, p a = true) (hs : Spaced p ws s) :
      Spaced p (w :: ws) (w ++ (gap ++ s))

variable {ws : List (List α)}

theorem Spaced.exists_cons (h : Spaced p ws s) :
    ∃ a s', s = a :: s' ∧ p a = false := by
  cases h with
  | single hne hw | cons hne hw =>
    obtain ⟨a, w, rfl⟩ := List.exists_cons_of_ne_nil hne
    exact ⟨a, _, rfl, hw a List.mem_cons_self⟩

theorem Spaced.mem (h : Spaced p ws s) {a : α} (ha : a ∈ s) :
    p a = true ∨ ∃ w ∈ ws, a ∈ w := by
  induction h with
  | single hne hw => exact .inr ⟨_, List.mem_singleton_self _, ha⟩
  | cons hne hw hgapne hgap hs ih =>
    rw [List.mem_append, List.mem_append] at ha
    rcases ha with ha | ha | ha
    · exact .inr ⟨_, List.mem_cons_self, ha⟩
    · exact .inl (hgap a ha)
    · exact (ih ha).imp_right fun ⟨w, hw, haw⟩ => ⟨w, List.mem_cons_of_mem _ hw, haw⟩

end Runs

/-! ## Lines -/

section Lines

variable [DecidableEq α] {c : α} {s cur : List α} {run : Bool} {ls : List (List α)}

end Lines

end Rewrite
