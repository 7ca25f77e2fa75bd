import Mathlib.Tactic.Common

/-!
# Code that expands

An instruction is replaced by the code that it expands to, as a call is by the body of what it
calls. `Ends exec ok Q l s` says that the code `l`, run from the state `s`, comes to its end in a
state with `Q`, and that every state on the way has `ok`. The rules:

1. `Ends.cons`: one instruction, and what it expands to.
2. `Ends.append`: the first part ends in states from which the second part ends.
3. `Ends.mono`: a weaker postcondition.
-/

namespace Expand

variable {I S : Type*}

/-- The code, run from the state, comes to its end. -/
inductive Ends (exec : I → S → List I × S) (ok Q : S → Prop) : List I → S → Prop
  | nil {s : S} (hok : ok s) (hq : Q s) : Ends exec ok Q [] s
  | cons {i : I} {k : List I} {s : S} (hok : ok s)
      (hrest : Ends exec ok Q ((exec i s).1 ++ k) (exec i s).2) : Ends exec ok Q (i :: k) s

namespace Ends

variable {exec : I → S → List I × S} {ok Q Q' : S → Prop} {i : I} {k l : List I} {s : S}

/-- What holds on the way holds at the start. -/
theorem head (h : Ends exec ok Q l s) : ok s := by
  cases h with
  | nil hok _ => exact hok
  | cons hok _ => exact hok

theorem post (h : Ends exec ok Q [] s) : Q s := by
  cases h with
  | nil _ hq => exact hq

/-- What is left after one instruction. -/
theorem rest (h : Ends exec ok Q (i :: k) s) :
    Ends exec ok Q ((exec i s).1 ++ k) (exec i s).2 := by
  cases h with
  | cons _ hrest => exact hrest

theorem mono (h : Ends exec ok Q l s) (hq : ∀ t, ok t → Q t → Q' t) : Ends exec ok Q' l s := by
  induction h with
  | nil hok hpost => exact .nil hok (hq _ hok hpost)
  | cons hok _ ih => exact .cons hok ih

/-- The code of a sequence. -/
theorem append (h : Ends exec ok Q l s) (hk : ∀ t, ok t → Q t → Ends exec ok Q' k t) :
    Ends exec ok Q' (l ++ k) s := by
  induction h with
  | nil hok hq => exact hk _ hok hq
  | cons hok _ ih =>
    rw [List.cons_append]
    refine .cons hok ?_
    rw [← List.append_assoc]
    exact ih

/-- An instruction that expands to nothing. -/
theorem single (hok : ok s) (hcode : (exec i s).1 = []) (hok' : ok (exec i s).2)
    (hq : Q (exec i s).2) : Ends exec ok Q [i] s := by
  refine .cons hok ?_
  rw [hcode]
  exact .nil hok' hq

/-- An instruction, by the code that it expands to. -/
theorem expand (hok : ok s) (h : Ends exec ok Q (exec i s).1 (exec i s).2) :
    Ends exec ok Q [i] s := by
  refine .cons hok ?_
  rwa [List.append_nil]

end Ends

end Expand
