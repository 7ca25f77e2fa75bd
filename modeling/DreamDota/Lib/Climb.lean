import Mathlib.Data.Fintype.Card
import Mathlib.Logic.Relation

/-!
# Climbing along a partial function

From every place a partial function leads to at most one other place. Where no place is reached
again, except that a place may lead to itself, every climb in a finite set comes to an end.
-/

namespace Climb

open Relation

variable {α : Type*} (next : α → Option α)

/-- A step, which may stay where it is. -/
def Step (a b : α) : Prop := next a = some b

/-- A step to another place. -/
def Move (a b : α) : Prop := next a = some b ∧ a ≠ b

/-- No place is reached again once it has been left. -/
def Acyclic : Prop := ∀ a, ¬ TransGen (Move next) a a

variable {next} {a b c : α}

theorem Move.step (h : Move next a b) : Step next a b := h.1

/-- A climb along a finite acyclic function ends. -/
theorem Acyclic.wellFounded [Finite α] (h : Acyclic next) :
    WellFounded fun a b => Move next b a := by
  have : IsTrans α fun a b => TransGen (Move next) b a := ⟨fun _ _ _ hab hbc => hbc.trans hab⟩
  have : Std.Irrefl fun a b => TransGen (Move next) b a := ⟨h⟩
  exact Subrelation.wf (fun hab => TransGen.single hab)
    (Finite.wellFounded_of_trans_of_irrefl fun a b => TransGen (Move next) b a)

/-- Where the climb goes on, the places that are reached are the place itself and those reached from
the next one. -/
theorem Move.reaches_iff (h : Move next a b) :
    ReflTransGen (Step next) a c ↔ a = c ∨ ReflTransGen (Step next) b c := by
  constructor
  · intro hac
    rcases hac.cases_head with heq | ⟨b', hstep, hreach⟩
    · exact .inl heq
    · obtain rfl : b = b' := Option.some.inj (h.1.symm.trans hstep)
      exact .inr hreach
  · rintro (rfl | hreach)
    · exact .refl
    · exact .head h.step hreach

/-- Where it does not, only the place itself is reached. -/
theorem reaches_of_stop (h : ∀ b, ¬ Move next a b) (hac : ReflTransGen (Step next) a c) :
    a = c := by
  induction hac with
  | refl => rfl
  | tail _ hstep ih =>
    subst ih
    by_contra hne
    exact h _ ⟨hstep, hne⟩

end Climb
