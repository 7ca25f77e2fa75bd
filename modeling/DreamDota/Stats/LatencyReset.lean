import DreamDota.Stats.Latency
import Mathlib.Algebra.Field.Rat
import Mathlib.Data.Rat.Lemmas

/-!
# Latency in a later game

`Latency_Cleanup` and `Latency_Init` leave the distribution and the time of the last update as they
are. `noLeak_iff`: a later game gives the same results as the first one if and only if nothing was
accepted in the games before it, or the first sample passes the test of the cooldown in both.

1. `later_eq_fresh`: nothing is left over where nothing was accepted.
2. `sample_eq_of_accepts`: the first sample that is accepted overwrites what was left over.
-/

namespace DreamDota

namespace Latency

open SearchTree

variable {α : Type} [Zero α] [One α] [NatCast α] [Add α] [Sub α] [Neg α] [Div α] [LT α]
  [DecidableLT α] (B : Balancing (α × α))

/-- The first game after the start. -/
def fresh : State α := init (gameTimeReset start)

/-- A game after other ones. -/
def later (history : List (Call α)) : State α := newGame (history.foldl (call B) start)

/-- The same results. -/
structure Same (s s' : State α) : Prop where
  average : (getAverage s).1 = (getAverage s').1
  min : getMin s = getMin s'
  max : getMax s = getMax s'
  negDist : elements s.negDist = elements s'.negDist

omit [Sub α] [Neg α] in
theorem Same.refl (s : State α) : Same s s := ⟨rfl, rfl, rfl, rfl⟩

/-- After every update the results are those of the first game, and every sample that is accepted in
the first game is accepted. -/
structure NoLeak (history : List (Call α)) (updates : List (BitVec 32 × α)) : Prop where
  same : ∀ pre u, pre ++ [u] <+: updates →
    Same ((pre ++ [u]).foldl (sample B) fresh) ((pre ++ [u]).foldl (sample B) (later B history))
  accepted : ∀ pre u, pre ++ [u] <+: updates →
    Accepts (pre.foldl (sample B) fresh) u → Accepts (pre.foldl (sample B) (later B history)) u

/-! ## What is left over -/

theorem negDistOf_ne_nil (latency : List (LatencyHistoryInfo α)) : negDistOf B latency ≠ .nil := by
  unfold negDistOf
  split_ifs with h
  · cases latency using List.reverseRecOn with
    | nil => exact absurd rfl h
    | append_singleton latency info =>
      simp only [List.map_append, List.map_cons, List.map_nil, List.foldl_append, List.foldl_cons,
        List.foldl_nil]
      exact alter_ne_nil
  · exact alter_ne_nil

/-- Without a distribution there was no update. -/
def Untouched (s : State α) : Prop := s.negDist = .nil → s.lastUpdateTime = 0

variable {B} {s s' : State α} {u : BitVec 32 × α}

theorem Untouched.call (h : Untouched s) (c : Call α) : Untouched (call B s c) := by
  cases c with
  | gameTimeReset => exact h
  | gameTimeUpdate time => exact h
  | update value =>
    show Untouched (update B s value)
    unfold update
    simp only
    split_ifs
    · exact fun hnil => absurd hnil (negDistOf_ne_nil B _)
    · exact h
  | getAverage =>
    show Untouched (getAverage s).2
    unfold getAverage
    split_ifs <;> exact h
  | init => exact h
  | cleanup => exact h

theorem untouched_run (history : List (Call α)) : Untouched (history.foldl (call B) start) := by
  induction history using List.reverseRecOn with
  | nil => exact fun _ => rfl
  | append_singleton history c ih =>
    rw [List.foldl_append]
    exact ih.call c

/-- A game after games without an accepted sample starts like the first one. -/
theorem later_eq_fresh {history : List (Call α)} (h : (later B history).negDist = .nil) :
    later B history = fresh :=
  State.ext rfl rfl rfl h (untouched_run history h) rfl

/-! ## Samples -/

theorem negDist_sample_of_accepts (h : Accepts s u) : (sample B s u).negDist ≠ .nil := by
  rw [sample_of_accepts B h]
  exact negDistOf_ne_nil B _

theorem negDist_sample_of_not_accepts (h : ¬ Accepts s u) : (sample B s u).negDist = s.negDist := by
  rw [sample_of_not_accepts B h]

/-- A sample that is accepted leaves the same, whatever the distribution and the time of the last
update were. -/
theorem sample_eq_of_accepts (hlatency : s.latency = s'.latency)
    (haverage : s.lastAverage = s'.lastAverage) (h : Accepts s u) (h' : Accepts s' u) :
    sample B s u = sample B s' u := by
  rw [sample_of_accepts B h, sample_of_accepts B h', hlatency, haverage]
  rfl

/-- A later game gives the results of the first one exactly if nothing was accepted before it, or its
first sample is accepted in both. -/
theorem noLeak_iff (history : List (Call α)) (updates : List (BitVec 32 × α)) :
    NoLeak B history updates ↔ (later B history).negDist = .nil ∨
      ∀ u, updates.head? = some u → Accepts fresh u ∧ Accepts (later B history) u := by
  constructor
  · intro h
    by_cases hnil : (later B history).negDist = .nil
    · exact .inl hnil
    · refine .inr fun u hu => ?_
      obtain ⟨rest, rfl⟩ := List.head?_eq_some_iff.mp hu
      have hpre : [] ++ [u] <+: u :: rest := ⟨rest, rfl⟩
      have hneg := (h.same [] u hpre).negDist
      by_cases hfresh : Accepts fresh u
      · exact ⟨hfresh, h.accepted [] u hpre hfresh⟩
      · have hempty : elements (sample B fresh u).negDist = [] := by
          rw [negDist_sample_of_not_accepts hfresh]
          rfl
        have hlater := eq_nil_of_elements (hneg.symm.trans hempty)
        by_cases hacc : Accepts (later B history) u
        · exact absurd hlater (negDist_sample_of_accepts hacc)
        · exact absurd ((negDist_sample_of_not_accepts hacc).symm.trans hlater) hnil
  · rintro (hnil | hfirst)
    · have hfresh := later_eq_fresh hnil
      refine ⟨fun pre u _ => ?_, fun pre u _ h => ?_⟩
      · rw [hfresh]
        exact .refl _
      · rwa [hfresh]
    · have heq : ∀ pre, pre ≠ [] → pre <+: updates →
          pre.foldl (sample B) fresh = pre.foldl (sample B) (later B history) := by
        intro pre hne hp
        obtain ⟨v, pre, rfl⟩ := List.exists_cons_of_ne_nil hne
        obtain ⟨rest, rfl⟩ := hp
        obtain ⟨hv, hv'⟩ := hfirst v rfl
        exact congrArg (pre.foldl (sample B)) (sample_eq_of_accepts rfl rfl hv hv')
      refine ⟨fun pre u hp => ?_, fun pre u hp h => ?_⟩
      · rw [heq _ (List.append_ne_nil_of_right_ne_nil pre (List.cons_ne_nil u [])) hp]
        exact .refl _
      · by_cases hpre : pre = []
        · subst hpre
          obtain ⟨rest, rfl⟩ := hp
          exact (hfirst u rfl).2
        · rwa [← heq pre hpre ((List.prefix_append _ _).trans hp)]

/-- A sample was accepted after 100 s. In the next game the one after 50 s is not. -/
theorem stale_update_time : ¬ NoLeak (unbalanced (α := ℚ × ℚ))
    [.gameTimeReset, .init, .gameTimeUpdate 100000, .update (1 / 10)] [(50000, 1 / 5)] := by
  intro h
  have hacc := h.accepted [] (50000, 1 / 5) List.prefix_rfl (by decide +kernel)
  revert hacc
  decide +kernel

end Latency

end DreamDota
