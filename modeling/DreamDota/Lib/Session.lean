import Mathlib.Data.List.Induction
import Mathlib.Tactic.Common

/-!
# Sessions

A session is a list of events, and `es.foldl event s` is the state after it. `Always` is a property
of every state on the way, `Steps` one of every event together with the state that it meets. Three
rules carry a property through a session:

1. `Always.of_step`: every event keeps the property.
2. `Always.of_steps`: every event that meets a guard keeps it, and all of them meet it.
3. `always_iff_steps`: the guard is exact, so the property holds on the whole way if and only if
   every event meets the guard.

`filter_eq_induction` compares two sessions that have some of their events in common.
-/

namespace Session

variable {σ ε : Type*} {event : σ → ε → σ} {s : σ} {es : List ε}

/-- The property holds at the start and after every event. -/
def Always (event : σ → ε → σ) (s : σ) (es : List ε) (P : σ → Prop) : Prop :=
  ∀ pre, pre <+: es → P (pre.foldl event s)

/-- The relation holds of every event and the state before it. -/
def Steps (event : σ → ε → σ) (s : σ) (es : List ε) (Q : σ → ε → Prop) : Prop :=
  ∀ pre e, pre ++ [e] <+: es → Q (pre.foldl event s) e

theorem foldl_concat (event : σ → ε → σ) (s : σ) (es : List ε) (e : ε) :
    (es ++ [e]).foldl event s = event (es.foldl event s) e := by
  rw [List.foldl_append]
  rfl

section Always

variable {P P' : σ → Prop}

theorem Always.last (h : Always event s es P) : P (es.foldl event s) := h es List.prefix_rfl

theorem Always.of_prefix {pre : List ε} (h : Always event s es P) (hp : pre <+: es) :
    Always event s pre P := fun pre' hp' => h pre' (hp'.trans hp)

theorem Always.mono (h : Always event s es P) (hP : ∀ s, P s → P' s) : Always event s es P' :=
  fun pre hp => hP _ (h pre hp)

theorem always_nil : Always event s [] P ↔ P s := by
  refine ⟨fun h => h [] List.prefix_rfl, fun h pre hp => ?_⟩
  rw [List.prefix_nil.mp hp]
  exact h

/-- A property of every state, from the first event on. -/
theorem always_cons {e : ε} : Always event s (e :: es) P ↔ P s ∧ Always event (event s e) es P := by
  constructor
  · intro h
    exact ⟨h [] List.nil_prefix, fun pre hp => h (e :: pre) ((List.prefix_cons_inj e).mpr hp)⟩
  · rintro ⟨hs, h⟩ pre hp
    cases pre with
    | nil => exact hs
    | cons a pre =>
      obtain ⟨rfl, hp'⟩ := List.cons_prefix_cons.mp hp
      exact h pre hp'

end Always

section Steps

variable {Q Q' : σ → ε → Prop}

theorem Steps.of_prefix {pre : List ε} (h : Steps event s es Q) (hp : pre <+: es) :
    Steps event s pre Q := fun pre' e hp' => h pre' e (hp'.trans hp)

theorem Steps.mono (h : Steps event s es Q) (hQ : ∀ s e, Q s e → Q' s e) : Steps event s es Q' :=
  fun pre e hp => hQ _ _ (h pre e hp)

theorem Steps.nil : Steps event s [] Q := by
  intro pre e hp
  have hlen := hp.length_le
  simp at hlen

/-- A property of all events, event by event. -/
theorem steps_concat {e : ε} :
    Steps event s (es ++ [e]) Q ↔ Steps event s es Q ∧ Q (es.foldl event s) e := by
  constructor
  · exact fun h => ⟨h.of_prefix (List.prefix_append _ _), h es e List.prefix_rfl⟩
  · rintro ⟨h, hlast⟩ pre e' hp
    rcases List.prefix_concat_iff.mp hp with heq | hp'
    · obtain ⟨rfl, he⟩ := List.append_inj' heq rfl
      obtain rfl : e' = e := by simpa using he
      exact hlast
    · exact h pre e' hp'

/-- A property of all events, from the first on. -/
theorem steps_cons {e : ε} : Steps event s (e :: es) Q ↔ Q s e ∧ Steps event (event s e) es Q := by
  constructor
  · intro h
    exact ⟨h [] e (by simp), fun pre e' hp => h (e :: pre) e' ((List.prefix_cons_inj e).mpr hp)⟩
  · rintro ⟨he, hes⟩ pre e' hp
    cases pre with
    | nil =>
      obtain ⟨rfl, -⟩ := List.cons_prefix_cons.mp hp
      exact he
    | cons a pre =>
      obtain ⟨rfl, hp'⟩ := List.cons_prefix_cons.mp hp
      exact hes pre e' hp'

instance Steps.decidable [∀ s e, Decidable (Q s e)] :
    (s : σ) → (es : List ε) → Decidable (Steps event s es Q)
  | _, [] => isTrue .nil
  | s, e :: es =>
    have := Steps.decidable (event s e) es
    decidable_of_iff (Q s e ∧ Steps event (event s e) es Q) steps_cons.symm

end Steps

/-! ## Invariants -/

variable {I : σ → Prop} {Q : σ → ε → Prop}

/-- The events that meet a guard keep the property. -/
theorem Always.of_steps (hstep : ∀ s, ∀ e ∈ es, I s → Q s e → I (event s e)) (h : I s)
    (hQ : Steps event s es Q) : Always event s es I := by
  intro pre
  induction pre using List.reverseRecOn with
  | nil => exact fun _ => h
  | append_singleton pre e ih =>
    intro hp
    have he : e ∈ es := hp.subset (List.mem_append_right _ (List.mem_singleton_self e))
    rw [foldl_concat]
    exact hstep _ e he (ih ((List.prefix_append _ _).trans hp)) (hQ pre e hp)

/-- Every event keeps the property. -/
theorem Always.of_step (hstep : ∀ s, ∀ e ∈ es, I s → I (event s e)) (h : I s) :
    Always event s es I :=
  Always.of_steps (Q := fun _ _ => True) (fun s e he hs _ => hstep s e he hs) h
    fun _ _ _ => trivial

/-- An exact guard: where the events that keep `P` are those that meet the guard, `P` holds on the
whole way if and only if every event meets it. `I` is what these events keep besides. -/
theorem always_iff_steps {P : σ → Prop}
    (keep : ∀ s, ∀ e ∈ es, I s → P s → Q s e → I (event s e) ∧ P (event s e))
    (exact : ∀ s, ∀ e ∈ es, I s → P s → P (event s e) → Q s e) (hI : I s) (hP : P s) :
    Always event s es P ↔ Steps event s es Q := by
  constructor
  · intro h
    have key : ∀ pre, pre <+: es → I (pre.foldl event s) ∧ Steps event s pre Q := by
      intro pre
      induction pre using List.reverseRecOn with
      | nil => exact fun _ => ⟨hI, .nil⟩
      | append_singleton pre e ih =>
        intro hp
        have hp' : pre <+: es := (List.prefix_append _ _).trans hp
        have he : e ∈ es := hp.subset (List.mem_append_right _ (List.mem_singleton_self e))
        obtain ⟨hIpre, hQpre⟩ := ih hp'
        have hPe := h _ hp
        rw [foldl_concat] at hPe
        have hQ := exact _ e he hIpre (h pre hp') hPe
        rw [foldl_concat]
        exact ⟨(keep _ e he hIpre (h pre hp') hQ).1, steps_concat.mpr ⟨hQpre, hQ⟩⟩
    exact (key es List.prefix_rfl).2
  · intro h
    have hboth : Always event s es fun s => I s ∧ P s :=
      Always.of_steps (fun s e he hs hQ => keep s e he hs.1 hs.2 hQ) ⟨hI, hP⟩ h
    exact hboth.mono fun _ hs => hs.2

/-! ## Two sessions -/

section Filter

variable {p : ε → Prop} [DecidablePred p] {e : ε}

theorem filter_concat (es : List ε) (he : p e) : (es ++ [e]).filter p = es.filter p ++ [e] := by
  simp only [List.filter_append, List.filter_cons, he, decide_true, if_true, List.filter_nil]

theorem filter_concat_of_not (es : List ε) (he : ¬ p e) : (es ++ [e]).filter p = es.filter p := by
  simp only [List.filter_append, List.filter_cons, he, decide_false, Bool.false_eq_true, if_false,
    List.filter_nil, List.append_nil]

/-- Two sessions whose events with `p` are the same are built up from empty ones, by other events on
either side and by events with `p` on both. -/
theorem filter_eq_induction {motive : List ε → List ε → Prop} (nil : motive [] [])
    (left : ∀ pre e pre', ¬ p e → motive pre pre' → motive (pre ++ [e]) pre')
    (right : ∀ pre pre' e, ¬ p e → motive pre pre' → motive pre (pre' ++ [e]))
    (both : ∀ pre pre' e, p e → motive pre pre' → motive (pre ++ [e]) (pre' ++ [e]))
    (pre pre' : List ε) (h : pre.filter p = pre'.filter p) : motive pre pre' := by
  induction pre using List.reverseRecOn generalizing pre' with
  | nil =>
    induction pre' using List.reverseRecOn with
    | nil => exact nil
    | append_singleton pre' e ih =>
      by_cases he : p e
      · rw [filter_concat pre' he] at h
        exact absurd h.symm (List.append_ne_nil_of_right_ne_nil _ (List.cons_ne_nil e []))
      · rw [filter_concat_of_not pre' he] at h
        exact right [] pre' e he (ih h)
  | append_singleton pre e ih =>
    by_cases he : p e
    · induction pre' using List.reverseRecOn with
      | nil =>
        rw [filter_concat pre he] at h
        exact absurd h (List.append_ne_nil_of_right_ne_nil _ (List.cons_ne_nil e []))
      | append_singleton pre' e' ih' =>
        by_cases he' : p e'
        · rw [filter_concat pre he, filter_concat pre' he'] at h
          obtain ⟨hpre, hlast⟩ := List.append_inj' h rfl
          obtain rfl : e = e' := List.head_eq_of_cons_eq hlast
          exact both pre pre' e he (ih pre' hpre)
        · rw [filter_concat_of_not pre' he'] at h
          exact right _ pre' e' he' (ih' h)
    · rw [filter_concat_of_not pre he] at h
      exact left pre e pre' he (ih pre' h)

end Filter

end Session
