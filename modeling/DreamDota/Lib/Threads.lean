import Mathlib.Data.List.GetD
import Mathlib.Tactic.Common

/-!
# Threads that interleave

A thread is the list of the program points that it has still to execute. One thread, the caller,
is given commands from outside whenever it has nothing left to do; the others are started by what
the threads execute. Any thread may make the next step.

1. `step_cases`: what a step can be.
2. `Executed`: one point was executed. What this does to the points that are still to be executed:
   `Executed.mem`, `Executed.countP`.
3. `Config.tokens`, `fire`: the points counted by the places where they are.
4. `Guarded`: runs whose steps all meet a condition on the state before the step. What such steps
   keep holds along these runs (`Guarded.run`), and what every other step brings about and all steps
   keep holds after the other runs (`of_not_guarded`).
-/

namespace Threads

variable {σ ι κ : Type*}

/-- What executing a point does: the new shared state, what the thread does before it goes on, and
the threads it starts. -/
structure Effect (σ ι : Type*) where
  shared : σ
  next : List ι
  started : List (List ι)

/-- A point that starts no thread. -/
def Effect.goto (w : σ) (next : List ι) : Effect σ ι := ⟨w, next, []⟩

/-- The code of the threads. A command that may not be given now and a point that blocks are
`none`. -/
structure Program (σ ι κ : Type*) where
  issue : κ → σ → Option (σ × List ι)
  exec : ι → σ → Option (Effect σ ι)

structure Config (σ ι : Type*) where
  shared : σ
  caller : List ι
  pool : List (List ι)

/-- Who makes the next step. -/
inductive Act (κ : Type*) where
  | issue (cmd : κ)
  | caller
  | worker (k : ℕ)

/-- The points that are still to be executed. -/
def Config.points (c : Config σ ι) : List ι := c.caller ++ c.pool.flatten

/-- The point that a step executes. -/
def Config.pointOf (c : Config σ ι) : Act κ → Option ι
  | .issue _ => none
  | .caller => c.caller.head?
  | .worker k => (c.pool.getD k []).head?

/-- A step of a thread that has nothing to do, or cannot do it, changes nothing. -/
def step (P : Program σ ι κ) (c : Config σ ι) : Act κ → Config σ ι
  | .issue cmd =>
    if c.caller.isEmpty then
      match P.issue cmd c.shared with
      | some (w, code) => ⟨w, code, c.pool⟩
      | none => c
    else c
  | .caller =>
    match c.caller with
    | [] => c
    | i :: rest =>
      match P.exec i c.shared with
      | some e => ⟨e.shared, e.next ++ rest, c.pool ++ e.started⟩
      | none => c
  | .worker k =>
    match c.pool.getD k [] with
    | [] => c
    | i :: rest =>
      match P.exec i c.shared with
      | some e => ⟨e.shared, c.caller, c.pool.set k (e.next ++ rest) ++ e.started⟩
      | none => c

def run (P : Program σ ι κ) (c : Config σ ι) (acts : List (Act κ)) : Config σ ι :=
  acts.foldl (step P) c

/-- Nothing moves any more until the next command. -/
def AtRest (P : Program σ ι κ) (c : Config σ ι) : Prop :=
  c.caller = [] ∧ ∀ code ∈ c.pool, ∀ i ∈ code.head?, P.exec i c.shared = none

/-! ## One step -/

/-- A thread has executed `i`. -/
inductive Executed : Config σ ι → ι → Effect σ ι → Config σ ι → Prop
  | caller {w : σ} {i : ι} {rest : List ι} {pool : List (List ι)} {e : Effect σ ι} :
    Executed ⟨w, i :: rest, pool⟩ i e ⟨e.shared, e.next ++ rest, pool ++ e.started⟩
  | worker {w : σ} {i : ι} {code rest : List ι} {l₁ l₂ : List (List ι)} {e : Effect σ ι} :
    Executed ⟨w, code, l₁ ++ (i :: rest) :: l₂⟩ i e
      ⟨e.shared, code, l₁ ++ (e.next ++ rest) :: l₂ ++ e.started⟩

variable {P : Program σ ι κ} {c c' : Config σ ι} {i : ι} {e : Effect σ ι}

theorem step_caller {w : σ} {rest : List ι} {pool : List (List ι)} (he : P.exec i w = some e) :
    step P ⟨w, i :: rest, pool⟩ .caller = ⟨e.shared, e.next ++ rest, pool ++ e.started⟩ := by
  simp only [step, he]

theorem step_worker {k : ℕ} {rest : List ι} (hcode : c.pool.getD k [] = i :: rest)
    (he : P.exec i c.shared = some e) :
    step P c (.worker k) = ⟨e.shared, c.caller, c.pool.set k (e.next ++ rest) ++ e.started⟩ := by
  simp only [step, hcode, he]

theorem executed_step {a : Act κ} (hi : i ∈ c.pointOf a) (he : P.exec i c.shared = some e) :
    Executed c i e (step P c a) := by
  obtain ⟨w, code, pool⟩ := c
  cases a with
  | issue cmd => cases hi
  | caller =>
    cases code with
    | nil => cases hi
    | cons j rest =>
      obtain rfl := Option.some.inj hi
      rw [step_caller he]
      exact .caller
  | worker k =>
    cases hk : pool.getD k [] with
    | nil =>
      rw [Config.pointOf, hk] at hi
      cases hi
    | cons j rest =>
      rw [Config.pointOf, hk] at hi
      obtain rfl := Option.some.inj hi
      have hlt : k < pool.length := by
        by_contra hge
        rw [List.getD_eq_default pool [] (Nat.le_of_not_lt hge)] at hk
        cases hk
      have hget : pool[k] = j :: rest := by
        rw [← hk, List.getD_eq_getElem pool [] hlt]
      have hpool : pool = pool.take k ++ (j :: rest) :: pool.drop (k + 1) := by
        rw [← hget, ← List.drop_eq_getElem_cons hlt, List.take_append_drop]
      have hset : pool.set k (e.next ++ rest) =
          pool.take k ++ (e.next ++ rest) :: pool.drop (k + 1) :=
        List.set_eq_take_append_cons_drop.trans (if_pos hlt)
      rw [step_worker hk he, hset]
      conv => arg 1; rw [hpool]
      exact .worker

/-- A point that blocks, or none. -/
theorem step_eq_self {a : Act κ} (ha : ∀ cmd, a ≠ .issue cmd)
    (hi : ∀ i ∈ c.pointOf a, P.exec i c.shared = none) : step P c a = c := by
  cases a with
  | issue cmd => exact absurd rfl (ha cmd)
  | caller =>
    cases hcode : c.caller with
    | nil => simp only [step, hcode]
    | cons i rest =>
      have hnone := hi i (by rw [Config.pointOf, hcode]; rfl)
      simp only [step, hcode, hnone]
  | worker k =>
    cases hcode : c.pool.getD k [] with
    | nil => simp only [step, hcode]
    | cons i rest =>
      have hnone := hi i (by rw [Config.pointOf, hcode]; rfl)
      simp only [step, hcode, hnone]

theorem step_issue (P : Program σ ι κ) (c : Config σ ι) (cmd : κ) :
    step P c (.issue cmd) = c ∨
      ∃ w code, c.caller = [] ∧ P.issue cmd c.shared = some (w, code) ∧
        step P c (.issue cmd) = ⟨w, code, c.pool⟩ := by
  obtain ⟨w, code, pool⟩ := c
  cases code with
  | cons i rest => exact .inl rfl
  | nil =>
    cases h : P.issue cmd w with
    | none => exact .inl (by simp [step, h])
    | some wc => exact .inr ⟨wc.1, wc.2, rfl, rfl, by simp [step, h]⟩

/-- A step does nothing, begins a command or executes a point. -/
theorem step_cases (P : Program σ ι κ) (c : Config σ ι) (a : Act κ) :
    step P c a = c ∨
    (∃ cmd w code, a = .issue cmd ∧ c.caller = [] ∧ P.issue cmd c.shared = some (w, code) ∧
      step P c a = ⟨w, code, c.pool⟩) ∨
    ∃ i e, i ∈ c.pointOf a ∧ P.exec i c.shared = some e ∧ Executed c i e (step P c a) := by
  by_cases ha : ∃ cmd, a = .issue cmd
  · obtain ⟨cmd, rfl⟩ := ha
    obtain hskip | ⟨w, code, hissue⟩ := step_issue P c cmd
    · exact .inl hskip
    · exact .inr (.inl ⟨cmd, w, code, rfl, hissue⟩)
  · by_cases hblocked : ∀ i ∈ c.pointOf a, P.exec i c.shared = none
    · exact .inl (step_eq_self (fun cmd heq => ha ⟨cmd, heq⟩) hblocked)
    · push Not at hblocked
      obtain ⟨i, hi, hne⟩ := hblocked
      obtain ⟨e, he⟩ := Option.ne_none_iff_exists'.mp hne
      exact .inr (.inr ⟨i, e, hi, he, executed_step hi he⟩)

theorem Executed.shared (h : Executed c i e c') : c'.shared = e.shared := by
  cases h <;> rfl

theorem Executed.mem (h : Executed c i e c') : i ∈ c.points := by
  cases h <;> simp [Config.points]

/-- The other points are still to be executed. -/
theorem Executed.mem_of_ne (h : Executed c i e c') {j : ι} (hj : j ∈ c.points) (hne : j ≠ i) :
    j ∈ c'.points := by
  cases h <;> simp only [Config.points, List.flatten_append, List.flatten_cons, List.mem_append,
    List.mem_cons] at hj ⊢ <;> tauto

theorem Executed.mem_next (h : Executed c i e c') {j : ι} (hj : j ∈ e.next) : j ∈ c'.points := by
  cases h <;> simp only [Config.points, List.flatten_append, List.flatten_cons, List.mem_append] <;>
    tauto

/-- What is to be executed afterwards was to be executed before, or is new. -/
theorem Executed.of_mem (h : Executed c i e c') {j : ι} (hj : j ∈ c'.points) :
    j ∈ c.points ∨ j ∈ e.next ∨ j ∈ e.started.flatten := by
  cases h <;> simp only [Config.points, List.flatten_append, List.flatten_cons, List.mem_append,
    List.mem_cons] at hj ⊢ <;> tauto

/-- The executed point is gone, and what follows it is there. -/
theorem Executed.countP (h : Executed c i e c') (p : ι → Bool) :
    c'.points.countP p + (if p i then 1 else 0) =
      c.points.countP p + e.next.countP p + e.started.flatten.countP p := by
  cases h <;> simp only [Config.points, List.flatten_append, List.flatten_cons, List.countP_append,
    List.countP_cons] <;> omega

/-- What is new to the pool comes from a thread of the pool that goes on, or is started. -/
theorem Executed.of_mem_pool (h : Executed c i e c') {j : ι} (hj : j ∈ c'.pool.flatten) :
    j ∈ c.pool.flatten ∨ (i ∈ c.pool.flatten ∧ j ∈ e.next) ∨ j ∈ e.started.flatten := by
  cases h <;> simp only [List.flatten_append, List.flatten_cons, List.mem_append,
    List.mem_cons] at hj ⊢ <;> tauto

/-- What is new to the caller comes from a point of the caller. -/
theorem Executed.of_mem_caller (h : Executed c i e c') {j : ι} (hj : j ∈ c'.caller) :
    j ∈ c.caller ∨ (i ∈ c.caller ∧ j ∈ e.next) := by
  cases h <;> simp only [List.mem_append, List.mem_cons] at hj ⊢ <;> tauto

/-- What holds of the code of every thread, and of the code that goes on, it holds of after a
step. -/
theorem Executed.codes (h : Executed c i e c') {S : List ι → Prop} (hold : ∀ code ∈ c.pool, S code)
    (hnext : ∀ rest, S (i :: rest) → S (e.next ++ rest)) (hstarted : ∀ code ∈ e.started, S code) :
    ∀ code ∈ c'.pool, S code := by
  intro code hcode
  cases h with
  | caller =>
    rcases List.mem_append.mp hcode with hcode | hcode
    · exact hold code hcode
    · exact hstarted code hcode
  | worker =>
    simp only [List.mem_append, List.mem_cons] at hold hcode
    rcases hcode with (hcode | rfl | hcode) | hcode
    · exact hold code (.inl hcode)
    · exact hnext _ (hold _ (.inr (.inl rfl)))
    · exact hold code (.inr (.inr hcode))
    · exact hstarted code hcode

/-- What holds of all points but the first of each code, it holds of after a step. -/
theorem Executed.tail (h : Executed c i e c') {R : ι → Prop}
    (hold : ∀ code ∈ c.caller :: c.pool, ∀ j ∈ code.tail, R j) (hnext : ∀ j ∈ e.next.tail, R j)
    (hstarted : ∀ code ∈ e.started, ∀ j ∈ code.tail, R j) :
    ∀ code ∈ c'.caller :: c'.pool, ∀ j ∈ code.tail, R j := by
  have hgo : ∀ rest : List ι, (∀ j ∈ rest, R j) → ∀ j ∈ (e.next ++ rest).tail, R j := by
    intro rest hrest j hj
    cases hn : e.next with
    | nil =>
      rw [hn, List.nil_append] at hj
      exact hrest j (List.mem_of_mem_tail hj)
    | cons k next =>
      rw [hn, List.cons_append, List.tail_cons] at hj
      rw [hn, List.tail_cons] at hnext
      rcases List.mem_append.mp hj with hj | hj
      · exact hnext j hj
      · exact hrest j hj
  intro code hcode
  cases h with
  | caller =>
    simp only [List.mem_cons, List.mem_append] at hcode
    rcases hcode with rfl | hcode | hcode
    · exact hgo _ (hold _ List.mem_cons_self)
    · exact hold code (List.mem_cons_of_mem _ hcode)
    · exact hstarted code hcode
  | worker =>
    simp only [List.mem_cons, List.mem_append] at hold hcode
    rcases hcode with rfl | (hcode | rfl | hcode) | hcode
    · exact hold _ (.inl rfl)
    · exact hold code (.inr (.inl hcode))
    · exact hgo _ (hold _ (.inr (.inr (.inl rfl))))
    · exact hold code (.inr (.inr (.inr hcode)))
    · exact hstarted code hcode

/-! ## Places

The points are put at places, and a configuration is looked at as the number of points at each
place. -/

section Places

variable {π : Type*} [DecidableEq π]

/-- The points to be executed, counted by their place. -/
def Config.tokens (place : ι → π) (c : Config σ ι) : π → ℕ :=
  fun p => c.points.countP fun i => place i = p

theorem tokens_eq_zero {place : ι → π} {p : π} :
    c.tokens place p = 0 ↔ ∀ i ∈ c.points, place i ≠ p := by
  unfold Config.tokens
  simp [List.countP_eq_zero]

theorem tokens_pos {place : ι → π} {p : π} :
    0 < c.tokens place p ↔ ∃ i ∈ c.points, place i = p := by
  unfold Config.tokens
  simp [List.countP_pos_iff]

/-- A token is taken from `a` and one is put at each of `bs`. -/
def fire (n : π → ℕ) (a : π) (bs : List π) : π → ℕ :=
  fun p => n p - (if p = a then 1 else 0) + bs.count p

theorem Executed.tokens_pos (h : Executed c i e c') (place : ι → π) :
    0 < c.tokens place (place i) := by
  unfold Config.tokens
  exact List.countP_pos_iff.mpr ⟨i, h.mem, by simp⟩

theorem Executed.tokens (h : Executed c i e c') (place : ι → π) :
    c'.tokens place =
      fire (c.tokens place) (place i) ((e.next ++ e.started.flatten).map place) := by
  funext p
  have hcount := h.countP fun i => decide (place i = p)
  have hpos := h.tokens_pos place
  have hnew : ((e.next ++ e.started.flatten).map place).count p =
      e.next.countP (fun i => decide (place i = p)) +
        e.started.flatten.countP (fun i => decide (place i = p)) := by
    rw [List.count, List.countP_map, List.countP_append]
    rfl
  unfold fire
  rw [hnew]
  by_cases hp : p = place i
  · subst hp
    simp only [decide_true, ↓reduceIte] at hcount ⊢
    unfold Config.tokens at hpos ⊢
    omega
  · have hne : ¬ place i = p := fun heq => hp heq.symm
    simp only [hne, decide_false, Bool.false_eq_true, ↓reduceIte] at hcount
    rw [if_neg hp]
    unfold Config.tokens
    omega

/-- The caller begins. -/
theorem tokens_issue (place : ι → π) (hcaller : c.caller = []) (w : σ) (i : ι) (p : π) :
    Config.tokens place ⟨w, [i], c.pool⟩ p =
      c.tokens place p + if p = place i then 1 else 0 := by
  unfold Config.tokens Config.points
  rw [hcaller, List.nil_append, List.singleton_append, List.countP_cons]
  simp only [decide_eq_true_eq, eq_comm (a := p)]

end Places

/-! ## Runs -/

/-- What all steps keep holds along every run. -/
theorem run_invariant {I : Config σ ι → Prop} (hstep : ∀ c a, I c → I (step P c a)) (h : I c)
    (acts : List (Act κ)) : I (run P c acts) := by
  induction acts generalizing c with
  | nil => exact h
  | cons a acts ih => exact ih (hstep c a h)

/-- All steps meet the condition `Q` on the state before the step and the executed point. -/
def Guarded (P : Program σ ι κ) (Q : Config σ ι → ι → Prop) : Config σ ι → List (Act κ) → Prop
  | _, [] => True
  | c, a :: acts => (∀ i ∈ c.pointOf a, Q c i) ∧ Guarded P Q (step P c a) acts

instance Guarded.decidable (P : Program σ ι κ) (Q : Config σ ι → ι → Prop)
    [∀ c, DecidablePred (Q c)] : ∀ c acts, Decidable (Guarded P Q c acts)
  | _, [] => isTrue trivial
  | c, a :: acts =>
    have := Guarded.decidable P Q (step P c a) acts
    inferInstanceAs (Decidable ((∀ i ∈ c.pointOf a, Q c i) ∧ _))

variable {Q : Config σ ι → ι → Prop} {I : Config σ ι → Prop}

/-- What the commands and the guarded points keep, the guarded steps keep. -/
theorem step_guarded
    (hissue : ∀ c cmd w code, I c → c.caller = [] → P.issue cmd c.shared = some (w, code) →
      I ⟨w, code, c.pool⟩)
    (hexec : ∀ c i e c', I c → Q c i → P.exec i c.shared = some e → Executed c i e c' → I c')
    (c : Config σ ι) (a : Act κ) (h : I c) (hq : ∀ i ∈ c.pointOf a, Q c i) : I (step P c a) := by
  obtain hskip | ⟨cmd, w, code, -, hcaller, hcmd, hstep⟩ | ⟨i, e, hi, he, hex⟩ := step_cases P c a
  · rw [hskip]
    exact h
  · rw [hstep]
    exact hissue c cmd w code h hcaller hcmd
  · exact hexec c i e _ h (hq i hi) he hex

/-- What the guarded steps keep holds along a guarded run. -/
theorem Guarded.run (hstep : ∀ c a, I c → (∀ i ∈ c.pointOf a, Q c i) → I (step P c a))
    {acts : List (Act κ)} (hacts : Guarded P Q c acts) (h : I c) : I (run P c acts) := by
  induction acts generalizing c with
  | nil => exact h
  | cons a acts ih => exact ih hacts.2 (hstep c a h hacts.1)

/-- What every step outside the guard brings about, and all steps keep, holds after a run that is
not guarded. -/
theorem of_not_guarded
    (hviol : ∀ c a, ¬ (∀ i ∈ c.pointOf a, Q c i) → I (step P c a))
    (hstep : ∀ c a, I c → I (step P c a)) {acts : List (Act κ)} (hacts : ¬ Guarded P Q c acts) :
    I (Threads.run P c acts) := by
  induction acts generalizing c with
  | nil => exact absurd trivial hacts
  | cons a acts ih =>
    by_cases ha : ∀ i ∈ c.pointOf a, Q c i
    · exact ih fun hrest => hacts ⟨ha, hrest⟩
    · exact run_invariant hstep (hviol c a ha) acts

end Threads
