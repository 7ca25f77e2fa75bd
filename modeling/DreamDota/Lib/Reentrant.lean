import DreamDota.Lib.Run

/-!
# Programs whose callbacks re-enter them

A program keeps some globals and calls back into code it does not know. That code may call the
program again, which may call back again, to any depth. `Lang` gives the meaning of one operation
and of the return of a callback; `Config` is the whole machine: the globals, one `Frame` for each
activation that is running callbacks, and the code that is still to run. The code of the callbacks
is a parameter `beh`: the `k`-th callback entered in a run executes `beh k`.

`infos` lists the active activations and `cont` all the code still to run, both from the innermost
out. `step_rule` is the rule for properties of the globals together with them, `infos_step` the rule
for the activations alone.
-/

namespace Reentrant

/-- One activation: what it is for, and the code its present callback has still to run. -/
structure Frame (F O : Type*) where
  info : F
  body : List O

/-- The machine. `main` is the code outside every activation, `calls` counts the callbacks
entered so far. -/
structure Config (G F O : Type*) where
  globals : G
  stack : List (Frame F O)
  main : List O
  calls : ℕ

/-- What one operation does: the new globals, the code it expands to, what it notes in the
activation it runs in, and the activation it enters. -/
structure Outcome (G F O : Type*) where
  globals : G
  code : List O := []
  touch : F → F := id
  enter : Option F := none

/-- What an activation does when its callback has returned. -/
inductive Next (G F : Type*) where
  /-- Call the next callback. -/
  | call (f : F) (g : G)
  /-- Go on without a callback. -/
  | skip (f : F) (g : G)
  /-- Return. -/
  | leave (g : G)

/-- The meaning of the operations and of a return into an activation. -/
structure Lang (G F O : Type*) where
  exec : O → Option F → G → Outcome G F O
  resume : F → G → Next G F

variable {G F O : Type*}

namespace Config

/-- All the code still to run, innermost activation first. -/
def cont (c : Config G F O) : List O := c.stack.flatMap Frame.body ++ c.main

/-- The active activations, innermost first. -/
def infos (c : Config G F O) : List F := c.stack.map Frame.info

/-- The activation whose callback is running. -/
def here (c : Config G F O) : Option F := c.infos.head?

/-- The operation that the next step executes, if it executes one. -/
def next (c : Config G F O) : Option O :=
  match c.stack with
  | [] => c.main.head?
  | f :: _ => f.body.head?

/-- The next operation is replaced by `code`, and its activation is touched. -/
def replace (c : Config G F O) (code : List O) (touch : F → F) : Config G F O :=
  match c.stack with
  | [] => { c with main := code ++ c.main.tail }
  | f :: fs => { c with stack := ⟨touch f.info, code ++ f.body.tail⟩ :: fs }

/-- An activation is entered, if there is one to enter. -/
def push (c : Config G F O) (e : Option F) : Config G F O :=
  { c with stack := (e.map fun i => ⟨i, []⟩).toList ++ c.stack }

end Config

/-- The machine at the start of `main`. -/
def start (g : G) (main : List O) : Config G F O := ⟨g, [], main, 0⟩

namespace Lang

variable (L : Lang G F O) (beh : ℕ → List O)

/-- One step: execute the next operation of the innermost code, or, when the callback has
returned, go on with its activation. -/
def step (c : Config G F O) : Config G F O :=
  match c.next with
  | some o =>
    let r := L.exec o c.here c.globals
    { (c.replace r.code r.touch).push r.enter with globals := r.globals }
  | none =>
    match c.stack with
    | [] => c
    | ⟨i, _⟩ :: fs =>
      match L.resume i c.globals with
      | .call i' g =>
        { c with globals := g, stack := ⟨i', beh c.calls⟩ :: fs, calls := c.calls + 1 }
      | .skip i' g => { c with globals := g, stack := ⟨i', []⟩ :: fs }
      | .leave g => { c with globals := g, stack := fs }

/-! ## What a step can do -/

variable {c : Config G F O}

omit L beh in
theorem cont_eq_cons {o : O} (h : c.next = some o) : c.cont = o :: c.cont.tail := by
  obtain ⟨g, stack, mainCode, calls⟩ := c
  rcases stack with _ | ⟨⟨i, body⟩, fs⟩
  · cases mainCode with
    | nil => simp [Config.next] at h
    | cons a rest => simp_all [Config.next, Config.cont]
  · cases body with
    | nil => simp [Config.next] at h
    | cons a rest => simp_all [Config.next, Config.cont]

/-- A step that executes an operation. -/
theorem step_exec {o : O} (h : c.next = some o) :
    (L.step beh c).globals = (L.exec o c.here c.globals).globals ∧
      (L.step beh c).infos = (L.exec o c.here c.globals).enter.toList ++
        c.infos.modifyHead (L.exec o c.here c.globals).touch ∧
      (L.step beh c).cont = (L.exec o c.here c.globals).code ++ c.cont.tail ∧
      (L.step beh c).calls = c.calls := by
  have hs : L.step beh c =
      { (c.replace (L.exec o c.here c.globals).code (L.exec o c.here c.globals).touch).push
          (L.exec o c.here c.globals).enter with
        globals := (L.exec o c.here c.globals).globals } := by
    simp only [step, h]
  rw [hs]
  generalize L.exec o c.here c.globals = r
  obtain ⟨g, stack, mainCode, calls⟩ := c
  refine ⟨rfl, ?_, ?_, ?_⟩
  · rcases stack with _ | ⟨⟨i, body⟩, fs⟩ <;> rcases r.enter with _ | e <;>
      simp [Config.infos, Config.replace, Config.push]
  · rcases stack with _ | ⟨⟨i, _ | ⟨a, body⟩⟩, fs⟩ <;> rcases r.enter with _ | e <;>
      simp_all [Config.cont, Config.replace, Config.push, Config.next]
  · rcases stack with _ | ⟨⟨i, body⟩, fs⟩ <;> simp [Config.replace, Config.push]

/-- A step at the return of a callback, by what its activation does next. -/
theorem step_resume {f : F} {fs : List F} (h : c.next = none) (hf : c.infos = f :: fs) :
    match L.resume f c.globals with
    | .call f' g => (L.step beh c).globals = g ∧ (L.step beh c).infos = f' :: fs ∧
        (L.step beh c).cont = beh c.calls ++ c.cont
    | .skip f' g => (L.step beh c).globals = g ∧ (L.step beh c).infos = f' :: fs ∧
        (L.step beh c).cont = c.cont
    | .leave g => (L.step beh c).globals = g ∧ (L.step beh c).infos = fs ∧
        (L.step beh c).cont = c.cont := by
  obtain ⟨g, stack, mainCode, calls⟩ := c
  rcases stack with _ | ⟨⟨i, _ | ⟨o, body⟩⟩, frames⟩
  · simp [Config.infos] at hf
  · obtain ⟨rfl, rfl⟩ : i = f ∧ frames.map Frame.info = fs := by simpa [Config.infos] using hf
    cases hr : L.resume i g <;> simp [step, hr, Config.next, Config.infos, Config.cont]
  · simp [Config.next] at h

/-- A step at the end of the program. -/
theorem step_halt (h : c.next = none) (hf : c.infos = []) : L.step beh c = c := by
  obtain ⟨g, stack, mainCode, calls⟩ := c
  obtain rfl : stack = [] := by simpa [Config.infos] using hf
  simp [step, h]

/-- The rule for one step: one case for each thing a step can do. -/
theorem step_rule {Ψ : List F → List O → G → Prop} (hc : Ψ c.infos c.cont c.globals)
    (hexec : ∀ o, c.next = some o →
      Ψ ((L.exec o c.here c.globals).enter.toList ++
        c.infos.modifyHead (L.exec o c.here c.globals).touch)
        ((L.exec o c.here c.globals).code ++ c.cont.tail) (L.exec o c.here c.globals).globals)
    (hresume : ∀ f fs, c.next = none → c.infos = f :: fs →
      match L.resume f c.globals with
      | .call f' g => Ψ (f' :: fs) (beh c.calls ++ c.cont) g
      | .skip f' g => Ψ (f' :: fs) c.cont g
      | .leave g => Ψ fs c.cont g) :
    Ψ (L.step beh c).infos (L.step beh c).cont (L.step beh c).globals := by
  cases hn : c.next with
  | some o =>
    obtain ⟨hg, hi, hk, -⟩ := step_exec L beh hn
    rw [hg, hi, hk]
    exact hexec o hn
  | none =>
    cases hf : c.infos with
    | nil => rwa [step_halt L beh hn hf]
    | cons f fs =>
      have hs := step_resume L beh hn hf
      have hr := hresume f fs hn hf
      cases hres : L.resume f c.globals <;> rw [hres] at hs hr <;> rw [hs.1, hs.2.1, hs.2.2] <;>
        exact hr

/-- The rule for properties of the globals and the active activations. -/
theorem infos_step {Ψ : List F → G → Prop} (hc : Ψ c.infos c.globals)
    (hexec : ∀ o, c.next = some o →
      Ψ ((L.exec o c.here c.globals).enter.toList ++
        c.infos.modifyHead (L.exec o c.here c.globals).touch) (L.exec o c.here c.globals).globals)
    (hresume : ∀ f fs, c.next = none → c.infos = f :: fs →
      match L.resume f c.globals with
      | .call f' g => Ψ (f' :: fs) g
      | .skip f' g => Ψ (f' :: fs) g
      | .leave g => Ψ fs g) : Ψ (L.step beh c).infos (L.step beh c).globals :=
  step_rule L beh (Ψ := fun fs _ g => Ψ fs g) hc hexec hresume

end Lang

end Reentrant
