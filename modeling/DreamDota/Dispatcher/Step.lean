import DreamDota.Dispatcher.Model

/-!
# What a step of the dispatcher can do

`Machine.infos_step` is the rule for a property of the active dispatches and the globals, with one
case for each thing a step can do. Every invariant of the dispatcher is derived from it.
-/

namespace DreamDota

open Reentrant

variable {C : Client}

theorem atLimit_iff {d : Dispatcher} : d.atLimit = true ↔ 15 ≤ d.dispatchedLevel.toNat := by
  simp only [Dispatcher.atLimit, maxDispatchRecursiveLevel, Bool.and_eq_true, decide_eq_true_eq,
    BitVec.lt_def, BitVec.le_def]
  simp
  omega

@[simp] theorem returned_disp (g : Globals C) (f : Dispatch C.Tag) (r : Bool) :
    (g.returned f r).disp = g.disp := rfl

/-! ## The return of a callback -/

section Resume

variable {f : Dispatch C.Tag} {g : Globals C} {i : ℕ}

theorem resume_subscriber (hp : f.phase = .subscribers i) (hi : i < g.disp.subscribers.length) :
    resume f g = .call { f with phase := .subscribers (i + 1) } g ∨
      resume f g = .skip { f with phase := .subscribers (i + 1) } g := by
  cases hcb : g.disp.subscribers[i] with
  | some cb => left; simp [resume, hp, List.getElem?_eq_getElem hi, hcb]
  | none => right; simp [resume, hp, List.getElem?_eq_getElem hi, hcb]

theorem resume_noEntry (hp : f.phase = .subscribers i) (hi : g.disp.subscribers.length ≤ i)
    (hm : g.performTasks.disp.map f.evt.id = none) :
    resume f g = .leave (g.performTasks.returned f (!g.disp.currentEventDiscarded)) := by
  simp [resume, hp, List.getElem?_eq_none hi, afterSubscribers, hm]

theorem resume_enterLoop {q : List Callback} (hp : f.phase = .subscribers i)
    (hi : g.disp.subscribers.length ≤ i) (hm : g.performTasks.disp.map f.evt.id = some q) :
    resume f g = .skip { f with phase := .listeners 0 } g.performTasks.enterLoop := by
  simp [resume, hp, List.getElem?_eq_none hi, afterSubscribers, hm]

theorem resume_listener {callback : Callback} (hp : f.phase = .listeners i)
    (hd : g.disp.currentEventDiscarded = false)
    (hq : (g.disp.queue f.evt.id)[i]? = some callback) :
    resume f g = .call (f.callListener i callback) g := by
  simp [resume, hp, hd, hq]

theorem resume_leaveLoop (hp : f.phase = .listeners i)
    (hq : g.disp.currentEventDiscarded = false → (g.disp.queue f.evt.id).length ≤ i) :
    resume f g = .leave (g.leaveLoop.returned f (!g.disp.currentEventDiscarded)) := by
  cases hd : g.disp.currentEventDiscarded with
  | true => simp [resume, hp, hd]
  | false => simp [resume, hp, hd, List.getElem?_eq_none (hq hd)]

end Resume

namespace Machine

theorem step_turnAway (beh : ℕ → List C.User) {c : Machine C} {evt : Event} {tag : Option C.Tag}
    (hn : c.next = some (.dispatch evt tag)) (hl : c.globals.disp.atLimit = true) :
    (c.step beh).globals = c.globals.turnAway evt tag ∧ (c.step beh).infos = c.infos := by
  obtain ⟨hg, hi, -⟩ := Lang.step_exec (lang C) (fun k => (beh k).map Client.lift) hn
  exact ⟨by simpa [lang, exec, hl, Machine.step] using hg,
    by simpa [lang, exec, hl, Machine.step] using hi⟩

theorem step_begin {beh : ℕ → List C.User} {c : Machine C} {evt : Event} {tag : Option C.Tag}
    (hn : c.next = some (.dispatch evt tag)) (hl : c.globals.disp.atLimit = false) :
    (c.step beh).globals = c.globals.begin evt ∧
      (c.step beh).infos = c.globals.frame evt tag :: c.infos := by
  obtain ⟨hg, hi, -⟩ := Lang.step_exec (lang C) (fun k => (beh k).map Client.lift) hn
  exact ⟨by simpa [lang, exec, hl, Machine.step] using hg,
    by simpa [lang, exec, hl, Machine.step] using hi⟩

theorem step_leave (beh : ℕ → List C.User) {c : Machine C} {f : Dispatch C.Tag}
    {fs : List (Dispatch C.Tag)} {g : Globals C} (hn : c.next = none) (hf : c.infos = f :: fs)
    (hr : resume f c.globals = .leave g) :
    (c.step beh).globals = g ∧ (c.step beh).infos = fs := by
  have h := Lang.step_resume (lang C) (fun k => (beh k).map Client.lift) hn hf
  rw [show (lang C).resume = resume from rfl, hr] at h
  exact ⟨h.1, h.2.1⟩

theorem step_skip (beh : ℕ → List C.User) {c : Machine C} {f f' : Dispatch C.Tag}
    {fs : List (Dispatch C.Tag)} {g : Globals C} (hn : c.next = none) (hf : c.infos = f :: fs)
    (hr : resume f c.globals = .skip f' g) :
    (c.step beh).globals = g ∧ (c.step beh).infos = f' :: fs := by
  have h := Lang.step_resume (lang C) (fun k => (beh k).map Client.lift) hn hf
  rw [show (lang C).resume = resume from rfl, hr] at h
  exact ⟨h.1, h.2.1⟩

/-- The rule for one step of the dispatcher. A dispatch returns in the cases `noEntry` and
`leaveLoop` alone. -/
theorem infos_step {Ψ : List (Dispatch C.Tag) → Globals C → Prop} {beh : ℕ → List C.User}
    {c : Machine C} (hc : Ψ c.infos c.globals)
    (turnAway : ∀ evt tag, c.next = some (.dispatch evt tag) → c.globals.disp.atLimit = true →
      Ψ c.infos (c.globals.turnAway evt tag))
    (begin : ∀ evt tag, c.next = some (.dispatch evt tag) → c.globals.disp.atLimit = false →
      Ψ (c.globals.frame evt tag :: c.infos) (c.globals.begin evt))
    (listen : ∀ id callback, c.next = some (.listen id callback) →
      Ψ c.infos (c.globals.listen id callback))
    (subscribe : ∀ callback, c.next = some (.subscribe callback) →
      Ψ c.infos (c.globals.subscribe callback))
    (discard : c.next = some .discardCurrentEvent →
      Ψ (c.infos.modifyHead Dispatch.discard) c.globals.discard)
    (read : c.next = some .currentEvent → Ψ c.infos (c.globals.read (c.here.map Dispatch.evt)))
    (instr : ∀ s, Ψ c.infos { c.globals with client := s })
    (subscriber : ∀ f fs i, c.next = none → c.infos = f :: fs → f.phase = .subscribers i →
      i < c.globals.disp.subscribers.length →
      Ψ ({ f with phase := .subscribers (i + 1) } :: fs) c.globals)
    (noEntry : ∀ f fs i, c.next = none → c.infos = f :: fs → f.phase = .subscribers i →
      c.globals.disp.subscribers.length ≤ i → c.globals.performTasks.disp.map f.evt.id = none →
      (c.step beh).infos = fs →
      Ψ fs (c.globals.performTasks.returned f (!c.globals.disp.currentEventDiscarded)))
    (enterLoop : ∀ f fs i q, c.next = none → c.infos = f :: fs → f.phase = .subscribers i →
      c.globals.disp.subscribers.length ≤ i → c.globals.performTasks.disp.map f.evt.id = some q →
      Ψ ({ f with phase := .listeners 0 } :: fs) c.globals.performTasks.enterLoop)
    (listener : ∀ f fs i callback, c.next = none → c.infos = f :: fs → f.phase = .listeners i →
      c.globals.disp.currentEventDiscarded = false →
      (c.globals.disp.queue f.evt.id)[i]? = some callback →
      Ψ (f.callListener i callback :: fs) c.globals)
    (leaveLoop : ∀ f fs i, c.next = none → c.infos = f :: fs → f.phase = .listeners i →
      (c.globals.disp.currentEventDiscarded = false →
        (c.globals.disp.queue f.evt.id).length ≤ i) →
      (c.step beh).infos = fs →
      Ψ fs (c.globals.leaveLoop.returned f (!c.globals.disp.currentEventDiscarded))) :
    Ψ (c.step beh).infos (c.step beh).globals := by
  refine Lang.infos_step _ _ hc ?_ ?_
  · intro o ho
    cases o with
    | dispatch evt tag =>
      cases hl : c.globals.disp.atLimit with
      | true => simpa [lang, exec, hl] using turnAway evt tag ho hl
      | false => simpa [lang, exec, hl] using begin evt tag ho hl
    | listen id callback => simpa [lang, exec] using listen id callback ho
    | subscribe callback => simpa [lang, exec] using subscribe callback ho
    | discardCurrentEvent => simpa [lang, exec] using discard ho
    | currentEvent => simpa [lang, exec] using read ho
    | instr i => simpa [lang, exec] using instr _
  · intro f fs hn hf
    rw [show (lang C).resume = resume from rfl]
    cases hp : f.phase with
    | subscribers i =>
      by_cases hi : i < c.globals.disp.subscribers.length
      · have hcase := subscriber f fs i hn hf hp hi
        rcases resume_subscriber hp hi with hr | hr <;> rw [hr] <;> exact hcase
      · have hle : c.globals.disp.subscribers.length ≤ i := by omega
        cases hm : c.globals.performTasks.disp.map f.evt.id with
        | none =>
          rw [resume_noEntry hp hle hm]
          exact noEntry f fs i hn hf hp hle hm (step_leave beh hn hf (resume_noEntry hp hle hm)).2
        | some q =>
          rw [resume_enterLoop hp hle hm]
          exact enterLoop f fs i q hn hf hp hle hm
    | listeners i =>
      by_cases hq : c.globals.disp.currentEventDiscarded = false →
          (c.globals.disp.queue f.evt.id).length ≤ i
      · rw [resume_leaveLoop hp hq]
        exact leaveLoop f fs i hn hf hp hq (step_leave beh hn hf (resume_leaveLoop hp hq)).2
      · push Not at hq
        obtain ⟨hd, hlt⟩ := hq
        have hlt' : i < (c.globals.disp.queue f.evt.id).length := by omega
        have hcb := List.getElem?_eq_getElem hlt'
        rw [resume_listener hp hd hcb]
        exact listener f fs i _ hn hf hp hd hcb

end Machine

end DreamDota
