import DreamDota.Dispatcher.Level
import DreamDota.Dispatcher.Queues

/-!
# Deferred registration

`listen` only notes a task, and `performTasks` adds the listener to its queue later. This protects
the loops over the queues as long as no registration for an id is performed by a dispatch that was
made after it and inside the handling of an event of that id. `deferredOk_iff` says so for whole
runs, and `registered_while_iterating` is a run in which a queue changes under its loop.
-/

namespace DreamDota

open Reentrant

variable {C : Client}

/-- A loop iterates over the listeners registered before its dispatch was made, no dispatch calls
another one, and a dispatch that answers `true` has called each of them once, in order of
registration. -/
structure Deferred (fs : List (Dispatch C.Tag)) (g : Globals C) : Prop where
  iterates : ∀ f ∈ fs, f.looping = true → g.disp.queue f.evt.id = f.registered
  ran : ∀ f ∈ fs, f.ran <+: f.registered
  returned : ∀ r ∈ g.hist.returns, r.ran <+: r.registered
  undiscarded : ∀ r ∈ g.hist.returns, r.result = true → r.ran = r.registered

/-- The innermost dispatch is about to perform the tasks. -/
def PerformsTasks (c : Machine C) (f : Dispatch C.Tag) (fs : List (Dispatch C.Tag)) : Prop :=
  c.next = none ∧ c.infos = f :: fs ∧
    ∃ i, f.phase = .subscribers i ∧ c.globals.disp.subscribers.length ≤ i

/-- When a dispatch performs the tasks, nothing has been registered for its id since it was made,
and nothing for the id of a loop in progress since the dispatch of that loop was made. No dispatch
with listeners is made at the recursion limit. -/
structure RegistrationGuard (c : Machine C) : Prop where
  own : ∀ f fs, PerformsTasks c f fs → c.globals.hist.registered f.evt.id = f.registered
  loops : ∀ f fs, PerformsTasks c f fs → ∀ f' ∈ fs, f'.looping = true →
    c.globals.hist.registered f'.evt.id = f'.registered
  served : ∀ evt tag, c.next = some (.dispatch evt tag) → c.globals.disp.atLimit = true →
    c.globals.hist.registered evt.id = []

/-! ## The guard keeps the law -/

theorem Deferred.congr {fs : List (Dispatch C.Tag)} {g g' : Globals C} (h : Deferred fs g)
    (hq : g'.disp.queue = g.disp.queue) (hr : g'.hist.returns = g.hist.returns) :
    Deferred fs g' where
  iterates := hq ▸ h.iterates
  ran := h.ran
  returned := hr ▸ h.returned
  undiscarded := hr ▸ h.undiscarded

theorem Deferred.tail {f : Dispatch C.Tag} {fs : List (Dispatch C.Tag)} {g : Globals C}
    (h : Deferred (f :: fs) g) : Deferred fs g where
  iterates := fun f' hf' => h.iterates f' (List.mem_cons_of_mem f hf')
  ran := fun f' hf' => h.ran f' (List.mem_cons_of_mem f hf')
  returned := h.returned
  undiscarded := h.undiscarded

theorem Deferred.cons {f : Dispatch C.Tag} {fs : List (Dispatch C.Tag)} {g : Globals C}
    (h : Deferred fs g) (hl : f.looping = true → g.disp.queue f.evt.id = f.registered)
    (hr : f.ran <+: f.registered) : Deferred (f :: fs) g where
  iterates := List.forall_mem_cons.mpr ⟨hl, h.iterates⟩
  ran := List.forall_mem_cons.mpr ⟨hr, h.ran⟩
  returned := h.returned
  undiscarded := h.undiscarded

/-- A dispatch that answers `true` has called all its listeners. -/
theorem Deferred.return {f : Dispatch C.Tag} {fs : List (Dispatch C.Tag)} {g : Globals C}
    {result : Bool} (h : Deferred fs g) (hr : f.ran <+: f.registered)
    (hall : result = true → f.ran = f.registered) : Deferred fs (g.returned f result) where
  iterates := h.iterates
  ran := h.ran
  returned := by
    intro r hmem
    rcases List.mem_append.mp hmem with hold | hnew
    · exact h.returned r hold
    · rw [List.mem_singleton.mp hnew]
      exact hr
  undiscarded := by
    intro r hmem
    rcases List.mem_append.mp hmem with hold | hnew
    · exact h.undiscarded r hold
    · rw [List.mem_singleton.mp hnew]
      exact hall

/-- The dispatches around the one that performs the tasks keep their queues. -/
theorem Deferred.performTasks {f : Dispatch C.Tag} {fs : List (Dispatch C.Tag)} {c : Machine C}
    (hq : QueuesOk (f :: fs) c.globals) (h : Deferred (f :: fs) c.globals)
    (hok : RegistrationGuard c) (hp : PerformsTasks c f fs) :
    Deferred fs c.globals.performTasks where
  iterates := by
    intro f' hf' hl
    rw [hq.performTasks_queue]
    exact hok.loops f fs hp f' hf' hl
  ran := h.tail.ran
  returned := h.returned
  undiscarded := h.undiscarded

theorem Deferred.step {beh : ℕ → List C.User} {c : Machine C} (hq : QueuesOk c.infos c.globals)
    (h : Deferred c.infos c.globals) (hok : RegistrationGuard c) :
    Deferred (c.step beh).infos (c.step beh).globals := by
  refine Machine.infos_step (Ψ := Deferred) h ?turnAway ?begin (fun _ _ _ => h.congr rfl rfl)
    (fun _ _ => h.congr (Dispatcher.subscribe_queue _ _) rfl) ?discard (fun _ => h.congr rfl rfl)
    (fun _ => h.congr rfl rfl) ?subscriber ?noEntry ?enterLoop ?listener ?leaveLoop
  case turnAway =>
    intro evt tag hn hl
    have hreg : (c.globals.frame evt tag).registered = [] := hok.served evt tag hn hl
    exact (h.return (List.nil_prefix) fun _ => hreg.symm).congr rfl rfl
  case begin =>
    intro evt tag _ _
    exact (h.cons (f := c.globals.frame evt tag) (fun hl => absurd hl Bool.false_ne_true)
      List.nil_prefix).congr rfl rfl
  case discard =>
    intro _
    cases hf : c.infos with
    | nil => exact (hf ▸ h).congr rfl rfl
    | cons f fs =>
      rw [hf] at h
      exact (h.tail.cons (f := f.discard) (h.iterates f List.mem_cons_self)
        (h.ran f List.mem_cons_self)).congr rfl rfl
  case subscriber =>
    intro f fs i _ hf _ _
    rw [hf] at h
    exact h.tail.cons (fun hl => absurd hl (by simp [Dispatch.looping]))
      (h.ran f List.mem_cons_self)
  case noEntry =>
    intro f fs i hn hf hp hi hm _
    have hpt : PerformsTasks c f fs := ⟨hn, hf, i, hp, hi⟩
    rw [hf] at h hq
    have hran := hq.head.ran
    simp only [RanOk, hp] at hran
    -- nothing was ever registered for the id
    have hreg : f.registered = [] := by
      rw [← hok.own f fs hpt, ← hq.performTasks_queue, Dispatcher.queue_eq_nil_of_map hm]
    exact (h.performTasks hq hok hpt).return (hran ▸ List.nil_prefix) fun _ => hran.trans hreg.symm
  case enterLoop =>
    intro f fs i q hn hf hp hi _
    have hpt : PerformsTasks c f fs := ⟨hn, hf, i, hp, hi⟩
    rw [hf] at h hq
    refine ((h.performTasks hq hok hpt).cons (f := { f with phase := .listeners 0 }) (fun _ => ?_)
      (h.ran f List.mem_cons_self)).congr rfl rfl
    show c.globals.performTasks.disp.queue f.evt.id = f.registered
    rw [hq.performTasks_queue]
    exact hok.own f fs hpt
  case listener =>
    intro f fs i callback _ hf hp _ hcb
    rw [hf] at h hq
    have hqueue : c.globals.disp.queue f.evt.id = f.registered :=
      h.iterates f List.mem_cons_self (by simp [Dispatch.looping, hp])
    have hran := (hq.head.callListener hp hcb).ran
    simp only [RanOk, Dispatch.callListener] at hran
    refine h.tail.cons (f := f.callListener i callback) (fun _ => hqueue) ?_
    show f.ran ++ [callback] <+: f.registered
    rw [hran.2.1, hqueue]
    exact List.take_prefix _ _
  case leaveLoop =>
    intro f fs i _ hf hp hlen _
    rw [hf] at h hq
    have hran := hq.head.ran
    simp only [RanOk, hp] at hran
    have htail : Deferred fs c.globals.leaveLoop := h.tail.congr rfl rfl
    refine htail.return (h.ran f List.mem_cons_self) fun hd => ?_
    -- the loop has come to the end of the queue
    have hend := hlen (by simpa using hd)
    rw [hran.2.1, List.take_of_length_le hend]
    exact h.iterates f List.mem_cons_self (by simp [Dispatch.looping, hp])

/-- What is left on the stack after the tasks are performed, and the queues then. -/
theorem PerformsTasks.step (beh : ℕ → List C.User) {c : Machine C} {f : Dispatch C.Tag}
    {fs : List (Dispatch C.Tag)} (h : PerformsTasks c f fs) :
    (c.step beh).globals.disp.queue = c.globals.performTasks.disp.queue ∧
      ((c.globals.performTasks.disp.map f.evt.id = none ∧ (c.step beh).infos = fs) ∨
        (c.step beh).infos = { f with phase := .listeners 0 } :: fs) := by
  obtain ⟨hn, hf, i, hp, hi⟩ := h
  cases hm : c.globals.performTasks.disp.map f.evt.id with
  | none =>
    obtain ⟨hg, hs⟩ := Machine.step_leave beh hn hf (resume_noEntry hp hi hm)
    exact ⟨by rw [hg]; rfl, .inl ⟨rfl, hs⟩⟩
  | some q =>
    obtain ⟨hg, hs⟩ := Machine.step_skip beh hn hf (resume_enterLoop hp hi hm)
    exact ⟨by rw [hg]; rfl, .inr hs⟩

theorem Deferred.guard {beh : ℕ → List C.User} {c : Machine C} (hq : QueuesOk c.infos c.globals)
    (h' : Deferred (c.step beh).infos (c.step beh).globals) : RegistrationGuard c where
  own := by
    intro f fs hpt
    obtain ⟨hqueue, ⟨hm, -⟩ | hs⟩ := hpt.step beh
    · have hhead := hpt.2.1 ▸ hq
      have hnone := hq.performTasks_queue f.evt.id
      rw [Dispatcher.queue_eq_nil_of_map hm] at hnone
      rw [← hnone]
      exact (List.prefix_nil.mp (hnone ▸ hhead.head.registered)).symm
    · have hit := h'.iterates _ (hs ▸ List.mem_cons_self) rfl
      rw [hqueue, hq.performTasks_queue] at hit
      exact hit
  loops := by
    intro f fs hpt f' hf' hl
    obtain ⟨hqueue, hs⟩ := hpt.step beh
    have hmem : f' ∈ (c.step beh).infos := by
      rcases hs with ⟨-, hs⟩ | hs <;> rw [hs]
      · exact hf'
      · exact List.mem_cons_of_mem _ hf'
    have hit := h'.iterates f' hmem hl
    rw [hqueue, hq.performTasks_queue] at hit
    exact hit
  served := by
    intro evt tag hn hl
    obtain ⟨hg, -⟩ := Machine.step_turnAway beh hn hl
    have hmem : ⟨evt, true, false, [], [], c.globals.disp.queue evt.id,
        c.globals.hist.registered evt.id⟩ ∈ (c.step beh).globals.hist.returns := by
      rw [hg]
      exact List.mem_append_right _ (List.mem_singleton.mpr rfl)
    exact (h'.undiscarded _ hmem rfl).symm

end DreamDota
