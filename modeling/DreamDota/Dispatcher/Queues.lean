import DreamDota.Dispatcher.Step

/-!
# The listener queues along a run

`map` and `tasks` together hold the registrations: the queue of an id followed by its pending
registrations is everything registered for it, in order (`QueuesOk.registered`). The queues only
grow, so the listeners a dispatch has called are always a part of the front of its queue
(`FrameOk`). All of this holds in every run.
-/

namespace DreamDota

open Reentrant

variable {C : Client}

namespace Dispatcher

/-- The pending registrations for an id. -/
def pending (d : Dispatcher) (id : ℕ) : List Callback :=
  (d.tasks.filter (·.eventId = id)).map ListenerUpdateTask.callback

theorem foldl_performTask (tasks : List ListenerUpdateTask) (m : ℕ → Option (List Callback))
    (id : ℕ) :
    ((tasks.foldl performTask m) id).getD [] =
      (m id).getD [] ++ (tasks.filter (·.eventId = id)).map ListenerUpdateTask.callback := by
  induction tasks generalizing m with
  | nil => simp
  | cons q tasks ih =>
    rw [List.foldl_cons, ih]
    by_cases h : q.eventId = id
    · simp [performTask, ← h]
    · simp [performTask, h, Function.update_of_ne (Ne.symm h)]

/-- `performTasks` appends the pending registrations of an id to its queue. -/
theorem performTasks_queue (d : Dispatcher) (id : ℕ) :
    d.performTasks.queue id = d.queue id ++ d.pending id :=
  foldl_performTask d.tasks d.map id

theorem queue_eq_nil_of_map {d : Dispatcher} {id : ℕ} (h : d.map id = none) :
    d.queue id = [] := by
  simp [queue, h]

theorem pending_listen (d : Dispatcher) (id : ℕ) (callback : Callback) (id' : ℕ) :
    (d.listen id callback).pending id' =
      d.pending id' ++ if id = id' then [callback] else [] := by
  by_cases h : id = id' <;> simp [pending, listen, List.filter_append, h]

@[simp] theorem subscribe_map (d : Dispatcher) (cb : Option Callback) :
    (d.subscribe cb).map = d.map := by
  unfold subscribe; split_ifs <;> rfl

@[simp] theorem subscribe_queue (d : Dispatcher) (cb : Option Callback) :
    (d.subscribe cb).queue = d.queue := by
  funext id; simp [queue]

@[simp] theorem subscribe_pending (d : Dispatcher) (cb : Option Callback) :
    (d.subscribe cb).pending = d.pending := by
  funext id; unfold pending subscribe; split_ifs <;> rfl

@[simp] theorem subscribe_discarded (d : Dispatcher) (cb : Option Callback) :
    (d.subscribe cb).currentEventDiscarded = d.currentEventDiscarded := by
  unfold subscribe; split_ifs <;> rfl

end Dispatcher

/-! ## One active dispatch -/

/-- What an active dispatch has called so far. -/
def RanOk (g : Globals C) (f : Dispatch C.Tag) : Prop :=
  match f.phase with
  | .subscribers _ => f.ran = []
  | .listeners i =>
    i ≤ (g.disp.queue f.evt.id).length ∧ f.ran = (g.disp.queue f.evt.id).take i ∧
      f.registered <+: g.disp.queue f.evt.id

structure FrameOk (g : Globals C) (f : Dispatch C.Tag) : Prop where
  registered : f.registered <+: g.hist.registered f.evt.id
  ran : RanOk g f

theorem prefix_take_eq {α : Type*} {l l' : List α} {i : ℕ} (h : l <+: l') (hi : i ≤ l.length) :
    l'.take i = l.take i := by
  obtain ⟨t, rfl⟩ := h
  exact List.take_append_of_le_length hi

/-- The queues and the registrations only grow. -/
structure Grows (g g' : Globals C) : Prop where
  registered : ∀ id, g.hist.registered id <+: g'.hist.registered id
  queue : ∀ id, g.disp.queue id <+: g'.disp.queue id

theorem Grows.of_eq {g g' : Globals C} (hr : g'.hist.registered = g.hist.registered)
    (hq : g'.disp.queue = g.disp.queue) : Grows g g' :=
  ⟨fun _ => hr ▸ List.prefix_rfl, fun _ => hq ▸ List.prefix_rfl⟩

theorem grows_listen (g : Globals C) (id : ℕ) (callback : Callback) :
    Grows g (g.listen id callback) where
  registered := by
    intro id'
    by_cases h : id' = id
    · subst h; simp [Globals.listen]
    · simp [Globals.listen, Function.update_of_ne h]
  queue := fun _ => List.prefix_rfl

theorem grows_performTasks (g : Globals C) : Grows g g.performTasks where
  registered := fun _ => List.prefix_rfl
  queue := fun id => by
    show g.disp.queue id <+: g.disp.performTasks.queue id
    rw [Dispatcher.performTasks_queue]
    exact List.prefix_append _ _

theorem RanOk.mono {g g' : Globals C} {f : Dispatch C.Tag} (hg : Grows g g') (h : RanOk g f) :
    RanOk g' f := by
  unfold RanOk at h ⊢
  cases hp : f.phase with
  | subscribers i => simpa [hp] using h
  | listeners i =>
    rw [hp] at h
    obtain ⟨hi, hran, hreg⟩ := h
    have hq := hg.queue f.evt.id
    refine ⟨Nat.le_trans hi hq.length_le, ?_, hreg.trans hq⟩
    rw [prefix_take_eq hq hi]
    exact hran

theorem FrameOk.mono {g g' : Globals C} {f : Dispatch C.Tag} (hg : Grows g g')
    (h : FrameOk g f) : FrameOk g' f :=
  ⟨h.registered.trans (hg.registered _), h.ran.mono hg⟩

/-! ## The whole state -/

structure QueuesOk (fs : List (Dispatch C.Tag)) (g : Globals C) : Prop where
  registered : ∀ id, g.hist.registered id = g.disp.queue id ++ g.disp.pending id
  frames : ∀ f ∈ fs, FrameOk g f

theorem QueuesOk.queue_prefix {fs : List (Dispatch C.Tag)} {g : Globals C} (h : QueuesOk fs g)
    (id : ℕ) : g.disp.queue id <+: g.hist.registered id := by
  rw [h.registered id]
  exact List.prefix_append _ _

/-- After `performTasks` the queue of an id is all that was registered for it. -/
theorem QueuesOk.performTasks_queue {fs : List (Dispatch C.Tag)} {g : Globals C}
    (h : QueuesOk fs g) (id : ℕ) : g.performTasks.disp.queue id = g.hist.registered id := by
  rw [h.registered id]
  exact Dispatcher.performTasks_queue g.disp id

theorem QueuesOk.performTasks {fs : List (Dispatch C.Tag)} {g : Globals C} (h : QueuesOk fs g) :
    QueuesOk fs g.performTasks where
  registered := by
    intro id
    rw [h.performTasks_queue id]
    simp [Dispatcher.pending, Globals.performTasks, Dispatcher.performTasks]
  frames := fun f hf => (h.frames f hf).mono (grows_performTasks g)

/-- A step that changes neither the queues nor the registrations. -/
theorem QueuesOk.congr {fs : List (Dispatch C.Tag)} {g g' : Globals C} (h : QueuesOk fs g)
    (hr : g'.hist.registered = g.hist.registered) (hq : g'.disp.queue = g.disp.queue)
    (hp : g'.disp.pending = g.disp.pending) : QueuesOk fs g' where
  registered := fun id => by rw [hr, hq, hp]; exact h.registered id
  frames := fun f hf => (h.frames f hf).mono (Grows.of_eq hr hq)

theorem QueuesOk.tail {f : Dispatch C.Tag} {fs : List (Dispatch C.Tag)} {g : Globals C}
    (h : QueuesOk (f :: fs) g) : QueuesOk fs g :=
  ⟨h.registered, fun f' hf' => h.frames f' (List.mem_cons_of_mem f hf')⟩

theorem QueuesOk.cons {f : Dispatch C.Tag} {fs : List (Dispatch C.Tag)} {g : Globals C}
    (h : QueuesOk fs g) (hf : FrameOk g f) : QueuesOk (f :: fs) g :=
  ⟨h.registered, List.forall_mem_cons.mpr ⟨hf, h.frames⟩⟩

theorem QueuesOk.head {f : Dispatch C.Tag} {fs : List (Dispatch C.Tag)} {g : Globals C}
    (h : QueuesOk (f :: fs) g) : FrameOk g f :=
  h.frames f List.mem_cons_self

/-- A listener loop starts at the head of the queue. -/
theorem FrameOk.enterLoop {f : Dispatch C.Tag} {fs : List (Dispatch C.Tag)} {g : Globals C}
    (h : QueuesOk (f :: fs) g) (hp : ∃ i, f.phase = .subscribers i) :
    FrameOk g.performTasks { f with phase := .listeners 0 } where
  registered := h.head.registered
  ran := by
    obtain ⟨i, hp⟩ := hp
    have hran := h.head.ran
    simp only [RanOk, hp] at hran
    refine ⟨Nat.zero_le _, by simpa using hran, ?_⟩
    show f.registered <+: g.performTasks.disp.queue f.evt.id
    rw [h.performTasks_queue]
    exact h.head.registered

theorem FrameOk.callListener {f : Dispatch C.Tag} {g : Globals C} {i : ℕ} {callback : Callback}
    (h : FrameOk g f) (hp : f.phase = .listeners i)
    (hq : (g.disp.queue f.evt.id)[i]? = some callback) : FrameOk g (f.callListener i callback) where
  registered := h.registered
  ran := by
    have hran := h.ran
    simp only [RanOk, hp] at hran
    obtain ⟨hlt, hget⟩ := List.getElem?_eq_some_iff.mp hq
    refine ⟨hlt, ?_, hran.2.2⟩
    show f.ran ++ [callback] = (g.disp.queue f.evt.id).take (i + 1)
    rw [hran.2.1, List.take_add_one, hq]
    rfl

/-- The queues stay in order, whatever the callbacks do. -/
theorem QueuesOk.step {beh : ℕ → List C.User} {c : Machine C} (h : QueuesOk c.infos c.globals) :
    QueuesOk (c.step beh).infos (c.step beh).globals := by
  refine Machine.infos_step (Ψ := QueuesOk) h (fun _ _ _ _ => h.congr rfl rfl rfl) ?begin ?listen
    ?subscribe ?discard (fun _ => h.congr rfl rfl rfl) (fun _ => h.congr rfl rfl rfl) ?subscriber
    ?noEntry ?enterLoop ?listener ?leaveLoop
  case begin =>
    intro evt tag _ _
    have hf : FrameOk c.globals (c.globals.frame evt tag) := ⟨List.prefix_rfl, rfl⟩
    exact (h.cons hf).congr rfl rfl rfl
  case listen =>
    intro id callback _
    refine ⟨fun id' => ?_, fun f hf => (h.frames f hf).mono (grows_listen _ id callback)⟩
    show Function.update c.globals.hist.registered id _ id' =
      c.globals.disp.queue id' ++ (c.globals.disp.listen id callback).pending id'
    rw [Dispatcher.pending_listen, ← List.append_assoc, ← h.registered id']
    by_cases hid : id = id'
    · subst hid; simp
    · simp [hid, Function.update_of_ne (Ne.symm hid)]
  case subscribe =>
    intro callback _
    exact h.congr rfl (Dispatcher.subscribe_queue _ _) (Dispatcher.subscribe_pending _ _)
  case discard =>
    intro _
    refine QueuesOk.congr (g := c.globals) ⟨h.registered, ?_⟩ rfl rfl rfl
    cases hf : c.infos with
    | nil => simp
    | cons f fs =>
      rw [hf] at h
      exact List.forall_mem_cons.mpr ⟨⟨h.head.registered, h.head.ran⟩, h.tail.frames⟩
  case subscriber =>
    intro f fs i _ hf hp _
    rw [hf] at h
    have hran := h.head.ran
    simp only [RanOk, hp] at hran
    exact h.tail.cons ⟨h.head.registered, hran⟩
  case noEntry =>
    intro f fs i _ hf _ _ _ _
    rw [hf] at h
    exact h.performTasks.tail.congr rfl rfl rfl
  case enterLoop =>
    intro f fs i q _ hf hp _ _
    rw [hf] at h
    exact (h.performTasks.tail.cons (FrameOk.enterLoop h ⟨i, hp⟩)).congr rfl rfl rfl
  case listener =>
    intro f fs i callback _ hf hp _ hq
    rw [hf] at h
    exact h.tail.cons (h.head.callListener hp hq)
  case leaveLoop =>
    intro f fs i _ hf _ _ _
    rw [hf] at h
    exact h.tail.congr rfl rfl rfl

end DreamDota
