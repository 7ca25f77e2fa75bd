import DreamDota.Dispatcher.Level
import DreamDota.Dispatcher.Queues

/-!
# The current event

`current_event_` is set at the entry of `dispatch` and nowhere else: it is neither restored when a
nested dispatch returns nor cleared after the last one, and it has no initial value. So it is the
event of the last dispatch begun, and a read of it is right if and only if that event is the one
being handled (`readsOk_iff`).
-/

namespace DreamDota

open Reentrant

variable {C : Client}

/-- What `currentEvent()` is to answer: the event whose callback asks, and `NULL` outside every
dispatch. -/
def currentEventOf : Option Event → EventPtr
  | none => .null
  | some evt => .ref evt

/-- Every read so far was answered with the event being handled. -/
def ReadsOk (g : Globals C) : Prop := ∀ r ∈ g.hist.reads, r.answer = currentEventOf r.handling

/-- What `current_event_` holds: the event of the last dispatch begun. -/
def lastEvent : Option Event → EventPtr
  | none => .uninit
  | some evt => .ref evt

/-- `currentEvent()` is called by callbacks only, and by those of the event of the last dispatch
begun. -/
def ReadGuard (c : Machine C) : Prop :=
  c.next = some .currentEvent → ∃ f, c.here = some f ∧ c.globals.hist.lastBegun = some f.evt

/-- A step reads the current event, or leaves the reads as they were. -/
theorem reads_step (beh : ℕ → List C.User) (c : Machine C) :
    (c.step beh).globals.hist.reads = c.globals.hist.reads ∨
      (c.next = some .currentEvent ∧ (c.step beh).globals.hist.reads = c.globals.hist.reads ++
        [⟨c.here.map Dispatch.evt, c.globals.disp.currentEvent⟩]) := by
  refine Machine.infos_step (Ψ := fun _ g => g.hist.reads = c.globals.hist.reads ∨
    (c.next = some .currentEvent ∧ g.hist.reads = c.globals.hist.reads ++
      [⟨c.here.map Dispatch.evt, c.globals.disp.currentEvent⟩])) (.inl rfl)
    (fun _ _ _ _ => .inl rfl) (fun _ _ _ _ => .inl rfl) (fun _ _ _ => .inl rfl)
    (fun _ _ => .inl rfl) (fun _ => .inl rfl) (fun hn => .inr ⟨hn, rfl⟩) (fun _ => .inl rfl)
    (fun _ _ _ _ _ _ _ => .inl rfl) (fun _ _ _ _ _ _ _ _ _ => .inl rfl)
    (fun _ _ _ _ _ _ _ _ _ => .inl rfl) (fun _ _ _ _ _ _ _ _ _ => .inl rfl)
    (fun _ _ _ _ _ _ _ _ => .inl rfl)

theorem Machine.step_read {beh : ℕ → List C.User} {c : Machine C}
    (hn : c.next = some .currentEvent) :
    (c.step beh).globals = c.globals.read (c.here.map Dispatch.evt) :=
  (Lang.step_exec (lang C) (fun k => (beh k).map Client.lift) hn).1

/-- A read under the guard is answered with the event being handled. -/
theorem ReadsOk.step {beh : ℕ → List C.User} {c : Machine C}
    (hcur : c.globals.disp.currentEvent = lastEvent c.globals.hist.lastBegun)
    (h : ReadsOk c.globals) (hok : ReadGuard c) : ReadsOk (c.step beh).globals := by
  intro r hr
  rcases reads_step beh c with hs | ⟨hn, hs⟩
  · exact h r (hs ▸ hr)
  · obtain ⟨f, hhere, hlast⟩ := hok hn
    rw [hs] at hr
    rcases List.mem_append.mp hr with hold | hnew
    · exact h r hold
    · rw [List.mem_singleton.mp hnew, hcur, hlast, hhere]
      rfl

/-- A read answered rightly meets the guard. -/
theorem ReadsOk.guard {beh : ℕ → List C.User} {c : Machine C}
    (hcur : c.globals.disp.currentEvent = lastEvent c.globals.hist.lastBegun)
    (h' : ReadsOk (c.step beh).globals) : ReadGuard c := by
  intro hn
  have hmem : ⟨c.here.map Dispatch.evt, c.globals.disp.currentEvent⟩ ∈
      (c.step beh).globals.hist.reads := by
    rw [Machine.step_read hn]
    exact List.mem_append_right _ (List.mem_singleton.mpr rfl)
  have hans := h' _ hmem
  rw [hcur] at hans
  -- an answer is never `NULL`
  cases hhere : c.here with
  | none =>
    rw [hhere] at hans
    cases hl : c.globals.hist.lastBegun <;> rw [hl] at hans <;> cases hans
  | some f =>
    refine ⟨f, rfl, ?_⟩
    rw [hhere] at hans
    cases hl : c.globals.hist.lastBegun with
    | none => rw [hl] at hans; cases hans
    | some evt => rw [hl] at hans; cases hans; rfl

end DreamDota
