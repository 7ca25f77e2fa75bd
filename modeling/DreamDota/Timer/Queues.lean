import DreamDota.Timer.Step
import Mathlib.Data.List.Nodup

/-!
# The timer queues

A callback deletes no timer and does not touch the queue of the pass that runs it (`Kept`). So the
queues hold existing timers, each of them once, in every session (`queued_session`).
-/

namespace DreamDota

namespace Timers

variable {beh : TimerBehaviour} {w w' w'' : Timers} {tm tm' : TimerId} {t : Timer}

/-! ## What calls keep -/

/-- Between `w` and `w'` no timer is deleted, none that was destroyed or added comes back, and the
queue is as it was. -/
structure Kept (w w' : Timers) : Prop where
  survives : ∀ tm t, w.get tm = some t → ∃ t', w'.get tm = some t' ∧
    (t.disposed = true → t'.disposed = true) ∧ (t.added = true → t'.added = true)
  gone : ∀ tm, tm < w.heap.length → w.get tm = none → w'.get tm = none
  length_le : w.heap.length ≤ w'.heap.length
  timerQueue : w'.timerQueue = w.timerQueue
  deleted : w'.deleted = w.deleted

theorem Kept.refl (w : Timers) : Kept w w :=
  ⟨fun _ t h => ⟨t, h, id, id⟩, fun _ _ h => h, Nat.le_refl _, rfl, rfl⟩

theorem Kept.trans (h : Kept w w') (h' : Kept w' w'') : Kept w w'' where
  survives := by
    intro tm t ht
    obtain ⟨t', ht', hd, ha⟩ := h.survives tm t ht
    obtain ⟨t'', ht'', hd', ha'⟩ := h'.survives tm t' ht'
    exact ⟨t'', ht'', hd' ∘ hd, ha' ∘ ha⟩
  gone := fun tm hlt hn => h'.gone tm (Nat.lt_of_lt_of_le hlt h.length_le) (h.gone tm hlt hn)
  length_le := Nat.le_trans h.length_le h'.length_le
  timerQueue := h'.timerQueue.trans h.timerQueue
  deleted := h'.deleted.trans h.deleted

theorem kept_modify (w : Timers) (tm : TimerId) {f : Timer → Timer}
    (hd : ∀ t, t.disposed = true → (f t).disposed = true)
    (ha : ∀ t, t.added = true → (f t).added = true) : Kept w (w.modify tm f) where
  survives := by
    intro tm' t ht
    by_cases h : tm = tm'
    · exact ⟨f t, by simp [h, ht], hd t, ha t⟩
    · exact ⟨t, by simp [h, ht], id, id⟩
  gone := fun tm' _ hn => by simp [hn]
  length_le := by simp [modify]
  timerQueue := rfl
  deleted := rfl

/-- A change of the history, the task queue or the counters. -/
theorem Kept.of_heap (hh : w'.heap = w.heap) (hq : w'.timerQueue = w.timerQueue)
    (hd : w'.deleted = w.deleted) : Kept w w' := by
  have hget : w'.get = w.get := by funext tm; unfold get; rw [hh]
  exact ⟨fun _ t h => ⟨t, hget ▸ h, id, id⟩, fun _ _ h => hget ▸ h, Nat.le_of_eq (by rw [hh]), hq,
    hd⟩

theorem kept_add (w : Timers) (tm : TimerId) : Kept w (w.add tm) := by
  unfold add
  split
  · exact Kept.refl w
  · split_ifs
    · exact Kept.of_heap rfl rfl rfl
    · exact Kept.refl w

theorem kept_start (w : Timers) (tm : TimerId) : Kept w (w.start tm) := by
  refine (kept_add w tm).trans (kept_modify _ tm ?_ ?_)
  · intro t h
    simp [Timer.start, h]
  · intro t h
    unfold Timer.start
    split_ifs
    · exact h
    · rfl

theorem kept_noteStart (w : Timers) (tm : TimerId) : Kept w (w.noteStart tm) := by
  unfold noteStart
  split_ifs
  · exact Kept.refl w
  · exact Kept.of_heap rfl rfl rfl

theorem kept_perform (w : Timers) (o : TimerOp) : Kept w (w.perform o) := by
  cases o with
  | new timeout callback periodic autoDispose =>
    refine ⟨fun tm t h => ⟨t, ?_, id, id⟩, fun tm hlt hn => ?_, by simp [perform], rfl, rfl⟩
    · unfold get perform
      rw [List.getElem?_append_left (lt_of_get h)]
      exact h
    · unfold get perform
      rw [List.getElem?_append_left hlt]
      exact hn
  | start tm | reset tm => exact (kept_noteStart w tm).trans (kept_start _ tm)
  | pause tm | resume tm | setTimeout tm timeout =>
    exact kept_modify w tm (fun _ h => h) (fun _ h => h)
  | destroy tm => exact kept_modify w tm (fun _ _ => rfl) (fun _ h => h)

theorem kept_foldl_perform (ops : List TimerOp) (w : Timers) : Kept w (ops.foldl perform w) := by
  induction ops generalizing w with
  | nil => exact Kept.refl w
  | cons o ops ih => exact (kept_perform w o).trans (ih _)

theorem kept_callback (w : Timers) (cb : TimerCallback) : Kept w (w.callback beh cb) := by
  have hcalls : Kept w { w with calls := w.calls + 1 } := Kept.of_heap rfl rfl rfl
  exact hcalls.trans (kept_foldl_perform _ _)

theorem kept_finish (w : Timers) (tm : TimerId) : Kept w (w.finish tm) := by
  unfold finish
  split
  · exact Kept.refl w
  · split_ifs
    · exact Kept.refl w
    · refine Kept.trans ?_ (kept_start _ tm)
      exact kept_modify w tm (fun _ h => h) (fun _ h => h)
    · exact kept_modify w tm (fun _ _ => rfl) (fun _ h => h)
    · exact Kept.refl w

theorem kept_update (beh : TimerBehaviour) (time : BitVec 32) (w : Timers) (tm : TimerId) :
    Kept w (w.update beh time tm) := by
  unfold update
  split
  · exact Kept.refl w
  · have hnote : Kept w (w.noteUpdate tm) := Kept.of_heap rfl rfl rfl
    split_ifs
    · exact hnote.trans (kept_modify _ tm (fun _ h => h) (fun _ h => h))
    · have hfired : Kept (w.noteUpdate tm) ((w.noteUpdate tm).noteFired tm) :=
        Kept.of_heap rfl rfl rfl
      refine Kept.trans ?_ (kept_finish _ tm)
      refine Kept.trans ?_ (kept_callback _ _)
      refine (hnote.trans hfired).trans ?_
      exact kept_modify _ tm (fun _ h => h) (fun _ h => h)
    · exact hnote.trans (kept_modify _ tm (fun _ h => h) (fun _ h => h))

/-! ## The log of the updates -/

@[simp] theorem updated_add (w : Timers) (tm : TimerId) : (w.add tm).updated = w.updated := by
  unfold add; split <;> [rfl; (split_ifs <;> rfl)]

@[simp] theorem updated_noteStart (w : Timers) (tm : TimerId) :
    (w.noteStart tm).updated = w.updated := by
  unfold noteStart; split_ifs <;> rfl

@[simp] theorem updated_perform (w : Timers) (o : TimerOp) :
    (w.perform o).updated = w.updated := by
  cases o <;> simp [perform, modify, start]

theorem updated_foldl_perform (ops : List TimerOp) (w : Timers) :
    (ops.foldl perform w).updated = w.updated := by
  induction ops generalizing w with
  | nil => rfl
  | cons o ops ih => exact (ih _).trans (updated_perform w o)

theorem updated_callback (w : Timers) (cb : TimerCallback) :
    (w.callback beh cb).updated = w.updated :=
  updated_foldl_perform _ { w with calls := w.calls + 1 }

theorem updated_finish (w : Timers) (tm : TimerId) : (w.finish tm).updated = w.updated := by
  unfold finish
  split
  · rfl
  · split_ifs <;> simp [start, modify]

/-- `update` calls no other update. -/
theorem updated_update (time : BitVec 32) (h : w.get tm = some t) :
    (w.update beh time tm).updated = w.updated ++ [tm] := by
  unfold update
  rw [h]
  simp only
  split_ifs
  · rfl
  · rw [updated_finish, updated_callback]
    rfl
  · rfl

/-! ## The queues -/

/-- The queues hold existing timers that know they were added, each of them once. -/
structure Queued (w : Timers) : Prop where
  added : ∀ tm ∈ w.timerQueue ++ w.taskQueue, ∃ t, w.get tm = some t ∧ t.added = true
  nodup : (w.timerQueue ++ w.taskQueue).Nodup

theorem Queued.congr (h : Queued w) (hk : Kept w w') (ht : w'.taskQueue = w.taskQueue) :
    Queued w' where
  added := by
    rw [hk.timerQueue, ht]
    intro tm hm
    obtain ⟨t, hget, ha⟩ := h.added tm hm
    obtain ⟨t', hget', -, ha'⟩ := hk.survives tm t hget
    exact ⟨t', hget', ha' ha⟩
  nodup := by rw [hk.timerQueue, ht]; exact h.nodup

theorem Queued.modify (h : Queued w) (tm : TimerId) {f : Timer → Timer}
    (hd : ∀ t, t.disposed = true → (f t).disposed = true)
    (ha : ∀ t, t.added = true → (f t).added = true) : Queued (w.modify tm f) :=
  h.congr (kept_modify w tm hd ha) rfl

/-- `start` adds a timer that is in neither queue. -/
theorem Queued.start (h : Queued w) (tm : TimerId) : Queued (w.start tm) := by
  have hk := kept_start w tm
  cases hget : w.get tm with
  | none =>
    refine h.congr hk ?_
    simp [Timers.start, add, hget, Timers.modify]
  | some t =>
    by_cases hadd : t.disposed = false ∧ t.added = false
    · have htask : (w.start tm).taskQueue = w.taskQueue ++ [tm] := by
        simp [Timers.start, add, hget, Timers.modify, hadd]
      have hnew : tm ∉ w.timerQueue ++ w.taskQueue := by
        intro hm
        obtain ⟨t', ht', ha⟩ := h.added tm hm
        rw [hget] at ht'
        rw [← Option.some.inj ht', hadd.2] at ha
        cases ha
      constructor
      · rw [hk.timerQueue, htask, ← List.append_assoc]
        intro tm' hm
        rcases List.mem_append.mp hm with hold | hlast
        · obtain ⟨t', ht', ha⟩ := h.added tm' hold
          obtain ⟨t'', ht'', -, ha'⟩ := hk.survives tm' t' ht'
          exact ⟨t'', ht'', ha' ha⟩
        · rw [List.mem_singleton.mp hlast]
          exact ⟨t.start w.timeRaw, by simp [hget], by simp [Timer.start, hadd.1]⟩
      · rw [hk.timerQueue, htask, ← List.append_assoc]
        exact List.nodup_append.mpr ⟨h.nodup, by simp, by
          intro a ha b hb hab
          rw [List.mem_singleton.mp hb] at hab
          exact hnew (hab ▸ ha)⟩
    · refine h.congr hk ?_
      have hcond : (!t.disposed && !t.added) = false := by
        cases hd : t.disposed <;> cases ha : t.added <;> simp_all
      simp [Timers.start, add, hget, Timers.modify, hcond]

theorem Queued.noteStart (h : Queued w) (tm : TimerId) : Queued (w.noteStart tm) := by
  unfold Timers.noteStart
  split_ifs
  · exact h
  · exact h.congr (Kept.of_heap rfl rfl rfl) rfl

theorem Queued.perform (h : Queued w) (o : TimerOp) : Queued (w.perform o) := by
  cases o with
  | new timeout callback periodic autoDispose => exact h.congr (kept_perform w _) rfl
  | start tm | reset tm => exact (h.noteStart tm).start tm
  | pause tm | resume tm | destroy tm | setTimeout tm timeout =>
    exact h.congr (kept_perform w _) rfl

theorem Queued.foldl_perform (ops : List TimerOp) (h : Queued w) :
    Queued (ops.foldl Timers.perform w) := by
  induction ops generalizing w with
  | nil => exact h
  | cons o ops ih => exact ih (h.perform o)

theorem Queued.callback (h : Queued w) (cb : TimerCallback) : Queued (w.callback beh cb) :=
  Queued.foldl_perform _ (h.congr (Kept.of_heap rfl rfl rfl) rfl)

theorem Queued.finish (h : Queued w) (tm : TimerId) : Queued (w.finish tm) := by
  unfold Timers.finish
  split
  · exact h
  · split_ifs
    · exact h
    · refine Queued.start ?_ tm
      exact h.modify tm (fun _ h => h) (fun _ h => h)
    · exact h.modify tm (fun _ _ => rfl) (fun _ h => h)
    · exact h

theorem Queued.update (time : BitVec 32) (h : Queued w) (tm : TimerId) :
    Queued (w.update beh time tm) := by
  unfold Timers.update
  split
  · exact h
  · have hnote : Queued (w.noteUpdate tm) := h.congr (Kept.of_heap rfl rfl rfl) rfl
    split_ifs
    · exact hnote.modify tm (fun _ h => h) (fun _ h => h)
    · have hfired : Queued ((w.noteUpdate tm).noteFired tm) :=
        hnote.congr (Kept.of_heap rfl rfl rfl) rfl
      refine Queued.finish (Queued.callback ?_ _) tm
      exact hfired.modify tm (fun _ h => h) (fun _ h => h)
    · exact hnote.modify tm (fun _ h => h) (fun _ h => h)

theorem Queued.delete {kept rest : List TimerId} (h : Queued w)
    (hq : w.timerQueue = kept ++ tm :: rest) : Queued (w.delete tm (kept ++ rest)) := by
  have hnd := h.nodup
  rw [hq, List.append_assoc, List.cons_append] at hnd
  obtain ⟨hne, hnd'⟩ := List.nodup_cons.mp (List.nodup_middle.mp hnd)
  rw [← List.append_assoc] at hne hnd'
  refine ⟨fun tm' hm => ?_, hnd'⟩
  have htm : tm ≠ tm' := by
    rintro rfl
    exact hne hm
  have hold : tm' ∈ w.timerQueue ++ w.taskQueue := by
    rw [hq]
    have hm' : tm' ∈ (kept ++ rest) ++ w.taskQueue := hm
    simp only [List.mem_append, List.mem_cons] at hm' ⊢
    tauto
  obtain ⟨t, ht, ha⟩ := h.added tm' hold
  exact ⟨t, by simp [htm, ht], ha⟩

theorem Queued.doUpdateTasks (h : Queued w) : Queued w.doUpdateTasks where
  added := by simpa [Timers.doUpdateTasks, get] using h.added
  nodup := by simpa [Timers.doUpdateTasks] using h.nodup

theorem Queued.beforePass (h : Queued w) : Queued (w.beforePass beh) := by
  refine Queued.doUpdateTasks ?_
  have key : ∀ (cbs : List TimerCallback) (w : Timers), Queued w →
      Queued (cbs.foldl (Timers.callback beh) w) := by
    intro cbs
    induction cbs with
    | nil => exact fun _ h => h
    | cons cb cbs ih => exact fun w h => ih _ (h.callback cb)
  exact key _ w h

theorem Queued.pass (time : BitVec 32) (todo kept : List TimerId) (h : Queued w)
    (hq : w.timerQueue = kept ++ todo) : Queued (Timers.pass beh time kept todo w).1 := by
  induction todo generalizing kept w with
  | nil => exact h
  | cons tm rest ih =>
    have hu := (kept_update beh time w tm).timerQueue.trans hq
    rw [Timers.pass]
    simp only
    split_ifs
    · exact ih kept (h.delete hq) rfl
    · exact (h.update time tm).delete hu
    · exact ih (kept ++ [tm]) (h.update time tm) (by rw [hu]; simp)

theorem queued_session (beh : TimerBehaviour) (events : List TimerEvent) :
    Queued (session beh events) := by
  have key : ∀ (events : List TimerEvent) (w : Timers), Queued w →
      Queued (events.foldl (event beh) w) := by
    intro events
    induction events with
    | nil => exact fun _ h => h
    | cons e events ih =>
      intro w h
      refine ih _ ?_
      cases e with
      | timerInit | addTickCallback cb | gameTime d | inGame b =>
        exact h.congr (Kept.of_heap rfl rfl rfl) rfl
      | call o => exact h.perform o
      | timerUpdate time =>
        show Queued (w.timerUpdate beh time)
        unfold timerUpdate
        split_ifs
        · exact h.beforePass.pass time _ [] rfl
        · exact h
      | cleanup => exact ⟨by simp [event, cleanup], by simp [event, cleanup]⟩
  exact key events init ⟨by simp [init], by simp [init]⟩

end Timers

end DreamDota
