import DreamDota.Timer.Queues
import Mathlib.Data.List.Induction

/-!
# Who owns a timer

A started timer belongs to the two queues: one of them holds it until `Timer_Update` or
`Timer_Cleanup` deletes it. `Timer_Cleanup` deletes the timers of the first queue only and empties
both, so a timer that still waits to be added is owned by nobody afterwards, and the `added_` it
keeps stops every later `start` from scheduling it.

1. `Owned`: what the operations keep, one lemma for each.
2. `Owned.cleanup`: a cleanup that finds no timer waiting keeps it too.
3. `ownership_iff`: the sessions in which every timer stays owned.
-/

namespace DreamDota

namespace Timers

variable {beh : TimerBehaviour} {w w' : Timers} {tm tm' : TimerId} {t : Timer}

/-! ## What the operations keep -/

/-- Every timer that knows it was added is in a queue. -/
def Entered (w : Timers) : Prop :=
  ∀ tm t, w.get tm = some t → t.added = true → tm ∈ w.timerQueue ++ w.taskQueue

/-- The queues hold the timers that were added, each of them once, and none of them is deleted. -/
structure Owned (w : Timers) : Prop extends Queued w where
  entered : Entered w
  gone : ∀ tm ∈ w.deleted, w.get tm = none ∧ tm < w.heap.length
  once : w.deleted.Nodup

theorem Owned.kept (h : Owned w) (hk : Kept w w') (hq : Queued w') (he : Entered w') :
    Owned w' where
  toQueued := hq
  entered := he
  gone := by
    rw [hk.deleted]
    intro tm hm
    obtain ⟨hget, hlt⟩ := h.gone tm hm
    exact ⟨hk.gone tm hlt hget, Nat.lt_of_lt_of_le hlt hk.length_le⟩
  once := by rw [hk.deleted]; exact h.once

/-- A change of the history, the counters or the clock. -/
theorem Entered.of_heap (h : Entered w) (hh : w'.heap = w.heap) (hq : w'.timerQueue = w.timerQueue)
    (ht : w'.taskQueue = w.taskQueue) : Entered w' := by
  intro tm t hget ha
  rw [hq, ht]
  refine h tm t ?_ ha
  rw [← hget, get, get, hh]

theorem Owned.of_heap (h : Owned w) (hh : w'.heap = w.heap) (hq : w'.timerQueue = w.timerQueue)
    (ht : w'.taskQueue = w.taskQueue) (hd : w'.deleted = w.deleted) : Owned w' :=
  h.kept (.of_heap hh hq hd) (h.toQueued.congr (.of_heap hh hq hd) ht) (h.entered.of_heap hh hq ht)

theorem Entered.modify (h : Entered w) (tm : TimerId) {f : Timer → Timer}
    (ha : ∀ t, (f t).added = t.added) : Entered (w.modify tm f) := by
  intro tm' t hget hadd
  rw [get_modify] at hget
  split_ifs at hget with hm
  · obtain ⟨s, hs, rfl⟩ := Option.map_eq_some_iff.mp hget
    exact h tm' s hs (ha s ▸ hadd)
  · exact h tm' t hget hadd

/-- What `start` does to the task queue. -/
theorem taskQueue_start (w : Timers) (tm : TimerId) :
    (w.start tm).taskQueue =
      if (w.get tm).any fun t => !t.disposed && !t.added then w.taskQueue ++ [tm]
      else w.taskQueue := by
  show (w.add tm).taskQueue = _
  unfold add
  cases hget : w.get tm with
  | none => rfl
  | some t =>
    simp only [Option.any_some]
    split_ifs <;> rfl

theorem Entered.start (h : Entered w) (tm : TimerId) : Entered (w.start tm) := by
  have hq : (w.start tm).timerQueue = w.timerQueue := (kept_start w tm).timerQueue
  have hsub : w.timerQueue ++ w.taskQueue ⊆ (w.start tm).timerQueue ++ (w.start tm).taskQueue := by
    rw [hq, taskQueue_start]
    split_ifs
    · rw [← List.append_assoc]
      exact List.subset_append_left _ _
    · exact List.Subset.refl _
  intro tm' t' hget hadd
  rw [get_start] at hget
  split_ifs at hget with hm
  · obtain ⟨t, ht, rfl⟩ := Option.map_eq_some_iff.mp hget
    subst hm
    by_cases hnew : t.disposed = false ∧ t.added = false
    · rw [hq, taskQueue_start, ht]
      simp [hnew]
    · -- a timer that was destroyed or added before stays as it was
      refine hsub (h tm t ht ?_)
      cases hd : t.disposed with
      | true => rwa [Timer.start, if_pos hd] at hadd
      | false => cases ha : t.added <;> simp_all
  · exact hsub (h tm' t' hget hadd)

theorem Entered.noteStart (h : Entered w) (tm : TimerId) : Entered (w.noteStart tm) := by
  unfold Timers.noteStart
  split_ifs
  · exact h
  · exact h.of_heap rfl rfl rfl

theorem Entered.perform (h : Entered w) (o : TimerOp) : Entered (w.perform o) := by
  cases o with
  | new timeout callback periodic autoDispose =>
    intro tm t hget hadd
    rw [Timers.perform, get] at hget
    by_cases hlt : tm < w.heap.length
    · rw [List.getElem?_append_left hlt] at hget
      exact h tm t hget hadd
    · rw [List.getElem?_append_right (Nat.le_of_not_lt hlt)] at hget
      -- the timer is the new one, and it has not been started
      have ht : t = Timer.new timeout callback periodic autoDispose := by
        cases hi : tm - w.heap.length <;> simp_all
      rw [ht] at hadd
      cases hadd
  | start tm | reset tm => exact (h.noteStart tm).start tm
  | pause tm | resume tm | destroy tm | setTimeout tm timeout => exact h.modify tm fun _ => rfl

theorem Owned.perform (h : Owned w) (o : TimerOp) : Owned (w.perform o) :=
  h.kept (kept_perform w o) (h.toQueued.perform o) (h.entered.perform o)

theorem Entered.callback (h : Entered w) (cb : TimerCallback) : Entered (w.callback beh cb) := by
  have key : ∀ (ops : List TimerOp) (w : Timers), Entered w →
      Entered (ops.foldl Timers.perform w) := by
    intro ops
    induction ops with
    | nil => exact fun _ h => h
    | cons o ops ih => exact fun _ h => ih _ (h.perform o)
  exact key _ _ (h.of_heap rfl rfl rfl)

theorem Owned.callback (h : Owned w) (cb : TimerCallback) : Owned (w.callback beh cb) :=
  h.kept (kept_callback w cb) (h.toQueued.callback cb) (h.entered.callback cb)

theorem Entered.finish (h : Entered w) (tm : TimerId) : Entered (w.finish tm) := by
  unfold Timers.finish
  split
  · exact h
  · split_ifs
    · exact h
    · refine Entered.start ?_ tm
      exact h.modify tm fun _ => rfl
    · exact h.modify tm fun _ => rfl
    · exact h

theorem Entered.update (time : BitVec 32) (h : Entered w) (tm : TimerId) :
    Entered (w.update beh time tm) := by
  unfold Timers.update
  split
  · exact h
  · have hnote : Entered (w.noteUpdate tm) := h.of_heap rfl rfl rfl
    split_ifs
    · exact hnote.modify tm fun _ => rfl
    · have hfired : Entered ((w.noteUpdate tm).noteFired tm) := hnote.of_heap rfl rfl rfl
      refine Entered.finish (Entered.callback ?_ _) tm
      exact hfired.modify tm fun _ => rfl
    · exact hnote.modify tm fun _ => rfl

theorem Owned.update (time : BitVec 32) (h : Owned w) (tm : TimerId) :
    Owned (w.update beh time tm) :=
  h.kept (kept_update beh time w tm) (h.toQueued.update time tm) (h.entered.update time tm)

/-- A timer of the first queue is deleted. -/
theorem Owned.delete {kept rest : List TimerId} (h : Owned w)
    (hq : w.timerQueue = kept ++ tm :: rest) : Owned (w.delete tm (kept ++ rest)) where
  toQueued := h.toQueued.delete hq
  entered := by
    intro tm' t hget ha
    rw [get_delete] at hget
    split_ifs at hget with hm
    have hold := h.entered tm' t hget ha
    rw [hq] at hold
    show tm' ∈ kept ++ rest ++ w.taskQueue
    simp only [List.mem_append, List.mem_cons] at hold ⊢
    have hne : tm' ≠ tm := fun he => hm he.symm
    tauto
  gone := by
    intro tm' hm
    rcases List.mem_append.mp hm with hold | hlast
    · obtain ⟨hget, hlt⟩ := h.gone tm' hold
      exact ⟨by simp [hget], by simpa [Timers.delete] using hlt⟩
    · rw [List.mem_singleton.mp hlast]
      obtain ⟨t, hget, -⟩ := h.added tm (by rw [hq]; simp)
      exact ⟨by simp, by simpa [Timers.delete] using lt_of_get hget⟩
  once := by
    have hnew : tm ∉ w.deleted := by
      intro hm
      obtain ⟨t, hget, -⟩ := h.added tm (by rw [hq]; simp)
      rw [(h.gone tm hm).1] at hget
      cases hget
    exact List.nodup_append.mpr ⟨h.once, by simp, by
      intro a ha b hb hab
      rw [List.mem_singleton.mp hb] at hab
      exact hnew (hab ▸ ha)⟩

theorem Owned.doUpdateTasks (h : Owned w) : Owned w.doUpdateTasks where
  toQueued := h.toQueued.doUpdateTasks
  entered := by
    intro tm t hget ha
    have hold := h.entered tm t hget ha
    simpa [Timers.doUpdateTasks] using hold
  gone := h.gone
  once := h.once

theorem Owned.beforePass (h : Owned w) : Owned (w.beforePass beh) := by
  refine Owned.doUpdateTasks ?_
  have key : ∀ (cbs : List TimerCallback) (w : Timers), Owned w →
      Owned (cbs.foldl (Timers.callback beh) w) := by
    intro cbs
    induction cbs with
    | nil => exact fun _ h => h
    | cons cb cbs ih => exact fun w h => ih _ (h.callback cb)
  exact key _ w h

theorem Owned.pass (time : BitVec 32) (todo kept : List TimerId) (h : Owned w)
    (hq : w.timerQueue = kept ++ todo) : Owned (Timers.pass beh time kept todo w).1 := by
  induction todo generalizing kept w with
  | nil => exact h
  | cons tm rest ih =>
    have hu := (kept_update beh time w tm).timerQueue.trans hq
    rw [Timers.pass]
    simp only
    split_ifs
    · exact ih kept (h.delete hq) rfl
    · exact (h.update time tm).delete hu
    · exact ih (kept ++ [tm]) (h.update time tm) (by rw [hu]; simp)

theorem Owned.timerUpdate (time : BitVec 32) (h : Owned w) : Owned (w.timerUpdate beh time) := by
  unfold Timers.timerUpdate
  split_ifs
  · exact h.beforePass.pass time _ [] rfl
  · exact h

/-! ## `Timer_Cleanup` -/

/-- What the loop of `Timer_Cleanup` does. -/
theorem foldl_delete (l : List TimerId) (w : Timers) :
    (l.foldl (fun w tm => w.delete tm w.timerQueue) w).deleted = w.deleted ++ l ∧
      (l.foldl (fun w tm => w.delete tm w.timerQueue) w).heap.length = w.heap.length ∧
      ∀ tm, (l.foldl (fun w tm => w.delete tm w.timerQueue) w).get tm =
        if tm ∈ l then none else w.get tm := by
  induction l generalizing w with
  | nil => simp
  | cons a l ih =>
    obtain ⟨hdel, hlen, hget⟩ := ih (w.delete a w.timerQueue)
    refine ⟨hdel.trans (by simp [delete]), hlen.trans (by simp [delete]), fun tm => ?_⟩
    refine (hget tm).trans ?_
    rw [get_delete]
    by_cases hm : tm ∈ l
    · simp [hm]
    · simp [hm, eq_comm]

theorem deleted_cleanup (w : Timers) : w.cleanup.deleted = w.deleted ++ w.timerQueue :=
  (foldl_delete w.timerQueue w).1

theorem get_cleanup (w : Timers) (tm : TimerId) :
    w.cleanup.get tm = if tm ∈ w.timerQueue then none else w.get tm :=
  (foldl_delete w.timerQueue w).2.2 tm

/-- A cleanup that finds no timer waiting to be added. -/
theorem Owned.cleanup (h : Owned w) (ht : w.taskQueue = []) : Owned w.cleanup where
  toQueued := ⟨by simp [Timers.cleanup], by simp [Timers.cleanup]⟩
  entered := by
    intro tm t hget ha
    rw [get_cleanup] at hget
    split_ifs at hget with hm
    have hold := h.entered tm t hget ha
    rw [ht, List.append_nil] at hold
    exact absurd hold hm
  gone := by
    intro tm hm
    have hlen : w.cleanup.heap.length = w.heap.length := (foldl_delete w.timerQueue w).2.1
    rw [deleted_cleanup] at hm
    rw [get_cleanup, hlen]
    rcases List.mem_append.mp hm with hold | hqueue
    · obtain ⟨hget, hlt⟩ := h.gone tm hold
      exact ⟨by simp [hget], hlt⟩
    · obtain ⟨t, hget, -⟩ := h.added tm (List.mem_append_left _ hqueue)
      exact ⟨if_pos hqueue, lt_of_get hget⟩
  once := by
    rw [deleted_cleanup]
    refine List.nodup_append.mpr ⟨h.once, h.nodup.of_append_left, ?_⟩
    rintro tm ha _ hb rfl
    obtain ⟨t, hget, -⟩ := h.added tm (List.mem_append_left _ hb)
    rw [(h.gone tm ha).1] at hget
    cases hget

/-! ## Sessions -/

/-- The timer was started: `start` has set its `added_`, which nothing resets, or it has been
deleted since. -/
def Started (w : Timers) (tm : TimerId) : Prop :=
  tm ∈ w.deleted ∨ (w.get tm).any Timer.added = true

theorem started_start (h : w.get tm = some t) (hd : t.disposed = false) :
    Started (w.start tm) tm := by
  right
  rw [get_start, if_pos rfl, h, Option.map_some, Option.any_some, Timer.start,
    if_neg (by simp [hd])]

/-- What the queues say about the timer objects. -/
structure Ownership (w : Timers) : Prop where
  added : ∀ tm t, w.get tm = some t →
    (t.added = true ↔ (w.taskQueue ++ w.timerQueue).count tm = 1) ∧
      (t.added = false → tm ∉ w.taskQueue ++ w.timerQueue)
  live : ∀ tm ∈ w.taskQueue ++ w.timerQueue, tm ∉ w.deleted ∧ ∃ t, w.get tm = some t
  once : w.deleted.Nodup
  scheduled : ∀ tm t, w.get tm = some t → t.disposed = false →
    tm ∈ (w.start tm).taskQueue ++ (w.start tm).timerQueue

theorem Owned.ownership (h : Owned w) : Ownership w where
  added := by
    intro tm t hget
    have hnd : (w.taskQueue ++ w.timerQueue).Nodup := List.nodup_append_comm.mp h.nodup
    have hmem : tm ∈ w.taskQueue ++ w.timerQueue ↔ t.added = true := by
      rw [List.mem_append, or_comm, ← List.mem_append]
      constructor
      · intro hm
        obtain ⟨t', hget', ha⟩ := h.toQueued.added tm hm
        obtain rfl := Option.some.inj (hget.symm.trans hget')
        exact ha
      · exact h.entered tm t hget
    refine ⟨?_, fun ha hm => ?_⟩
    · rw [← hmem]
      constructor
      · exact List.count_eq_one_of_mem hnd
      · intro hc
        exact List.count_pos_iff.mp (by omega)
    · rw [hmem.mp hm] at ha
      cases ha
  live := by
    intro tm hm
    obtain ⟨t, hget, -⟩ := h.toQueued.added tm (by
      rw [List.mem_append, or_comm, ← List.mem_append]
      exact hm)
    refine ⟨fun hdel => ?_, t, hget⟩
    rw [(h.gone tm hdel).1] at hget
    cases hget
  once := h.once
  scheduled := by
    intro tm t hget hd
    have ha : (t.start w.timeRaw).added = true := by rw [Timer.start,
    if_neg (by simp [hd])]
    have hm := h.entered.start tm tm _ (by rw [get_start, if_pos rfl, hget]; rfl) ha
    rwa [List.mem_append, or_comm, ← List.mem_append]

/-- Every timer stays owned, and none that was started outlives a cleanup. -/
structure OwnershipOk (beh : TimerBehaviour) (events : List TimerEvent) : Prop where
  states : ∀ pre, pre <+: events → Ownership (session beh pre)
  cleanups : ∀ pre, pre ++ [.cleanup] <+: events → ∀ tm, Started (session beh pre) tm →
    (session beh (pre ++ [.cleanup])).deleted.count tm = 1

theorem session_concat (beh : TimerBehaviour) (events : List TimerEvent) (e : TimerEvent) :
    session beh (events ++ [e]) = (session beh events).event beh e := List.foldl_concat ..

theorem owned_event {e : TimerEvent} (h : Owned w) (hc : e = .cleanup → w.taskQueue = []) :
    Owned (w.event beh e) := by
  cases e with
  | timerInit | addTickCallback cb | gameTime d | inGame b =>
    exact h.of_heap rfl rfl rfl rfl
  | call o => exact h.perform o
  | timerUpdate time => exact h.timerUpdate time
  | cleanup => exact h.cleanup (hc rfl)

/-- As long as every cleanup finds no timer waiting, all timers are owned. -/
theorem owned_session (beh : TimerBehaviour) (events : List TimerEvent)
    (hc : ∀ pre, pre ++ [.cleanup] <+: events → (session beh pre).taskQueue = []) :
    Owned (session beh events) := by
  induction events using List.reverseRecOn with
  | nil =>
    have hq : Queued init := ⟨by simp [init], by simp [init]⟩
    have he : Entered init := fun tm t h => by simp [init, get] at h
    exact ⟨hq, he, by simp [session, init], by simp [session, init]⟩
  | append_singleton events e ih =>
    rw [session_concat]
    refine owned_event (ih fun pre hp => hc pre (hp.trans (List.prefix_append _ _))) ?_
    rintro rfl
    exact hc events List.prefix_rfl

/-- **Timer ownership.** In a session all timers stay owned, and every timer that was started is
deleted once, at the latest by the next cleanup, if and only if no `Timer_Cleanup` of the session
finds a timer that still waits to be added. -/
theorem ownership_iff (beh : TimerBehaviour) (events : List TimerEvent) :
    OwnershipOk beh events ↔
      ∀ pre, pre ++ [.cleanup] <+: events → (session beh pre).taskQueue = [] := by
  constructor
  · intro hok pre hp
    have hown := hok.states pre ((List.prefix_append _ _).trans hp)
    by_contra hne
    obtain ⟨tm, hm⟩ := List.exists_mem_of_ne_nil _ hne
    obtain ⟨hdel, t, hget⟩ := hown.live tm (List.mem_append_left _ hm)
    have ha : t.added = true := by
      cases ha : t.added with
      | true => rfl
      | false => exact absurd (List.mem_append_left _ hm) ((hown.added tm t hget).2 ha)
    -- the timer waits in the task queue, so it is not in the queue that the cleanup deletes
    have hcount := (hown.added tm t hget).1.mp ha
    rw [List.count_append] at hcount
    have htask := List.count_pos_iff.mpr hm
    have hone := hok.cleanups pre hp tm (.inr (by rw [hget]; exact ha))
    rw [session_concat] at hone
    have hdeleted : ((session beh pre).event beh .cleanup).deleted =
        (session beh pre).deleted ++ (session beh pre).timerQueue := deleted_cleanup _
    rw [hdeleted, List.count_append, List.count_eq_zero.mpr hdel] at hone
    omega
  · intro hc
    have hown : ∀ pre, pre <+: events → Owned (session beh pre) := fun pre hp =>
      owned_session beh pre fun pre' hp' => hc pre' (hp'.trans hp)
    refine ⟨fun pre hp => (hown pre hp).ownership, fun pre hp tm hs => ?_⟩
    have hpre := hown pre ((List.prefix_append _ _).trans hp)
    have hdeleted : (session beh (pre ++ [.cleanup])).deleted =
        (session beh pre).deleted ++ (session beh pre).timerQueue := by
      rw [session_concat]
      exact deleted_cleanup _
    refine List.count_eq_one_of_mem (hown _ hp).once ?_
    rw [hdeleted]
    rcases hs with hdel | ha
    · exact List.mem_append_left _ hdel
    · cases hget : (session beh pre).get tm with
      | none => rw [hget] at ha; cases ha
      | some t =>
        rw [hget] at ha
        have hm := hpre.entered tm t hget ha
        rw [hc pre hp, List.append_nil] at hm
        exact List.mem_append_right _ hm

/-- A timer is started, the game ends before the next update, and the timer is started again. -/
def lostSession : List TimerEvent :=
  [.inGame true, .call (.new 10 0 false true), .call (.start 0), .cleanup, .call (.start 0)]

/-- The timer is not deleted, and no later `start` schedules it. -/
theorem lost_timer :
    ¬ OwnershipOk (fun _ _ => []) lostSession ∧
      (session (fun _ _ => []) lostSession).deleted = [] ∧
      (session (fun _ _ => []) lostSession).taskQueue ++
        (session (fun _ _ => []) lostSession).timerQueue = [] ∧
      ((session (fun _ _ => []) lostSession).get 0).map Timer.added = some true := by
  refine ⟨fun h => ?_, by decide +kernel, by decide +kernel, by decide +kernel⟩
  have h1 := h.cleanups (lostSession.take 3) (by decide) 0 (.inr (by decide +kernel))
  exact absurd h1 (by decide +kernel)

end Timers

end DreamDota
