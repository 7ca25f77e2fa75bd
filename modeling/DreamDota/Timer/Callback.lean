import DreamDota.Timer.Timing

/-!
# A callback that modifies its own timer

`update` pauses the timer, runs the callback, and then disposes of a one-shot timer that is to
dispose of itself, or starts a periodic one again. It asks whether the callback destroyed the timer
and nothing else, so it overrides a restart of the former and a pause of the latter, and no other
wish of the callback (`honoursCallback_iff`).
-/

namespace DreamDota

/-! ## What the callback asks for -/

namespace Timers

end Timers

namespace Timers

variable {beh : TimerBehaviour} {w w' : Timers} {tm tm' : TimerId} {t : Timer}

/-- The timer is destroyed or deleted. -/
structure Dead (w : Timers) (tm : TimerId) : Prop where
  lt : tm < w.heap.length
  disposed : ∀ t, w.get tm = some t → t.disposed = true

/-- From `w` to `w'` the timer stays dead, and nothing is noted about it. -/
structure StaysDead (tm : TimerId) (w w' : Timers) : Prop where
  dead : Dead w' tm
  hist : w'.hist tm = w.hist tm

theorem StaysDead.trans {w'' : Timers} (h : StaysDead tm w w') (h' : StaysDead tm w' w'') :
    StaysDead tm w w'' :=
  ⟨h'.dead, h'.hist.trans h.hist⟩

theorem Dead.of_kept (h : Dead w tm) (hk : Kept w w') : Dead w' tm where
  lt := Nat.lt_of_lt_of_le h.lt hk.length_le
  disposed := by
    intro t' ht'
    cases hget : w.get tm with
    | none =>
      rw [hk.gone tm h.lt hget] at ht'
      cases ht'
    | some t =>
      obtain ⟨t'', ht'', hd, -⟩ := hk.survives tm t hget
      rw [ht'] at ht''
      rw [Option.some.inj ht'']
      exact hd (h.disposed t hget)

theorem Dead.staysDead (h : Dead w tm) (hk : Kept w w') (hh : w'.hist tm = w.hist tm) :
    StaysDead tm w w' :=
  ⟨h.of_kept hk, hh⟩

theorem Dead.perform (h : Dead w tm) (o : TimerOp) : StaysDead tm w (w.perform o) := by
  refine h.staysDead (kept_perform w o) ?_
  by_cases ho : o.target = some tm
  · have hnote : w.noteStart tm = w := by
      unfold noteStart
      rw [if_pos]
      cases hget : w.get tm with
      | none => rfl
      | some t => simpa using h.disposed t hget
    cases o with
    | new timeout callback periodic autoDispose => rfl
    | start tm' | reset tm' =>
      obtain rfl : tm' = tm := by simpa [TimerOp.target] using ho
      simp [Timers.perform, start, modify, hnote]
    | pause tm' | resume tm' | destroy tm' | setTimeout tm' timeout => rfl
  · exact (sameTime_perform w ho).hist

theorem Dead.foldl_perform (ops : List TimerOp) (h : Dead w tm) :
    StaysDead tm w (ops.foldl Timers.perform w) := by
  induction ops generalizing w with
  | nil => exact ⟨h, rfl⟩
  | cons o ops ih => exact (h.perform o).trans (ih (h.perform o).dead)

theorem Dead.callback (h : Dead w tm) (cb : TimerCallback) :
    StaysDead tm w (w.callback beh cb) := by
  have hc : Dead { w with calls := w.calls + 1 } tm := ⟨h.lt, h.disposed⟩
  have hs := hc.foldl_perform (beh cb w.calls)
  exact ⟨hs.dead, hs.hist⟩

/-- The update of another timer, or of one that is deleted. -/
theorem Dead.update (h : Dead w tm) (time : BitVec 32) (hne : tm' ≠ tm ∨ w.get tm = none) :
    StaysDead tm w (w.update beh time tm') := by
  refine h.staysDead (kept_update beh time w tm') ?_
  unfold Timers.update
  split
  · rfl
  · rename_i s hs
    have hm : tm' ≠ tm := by
      rcases hne with hm | hnone
      · exact hm
      · rintro rfl
        rw [hnone] at hs
        cases hs
    have hnote : (w.noteUpdate tm').hist tm = w.hist tm := by simp [noteUpdate, hist_note, hm]
    split_ifs
    · exact hnote
    · rw [(sameTime_finish tm _ tm').hist]
      have hdead : Dead ((((w.noteUpdate tm').noteFired tm').modify tm'
          (Timer.expire w.timeRaw time))) tm := by
        refine ⟨by simpa [modify, noteFired, noteUpdate, note] using h.lt, fun t ht => ?_⟩
        simp [hm] at ht
        exact h.disposed t ht
      rw [(hdead.callback _).hist]
      simp [noteUpdate, noteFired, modify, hist_note, hm]
    · exact hnote

theorem Dead.delete (h : Dead w tm) (queue : List TimerId) :
    StaysDead tm w (w.delete tm' queue) := by
  refine ⟨⟨by simpa [Timers.delete] using h.lt, fun t ht => ?_⟩, rfl⟩
  by_cases hm : tm' = tm
  · simp [hm] at ht
  · simp [hm] at ht
    exact h.disposed t ht

/-- `Timer_Update` deletes a destroyed timer, and updates none. -/
theorem Dead.pass (time : BitVec 32) (todo : List TimerId) (kept : List TimerId) (h : Dead w tm) :
    StaysDead tm w (Timers.pass beh time kept todo w).1 := by
  induction todo generalizing kept w with
  | nil => exact ⟨h, rfl⟩
  | cons tm' rest ih =>
    rw [Timers.pass]
    simp only
    split_ifs with hdis
    · exact (h.delete _).trans (ih kept (h.delete _).dead)
    all_goals
      have hne : tm' ≠ tm ∨ w.get tm = none := by
        by_cases hm : tm' = tm
        · right
          cases hget : w.get tm with
          | none => rfl
          | some t => exact absurd (by rw [hm, disposed_eq hget]; exact h.disposed t hget) hdis
        · exact .inl hm
      have hu : StaysDead tm w (w.update beh time tm') := h.update time hne
    · exact hu.trans (hu.dead.delete _)
    · exact hu.trans (ih _ hu.dead)

theorem Dead.event (h : Dead w tm) (e : TimerEvent) : StaysDead tm w (w.event beh e) := by
  cases e with
  | timerInit | addTickCallback cb | gameTime d | inGame b => exact ⟨⟨h.lt, h.disposed⟩, rfl⟩
  | call o => exact h.perform o
  | timerUpdate time =>
    show StaysDead tm w (w.timerUpdate beh time)
    unfold timerUpdate
    split_ifs
    · have key : ∀ (cbs : List TimerCallback) (w : Timers), Dead w tm →
          StaysDead tm w (cbs.foldl (Timers.callback beh) w) := by
        intro cbs
        induction cbs with
        | nil => exact fun _ h => ⟨h, rfl⟩
        | cons cb cbs ih => exact fun w h => (h.callback cb).trans (ih _ (h.callback cb).dead)
      have hs := key w.tickCallbacks w h
      have hb : StaysDead tm w (w.beforePass beh) := ⟨⟨hs.dead.lt, hs.dead.disposed⟩, hs.hist⟩
      exact hb.trans (hb.dead.pass time _ [])
    · exact ⟨h, rfl⟩
  | cleanup =>
    have key : ∀ (queue : List TimerId) (w : Timers), Dead w tm →
        StaysDead tm w (queue.foldl (fun w tm' => w.delete tm' w.timerQueue) w) := by
      intro queue
      induction queue with
      | nil => exact fun _ h => ⟨h, rfl⟩
      | cons tm' queue ih => exact fun w h => (h.delete _).trans (ih _ (h.delete _).dead)
    have hs := key w.timerQueue w h
    exact ⟨⟨hs.dead.lt, hs.dead.disposed⟩, hs.hist⟩

variable {timeRaw time : BitVec 32} {ops : List TimerOp}

/-- No call but `destroy`, `pause` and `setTimeout` keeps a timer from being just started. -/
theorem Fresh.effect (h : Fresh timeRaw t) (o : TimerOp) (hd : o ≠ .destroy tm)
    (hp : o ≠ .pause tm) (hs : ∀ timeout, o ≠ .setTimeout tm timeout) (ho : o.target = some tm) :
    Fresh timeRaw (o.effect timeRaw t) ∧ (o.effect timeRaw t).timeout = t.timeout := by
  obtain ⟨hdis, hpau, hrem, hlast⟩ := h
  cases o with
  | new timeout callback periodic autoDispose => cases ho
  | start tm' | reset tm' =>
    exact ⟨fresh_start timeRaw hdis, by simp [TimerOp.effect, Timer.start, hdis]⟩
  | resume tm' => exact ⟨⟨hdis, rfl, hrem, hlast⟩, rfl⟩
  | pause tm' | destroy tm' | setTimeout tm' timeout =>
    obtain rfl : tm' = tm := by simpa [TimerOp.target] using ho
    simp_all

end Timers

end DreamDota
