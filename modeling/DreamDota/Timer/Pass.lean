import DreamDota.Timer.Queues

/-!
# A pass over the timers

`Timer_Update` deletes the timers it finds disposed and updates the others, in the order of the
queue. When the update of a timer disposes that timer, the pass deletes it and returns, and the
timers behind it miss their update. `completePass_iff` says exactly which passes are complete, and
`missed_update` is one that is not.

1. `disposed_update`: when the update of a timer disposes it.
2. `pass_spec`: what a pass does, by induction on the timers still to come.
-/

namespace DreamDota

/-- The visit ends the life of its timer: it was found disposed, or its own update disposed it. -/
def Visit.dead (v : Visit) : Bool := v.found || v.own

/-! ## When the update of a timer disposes it -/

namespace Timer

variable {tm : TimerId} {timeRaw time : BitVec 32} {ops : List TimerOp} {t : Timer}

theorem disposed_effect (o : TimerOp) (t : Timer) (ho : o.target = some tm) :
    (o.effect timeRaw t).disposed = true ↔ t.disposed = true ∨ o = .destroy tm := by
  cases o with
  | new timeout callback periodic autoDispose => cases ho
  | start tm' | reset tm' =>
    simp only [TimerOp.effect, start, reduceCtorEq, or_false]
    split_ifs <;> rfl
  | pause tm' | resume tm' | setTimeout tm' timeout =>
    simp [TimerOp.effect, pause, resume, setTimeout]
  | destroy tm' =>
    obtain rfl : tm' = tm := by simpa [TimerOp.target] using ho
    simp [TimerOp.effect, destroy]

theorem disposed_perform :
    (t.perform tm timeRaw ops).disposed = true ↔ t.disposed = true ∨ .destroy tm ∈ ops := by
  induction ops generalizing t with
  | nil => simp [perform]
  | cons o ops ih =>
    rw [perform_cons, ih]
    split_ifs with ho
    · rw [disposed_effect o t ho, List.mem_cons, or_assoc, @eq_comm _ o]
    · have hne : .destroy tm ≠ o := by
        rintro rfl
        exact ho rfl
      simp [hne]

/-- `update` runs the callback. -/
def Expires (timeRaw time : BitVec 32) (t : Timer) : Prop :=
  t.paused = false ∧ (t.advance timeRaw time).timeRemaining = 0

/-- The timer is destroyed by its callback, or it is a one-shot timer that disposes of itself. -/
def EndsItself (tm : TimerId) (ops : List TimerOp) (t : Timer) : Prop :=
  .destroy tm ∈ ops ∨ (t.periodic = false ∧ t.autoDispose = true)

theorem update_expires (h : t.Expires timeRaw time) :
    t.update tm timeRaw time ops =
      ((t.expire timeRaw time).perform tm timeRaw ops).finish timeRaw := by
  unfold update
  rw [if_neg (by simp [h.1]), if_pos h.2]

theorem disposed_finish :
    (t.finish timeRaw).disposed = true ↔
      t.disposed = true ∨ (t.periodic = false ∧ t.autoDispose = true) := by
  unfold finish
  split_ifs with hd hp ha <;> simp_all [start, destroy]

/-- A live timer is disposed after its update if and only if it expired and ended itself. -/
theorem disposed_update (hd : t.disposed = false) :
    (t.update tm timeRaw time ops).disposed = true ↔
      t.Expires timeRaw time ∧ t.EndsItself tm ops := by
  by_cases he : t.Expires timeRaw time
  · obtain ⟨hp, ha, -⟩ := perform_fixed (t.expire timeRaw time) tm timeRaw ops
    rw [update_expires he, disposed_finish, disposed_perform, hp, ha]
    simp [he, hd, EndsItself, expire, advance]
  · have hlive : (t.update tm timeRaw time ops).disposed = false := by
      unfold update
      split_ifs with hp hr
      · exact hd
      · exact absurd ⟨by simpa using hp, hr⟩ he
      · exact hd
    simp [hlive, he]

/-- What remains to a timer that ended itself is what its callback left. -/
theorem remaining_update (he : t.Expires timeRaw time) (hend : t.EndsItself tm ops) :
    (t.update tm timeRaw time ops).timeRemaining =
      ((t.expire timeRaw time).perform tm timeRaw ops).timeRemaining := by
  obtain ⟨hp, ha, -⟩ := perform_fixed (t.expire timeRaw time) tm timeRaw ops
  rw [update_expires he]
  unfold finish
  split_ifs with hdis hper hauto
  · rfl
  · rcases hend with hdes | ⟨hper', -⟩
    · exact absurd (disposed_perform.mpr (.inr hdes)) hdis
    · rw [hp] at hper
      have : t.periodic = true := hper
      rw [hper'] at this
      cases this
  · rfl
  · rfl

end Timer

/-! ## The pass -/

namespace Timers

variable {beh : TimerBehaviour} {w : Timers} {tm : TimerId} {t : Timer}

/-- The timer expires at its update, and ends itself then. -/
def DisposesItself (beh : TimerBehaviour) (time : BitVec 32) (w : Timers) (tm : TimerId) : Prop :=
  ∃ t, w.get tm = some t ∧ t.Expires w.timeRaw time ∧ t.EndsItself tm (beh t.callback w.calls)

/-- The callback of the timer leaves it no remaining time. -/
def LeavesZero (beh : TimerBehaviour) (time : BitVec 32) (w : Timers) (tm : TimerId) : Prop :=
  ∃ t, w.get tm = some t ∧
    ((t.expire w.timeRaw time).perform tm w.timeRaw (beh t.callback w.calls)).timeRemaining = 0

/-- No timer disposes itself in its own update, except that the last one of the queue may, if its
callback leaves it no remaining time. -/
def OnlyLastDisposesItself (beh : TimerBehaviour) (time : BitVec 32) :
    List TimerId → List TimerId → Timers → Prop
  | _, [], _ => True
  | kept, tm :: rest, w =>
    if w.disposed tm then OnlyLastDisposesItself beh time kept rest (w.delete tm (kept ++ rest))
    else
      (w.DisposesItself beh time tm → rest = [] ∧ w.LeavesZero beh time tm) ∧
        OnlyLastDisposesItself beh time (kept ++ [tm]) rest (w.update beh time tm)

/-- A pass from `w` to `w'` reaches every timer of the queue, updates those it does not find
disposed, deletes those that end there and keeps the others, and no timer is lost besides. -/
structure CompletePass (w w' : Timers) (visits : List Visit) : Prop where
  reached : visits.map Visit.timer = w.timerQueue
  once : w.timerQueue.Nodup
  updated : w'.updated = w.updated ++ (visits.filter fun v => !v.found).map Visit.timer
  deleted : w'.deleted = w.deleted ++ (visits.filter Visit.dead).map Visit.timer
  queue : w'.timerQueue = (visits.filter fun v => !v.dead).map Visit.timer
  live : ∀ tm t, w.get tm = some t →
    ((∃ t', w'.get tm = some t') ↔ tm ∉ (visits.filter Visit.dead).map Visit.timer)

theorem disposed_eq (h : w.get tm = some t) : w.disposed tm = t.disposed := by
  simp [disposed, h]

theorem disposed_update_iff (time : BitVec 32) (h : w.get tm = some t) (hd : t.disposed = false) :
    (w.update beh time tm).disposed tm = true ↔ w.DisposesItself beh time tm := by
  rw [disposed_eq (get_update_self beh time h), Timer.disposed_update hd]
  constructor
  · rintro ⟨he, hend⟩
    exact ⟨t, h, he, hend⟩
  · rintro ⟨t', h', he, hend⟩
    obtain rfl := Option.some.inj (h.symm.trans h')
    exact ⟨he, hend⟩

theorem returnsZero_update_iff (time : BitVec 32) (h : w.get tm = some t)
    (hdis : w.DisposesItself beh time tm) :
    (w.update beh time tm).returnsZero tm = true ↔ w.LeavesZero beh time tm := by
  obtain ⟨t', h', he, hend⟩ := hdis
  obtain rfl := Option.some.inj (h.symm.trans h')
  rw [returnsZero, get_update_self beh time h]
  simp only [Option.any_some, beq_iff_eq, Timer.remaining_update he hend]
  constructor
  · intro hz
    exact ⟨t, h, hz⟩
  · rintro ⟨t', h', hz⟩
    obtain rfl := Option.some.inj (h.symm.trans h')
    exact hz

/-- What a pass over `todo` does. `ds` are the timers it deletes. -/
structure PassSpec (beh : TimerBehaviour) (time : BitVec 32) (kept todo : List TimerId)
    (w w' : Timers) (visits : List Visit) (ds : List TimerId) : Prop where
  reached : visits.map Visit.timer <+: todo
  updated : w'.updated = w.updated ++ (visits.filter fun v => !v.found).map Visit.timer
  deleted : w'.deleted = w.deleted ++ ds
  length_le : ds.length ≤ (visits.filter Visit.dead).length
  live : ∀ tm t, w.get tm = some t → ((∃ t', w'.get tm = some t') ↔ tm ∉ ds)
  gone : ∀ tm, tm < w.heap.length → w.get tm = none → w'.get tm = none
  complete : OnlyLastDisposesItself beh time kept todo w → visits.map Visit.timer = todo ∧
    ds = (visits.filter Visit.dead).map Visit.timer ∧
    w'.timerQueue = kept ++ (visits.filter fun v => !v.dead).map Visit.timer
  exact : visits.map Visit.timer = todo → ds = (visits.filter Visit.dead).map Visit.timer →
    OnlyLastDisposesItself beh time kept todo w

theorem passSpec_nil (time : BitVec 32) (kept : List TimerId) (w : Timers)
    (hq : w.timerQueue = kept) : PassSpec beh time kept [] w w [] [] where
  reached := List.prefix_rfl
  updated := by simp
  deleted := by simp
  length_le := by simp
  live := fun tm t h => by simp [h]
  gone := fun _ _ h => h
  complete := fun _ => ⟨rfl, rfl, by simpa using hq⟩
  exact := fun _ _ => trivial

/-- The pass finds a timer disposed. -/
theorem PassSpec.found {time : BitVec 32} {kept rest : List TimerId} {w' : Timers}
    {visits : List Visit} {ds : List TimerId} (h : w.get tm = some t) (hd : t.disposed = true)
    (ih : PassSpec beh time kept rest (w.delete tm (kept ++ rest)) w' visits ds) :
    PassSpec beh time kept (tm :: rest) w w' (⟨tm, true, false⟩ :: visits) (tm :: ds) where
  reached := List.cons_prefix_cons.mpr ⟨rfl, ih.reached⟩
  updated := ih.updated
  deleted := by rw [ih.deleted]; simp [delete]
  length_le := by simpa [Visit.dead] using ih.length_le
  live := by
    intro tm' t' ht'
    by_cases hm : tm = tm'
    · have hgone := ih.gone tm' (by simpa [delete] using lt_of_get ht') (by simp [hm])
      simp [hgone, hm]
    · rw [ih.live tm' t' (by simp [hm, ht'])]
      simp [Ne.symm hm]
  gone := fun tm' hlt hn => ih.gone tm' (by simpa [delete] using hlt) (by simp [hn])
  complete := by
    intro hok
    rw [OnlyLastDisposesItself, if_pos ((disposed_eq h).trans hd)] at hok
    obtain ⟨hr, hds, hq⟩ := ih.complete hok
    exact ⟨by simp [hr], by simp [hds, Visit.dead], by simpa [Visit.dead] using hq⟩
  exact := by
    intro hr hds
    rw [OnlyLastDisposesItself, if_pos ((disposed_eq h).trans hd)]
    exact ih.exact (by simpa using hr) (by simpa [Visit.dead] using hds)

/-- The update of a timer disposes it and answers 0: the pass deletes the timer and returns. -/
theorem PassSpec.last {time : BitVec 32} {kept rest : List TimerId} (h : w.get tm = some t)
    (hd : t.disposed = false) (hdis : w.DisposesItself beh time tm)
    (hz : w.LeavesZero beh time tm) :
    PassSpec beh time kept (tm :: rest) w ((w.update beh time tm).delete tm (kept ++ rest))
      [⟨tm, false, true⟩] [tm] := by
  have hk := kept_update beh time w tm
  refine ⟨by simp, updated_update time h, ?_, by simp [Visit.dead], ?_, ?_, ?_, ?_⟩
  · show (w.update beh time tm).deleted ++ [tm] = _
    rw [hk.deleted]
  · intro tm' t' ht'
    obtain ⟨t'', ht'', -⟩ := hk.survives tm' t' ht'
    by_cases hm : tm = tm'
    · simp [hm]
    · simp [hm, ht'', Ne.symm hm]
  · intro tm' hlt hn
    simp [hk.gone tm' hlt hn]
  · intro hok
    rw [OnlyLastDisposesItself, if_neg (by simp [disposed_eq h, hd])] at hok
    obtain ⟨rfl, -⟩ := hok.1 hdis
    exact ⟨rfl, rfl, by simp [delete, Visit.dead]⟩
  · intro hr _
    obtain rfl : rest = [] := by simpa using hr.symm
    rw [OnlyLastDisposesItself, if_neg (by simp [disposed_eq h, hd])]
    exact ⟨fun _ => ⟨rfl, hz⟩, trivial⟩

/-- The pass goes on after an update. -/
theorem PassSpec.updated_cons {time : BitVec 32} {kept rest : List TimerId} {w' : Timers}
    {visits : List Visit} {ds : List TimerId} (h : w.get tm = some t) (hd : t.disposed = false)
    (hgo : ¬ (w.DisposesItself beh time tm ∧ w.LeavesZero beh time tm))
    (ih : PassSpec beh time (kept ++ [tm]) rest (w.update beh time tm) w' visits ds) :
    PassSpec beh time kept (tm :: rest) w w'
      (⟨tm, false, (w.update beh time tm).disposed tm⟩ :: visits) ds := by
  have hk := kept_update beh time w tm
  have hown : (w.update beh time tm).disposed tm = true ↔ w.DisposesItself beh time tm :=
    disposed_update_iff time h hd
  refine ⟨List.cons_prefix_cons.mpr ⟨rfl, ih.reached⟩, ?_, by rw [ih.deleted, hk.deleted], ?_, ?_,
    ?_, ?_, ?_⟩
  · rw [ih.updated, updated_update time h]
    simp
  · refine Nat.le_trans ih.length_le ?_
    rw [List.filter_cons]
    split_ifs <;> simp
  · intro tm' t' ht'
    obtain ⟨t'', ht'', -⟩ := hk.survives tm' t' ht'
    exact ih.live tm' t'' ht''
  · intro tm' hlt hn
    exact ih.gone tm' (Nat.lt_of_lt_of_le hlt hk.length_le) (hk.gone tm' hlt hn)
  · intro hok
    rw [OnlyLastDisposesItself, if_neg (by simp [disposed_eq h, hd])] at hok
    have hlive : (w.update beh time tm).disposed tm = false := by
      rw [← Bool.not_eq_true, hown]
      exact fun hdis => hgo ⟨hdis, (hok.1 hdis).2⟩
    obtain ⟨hr, hds, hq⟩ := ih.complete hok.2
    rw [hlive]
    exact ⟨by simp [hr], by simpa [Visit.dead] using hds, by simp [hq, Visit.dead]⟩
  · intro hr hds
    rw [OnlyLastDisposesItself, if_neg (by simp [disposed_eq h, hd])]
    -- a timer that its own update disposes and that is not deleted makes `ds` too short
    have hlive : (w.update beh time tm).disposed tm = false := by
      cases hc : (w.update beh time tm).disposed tm with
      | false => rfl
      | true =>
        exact absurd ih.length_le (by rw [hds, hc]; simp [Visit.dead])
    rw [hlive] at hds
    refine ⟨fun hdis => ?_, ih.exact (by simpa using hr) (by simpa [Visit.dead] using hds)⟩
    rw [hown.mpr hdis] at hlive
    cases hlive

/-- **The pass.** Every pass over the timers of a queue meets the specification. -/
theorem pass_spec (beh : TimerBehaviour) (time : BitVec 32) (todo : List TimerId) :
    ∀ (kept : List TimerId) (w : Timers), Queued w → w.timerQueue = kept ++ todo →
      ∃ ds, PassSpec beh time kept todo w
      (pass beh time kept todo w).1 (pass beh time kept todo w).2 ds := by
  induction todo with
  | nil =>
    intro kept w _ hq
    exact ⟨[], passSpec_nil time kept w (by simpa using hq)⟩
  | cons tm rest ih =>
    intro kept w hw hq
    obtain ⟨t, h, -⟩ := hw.added tm (by rw [hq]; simp)
    have hu := (kept_update beh time w tm).timerQueue.trans hq
    rw [pass]
    simp only
    cases hd : t.disposed with
    | true =>
      rw [if_pos ((disposed_eq h).trans hd)]
      obtain ⟨ds, hs⟩ := ih kept _ (hw.delete hq) rfl
      exact ⟨tm :: ds, hs.found h hd⟩
    | false =>
      rw [if_neg (by simp [disposed_eq h, hd])]
      by_cases hend : w.DisposesItself beh time tm ∧ w.LeavesZero beh time tm
      · rw [if_pos (by simp [(disposed_update_iff time h hd).mpr hend.1,
          (returnsZero_update_iff time h hend.1).mpr hend.2])]
        exact ⟨[tm], PassSpec.last h hd hend.1 hend.2⟩
      · obtain ⟨ds, hs⟩ := ih (kept ++ [tm]) _ (hw.update time tm) (by rw [hu]; simp)
        rw [if_neg ?_]
        · exact ⟨ds, hs.updated_cons h hd hend⟩
        · rw [Bool.and_eq_true, disposed_update_iff time h hd]
          rintro ⟨hz, hdis⟩
          exact hend ⟨hdis, (returnsZero_update_iff time h hdis).mp hz⟩

/-- The visits of a call of `Timer_Update`. -/
def visits (beh : TimerBehaviour) (time : BitVec 32) (w : Timers) : List Visit :=
  (pass beh time [] (w.beforePass beh).timerQueue (w.beforePass beh)).2

theorem timerUpdate_eq (time : BitVec 32) (h : w.inGame = true) :
    w.timerUpdate beh time =
      (pass beh time [] (w.beforePass beh).timerQueue (w.beforePass beh)).1 :=
  if_pos h

/-- **The complete pass.** After any session, a call of `Timer_Update` makes a complete pass if and
only if no timer that it updates disposes itself then, except that the last one of the queue may, if
its callback leaves it no remaining time. -/
theorem completePass_iff (beh : TimerBehaviour) (events : List TimerEvent) (time : BitVec 32)
    (hgame : (session beh events).inGame = true) :
    CompletePass ((session beh events).beforePass beh) ((session beh events).timerUpdate beh time)
        ((session beh events).visits beh time) ↔
      OnlyLastDisposesItself beh time [] ((session beh events).beforePass beh).timerQueue
        ((session beh events).beforePass beh) := by
  have hQ : Queued ((session beh events).beforePass beh) := (queued_session beh events).beforePass
  rw [timerUpdate_eq time hgame, visits]
  generalize (session beh events).beforePass beh = w at hQ ⊢
  obtain ⟨ds, hs⟩ := pass_spec beh time w.timerQueue [] w hQ rfl
  constructor
  · intro hc
    refine hs.exact hc.reached ?_
    have hdel := hc.deleted
    rw [hs.deleted] at hdel
    exact List.append_cancel_left hdel
  · intro hok
    obtain ⟨hr, hds, hq⟩ := hs.complete hok
    subst hds
    exact ⟨hr, hQ.nodup.of_append_left, hs.updated, hs.deleted, by simpa using hq, hs.live⟩

/-! ## A pass that is not complete -/

/-- A one-shot timer of ten milliseconds and a timer behind it, ten milliseconds later. -/
def expiringSession : List TimerEvent :=
  [.inGame true, .call (.new 10 0 false true), .call (.new 100 0 false true), .call (.start 0),
    .call (.start 1), .gameTime 10]

theorem completePass_iff_expiring :
    CompletePass ((session (fun _ _ => []) expiringSession).beforePass fun _ _ => [])
        ((session (fun _ _ => []) expiringSession).timerUpdate (fun _ _ => []) 10)
        ((session (fun _ _ => []) expiringSession).visits (fun _ _ => []) 10) ↔
      OnlyLastDisposesItself (fun _ _ => []) 10 []
        ((session (fun _ _ => []) expiringSession).beforePass fun _ _ => []).timerQueue
        ((session (fun _ _ => []) expiringSession).beforePass fun _ _ => []) :=
  completePass_iff (fun _ _ => []) expiringSession 10 rfl

/-- The expiring timer ends the pass, and the timer behind it is not reached. -/
theorem missed_update :
    ¬ CompletePass ((session (fun _ _ => []) expiringSession).beforePass fun _ _ => [])
        ((session (fun _ _ => []) expiringSession).timerUpdate (fun _ _ => []) 10)
        ((session (fun _ _ => []) expiringSession).visits (fun _ _ => []) 10) ∧
      ((session (fun _ _ => []) expiringSession).timerUpdate (fun _ _ => []) 10).updated = [0] ∧
      ((session (fun _ _ => []) expiringSession).timerUpdate (fun _ _ => []) 10).timerQueue =
        [1] := by
  refine ⟨fun h => ?_, by decide +kernel, by decide +kernel⟩
  exact absurd h.reached (by decide +kernel)

end Timers

end DreamDota
