import DreamDota.Timer.Model

/-!
# What the timer calls do to one timer

A call changes the timer it is made on and no other. So a callback acts on a timer as the calls it
makes on it do (`Timer.perform`), and `update` acts on its own timer as `Timer.update`. Every
property of a single timer is derived from `get_update_self` and `get_update_other`.
-/

namespace DreamDota

/-- The calls of a list that are made on `tm`, one after the other. -/
def Timer.perform (tm : TimerId) (timeRaw : BitVec 32) (ops : List TimerOp) (t : Timer) : Timer :=
  ops.foldl (fun t o => if o.target = some tm then o.effect timeRaw t else t) t

/-- What `update` does to its own timer, when the callback makes the calls `ops`. -/
def Timer.update (tm : TimerId) (timeRaw time : BitVec 32) (ops : List TimerOp) (t : Timer) :
    Timer :=
  if t.paused then { t with lastUpdateTime := time }
  else if (t.advance timeRaw time).timeRemaining = 0 then
    ((t.expire timeRaw time).perform tm timeRaw ops).finish timeRaw
  else t.advance timeRaw time

/-- The calls leave the timer alone. -/
def Spares (tm : TimerId) (ops : List TimerOp) : Prop := ∀ o ∈ ops, o.target ≠ some tm

theorem Spares.tail {tm : TimerId} {o : TimerOp} {ops : List TimerOp} (h : Spares tm (o :: ops)) :
    Spares tm ops :=
  fun o' ho' => h o' (List.mem_cons_of_mem o ho')

namespace Timer

variable {tm : TimerId} {timeRaw time : BitVec 32} {ops : List TimerOp} {t : Timer}

theorem perform_cons (o : TimerOp) :
    t.perform tm timeRaw (o :: ops) =
      (if o.target = some tm then o.effect timeRaw t else t).perform tm timeRaw ops := rfl

theorem perform_spares (h : Spares tm ops) : t.perform tm timeRaw ops = t := by
  induction ops with
  | nil => rfl
  | cons o ops ih =>
    rw [perform_cons, if_neg (h o List.mem_cons_self)]
    exact ih h.tail

/-- A property that every call keeps is kept by a list of calls. -/
theorem perform_induct {P : Timer → Prop} (h : ∀ o ∈ ops, o.target = some tm → ∀ t, P t →
    P (o.effect timeRaw t)) (ht : P t) : P (t.perform tm timeRaw ops) := by
  induction ops generalizing t with
  | nil => exact ht
  | cons o ops ih =>
    rw [perform_cons]
    refine ih (fun o' ho' => h o' (List.mem_cons_of_mem o ho')) ?_
    split_ifs with ho
    · exact h o List.mem_cons_self ho t ht
    · exact ht

/-- No call brings a destroyed timer back, or changes what the constructor fixed. -/
theorem effect_fixed (timeRaw : BitVec 32) (o : TimerOp) (t : Timer) :
    (o.effect timeRaw t).periodic = t.periodic ∧ (o.effect timeRaw t).autoDispose = t.autoDispose ∧
      (t.disposed = true → (o.effect timeRaw t).disposed = true) := by
  cases o <;> simp [TimerOp.effect, start, pause, resume, destroy, setTimeout] <;>
    split_ifs <;> simp_all

theorem perform_fixed (t : Timer) (tm : TimerId) (timeRaw : BitVec 32) (ops : List TimerOp) :
    (t.perform tm timeRaw ops).periodic = t.periodic ∧
      (t.perform tm timeRaw ops).autoDispose = t.autoDispose ∧
      (t.disposed = true → (t.perform tm timeRaw ops).disposed = true) := by
  refine perform_induct (P := fun t' => t'.periodic = t.periodic ∧ t'.autoDispose = t.autoDispose ∧
    (t.disposed = true → t'.disposed = true)) ?_ ⟨rfl, rfl, id⟩
  intro o _ _ t' ht'
  obtain ⟨hp, ha, hd⟩ := effect_fixed timeRaw o t'
  exact ⟨hp.trans ht'.1, ha.trans ht'.2.1, fun h => hd (ht'.2.2 h)⟩

end Timer

namespace Timers

variable {beh : TimerBehaviour} {w : Timers} {tm tm' : TimerId} {t : Timer}

/-! ## The heap -/

@[simp] theorem get_modify (w : Timers) (tm tm' : TimerId) (f : Timer → Timer) :
    (w.modify tm f).get tm' = if tm = tm' then (w.get tm').map f else w.get tm' := by
  by_cases h : tm = tm' <;> cases hx : w.heap[tm']? <;>
    simp_all [get, modify]

@[simp] theorem get_delete (w : Timers) (tm tm' : TimerId) (q : List TimerId) :
    (w.delete tm q).get tm' = if tm = tm' then none else w.get tm' := by
  by_cases h : tm = tm' <;> cases hx : w.heap[tm']? <;>
    simp_all [get, delete]

/-- A timer object that exists is found at its place in the heap. -/
theorem lt_of_get (h : w.get tm = some t) : tm < w.heap.length := by
  by_contra hlt
  rw [get, List.getElem?_eq_none (Nat.le_of_not_lt hlt)] at h
  cases h

@[simp] theorem get_noteUpdate (w : Timers) (tm tm' : TimerId) :
    (w.noteUpdate tm).get tm' = w.get tm' := rfl

@[simp] theorem get_noteFired (w : Timers) (tm tm' : TimerId) :
    (w.noteFired tm).get tm' = w.get tm' := rfl

@[simp] theorem get_noteStart (w : Timers) (tm tm' : TimerId) :
    (w.noteStart tm).get tm' = w.get tm' := by
  unfold noteStart; split_ifs <;> rfl

@[simp] theorem get_add (w : Timers) (tm tm' : TimerId) : (w.add tm).get tm' = w.get tm' := by
  unfold add; split <;> [rfl; (split_ifs <;> rfl)]

@[simp] theorem get_start (w : Timers) (tm tm' : TimerId) :
    (w.start tm).get tm' =
      if tm = tm' then (w.get tm').map (Timer.start w.timeRaw) else w.get tm' := by
  rw [start, get_modify, get_add]

/-! ## The clock -/

@[simp] theorem timeRaw_add (w : Timers) (tm : TimerId) : (w.add tm).timeRaw = w.timeRaw := by
  unfold add; split <;> [rfl; (split_ifs <;> rfl)]

@[simp] theorem timeRaw_noteStart (w : Timers) (tm : TimerId) :
    (w.noteStart tm).timeRaw = w.timeRaw := by
  unfold noteStart; split_ifs <;> rfl

@[simp] theorem timeRaw_perform (w : Timers) (o : TimerOp) :
    (w.perform o).timeRaw = w.timeRaw := by
  cases o <;> simp [perform, modify, start]

/-! ## One call -/

/-- A call changes the timer it is made on alone. -/
theorem get_perform (o : TimerOp) (h : w.get tm = some t) :
    (w.perform o).get tm =
      some (if o.target = some tm then o.effect w.timeRaw t else t) := by
  cases o with
  | new timeout callback periodic autoDispose =>
    rw [show (w.perform (.new timeout callback periodic autoDispose)).get tm = w.get tm by
      unfold get perform; rw [List.getElem?_append_left (lt_of_get h)], h]
    simp [TimerOp.target]
  | start tm' | reset tm' =>
    by_cases hm : tm' = tm <;> simp [perform, TimerOp.target, TimerOp.effect, hm, h]
  | pause tm' | resume tm' | destroy tm' | setTimeout tm' timeout =>
    by_cases hm : tm' = tm <;> simp [perform, TimerOp.target, TimerOp.effect, hm, h]

theorem get_foldl_perform (ops : List TimerOp) (h : w.get tm = some t) :
    (ops.foldl perform w).get tm = some (t.perform tm w.timeRaw ops) ∧
      (ops.foldl perform w).timeRaw = w.timeRaw := by
  induction ops generalizing w t with
  | nil => exact ⟨h, rfl⟩
  | cons o ops ih =>
    have hs := ih (get_perform o h)
    rw [timeRaw_perform] at hs
    exact hs

theorem get_callback (beh : TimerBehaviour) (cb : TimerCallback) (h : w.get tm = some t) :
    (w.callback beh cb).get tm = some (t.perform tm w.timeRaw (beh cb w.calls)) ∧
      (w.callback beh cb).timeRaw = w.timeRaw :=
  get_foldl_perform (w := { w with calls := w.calls + 1 }) _ h

/-! ## `update` -/

theorem get_finish_self (h : w.get tm = some t) :
    (w.finish tm).get tm = some (t.finish w.timeRaw) := by
  unfold finish Timer.finish
  rw [h]
  simp only
  split_ifs
  · exact h
  · rw [get_start, if_pos rfl, get_modify, if_pos rfl, h]
    rfl
  · rw [get_modify, if_pos rfl, h]
    rfl
  · exact h

theorem get_finish_other (hne : tm ≠ tm') : (w.finish tm).get tm' = w.get tm' := by
  unfold finish
  cases w.get tm with
  | none => rfl
  | some t => simp only; split_ifs <;> simp [hne]

/-- `update` acts on its own timer as the calls its callback makes on it do. -/
theorem get_update_self (beh : TimerBehaviour) (time : BitVec 32) (h : w.get tm = some t) :
    (w.update beh time tm).get tm =
      some (t.update tm w.timeRaw time (beh t.callback w.calls)) := by
  unfold update Timer.update
  rw [h]
  simp only
  split_ifs with hp hr
  · simp [h]
  · have hget : (((w.noteUpdate tm).noteFired tm).modify tm (Timer.expire w.timeRaw time)).get tm =
        some (t.expire w.timeRaw time) := by simp [h]
    obtain ⟨hcb, hraw⟩ := get_callback beh t.callback hget
    rw [get_finish_self hcb, hraw]
    rfl
  · simp [h]

/-- `update` acts on another timer as the calls of its callback do, if it runs the callback. -/
theorem get_update_other (beh : TimerBehaviour) (time : BitVec 32) (hne : tm ≠ tm')
    (h : w.get tm' = some t) :
    (w.update beh time tm).get tm' = some t ∨
      ∃ cb, (w.update beh time tm).get tm' =
        some (t.perform tm' w.timeRaw (beh cb w.calls)) := by
  unfold update
  cases hs : w.get tm with
  | none => exact .inl h
  | some s =>
    simp only
    split_ifs with hp hr
    · left; simp [hne, h]
    · right
      have hget : (((w.noteUpdate tm).noteFired tm).modify tm
          (Timer.expire w.timeRaw time)).get tm' = some t := by simp [hne, h]
      refine ⟨s.callback, ?_⟩
      rw [get_finish_other hne, (get_callback beh s.callback hget).1]
      rfl
    · left; simp [hne, h]

end Timers

end DreamDota
