import DreamDota.Interface.KeyRepeat

/-!
# What key repeat sees of the timers

`Sight` is all that the module has to know of a timer, and it knows nothing of the timers of other
code or of those that were destroyed. What other code does, and most of what `Timer_Update` does, is
not seen (`Unseen`).
-/

namespace DreamDota

namespace KeyRepeat

/-! ## Sight -/

/-- A key repeat timer that has not been destroyed. -/
structure Sight where
  kind : Kind
  periodic : Bool
  added : Bool
  paused : Bool
  deriving DecidableEq, Repr

def Sight.of (t : Timer) : Option Sight :=
  if t.disposed then none
  else (Kind.ofCallback t.callback).map fun kind => ⟨kind, t.periodic, t.added, t.paused⟩

def sight (w : Timers) (tm : TimerId) : Option Sight := (w.get tm).bind Sight.of

/-- The queued timers. -/
def queue (w : Timers) : List TimerId := w.timerQueue ++ w.taskQueue

variable {w w' w'' : Timers} {tm tm' : TimerId} {t : Timer} {v : Sight}

theorem Sight.of_eq_some : Sight.of t = some v ↔ t.disposed = false ∧
    t.callback = v.kind.callback ∧ t.periodic = v.periodic ∧ t.added = v.added ∧
    t.paused = v.paused := by
  unfold Sight.of
  split_ifs with hd
  · simp [hd]
  · rw [Option.map_eq_some_iff]
    constructor
    · rintro ⟨kind, hkind, rfl⟩
      exact ⟨eq_false_of_ne_true hd, Kind.ofCallback_eq_some.mp hkind, rfl, rfl, rfl⟩
    · rintro ⟨-, hkind, hp, ha, hpaused⟩
      exact ⟨v.kind, Kind.ofCallback_eq_some.mpr hkind, by rw [hp, ha, hpaused]⟩

theorem Sight.of_foreign (h : (Kind.ofCallback t.callback).isNone = true) : Sight.of t = none := by
  unfold Sight.of
  rw [Option.isNone_iff_eq_none.mp h]
  split_ifs <;> rfl

theorem sight_eq_some : sight w tm = some v ↔ ∃ t, w.get tm = some t ∧ Sight.of t = some v :=
  Option.bind_eq_some_iff

theorem sight_of_get (h : w.get tm = some t) : sight w tm = Sight.of t := by
  rw [sight, h, Option.bind_some]

theorem sight_of_disposed (h : w.disposed tm = true) : sight w tm = none := by
  obtain ⟨t, hget, hd⟩ := (Option.any_eq_true _ _).mp h
  rw [sight_of_get hget, Sight.of, if_pos hd]

theorem lt_of_sight (h : sight w tm = some v) : tm < w.heap.length := by
  obtain ⟨t, hget, -⟩ := sight_eq_some.mp h
  exact Timers.lt_of_get hget

theorem sight_of_heap (h : w'.heap = w.heap) : sight w' = sight w := by
  funext tm
  unfold sight Timers.get
  rw [h]

theorem sight_of_le (h : w.heap.length ≤ tm) : sight w tm = none := by
  rw [sight, Timers.get, List.getElem?_eq_none h]
  rfl

/-- A new timer. -/
theorem sight_new (w : Timers) (t : Timer) : sight { w with heap := w.heap ++ [some t] } =
    Function.update (sight w) w.heap.length (Sight.of t) := by
  funext tm
  rw [Function.update_apply]
  split_ifs with h
  · rw [h, sight, Timers.get, List.getElem?_concat_length]
    rfl
  · by_cases hlt : tm < w.heap.length
    · rw [sight, sight, Timers.get, Timers.get, List.getElem?_append_left hlt]
    · have hle : w.heap.length ≤ tm := Nat.le_of_not_lt hlt
      rw [sight_of_le hle, sight_of_le]
      rw [List.length_append]
      exact Nat.lt_of_le_of_ne hle (Ne.symm h)

/-- A change of one timer. -/
theorem sight_modify (w : Timers) (tm : TimerId) (f : Timer → Timer) :
    sight (w.modify tm f) =
      Function.update (sight w) tm ((w.get tm).bind fun t => Sight.of (f t)) := by
  funext tm'
  rw [sight, Timers.get_modify, Function.update_apply]
  by_cases h : tm = tm'
  · subst h
    rw [if_pos rfl, if_pos rfl]
    cases w.get tm <;> rfl
  · rw [if_neg h, if_neg (Ne.symm h)]
    rfl

/-! ## Changes that are not seen -/

/-- Nothing changes for the key repeat timers. -/
structure Unseen (w w' : Timers) : Prop where
  sight_eq : sight w' = sight w
  mem_queue : ∀ tm v, sight w tm = some v → (tm ∈ queue w' ↔ tm ∈ queue w)
  length_le : w.heap.length ≤ w'.heap.length

theorem Unseen.refl (w : Timers) : Unseen w w := ⟨rfl, fun _ _ _ => Iff.rfl, Nat.le_refl _⟩

theorem Unseen.trans (h : Unseen w w') (h' : Unseen w' w'') : Unseen w w'' where
  sight_eq := h'.sight_eq.trans h.sight_eq
  mem_queue := by
    intro tm v hv
    exact (h'.mem_queue tm v (by rw [h.sight_eq, hv])).trans (h.mem_queue tm v hv)
  length_le := Nat.le_trans h.length_le h'.length_le

/-- A change of the history, the clock, the counters or the order of the queues. -/
theorem Unseen.of_heap (hh : w'.heap = w.heap) (hq : ∀ tm, tm ∈ queue w' ↔ tm ∈ queue w) :
    Unseen w w' where
  sight_eq := sight_of_heap hh
  mem_queue := fun tm _ _ => hq tm
  length_le := Nat.le_of_eq (by rw [hh])

/-- A change of one timer that leaves what is seen of it. -/
theorem Unseen.modify {f : Timer → Timer}
    (h : ∀ t, w.get tm = some t → Sight.of (f t) = Sight.of t) : Unseen w (w.modify tm f) where
  sight_eq := by
    rw [sight_modify]
    refine Function.update_eq_self_iff.mpr ?_
    cases hget : w.get tm with
    | none => rw [sight, hget]; rfl
    | some t => rw [sight_of_get hget, Option.bind_some, h t hget]
  mem_queue := fun _ _ _ => Iff.rfl
  length_le := by simp [Timers.modify]

/-- What other code may change: a timer with another callback, or none. -/
def Foreign (w : Timers) (tm : TimerId) : Prop :=
  (w.get tm).all (fun t => (Kind.ofCallback t.callback).isNone) = true

theorem foreign_of_get (h : w.get tm = some t) :
    Foreign w tm ↔ (Kind.ofCallback t.callback).isNone = true := by
  rw [Foreign, h]
  rfl

theorem Foreign.congr (h : Foreign w tm) (hget : w'.get tm = w.get tm) : Foreign w' tm := by
  unfold Foreign
  rw [hget]
  exact h

theorem Foreign.sight (h : Foreign w tm) : sight w tm = none := by
  cases hget : w.get tm with
  | none => rw [KeyRepeat.sight, hget]; rfl
  | some t =>
    rw [sight_of_get hget]
    exact Sight.of_foreign ((foreign_of_get hget).mp h)

theorem Foreign.modify {f : Timer → Timer} (h : Foreign w tm)
    (hf : ∀ t, (f t).callback = t.callback) : Unseen w (w.modify tm f) := by
  refine Unseen.modify fun t hget => ?_
  have hnone := (foreign_of_get hget).mp h
  rw [Sight.of_foreign hnone, Sight.of_foreign (by rw [hf]; exact hnone)]

theorem callback_start (timeRaw : BitVec 32) (t : Timer) :
    (t.start timeRaw).callback = t.callback := by
  unfold Timer.start
  split_ifs <;> rfl

theorem heap_add (w : Timers) (tm : TimerId) : (w.add tm).heap = w.heap := by
  unfold Timers.add
  split <;> [rfl; (split_ifs <;> rfl)]

theorem heap_noteStart (w : Timers) (tm : TimerId) : (w.noteStart tm).heap = w.heap := by
  unfold Timers.noteStart
  split_ifs <;> rfl

/-- A timer enters the queue that has no sight. -/
theorem unseen_add (h : sight w tm = none) : Unseen w (w.add tm) := by
  have hqueue : queue (w.add tm) = queue w ∨ queue (w.add tm) = queue w ++ [tm] := by
    unfold Timers.add
    split
    · exact .inl rfl
    · split_ifs
      · exact .inr (List.append_assoc _ _ _).symm
      · exact .inl rfl
  refine ⟨sight_of_heap (heap_add w tm), fun tm' v hv => ?_, Nat.le_of_eq (by rw [heap_add])⟩
  rcases hqueue with hq | hq
  · rw [hq]
  · have hne : tm' ≠ tm := by
      rintro rfl
      rw [h] at hv
      cases hv
    rw [hq, List.mem_append, List.mem_singleton]
    exact or_iff_left hne

theorem unseen_noteStart (w : Timers) (tm : TimerId) : Unseen w (w.noteStart tm) := by
  unfold Timers.noteStart
  split_ifs
  · exact Unseen.refl w
  · exact Unseen.of_heap rfl fun _ => Iff.rfl

theorem Foreign.start (h : Foreign w tm) : Unseen w (w.start tm) := by
  have hadd : Foreign (w.add tm) tm := h.congr (Timers.get_add w tm tm)
  exact (unseen_add h.sight).trans (hadd.modify (callback_start w.timeRaw))

/-- A timer of other code is made. -/
theorem unseen_new (ht : (Kind.ofCallback t.callback).isNone = true) :
    Unseen w { w with heap := w.heap ++ [some t] } where
  sight_eq := by
    rw [sight_new, Sight.of_foreign ht]
    exact Function.update_eq_self_iff.mpr (sight_of_le (Nat.le_refl _)).symm
  mem_queue := fun _ _ _ => Iff.rfl
  length_le := by simp

/-- The calls of other code. -/
theorem unseen_perform {o : TimerOp} (h : foreign w o = true) : Unseen w (w.perform o) := by
  cases o with
  | new timeout callback periodic autoDispose => exact unseen_new h
  | start tm | reset tm =>
    have hforeign : Foreign w tm := h
    exact (unseen_noteStart w tm).trans (hforeign.congr (Timers.get_noteStart w tm tm)).start
  | pause tm | resume tm | destroy tm | setTimeout tm timeout =>
    exact Foreign.modify h fun _ => rfl

/-- A timer that was destroyed is deleted. -/
theorem unseen_delete {kept rest : List TimerId} (hd : w.disposed tm = true)
    (hq : w.timerQueue = kept ++ tm :: rest) : Unseen w (w.delete tm (kept ++ rest)) where
  sight_eq := by
    funext tm'
    rw [sight, Timers.get_delete]
    split_ifs with h
    · rw [← h, sight_of_disposed hd]
      rfl
    · rfl
  mem_queue := by
    intro tm' v hv
    have hne : tm' ≠ tm := by
      rintro rfl
      rw [sight_of_disposed hd] at hv
      cases hv
    show tm' ∈ (kept ++ rest) ++ w.taskQueue ↔ tm' ∈ w.timerQueue ++ w.taskQueue
    rw [hq]
    simp [hne]
  length_le := by simp [Timers.delete]

theorem unseen_doUpdateTasks (w : Timers) : Unseen w w.doUpdateTasks :=
  Unseen.of_heap rfl fun tm => by simp [queue, Timers.doUpdateTasks]

/-- The end of an update of a timer that the module does not see. -/
theorem unseen_finish (h : sight w tm = none) : Unseen w (w.finish tm) := by
  unfold Timers.finish
  cases hget : w.get tm with
  | none => exact Unseen.refl w
  | some t =>
    simp only
    by_cases hd : t.disposed = true
    · rw [if_pos hd]
      exact Unseen.refl w
    · rw [if_neg hd]
      have hnone : (Kind.ofCallback t.callback).isNone = true := by
        rw [sight_of_get hget, Sight.of, if_neg hd] at h
        exact Option.isNone_iff_eq_none.mpr (Option.map_eq_none_iff.mp h)
      have hforeign : Foreign w tm := (foreign_of_get hget).mpr hnone
      split_ifs
      · have hcount : Unseen w (w.modify tm fun t => { t with execCount := t.execCount + 1 }) :=
          hforeign.modify fun _ => rfl
        have hget' : (w.modify tm fun t => { t with execCount := t.execCount + 1 }).get tm =
            some { t with execCount := t.execCount + 1 } := by
          rw [Timers.get_modify, if_pos rfl, hget]
          rfl
        exact hcount.trans (Foreign.start ((foreign_of_get hget').mpr hnone))
      · exact hforeign.modify fun _ => rfl
      · exact Unseen.refl w

end KeyRepeat

end DreamDota
