import DreamDota.Interface.KeyRepeatSight
import DreamDota.Lib.Bimap
import DreamDota.Lib.Session

/-!
# The key repeat arrays own their timers

The entries of the two arrays and the key repeat timers that have not been destroyed are partners,
one to one.

1. `Inv`: the partners, and what holds of a timer that has one.
2. `Handled`: what the handlers and other code keep.
3. `Good.step`: what every action keeps, the turns of `Timer_Update` included.
4. `slotsOk_session`: every entry points to its timer, in every game.
-/

namespace DreamDota

namespace KeyRepeat

open Input (keyAllowedToRepeat)

variable {w : Timers} {v : Sight}

/-! ## The invariant -/

namespace State

variable {s s' : State} {r r' : Option TimerId} {p : Slot} {k : ℤ}

/-- The entry that a timer of this game belongs to: that of its kind and its data. -/
def owner (s : State) (tm : TimerId) : Option Slot :=
  if s.begun ≤ tm then (sight s.timers tm).bind fun v => (s.data tm).map fun k => (v.kind, k)
  else none

/-- What holds of a timer of this game, while `r` is the timer whose callback runs. -/
structure Repeating (data : TimerId → Option ℤ) (r : Option TimerId) (tm : TimerId) (v : Sight) :
    Prop where
  periodic : v.periodic = v.kind.periodic
  added : v.added = true
  running : v.paused = true → r = some tm
  key : ∃ k, data tm = some k ∧ keyAllowedToRepeat k = true

/-- The entries and the timers are partners, and the queues hold the timers of this game. -/
structure Inv (r : Option TimerId) (s : State) : Prop where
  begun : s.begun ≤ s.timers.heap.length
  partners : ∃ f : Slot ≃. TimerId, ⇑f = s.slot ∧ ⇑f.symm = s.owner
  own : ∀ tm v, s.begun ≤ tm → sight s.timers tm = some v → Repeating s.data r tm v
  queued : ∀ tm v, sight s.timers tm = some v → (tm ∈ queue s.timers ↔ s.begun ≤ tm)

theorem Inv.slot_iff (h : Inv r s) {tm : TimerId} : s.slot p = some tm ↔ s.owner tm = some p := by
  obtain ⟨f, hslot, howner⟩ := h.partners
  rw [← hslot, ← howner]
  exact f.eq_some_iff.symm

theorem owner_eq_some {tm : TimerId} : s.owner tm = some p ↔ s.begun ≤ tm ∧
    ∃ v, sight s.timers tm = some v ∧ v.kind = p.1 ∧ s.data tm = some p.2 := by
  unfold owner
  split_ifs with hb
  · rw [Option.bind_eq_some_iff]
    simp [hb, Prod.ext_iff, and_comm, and_assoc]
  · simp [hb]

/-- A change of the timers that only pauses and resumes those of the module. -/
theorem Inv.retime (h : Inv r s) {g : TimerId → Sight → Bool}
    (hsight : ∀ tm, sight w tm = (sight s.timers tm).map fun v => { v with paused := g tm v })
    (hqueue : ∀ tm v, sight s.timers tm = some v → (tm ∈ queue w ↔ tm ∈ queue s.timers))
    (hlength : s.timers.heap.length ≤ w.heap.length)
    (hg : ∀ tm v, sight s.timers tm = some v → s.begun ≤ tm → g tm v = true → r' = some tm) :
    Inv r' { s with timers := w } := by
  have hold : ∀ {tm v}, sight w tm = some v →
      ∃ v', sight s.timers tm = some v' ∧ v = { v' with paused := g tm v' } := by
    intro tm v hv
    rw [hsight] at hv
    obtain ⟨v', hv', rfl⟩ := Option.map_eq_some_iff.mp hv
    exact ⟨v', hv', rfl⟩
  refine ⟨Nat.le_trans h.begun hlength, ?_, ?_, ?_⟩
  · have howner : State.owner { s with timers := w } = s.owner := by
      funext tm
      unfold State.owner
      rw [hsight, Option.bind_map]
      rfl
    rw [howner]
    exact h.partners
  · intro tm v hb hv
    obtain ⟨v', hv', rfl⟩ := hold hv
    obtain ⟨hp, ha, -, hk⟩ := h.own tm v' hb hv'
    exact ⟨hp, ha, hg tm v' hv' hb, hk⟩
  · intro tm v hv
    obtain ⟨v', hv', -⟩ := hold hv
    exact (hqueue tm v' hv').trans (h.queued tm v' hv')

/-- What other code does. -/
theorem Inv.unseen (h : Inv r s) (hw : Unseen s.timers w) : Inv r { s with timers := w } := by
  refine h.retime (g := fun _ v => v.paused) (fun tm => ?_) hw.mem_queue hw.length_le ?_
  · rw [hw.sight_eq]
    exact Option.map_id'.symm
  · exact fun tm v hv hb => (h.own tm v hb hv).running

/-- An update pauses or resumes a timer of the module. -/
theorem Inv.setPaused (h : Inv r s) (tm : TimerId) {b : Bool}
    (hsight : sight w = Function.update (sight s.timers) tm
      ((sight s.timers tm).map fun v => { v with paused := b }))
    (hqueue : ∀ tm v, sight s.timers tm = some v → (tm ∈ queue w ↔ tm ∈ queue s.timers))
    (hlength : s.timers.heap.length ≤ w.heap.length) (hb : b = true → r' = some tm)
    (hr : ∀ tm', tm' ≠ tm → r = some tm' → r' = some tm') : Inv r' { s with timers := w } := by
  refine h.retime (g := fun tm' v => if tm' = tm then b else v.paused) (fun tm' => ?_) hqueue
    hlength fun tm' v hv hbegun hpaused => ?_
  · rw [hsight, Function.update_apply]
    split_ifs with htm
    · rw [htm]
    · exact Option.map_id'.symm
  · split_ifs at hpaused with htm
    · exact htm ▸ hb hpaused
    · exact hr tm' htm ((h.own tm' v hbegun hv).running hpaused)

/-- A timer with an entry. -/
theorem Inv.slot_spec (h : Inv r s) {tm : TimerId} (hp : s.slot p = some tm) : s.begun ≤ tm ∧
    (∃ v, sight s.timers tm = some v ∧ v.kind = p.1) ∧ s.data tm = some p.2 := by
  obtain ⟨hb, v, hv, hkind, hdata⟩ := owner_eq_some.mp (h.slot_iff.mp hp)
  exact ⟨hb, ⟨v, hv, hkind⟩, hdata⟩

/-- The entries of a key that does not repeat are empty. -/
theorem Inv.allowed (h : Inv r s) {tm : TimerId} (hp : s.slot p = some tm) :
    keyAllowedToRepeat p.2 = true := by
  obtain ⟨hb, ⟨v, hv, -⟩, hdata⟩ := h.slot_spec hp
  obtain ⟨k, hk, hallowed⟩ := (h.own tm v hb hv).key
  rw [hdata] at hk
  exact Option.some.inj hk ▸ hallowed

/-! ## The operations -/

theorem sight_destroy (w : Timers) (tm : TimerId) :
    sight (w.perform (.destroy tm)) = Function.update (sight w) tm none := by
  show sight (w.modify tm Timer.destroy) = _
  rw [sight_modify]
  cases w.get tm <;> rfl

theorem Inv.clear (h : Inv r s) (p : Slot) : Inv r (s.clear p) := by
  unfold State.clear
  cases hp : s.slot p with
  | none => exact h
  | some tm =>
    have hsight := sight_destroy s.timers tm
    have hold : ∀ {tm' v}, sight (s.timers.perform (.destroy tm)) tm' = some v →
        tm' ≠ tm ∧ sight s.timers tm' = some v := by
      intro tm' v hv
      rw [hsight, Function.update_apply] at hv
      split_ifs at hv with hne
      exact ⟨hne, hv⟩
    refine ⟨?_, ?_, ?_, ?_⟩
    · exact Nat.le_trans h.begun (Timers.kept_perform s.timers (.destroy tm)).length_le
    · obtain ⟨f, hslot, howner⟩ := h.partners
      refine ⟨f.unlink tm, ?_, ?_⟩
      · rw [PEquiv.coe_unlink (hslot ▸ hp), hslot]
      · rw [PEquiv.coe_unlink_symm, howner]
        funext tm'
        rw [Function.update_apply]
        simp only [State.owner, hsight, Function.update_apply]
        split_ifs <;> rfl
    · exact fun tm' v hb hv => h.own tm' v hb (hold hv).2
    · exact fun tm' v hv => h.queued tm' v (hold hv).2

/-- A timer is made and started. -/
theorem sight_startTimer (s : State) (p : Slot) : sight (s.startTimer p).timers =
    Function.update (sight s.timers) s.timers.heap.length
      (some ⟨p.1, p.1.periodic, true, false⟩) := by
  set n := s.timers.heap.length with hn
  set t := Timer.new (s.timeout p.1) p.1.callback p.1.periodic true with ht
  set w₁ : Timers := { s.timers with heap := s.timers.heap ++ [some t] } with hw₁
  have hget : w₁.get n = some t := by
    rw [Timers.get, List.getElem?_concat_length]
    rfl
  have hadd : sight ((w₁.noteStart n).add n) = sight w₁ :=
    (sight_of_heap (heap_add _ n)).trans (sight_of_heap (heap_noteStart w₁ n))
  have hstarted : Sight.of (t.start w₁.timeRaw) = some ⟨p.1, p.1.periodic, true, false⟩ :=
    Sight.of_eq_some.mpr ⟨rfl, rfl, rfl, rfl, rfl⟩
  show sight (((w₁.noteStart n).add n).modify n (Timer.start (w₁.noteStart n).timeRaw)) = _
  rw [sight_modify, hadd, Timers.get_add, Timers.get_noteStart, hget, Option.bind_some,
    Timers.timeRaw_noteStart, hstarted, hw₁, sight_new, Function.update_idem]

/-- The new timer waits to be added. -/
theorem queue_startTimer (s : State) (p : Slot) :
    queue (s.startTimer p).timers = queue s.timers ++ [s.timers.heap.length] := by
  set n := s.timers.heap.length with hn
  set w₁ := s.timers.perform (.new (s.timeout p.1) p.1.callback p.1.periodic true) with hw₁
  have hget : w₁.get n = some (Timer.new (s.timeout p.1) p.1.callback p.1.periodic true) := by
    rw [Timers.get, hw₁, Timers.perform, List.getElem?_concat_length]
    rfl
  have hnote : (w₁.noteStart n).taskQueue = s.timers.taskQueue := by
    unfold Timers.noteStart
    split_ifs <;> rfl
  have htask : ((w₁.noteStart n).start n).taskQueue = s.timers.taskQueue ++ [n] := by
    rw [Timers.taskQueue_start, Timers.get_noteStart, hget, hnote]
    exact if_pos rfl
  have htimer : ((w₁.noteStart n).start n).timerQueue = s.timers.timerQueue :=
    (Timers.kept_perform w₁ (.start n)).timerQueue
  show ((w₁.noteStart n).start n).timerQueue ++ ((w₁.noteStart n).start n).taskQueue = _
  rw [htimer, htask, ← List.append_assoc]
  rfl

theorem length_startTimer_le (s : State) (p : Slot) :
    s.timers.heap.length ≤ (s.startTimer p).timers.heap.length :=
  Nat.le_trans (Timers.kept_perform s.timers _).length_le (Timers.kept_perform _ (.start _)).length_le

theorem owner_startTimer (p : Slot) (hb : s.begun ≤ s.timers.heap.length) :
    (s.startTimer p).owner = Function.update s.owner s.timers.heap.length (some p) := by
  funext tm
  have hself : (s.startTimer p).owner tm = if s.begun ≤ tm then
      (sight (s.startTimer p).timers tm).bind fun v =>
        (Function.update s.data s.timers.heap.length (some p.2) tm).map fun k => (v.kind, k)
      else none := rfl
  rw [hself, sight_startTimer]
  by_cases htm : tm = s.timers.heap.length
  · rw [htm, if_pos hb, Function.update_self, Function.update_self, Function.update_self]
    rfl
  · rw [Function.update_of_ne htm, Function.update_of_ne htm, Function.update_of_ne htm]
    rfl

theorem Inv.startTimer (h : Inv r s) (hp : s.slot p = none) (hk : keyAllowedToRepeat p.2 = true) :
    Inv r (s.startTimer p) := by
  set n := s.timers.heap.length with hn
  have hsight := sight_startTimer s p
  refine ⟨Nat.le_trans h.begun (length_startTimer_le s p), ?_, fun tm v hb hv => ?_,
    fun tm v hv => ?_⟩
  · obtain ⟨f, hslot, howner⟩ := h.partners
    have hfree : f.symm n = none := by
      rw [howner, State.owner, sight_of_le (Nat.le_refl _), Option.bind_none]
      exact ite_self none
    refine ⟨f.link p n, ?_, ?_⟩
    · rw [PEquiv.coe_link hfree, hslot]
      rfl
    · rw [PEquiv.coe_link_symm (hslot ▸ hp), howner, owner_startTimer p h.begun]
  · rw [hsight, Function.update_apply] at hv
    have hdata : (s.startTimer p).data tm = if tm = n then some p.2 else s.data tm :=
      Function.update_apply ..
    split_ifs at hv with htm
    · obtain rfl := Option.some.inj hv
      exact ⟨rfl, rfl, fun hpaused => absurd hpaused Bool.false_ne_true,
        p.2, by rw [hdata, if_pos htm], hk⟩
    · obtain ⟨hperiodic, ha, hr, hkey⟩ := h.own tm v hb hv
      exact ⟨hperiodic, ha, hr, by rwa [hdata, if_neg htm]⟩
  · show tm ∈ queue (s.startTimer p).timers ↔ s.begun ≤ tm
    rw [queue_startTimer, List.mem_append, List.mem_singleton]
    rw [hsight, Function.update_apply] at hv
    split_ifs at hv with htm
    · rw [htm]
      exact iff_of_true (.inr rfl) h.begun
    · rw [or_iff_left htm]
      exact h.queued tm v hv

/-! ## The handlers -/

/-- What the handlers and other code leave alone: the queue of the pass, and what the timers that
exist are. -/
structure Frame (s s' : State) : Prop where
  timerQueue : s'.timers.timerQueue = s.timers.timerQueue
  control : s'.control = s.control
  length_le : s.timers.heap.length ≤ s'.timers.heap.length
  kind : ∀ tm v', tm < s.timers.heap.length → sight s'.timers tm = some v' →
    ∃ v, sight s.timers tm = some v ∧ v'.kind = v.kind

theorem Frame.refl (s : State) : Frame s s :=
  ⟨rfl, rfl, Nat.le_refl _, fun _ v' _ hv => ⟨v', hv, rfl⟩⟩

theorem Frame.trans {s'' : State} (h : Frame s s') (h' : Frame s' s'') : Frame s s'' where
  timerQueue := h'.timerQueue.trans h.timerQueue
  control := h'.control.trans h.control
  length_le := Nat.le_trans h.length_le h'.length_le
  kind := by
    intro tm v'' hlt hv
    obtain ⟨v', hv', hkind'⟩ := h'.kind tm v'' (Nat.lt_of_lt_of_le hlt h.length_le) hv
    obtain ⟨v, hv, hkind⟩ := h.kind tm v' hlt hv'
    exact ⟨v, hv, hkind'.trans hkind⟩

/-- A timer that is not seen before is not seen after. -/
theorem Frame.sight_none (h : Frame s s') {tm : TimerId} (hlt : tm < s.timers.heap.length)
    (hnone : sight s.timers tm = none) : sight s'.timers tm = none := by
  refine Option.eq_none_iff_forall_ne_some.mpr fun v' hv' => ?_
  obtain ⟨v, hv, -⟩ := h.kind tm v' hlt hv'
  rw [hnone] at hv
  cases hv

theorem Frame.unseen (hw : Unseen s.timers w) (hq : w.timerQueue = s.timers.timerQueue) :
    Frame s { s with timers := w } where
  timerQueue := hq
  control := rfl
  length_le := hw.length_le
  kind := fun _ v' _ hv => ⟨v', hw.sight_eq ▸ hv, rfl⟩

theorem frame_clear (s : State) (p : Slot) : Frame s (s.clear p) := by
  unfold State.clear
  cases hp : s.slot p with
  | none => exact .refl s
  | some tm =>
    have hk := Timers.kept_perform s.timers (.destroy tm)
    refine ⟨hk.timerQueue, rfl, hk.length_le, fun tm' v' _ hv => ⟨v', ?_, rfl⟩⟩
    rw [sight_destroy, Function.update_apply] at hv
    split_ifs at hv
    exact hv

theorem frame_startTimer (s : State) (p : Slot) : Frame s (s.startTimer p) where
  timerQueue := (Timers.kept_perform _ (.start _)).timerQueue.trans
    (Timers.kept_perform s.timers _).timerQueue
  control := rfl
  length_le := length_startTimer_le s p
  kind := by
    intro tm v' hlt hv
    rw [sight_startTimer, Function.update_of_ne (Nat.ne_of_lt hlt)] at hv
    exact ⟨v', hv, rfl⟩

/-- What a handler does. -/
structure Handled (s s' : State) : Prop extends Frame s s' where
  inv : ∀ r, Inv r s → Inv r s'

theorem Handled.refl (s : State) : Handled s s := ⟨.refl s, fun _ h => h⟩

theorem Handled.trans {s'' : State} (h : Handled s s') (h' : Handled s' s'') : Handled s s'' :=
  ⟨h.toFrame.trans h'.toFrame, fun r hs => h'.inv r (h.inv r hs)⟩

theorem Handled.unseen (hw : Unseen s.timers w) (hq : w.timerQueue = s.timers.timerQueue) :
    Handled s { s with timers := w } := ⟨.unseen hw hq, fun _ h => h.unseen hw⟩

theorem handled_clear (s : State) (p : Slot) : Handled s (s.clear p) :=
  ⟨frame_clear s p, fun _ h => h.clear p⟩

theorem handled_startTimer (hp : s.slot p = none) (hk : keyAllowedToRepeat p.2 = true) :
    Handled s (s.startTimer p) := ⟨frame_startTimer s p, fun _ h => h.startTimer hp hk⟩

theorem slot_clear (s : State) (p q : Slot) :
    (s.clear p).slot q = if q = p then none else s.slot q := by
  unfold State.clear
  cases hp : s.slot p with
  | none =>
    split_ifs with h
    · rw [h, hp]
    · rfl
  | some tm => exact Function.update_apply ..

theorem slot_clear_self (s : State) (p : Slot) : (s.clear p).slot p = none := by
  rw [slot_clear, if_pos rfl]

theorem handled_clearKey (s : State) (k : ℤ) : Handled s (s.clearKey k) :=
  (handled_clear s _).trans (handled_clear _ _)

theorem handled_onKeyDown (s : State) (k : ℤ) : Handled s (s.onKeyDown k) := by
  unfold State.onKeyDown
  split_ifs with henable hk hslot
  · exact .refl s
  · exact (handled_clear s _).trans (handled_startTimer (slot_clear_self s _) hk)
  · exact .refl s
  · exact .refl s

theorem handled_onKeyUp (s : State) (k : ℤ) : Handled s (s.onKeyUp k) := by
  unfold State.onKeyUp
  split_ifs
  · exact handled_clearKey s k
  · exact .refl s

theorem handled_foldl_clearKey (keys : List ℕ) (s : State) :
    Handled s (keys.foldl (fun s (k : ℕ) => s.clearKey k) s) := by
  induction keys generalizing s with
  | nil => exact .refl s
  | cons k keys ih => exact (handled_clearKey s k).trans (ih _)

theorem handled_event (s : State) (e : Event) : Handled s (s.event e) := by
  cases e with
  | keyDown k => exact handled_onKeyDown s k
  | keyUp k => exact handled_onKeyUp s k
  | focus => exact handled_foldl_clearKey _ s
  | enable n | keys keyIsDown =>
    exact ⟨⟨rfl, rfl, Nat.le_refl _, fun _ v _ hv => ⟨v, hv, rfl⟩⟩,
      fun _ h => ⟨h.begun, h.partners, h.own, h.queued⟩⟩
  | call o =>
    show Handled s (if foreign s.timers o then s.lift fun w => w.perform o else s)
    split_ifs with ho
    · exact .unseen (unseen_perform ho) (Timers.kept_perform s.timers o).timerQueue
    · exact .refl s
  | gameTime d | inGame b => exact .unseen (Unseen.of_heap rfl fun _ => Iff.rfl) rfl

/-- The delay is over. The timer of the delay was in its entry, and it is destroyed. -/
theorem handled_onRepeatDelayExpired (h : Inv r s) {tm : TimerId} (hb : s.begun ≤ tm)
    (hv : sight s.timers tm = some v) (hkind : v.kind = .repeatDelayTimer) :
    Handled s (s.onRepeatDelayExpired tm) ∧
      sight (s.onRepeatDelayExpired tm).timers tm = none := by
  obtain ⟨k, hdata, hk⟩ := (h.own tm v hb hv).key
  have hslot : s.slot (.repeatDelayTimer, k) = some tm :=
    h.slot_iff.mpr (owner_eq_some.mpr ⟨hb, v, hv, hkind, hdata⟩)
  have hclear : Handled s (s.clear (.repeatDelayTimer, k)) := handled_clear s _
  have hlt : tm < (s.clear (.repeatDelayTimer, k)).timers.heap.length :=
    Nat.lt_of_lt_of_le (lt_of_sight hv) hclear.length_le
  have hgone : sight (s.clear (.repeatDelayTimer, k)).timers tm = none := by
    unfold State.clear
    rw [hslot]
    show sight (s.timers.perform (.destroy tm)) tm = none
    rw [sight_destroy, Function.update_self]
  have hrest : ∀ s', Handled (s.clear (.repeatDelayTimer, k)) s' →
      Handled s s' ∧ sight s'.timers tm = none :=
    fun s' hs => ⟨hclear.trans hs, hs.sight_none hlt hgone⟩
  unfold State.onRepeatDelayExpired
  rw [hdata]
  simp only
  split_ifs with hdown hnone
  · exact hrest _ (handled_startTimer (Option.isNone_iff_eq_none.mp hnone) hk)
  · exact hrest _ (.refl _)
  · exact hrest _ (handled_clear _ _)

/-! ## `Timer_Update` -/

/-- The queue is as the loop left it, and a callback that runs is not the one of a delay. -/
def Shape (s : State) : Prop :=
  match s.control with
  | .idle | .ticks _ => True
  | .pass _ kept rest => s.timers.timerQueue = kept ++ rest
  | .callback _ kept tm rest => s.timers.timerQueue = kept ++ tm :: rest ∧
      tm < s.timers.heap.length ∧ ∀ v, sight s.timers tm = some v → v.kind = .repeatTimer

/-- What holds between the handlers. -/
structure Good (s : State) : Prop where
  inv : Inv s.control.running s
  shape : Shape s

theorem Inv.setControl (h : Inv r s) (c : Control) : Inv r { s with control := c } :=
  ⟨h.begun, h.partners, h.own, h.queued⟩

/-- The exemption of a timer that is not seen is not needed. -/
theorem Inv.stopped {tm : TimerId} (h : Inv (some tm) s) (hnone : sight s.timers tm = none) :
    Inv none s := by
  refine ⟨h.begun, h.partners, fun tm' v hb hv => ?_, h.queued⟩
  obtain ⟨hp, ha, hr, hk⟩ := h.own tm' v hb hv
  refine ⟨hp, ha, fun hpaused => ?_, hk⟩
  obtain rfl := Option.some.inj (hr hpaused)
  rw [hnone] at hv
  cases hv

section Turn

variable {time : BitVec 32} {kept rest : List TimerId} {tm : TimerId}

theorem Good.afterUpdate (h : Inv none s) (hq : s.timers.timerQueue = kept ++ tm :: rest) :
    Good (s.afterUpdate time kept tm rest) := by
  unfold State.afterUpdate
  split_ifs with hend
  · have hd : s.timers.disposed tm = true := (Bool.and_eq_true _ _ ▸ hend).2
    exact ⟨(h.unseen (unseen_delete hd hq)).setControl .idle, trivial⟩
  · refine ⟨h.setControl _, ?_⟩
    show s.timers.timerQueue = (kept ++ [tm]) ++ rest
    rw [hq, List.append_assoc]
    rfl

/-- The end of the update of a repeat timer: it is started again. -/
theorem sight_finish (hv : sight w tm = some v) (hp : v.periodic = true) (ha : v.added = true) :
    sight (w.finish tm) = Function.update (sight w) tm (some { v with paused := false }) ∧
      queue (w.finish tm) = queue w := by
  obtain ⟨t, hget, ht⟩ := sight_eq_some.mp hv
  obtain ⟨hd, hcallback, hperiodic, hadded, -⟩ := Sight.of_eq_some.mp ht
  set w₁ := w.modify tm fun t => { t with execCount := t.execCount + 1 } with hw₁
  have hget₁ : w₁.get tm = some { t with execCount := t.execCount + 1 } := by
    rw [Timers.get_modify, if_pos rfl, hget]
    rfl
  have hadd : w₁.add tm = w₁ := by
    unfold Timers.add
    rw [hget₁]
    exact if_neg (by simp [hadded, ha])
  have hcount : Unseen w w₁ := by
    rw [hw₁]
    exact Unseen.modify fun _ _ => rfl
  have hfinish : w.finish tm = w₁.modify tm (Timer.start w₁.timeRaw) := by
    unfold Timers.finish
    rw [hget]
    simp only
    rw [if_neg (by rw [hd]; exact Bool.false_ne_true), if_pos (hperiodic.trans hp), ← hw₁,
      Timers.start, hadd]
  have hstarted : Sight.of (({ t with execCount := t.execCount + 1 } : Timer).start w₁.timeRaw) =
      some { v with paused := false } := by
    have hstart : ({ t with execCount := t.execCount + 1 } : Timer).start w₁.timeRaw =
        { t with
          execCount := t.execCount + 1, timeRemaining := t.timeout
          lastUpdateTime := w₁.timeRaw, paused := false, added := true } :=
      if_neg (by rw [hd]; exact Bool.false_ne_true)
    rw [hstart]
    exact Sight.of_eq_some.mpr ⟨hd, hcallback, hperiodic, ha.symm, rfl⟩
  constructor
  · rw [hfinish, sight_modify, hget₁, hcount.sight_eq, Option.bind_some, hstarted]
  · rw [hfinish]
    rfl

/-- A timer that the loop reaches is one of this game. -/
theorem Inv.begun_of_reached (h : Inv r s) (hq : s.timers.timerQueue = kept ++ tm :: rest)
    (hv : sight s.timers tm = some v) : s.begun ≤ tm := by
  refine (h.queued tm v hv).mp (List.mem_append_left _ ?_)
  rw [hq]
  exact List.mem_append_right _ List.mem_cons_self

theorem Good.afterCallback (h : Inv (some tm) s) (hq : s.timers.timerQueue = kept ++ tm :: rest)
    (hkind : ∀ v, sight s.timers tm = some v → v.kind = .repeatTimer) :
    Good (s.afterCallback time kept tm rest) := by
  have hk := Timers.kept_finish s.timers tm
  refine Good.afterUpdate ?_ (hk.timerQueue.trans hq)
  cases hv : sight s.timers tm with
  | none => exact (h.stopped hv).unseen (unseen_finish hv)
  | some v =>
    have hb : s.begun ≤ tm := h.begun_of_reached hq hv
    obtain ⟨hperiodic, hadded, -, -⟩ := h.own tm v hb hv
    rw [hkind v hv] at hperiodic
    obtain ⟨hsight, hqueue⟩ := sight_finish hv hperiodic hadded
    refine h.setPaused tm (b := false) ?_ ?_ hk.length_le ?_ ?_
    · rw [hsight, hv]
      rfl
    · exact fun _ _ _ => by rw [hqueue]
    · exact fun hfalse => absurd hfalse Bool.false_ne_true
    · exact fun tm' hne heq => absurd (Option.some.inj heq).symm hne

/-- An update of a timer that is not over. -/
theorem Good.retimed (h : Inv none s) (hq : s.timers.timerQueue = kept ++ tm :: rest)
    {f : Timer → Timer} (hf : ∀ t, Sight.of (f t) = Sight.of t) :
    Good ((s.lift fun w => (w.noteUpdate tm).modify tm f).afterUpdate time kept tm rest) := by
  have hnote : Unseen s.timers (s.timers.noteUpdate tm) := Unseen.of_heap rfl fun _ => Iff.rfl
  exact Good.afterUpdate (h.unseen (hnote.trans (Unseen.modify fun t _ => hf t))) hq

theorem sight_advance (timeRaw : BitVec 32) (t : Timer) :
    Sight.of (t.advance timeRaw time) = Sight.of t := rfl

theorem Sight.of_expire (timeRaw : BitVec 32) (t : Timer) :
    Sight.of (t.expire timeRaw time) = (Sight.of t).map fun v => { v with paused := true } := by
  unfold Sight.of
  rw [show (t.expire timeRaw time).disposed = t.disposed from rfl]
  split_ifs
  · rfl
  · rw [Option.map_map]
    rfl

theorem sight_expire (s : State) (time : BitVec 32) (tm : TimerId) :
    sight (s.expire time tm).timers = Function.update (sight s.timers) tm
      ((sight s.timers tm).map fun v => { v with paused := true }) := by
  set w₁ := (s.timers.noteUpdate tm).noteFired tm with hw₁
  have hsight₁ : sight w₁ = sight s.timers := sight_of_heap rfl
  have hget₁ : w₁.get tm = s.timers.get tm := rfl
  have hheap : (s.expire time tm).timers.heap =
      (w₁.modify tm (Timer.expire s.timers.timeRaw time)).heap := rfl
  rw [sight_of_heap hheap, sight_modify, hsight₁, hget₁, sight]
  cases s.timers.get tm with
  | none => rfl
  | some t => rw [Option.bind_some, Option.bind_some, Sight.of_expire]

/-- The time of a timer has run out. Its callback finds it paused. -/
theorem Inv.expire (h : Inv none s) (time : BitVec 32) (tm : TimerId) :
    Inv (some tm) (s.expire time tm) := by
  refine h.setPaused tm (b := true) (sight_expire s time tm) ?_ ?_ ?_ ?_
  · exact fun _ _ _ => Iff.rfl
  · simp [Timers.modify, Timers.noteFired, Timers.noteUpdate, Timers.note]
  · exact fun _ => rfl
  · exact fun _ _ heq => absurd heq (Option.some_ne_none _).symm

/-- The callback of the timer that a turn has reached. -/
theorem Good.callback (h : Inv (some tm) s) (hq : s.timers.timerQueue = kept ++ tm :: rest)
    {t : Timer} (hget : s.timers.get tm = some t) (hd : t.disposed = false) :
    Good (s.callback time kept tm rest t.callback) := by
  have hlt : tm < s.timers.heap.length := Timers.lt_of_get hget
  unfold State.callback
  cases hcb : Kind.ofCallback t.callback with
  | none =>
    have hnone : sight s.timers tm = none := by
      rw [sight_of_get hget]
      exact Sight.of_foreign (Option.isNone_iff_eq_none.mpr hcb)
    refine ⟨h.setControl _, hq, hlt, fun v hv => ?_⟩
    rw [show sight s.timers tm = some v from hv] at hnone
    cases hnone
  | some kind =>
    have hkind : ∀ v, sight s.timers tm = some v → v.kind = kind := by
      intro v hv
      rw [sight_of_get hget] at hv
      have hcallback := (Sight.of_eq_some.mp hv).2.1
      exact Option.some.inj ((Kind.ofCallback_eq_some.mpr hcallback).symm.trans hcb)
    cases kind with
    | repeatTimer => exact ⟨⟨h.begun, h.partners, h.own, h.queued⟩, hq, hlt, hkind⟩
    | repeatDelayTimer =>
      obtain ⟨v, hv⟩ : ∃ v, sight s.timers tm = some v := by
        rw [sight_of_get hget, Sight.of, if_neg (by rw [hd]; exact Bool.false_ne_true), hcb]
        exact ⟨_, rfl⟩
      have hb : s.begun ≤ tm := h.begun_of_reached hq hv
      obtain ⟨hhandled, hgone⟩ := handled_onRepeatDelayExpired h hb hv (hkind v hv)
      refine Good.afterCallback (hhandled.inv _ h) (hhandled.timerQueue.trans hq) fun v' hv' => ?_
      rw [hgone] at hv'
      cases hv'

theorem Good.visit (h : Inv none s) (hq : s.timers.timerQueue = kept ++ tm :: rest) :
    Good (s.visit time kept tm rest) := by
  unfold State.visit
  split_ifs with hd
  · exact ⟨(h.unseen (unseen_delete hd hq)).setControl _, rfl⟩
  · cases hget : s.timers.get tm with
    | none => exact Good.afterUpdate h hq
    | some t =>
      simp only
      split_ifs with hpaused hzero
      · exact Good.retimed h hq fun _ => rfl
      · have hexpire : (s.expire time tm).timers.get tm = some (t.expire s.timers.timeRaw time) := by
          show (((s.timers.noteUpdate tm).noteFired tm).modify tm
            (Timer.expire s.timers.timeRaw time)).get tm = _
          rw [Timers.get_modify, if_pos rfl, Timers.get_noteFired, Timers.get_noteUpdate, hget]
          rfl
        rw [Timers.disposed, hget] at hd
        exact Good.callback (t := t.expire s.timers.timeRaw time) (h.expire time tm) hq hexpire
          (eq_false_of_ne_true hd)
      · exact Good.retimed h hq fun t => sight_advance _ t

end Turn

/-- The handlers and other code keep the shape. -/
theorem Frame.shape (h : Frame s s') (hs : Shape s) : Shape s' := by
  unfold Shape at hs ⊢
  rw [h.control, h.timerQueue]
  cases hc : s.control with
  | idle | ticks time => trivial
  | pass time kept rest =>
    rw [hc] at hs
    exact hs
  | callback time kept tm rest =>
    rw [hc] at hs
    obtain ⟨hq, hlt, hkind⟩ := hs
    refine ⟨hq, Nat.lt_of_lt_of_le hlt h.length_le, fun v' hv' => ?_⟩
    obtain ⟨v, hv, hsame⟩ := h.kind tm v' hlt hv'
    exact hsame.trans (hkind v hv)

theorem Good.event (h : Good s) (e : Event) : Good (s.event e) := by
  have hhandled := handled_event s e
  refine ⟨?_, hhandled.toFrame.shape h.shape⟩
  rw [hhandled.control]
  exact hhandled.inv _ h.inv

theorem Good.step (h : Good s) (a : Action) : Good (s.step a) := by
  have hinv := h.inv
  have hshape := h.shape
  unfold Shape at hshape
  unfold State.step
  cases a with
  | event e =>
    simp only
    split_ifs
    · exact h.event e
    · exact h
  | timerUpdate time =>
    cases hc : s.control with
    | idle =>
      rw [hc] at hinv
      simp only
      split_ifs
      · exact ⟨hinv.setControl _, trivial⟩
      · exact h
    | ticks time' | pass time' kept rest | callback time' kept tm rest => exact h
  | tasks =>
    cases hc : s.control with
    | ticks time =>
      rw [hc] at hinv
      exact ⟨(hinv.unseen (unseen_doUpdateTasks s.timers)).setControl _, rfl⟩
    | idle | pass time kept rest | callback time kept tm rest => exact h
  | visit =>
    cases hc : s.control with
    | pass time kept rest =>
      rw [hc] at hinv hshape
      cases rest with
      | nil => exact ⟨hinv.setControl _, trivial⟩
      | cons tm rest => exact Good.visit hinv hshape
    | idle | ticks time | callback time kept tm rest => exact h
  | returned =>
    cases hc : s.control with
    | callback time kept tm rest =>
      rw [hc] at hinv hshape
      exact Good.afterCallback hinv hshape.1 hshape.2.2
    | idle | ticks time | pass time kept rest => exact h

/-- No timer of the game before is seen. -/
theorem good_start (w : Timers) (timeout : Kind → BitVec 32) (enable : ℤ) (keyIsDown : ℤ → Bool) :
    Good (start w timeout enable keyIsDown) := by
  have hlength : w.cleanup.heap.length = w.heap.length := (Timers.foldl_delete w.timerQueue w).2.1
  have hbefore : ∀ {tm v}, sight w.cleanup tm = some v → ¬ w.heap.length ≤ tm := by
    intro tm v hv
    rw [← hlength]
    exact Nat.not_le_of_lt (lt_of_sight hv)
  refine ⟨⟨Nat.le_of_eq hlength.symm, ⟨⊥, rfl, ?_⟩, fun tm v hb hv => ?_, fun tm v hv => ?_⟩, trivial⟩
  · funext tm
    refine (Option.eq_none_iff_forall_ne_some.mpr fun p hp => ?_).symm
    obtain ⟨hb, v, hv, -⟩ := owner_eq_some.mp hp
    exact hbefore hv hb
  · exact absurd hb (hbefore hv)
  · exact iff_of_false List.not_mem_nil (hbefore hv)

/-! ## The arrays in every game -/

/-- A key repeat timer of this game that has not been destroyed. -/
def Undisposed (s : State) (tm : TimerId) : Prop :=
  s.begun ≤ tm ∧ ∃ t kind, s.timers.get tm = some t ∧ t.disposed = false ∧
    t.callback = Kind.callback kind

/-- Every entry points to a timer that exists, has not been destroyed, was started and is queued. It
has the kind of the array and the key of the entry, and it runs unless its own callback does. Every
timer is in exactly one entry. -/
structure SlotsOk (s : State) : Prop where
  points : ∀ kind k tm, s.slot (kind, k) = some tm → ∃ t, s.timers.get tm = some t ∧
    t.disposed = false ∧ t.added = true ∧ tm ∈ s.timers.timerQueue ++ s.timers.taskQueue ∧
    t.callback = kind.callback ∧ t.periodic = kind.periodic ∧ s.data tm = some k ∧
    (t.paused = true → s.control.running = some tm)
  unique : ∀ tm, Undisposed s tm → ∃! p, s.slot p = some tm

/-- Where a key-up or a focus event is handled, no timer is left of the key, or of any key. -/
def Cleared (s : State) : Action → Prop
  | .event (.keyUp k) => s.control.isOpen = true → keyAllowedToRepeat k = true →
      ∀ tm, Undisposed (s.step (.event (.keyUp k))) tm →
        (s.step (.event (.keyUp k))).data tm ≠ some k
  | .event .focus => s.control.isOpen = true → ∀ tm, ¬ Undisposed (s.step (.event .focus)) tm
  | _ => True

theorem Undisposed.sight {tm : TimerId} (h : Undisposed s tm) :
    s.begun ≤ tm ∧ ∃ v, KeyRepeat.sight s.timers tm = some v := by
  obtain ⟨hb, t, kind, hget, hd, hcallback⟩ := h
  refine ⟨hb, ⟨kind, t.periodic, t.added, t.paused⟩, ?_⟩
  rw [sight_of_get hget]
  exact Sight.of_eq_some.mpr ⟨hd, hcallback, rfl, rfl, rfl⟩

/-- A timer and its entry. -/
theorem Inv.slot_of_undisposed (h : Inv r s) {tm : TimerId} (hu : Undisposed s tm) :
    ∃ kind k, s.slot (kind, k) = some tm ∧ s.data tm = some k := by
  obtain ⟨hb, v, hv⟩ := hu.sight
  obtain ⟨k, hk, -⟩ := (h.own tm v hb hv).key
  exact ⟨v.kind, k, h.slot_iff.mpr (owner_eq_some.mpr ⟨hb, v, hv, rfl, hk⟩), hk⟩

theorem Good.slotsOk (h : Good s) : SlotsOk s where
  points := by
    intro kind k tm hp
    obtain ⟨hb, ⟨v, hv, hkind⟩, hdata⟩ := h.inv.slot_spec hp
    obtain ⟨hperiodic, hadded, hrunning, -⟩ := h.inv.own tm v hb hv
    obtain ⟨t, hget, ht⟩ := sight_eq_some.mp hv
    obtain ⟨hd, hcallback, hp, ha, hpaused⟩ := Sight.of_eq_some.mp ht
    have hkind' : v.kind = kind := hkind
    rw [hkind'] at hcallback hperiodic
    exact ⟨t, hget, hd, ha.trans hadded, (h.inv.queued tm v hv).mpr hb, hcallback,
      hp.trans hperiodic, hdata, fun htrue => hrunning (hpaused ▸ htrue)⟩
  unique := by
    intro tm hu
    obtain ⟨kind, k, hp, -⟩ := h.inv.slot_of_undisposed hu
    refine ⟨(kind, k), hp, fun q hq => ?_⟩
    exact Option.some.inj ((h.inv.slot_iff.mp hq).symm.trans (h.inv.slot_iff.mp hp))

theorem slot_clearKey (s : State) (k : ℤ) (p : Slot) :
    (s.clearKey k).slot p = if p.2 = k then none else s.slot p := by
  obtain ⟨kind, j⟩ := p
  rw [State.clearKey, slot_clear, slot_clear]
  cases kind <;> by_cases hj : j = k <;> simp [hj]

theorem slot_foldl_clearKey (keys : List ℕ) (s : State) (p : Slot) :
    (keys.foldl (fun s (k : ℕ) => s.clearKey k) s).slot p =
      if p.2 ∈ keys.map Nat.cast then none else s.slot p := by
  induction keys generalizing s with
  | nil => rfl
  | cons k keys ih =>
    rw [List.foldl_cons, ih, slot_clearKey, List.map_cons]
    by_cases hmem : p.2 ∈ keys.map Nat.cast
    · rw [if_pos hmem, if_pos (List.mem_cons_of_mem _ hmem)]
    · rw [if_neg hmem]
      by_cases hk : p.2 = k <;> simp_all

/-- The loop of `onFocus` passes over every key that repeats. -/
theorem slot_onFocus (h : Inv r s) (p : Slot) : s.onFocus.slot p = none := by
  rw [State.onFocus, slot_foldl_clearKey]
  split_ifs with hmem
  · rfl
  · refine Option.eq_none_iff_forall_ne_some.mpr fun tm hp => hmem ?_
    have hallowed := h.allowed hp
    simp only [keyAllowedToRepeat, Bool.and_eq_true, decide_eq_true_eq] at hallowed
    obtain ⟨⟨-, hnonneg⟩, hlt⟩ := hallowed
    exact List.mem_map.mpr ⟨p.2.toNat, List.mem_range.mpr (by omega), Int.toNat_of_nonneg hnonneg⟩

/-- After a key-up no timer of the key is left. -/
theorem cleared_keyUp (h : Inv r s) (hk : keyAllowedToRepeat k = true) {tm : TimerId}
    (hu : Undisposed (s.onKeyUp k) tm) : (s.onKeyUp k).data tm ≠ some k := by
  intro hdata
  obtain ⟨kind, j, hp, hj⟩ := ((handled_onKeyUp s k).inv r h).slot_of_undisposed hu
  obtain rfl : k = j := Option.some.inj (hdata.symm.trans hj)
  rw [State.onKeyUp, if_pos hk, slot_clearKey, if_pos rfl] at hp
  cases hp

/-- After a focus event no timer is left. -/
theorem cleared_focus (h : Inv r s) {tm : TimerId} : ¬ Undisposed s.onFocus tm := by
  intro hu
  obtain ⟨kind, k, hp, -⟩ := ((handled_event s .focus).inv r h).slot_of_undisposed hu
  rw [show s.event .focus = s.onFocus from rfl, slot_onFocus h] at hp
  cases hp

theorem Good.cleared (h : Good s) (a : Action) : Cleared s a := by
  cases a with
  | event e =>
    cases e with
    | keyUp k =>
      intro hopen hk tm
      have hstep : s.step (.event (.keyUp k)) = s.onKeyUp k := if_pos hopen
      rw [hstep]
      exact cleared_keyUp h.inv hk
    | focus =>
      intro hopen tm
      have hstep : s.step (.event .focus) = s.onFocus := if_pos hopen
      rw [hstep]
      exact cleared_focus h.inv
    | keyDown k | enable n | keys keyIsDown | call o | gameTime d | inGame b => trivial
  | timerUpdate time | tasks | visit | returned => trivial

/-- **The key repeat arrays.** In every game, whatever the order of the keys, the focus events, the
options, the other code and the turns of `Timer_Update`, every entry points to its own live timer
and every timer that is left is in one entry. A key-up leaves no timer of its key, and a focus event
none at all. -/
theorem slotsOk_session (w : Timers) (timeout : Kind → BitVec 32) (enable : ℤ)
    (keyIsDown : ℤ → Bool) (as : List Action) :
    Session.Always step (start w timeout enable keyIsDown) as SlotsOk ∧
      Session.Steps step (start w timeout enable keyIsDown) as Cleared := by
  have hgood : Session.Always step (start w timeout enable keyIsDown) as Good :=
    Session.Always.of_step (fun _ a _ h => h.step a) (good_start w timeout enable keyIsDown)
  refine ⟨hgood.mono fun _ h => h.slotsOk, fun pre a hp => ?_⟩
  exact (hgood pre ((List.prefix_append _ _).trans hp)).cleared a

-- Q is held until it repeats, and it is released inside the callback of its timer.
example :
    let s := [.event (.keys fun k => k = 0x51), .event (.keyDown 0x51),
      .timerUpdate 0, .tasks, .visit, .visit,
      .event (.gameTime 300), .timerUpdate 300, .tasks, .visit,
      .event (.gameTime 33), .timerUpdate 333, .tasks, .visit, .event (.keyUp 0x51),
      .returned].foldl step (start { Timers.init with inGame := true }
        (fun kind => if kind = .repeatTimer then 33 else 300) 1 fun _ => false)
    s.presses = [0x51] ∧ s.timers.heap = [none, none] ∧ s.slot (.repeatTimer, 0x51) = none := by
  decide +kernel

end State

end KeyRepeat

end DreamDota
