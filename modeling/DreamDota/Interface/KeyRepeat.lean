import DreamDota.Interface.Input
import DreamDota.Timer.Ownership

/-!
# Key repeat

`KeyRepeat.cpp`, over the timers of `Timer.cpp`. A key that is held has a timer in one of two arrays,
first the one of the delay, then the one of the repeated presses. The entries of the arrays are plain
pointers, and `Timer_Update` deletes the timers that it finds destroyed.

A game is a run of `step`. `Timer_Update` is taken apart into the turns of its loop, and while it is
inside a callback, or before its loop, anything may happen but another `Timer_Update`. A turn that
runs the callback of a delay is one step, since that callback calls nothing but this module's own
code. Other code makes any calls on the timers but has no pointers to those of this module.

`begun`, `presses` and what `Timers` records are history: they are written and never read.
-/

namespace DreamDota

namespace KeyRepeat

open Input (keyAllowedToRepeat)

/-- The two arrays. -/
inductive Kind where
  | repeatTimer
  | repeatDelayTimer
  deriving DecidableEq, Repr

namespace Kind

/-- `onRepeatExpired` and `onRepeatDelayExpired`. -/
def callback : Kind → TimerCallback
  | repeatTimer => 0
  | repeatDelayTimer => 1

def periodic : Kind → Bool
  | repeatTimer => true
  | repeatDelayTimer => false

def ofCallback : TimerCallback → Option Kind
  | 0 => some repeatTimer
  | 1 => some repeatDelayTimer
  | _ => none

theorem ofCallback_eq_some {callback : TimerCallback} {kind : Kind} :
    ofCallback callback = some kind ↔ callback = kind.callback := by
  unfold ofCallback
  split <;> cases kind <;> simp_all [Kind.callback]

@[simp] theorem ofCallback_callback (kind : Kind) : ofCallback kind.callback = some kind :=
  ofCallback_eq_some.mpr rfl

end Kind

/-- An entry of an array: `RepeatTimer[keyCode]` or `RepeatDelayTimer[keyCode]`. -/
abbrev Slot := Kind × ℤ

/-- Where `Timer_Update` is: before its loop, in the loop, or in a callback of the loop. The entries
of the queue are those passed over and kept, the one whose callback runs, and those still to come. -/
inductive Control where
  | idle
  | ticks (time : BitVec 32)
  | pass (time : BitVec 32) (kept rest : List TimerId)
  | callback (time : BitVec 32) (kept : List TimerId) (tm : TimerId) (rest : List TimerId)
  deriving DecidableEq, Repr

namespace Control

/-- Other code runs. -/
def isOpen : Control → Bool
  | idle | ticks _ | callback .. => true
  | pass .. => false

/-- The timer whose callback runs. -/
def running : Control → Option TimerId
  | callback _ _ tm _ => some tm
  | idle | ticks _ | pass .. => none

end Control

structure State where
  timers : Timers
  slot : Slot → Option TimerId
  /-- `setData<int>`. -/
  data : TimerId → Option ℤ
  /-- The milliseconds of `RepeatDelay` and of `1 / RepeatRate`. -/
  timeout : Kind → BitVec 32
  /-- The option `Enable` of `KeyAutoRepeat`. -/
  enable : ℤ
  keyIsDown : ℤ → Bool
  control : Control
  /-- The timers made before the game. -/
  begun : ℕ
  /-- The calls of `GameUIKeyPress`. -/
  presses : List ℤ

/-- What may happen while `Timer_Update` is not in its own code. -/
inductive Event where
  | keyDown (keyCode : ℤ)
  | keyUp (keyCode : ℤ)
  | focus
  | enable (n : ℤ)
  | keys (keyIsDown : ℤ → Bool)
  | call (o : TimerOp)
  | gameTime (d : ℕ)
  | inGame (b : Bool)

inductive Action where
  | event (e : Event)
  /-- `Timer_Update` is called. -/
  | timerUpdate (time : BitVec 32)
  /-- The tick callbacks have run, and the loop begins. -/
  | tasks
  /-- A turn of the loop, up to the callback of a timer. -/
  | visit
  /-- The callback returns, and the turn ends. -/
  | returned

/-- Code without a pointer to a timer of this module can make the call. -/
def foreign (w : Timers) : TimerOp → Bool
  | .new _ callback _ _ => (Kind.ofCallback callback).isNone
  | .start tm | .reset tm | .pause tm | .resume tm | .destroy tm | .setTimeout tm _ =>
    (w.get tm).all fun t => (Kind.ofCallback t.callback).isNone

namespace State

/-- `Init`, after the `Timer_Cleanup` of the game before. -/
def start (w : Timers) (timeout : Kind → BitVec 32) (enable : ℤ) (keyIsDown : ℤ → Bool) : State where
  timers := w.cleanup
  slot := fun _ => none
  data := fun _ => none
  timeout := timeout
  enable := enable
  keyIsDown := keyIsDown
  control := .idle
  begun := w.heap.length
  presses := []

/-- A change of the timers. -/
def lift (f : Timers → Timers) (s : State) : State := { s with timers := f s.timers }

/-! ## The arrays -/

/-- The timer of an entry is destroyed and the entry set to `NULL`. -/
def clear (s : State) (p : Slot) : State :=
  match s.slot p with
  | none => s
  | some tm =>
    { s with timers := s.timers.perform (.destroy tm), slot := Function.update s.slot p none }

/-- `GetTimer`, `setData` and `start`. -/
def startTimer (s : State) (p : Slot) : State :=
  let tm := s.timers.heap.length
  { s with
    timers := (s.timers.perform (.new (s.timeout p.1) p.1.callback p.1.periodic true)).perform
      (.start tm)
    slot := Function.update s.slot p (some tm)
    data := Function.update s.data tm (some p.2) }

/-! ## The handlers -/

def onRepeatExpired (s : State) (tm : TimerId) : State :=
  { s with presses := s.presses ++ (s.data tm).toList }

/-- A timer without data is a null pointer, and none is ever met. -/
def onRepeatDelayExpired (s : State) (tm : TimerId) : State :=
  match s.data tm with
  | none => s
  | some keyCode =>
    let s := s.clear (.repeatDelayTimer, keyCode)
    if s.keyIsDown keyCode then
      if (s.slot (.repeatTimer, keyCode)).isNone then s.startTimer (.repeatTimer, keyCode) else s
    else s.clear (.repeatTimer, keyCode)

def onKeyDown (s : State) (keyCode : ℤ) : State :=
  if s.enable ≤ 0 then s
  else if keyAllowedToRepeat keyCode then
    if (s.slot (.repeatTimer, keyCode)).isNone then
      (s.clear (.repeatDelayTimer, keyCode)).startTimer (.repeatDelayTimer, keyCode)
    else s
  else s

/-- Both entries of a key. -/
def clearKey (s : State) (keyCode : ℤ) : State :=
  (s.clear (.repeatDelayTimer, keyCode)).clear (.repeatTimer, keyCode)

def onKeyUp (s : State) (keyCode : ℤ) : State :=
  if keyAllowedToRepeat keyCode then s.clearKey keyCode else s

def onFocus (s : State) : State :=
  (List.range 0x30C).foldl (fun s (k : ℕ) => s.clearKey k) s

def event (s : State) : Event → State
  | .keyDown keyCode => s.onKeyDown keyCode
  | .keyUp keyCode => s.onKeyUp keyCode
  | .focus => s.onFocus
  | .enable n => { s with enable := n }
  | .keys keyIsDown => { s with keyIsDown := keyIsDown }
  | .call o => if foreign s.timers o then s.lift fun w => w.perform o else s
  | .gameTime d => s.lift fun w => w.gameTime d
  | .inGame b => s.lift fun w => { w with inGame := b }

/-! ## `Timer_Update` -/

/-- The rest of a turn, after `update`. -/
def afterUpdate (s : State) (time : BitVec 32) (kept : List TimerId) (tm : TimerId)
    (rest : List TimerId) : State :=
  if s.timers.returnsZero tm && s.timers.disposed tm then
    { s with timers := s.timers.delete tm (kept ++ rest), control := .idle }
  else { s with control := .pass time (kept ++ [tm]) rest }

/-- `update` finds the time of the timer run out. -/
def expire (s : State) (time : BitVec 32) (tm : TimerId) : State :=
  s.lift fun w =>
    let w := ((w.noteUpdate tm).noteFired tm).modify tm (Timer.expire w.timeRaw time)
    { w with calls := w.calls + 1 }

/-- The rest of `update` and of the turn, after the callback. -/
def afterCallback (s : State) (time : BitVec 32) (kept : List TimerId) (tm : TimerId)
    (rest : List TimerId) : State :=
  (s.lift fun w => w.finish tm).afterUpdate time kept tm rest

/-- The callback of the timer, from its call on. -/
def callback (s : State) (time : BitVec 32) (kept : List TimerId) (tm : TimerId)
    (rest : List TimerId) (cb : TimerCallback) : State :=
  match Kind.ofCallback cb with
  | some .repeatDelayTimer => (s.onRepeatDelayExpired tm).afterCallback time kept tm rest
  | some .repeatTimer => { s.onRepeatExpired tm with control := .callback time kept tm rest }
  | none => { s with control := .callback time kept tm rest }

/-- A turn of the loop. -/
def visit (s : State) (time : BitVec 32) (kept : List TimerId) (tm : TimerId)
    (rest : List TimerId) : State :=
  if s.timers.disposed tm then
    { s with timers := s.timers.delete tm (kept ++ rest), control := .pass time kept rest }
  else
    match s.timers.get tm with
    | none => s.afterUpdate time kept tm rest
    | some t =>
      if t.paused then
        (s.lift fun w => (w.noteUpdate tm).modify tm
          fun t => { t with lastUpdateTime := time }).afterUpdate time kept tm rest
      else if (t.advance s.timers.timeRaw time).timeRemaining = 0 then
        (s.expire time tm).callback time kept tm rest t.callback
      else
        (s.lift fun w => (w.noteUpdate tm).modify tm
          (Timer.advance w.timeRaw time)).afterUpdate time kept tm rest

/-- An action that is not possible does nothing. -/
def step (s : State) (a : Action) : State :=
  match a, s.control with
  | .event e, control => if control.isOpen then s.event e else s
  | .timerUpdate time, .idle => if s.timers.inGame then { s with control := .ticks time } else s
  | .tasks, .ticks time =>
    let w := s.timers.doUpdateTasks
    { s with timers := w, control := .pass time [] w.timerQueue }
  | .visit, .pass _ _ [] => { s with control := .idle }
  | .visit, .pass time kept (tm :: rest) => s.visit time kept tm rest
  | .returned, .callback time kept tm rest => s.afterCallback time kept tm rest
  | _, _ => s

end State

end KeyRepeat

end DreamDota
