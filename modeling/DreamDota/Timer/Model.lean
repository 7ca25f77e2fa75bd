import DreamDota.Lib.Run
import Mathlib.Data.List.Basic
import Mathlib.Logic.Function.Basic
import Mathlib.Tactic.Common

/-!
# Timers

`Timer.cpp` and `GameTime.cpp`: the timer objects, the queue of the timers that are updated, the
queue of those that wait to be added to it, and `Timer_Update`, which passes over the first queue.

A callback is code the model does not know. It makes calls, and the list of calls that the `k`-th
callback of a run makes is a parameter `beh`. A call of `startImmediate` is the calls of the
callback followed by `start`.

`now`, `hist`, `updated` and `deleted` and the visits of a pass are history: they are written and
never read.
-/

namespace DreamDota

/-- A `Timer` object, by the order of the constructions. -/
abbrev TimerId := ℕ

/-- `TimerCallback` and `TickCallback`, function pointers. -/
abbrev TimerCallback := ℕ

structure Timer where
  timeout : BitVec 32
  timeRemaining : BitVec 32
  lastUpdateTime : BitVec 32
  execCount : BitVec 32
  paused : Bool
  periodic : Bool
  disposed : Bool
  autoDispose : Bool
  added : Bool
  callback : TimerCallback
  deriving DecidableEq, Repr

namespace Timer

/-- The constructor. -/
def new (timeout : BitVec 32) (callback : TimerCallback) (periodic autoDispose : Bool) : Timer where
  timeout := timeout
  timeRemaining := timeout
  lastUpdateTime := 0
  execCount := 0
  paused := true
  periodic := periodic
  disposed := false
  autoDispose := autoDispose
  added := false
  callback := callback

def elapsed (t : Timer) : BitVec 32 := t.timeout - t.timeRemaining

def remaining (t : Timer) : BitVec 32 := t.timeRemaining

/-- `start`, without the task it adds. -/
def start (timeRaw : BitVec 32) (t : Timer) : Timer :=
  if t.disposed then t
  else
    { t with
      timeRemaining := t.timeout, lastUpdateTime := timeRaw, paused := false, added := true }

def pause (t : Timer) : Timer := { t with paused := true }

def resume (t : Timer) : Timer := { t with paused := false }

def destroy (t : Timer) : Timer := { t with disposed := true }

def setTimeout (timeout : BitVec 32) (t : Timer) : Timer := { t with timeout := timeout }

/-- `update` of a running timer, up to the test of `time_remaining_`. -/
def advance (timeRaw time : BitVec 32) (t : Timer) : Timer :=
  let diff := timeRaw - t.lastUpdateTime
  { t with
    timeRemaining := if t.timeRemaining < diff then 0 else t.timeRemaining - diff
    lastUpdateTime := time }

/-- The timer that the callback finds. -/
def expire (timeRaw time : BitVec 32) (t : Timer) : Timer :=
  { t.advance timeRaw time with paused := true, timeRemaining := 0 }

/-- `update` after the callback, without the task that `start` adds. -/
def finish (timeRaw : BitVec 32) (t : Timer) : Timer :=
  if t.disposed then t
  else if t.periodic then { t with execCount := t.execCount + 1 }.start timeRaw
  else if t.autoDispose then t.destroy
  else t

end Timer

/-- The calls a callback, or any other code, may make. -/
inductive TimerOp where
  | new (timeout : BitVec 32) (callback : TimerCallback) (periodic autoDispose : Bool)
  | start (tm : TimerId)
  | reset (tm : TimerId)
  | pause (tm : TimerId)
  | resume (tm : TimerId)
  | destroy (tm : TimerId)
  | setTimeout (tm : TimerId) (timeout : BitVec 32)
  deriving DecidableEq, Repr

/-- The timer a call is made on. -/
def TimerOp.target : TimerOp → Option TimerId
  | .new .. => none
  | .start tm | .reset tm | .pause tm | .resume tm | .destroy tm | .setTimeout tm _ => some tm

/-- What a call does to the timer it is made on. -/
def TimerOp.effect (o : TimerOp) (timeRaw : BitVec 32) : Timer → Timer :=
  match o with
  | .new .. => id
  | .start _ | .reset _ => Timer.start timeRaw
  | .pause _ => Timer.pause
  | .resume _ => Timer.resume
  | .destroy _ => Timer.destroy
  | .setTimeout _ timeout => Timer.setTimeout timeout

/-- The history of one timer since its last start: true times. -/
structure TimerHistory where
  started : ℕ
  updates : List ℕ
  fired : List ℕ
  deriving DecidableEq, Repr

/-- One turn of the loop of `Timer_Update`: whether it found the timer disposed, and whether the
timer was disposed after its own update. -/
structure Visit where
  timer : TimerId
  found : Bool
  own : Bool
  deriving DecidableEq, Repr

/-- The globals of `Timer.cpp`, the timer objects and the clock. `heap` holds `none` where a timer
has been deleted. -/
structure Timers where
  heap : List (Option Timer)
  taskQueue : List TimerId
  timerQueue : List TimerId
  tickCallbacks : List TimerCallback
  timeRaw : BitVec 32
  inGame : Bool
  calls : ℕ
  now : ℕ
  hist : TimerId → TimerHistory
  updated : List TimerId
  deleted : List TimerId

/-- The calls that the callbacks make: by the function called and the number of the call. -/
abbrev TimerBehaviour := TimerCallback → ℕ → List TimerOp

namespace Timers

/-- The state at the start of the program. -/
def init : Timers :=
  ⟨[], [], [], [], 0, false, 0, 0, fun _ => ⟨0, [], []⟩, [], []⟩

/-- The timer object, if it has not been deleted. -/
def get (w : Timers) (tm : TimerId) : Option Timer := (w.heap[tm]?).join

def modify (w : Timers) (tm : TimerId) (f : Timer → Timer) : Timers :=
  { w with heap := w.heap.modify tm (Option.map f) }

def disposed (w : Timers) (tm : TimerId) : Bool := (w.get tm).any Timer.disposed

def note (w : Timers) (tm : TimerId) (f : TimerHistory → TimerHistory) : Timers :=
  { w with hist := Function.update w.hist tm (f (w.hist tm)) }

/-! ## The calls -/

/-- `Add`, called by `start`. -/
def add (w : Timers) (tm : TimerId) : Timers :=
  match w.get tm with
  | none => w
  | some t =>
    if !t.disposed && !t.added then { w with taskQueue := w.taskQueue ++ [tm] } else w

/-- `start`. -/
def start (w : Timers) (tm : TimerId) : Timers := (w.add tm).modify tm (Timer.start w.timeRaw)

def noteStart (w : Timers) (tm : TimerId) : Timers :=
  if (w.get tm).all Timer.disposed then w else w.note tm fun _ => ⟨w.now, [], []⟩

/-- One call. -/
def perform (w : Timers) (o : TimerOp) : Timers :=
  match o with
  | .new timeout callback periodic autoDispose =>
    { w with heap := w.heap ++ [some (Timer.new timeout callback periodic autoDispose)] }
  | .start tm | .reset tm => (w.noteStart tm).start tm
  | .pause tm => w.modify tm Timer.pause
  | .resume tm => w.modify tm Timer.resume
  | .destroy tm => w.modify tm Timer.destroy
  | .setTimeout tm timeout => w.modify tm (Timer.setTimeout timeout)

variable (beh : TimerBehaviour)

/-- A callback is called. -/
def callback (w : Timers) (cb : TimerCallback) : Timers :=
  (beh cb w.calls).foldl perform { w with calls := w.calls + 1 }

/-! ## `Timer::update` -/

/-- `update` after the callback. -/
def finish (w : Timers) (tm : TimerId) : Timers :=
  match w.get tm with
  | none => w
  | some t =>
    if t.disposed then w
    else if t.periodic then
      (w.modify tm fun t => { t with execCount := t.execCount + 1 }).start tm
    else if t.autoDispose then w.modify tm Timer.destroy
    else w

def noteUpdate (w : Timers) (tm : TimerId) : Timers :=
  { w.note tm fun h => { h with updates := h.updates ++ [w.now] } with
    updated := w.updated ++ [tm] }

def noteFired (w : Timers) (tm : TimerId) : Timers :=
  w.note tm fun h => { h with fired := h.fired ++ [w.now] }

/-- `update`. -/
def update (time : BitVec 32) (w : Timers) (tm : TimerId) : Timers :=
  match w.get tm with
  | none => w
  | some t =>
    if t.paused then (w.noteUpdate tm).modify tm fun t => { t with lastUpdateTime := time }
    else if (t.advance w.timeRaw time).timeRemaining = 0 then
      ((((w.noteUpdate tm).noteFired tm).modify tm (Timer.expire w.timeRaw time)).callback beh
        t.callback).finish tm
    else (w.noteUpdate tm).modify tm (Timer.advance w.timeRaw time)

/-! ## `Timer_Update` -/

def doUpdateTasks (w : Timers) : Timers :=
  { w with timerQueue := w.timerQueue ++ w.taskQueue, taskQueue := [] }

/-- The timer is deleted, and its entry erased from the queue. -/
def delete (w : Timers) (tm : TimerId) (queue : List TimerId) : Timers :=
  { w with
    heap := w.heap.modify tm fun _ => none
    timerQueue := queue
    deleted := w.deleted ++ [tm] }

/-- What `update` returned, when `w` is the state after it. -/
def returnsZero (w : Timers) (tm : TimerId) : Bool := (w.get tm).any fun t => t.timeRemaining == 0

/-- The loop of `Timer_Update`, with its visits. The queue is the entries passed over and kept,
followed by those still to come. A timer that its own update disposes ends the pass. -/
def pass (time : BitVec 32) : List TimerId → List TimerId → Timers → Timers × List Visit
  | _, [], w => (w, [])
  | kept, tm :: rest, w =>
    if w.disposed tm then
      let r := pass time kept rest (w.delete tm (kept ++ rest))
      (r.1, ⟨tm, true, false⟩ :: r.2)
    else
      let w' := w.update beh time tm
      if w'.returnsZero tm && w'.disposed tm then
        (w'.delete tm (kept ++ rest), [⟨tm, false, true⟩])
      else
        let r := pass time (kept ++ [tm]) rest w'
        (r.1, ⟨tm, false, w'.disposed tm⟩ :: r.2)

/-- `Timer_Update` up to its loop. -/
def beforePass (w : Timers) : Timers :=
  (w.tickCallbacks.foldl (callback beh) w).doUpdateTasks

def timerUpdate (time : BitVec 32) (w : Timers) : Timers :=
  if w.inGame then
    let w := w.beforePass beh
    (pass beh time [] w.timerQueue w).1
  else w

/-- `Timer_Cleanup`. -/
def cleanup (w : Timers) : Timers :=
  { w.timerQueue.foldl (fun w tm => w.delete tm w.timerQueue) w with
    timerQueue := []
    taskQueue := [] }

end Timers

/-! ## Sessions -/

/-- What happens to the timers from outside. -/
inductive TimerEvent where
  /-- `Timer_Init`. -/
  | timerInit
  | call (o : TimerOp)
  | addTickCallback (cb : TimerCallback)
  /-- The clock, `d` milliseconds later. -/
  | gameTime (d : ℕ)
  | timerUpdate (time : BitVec 32)
  | cleanup
  | inGame (b : Bool)
  deriving DecidableEq, Repr

namespace Timers

variable (beh : TimerBehaviour)

/-- `GameTime_Update`. -/
def gameTime (w : Timers) (d : ℕ) : Timers :=
  { w with timeRaw := w.timeRaw + BitVec.ofNat 32 d, now := w.now + d }

def event (w : Timers) : TimerEvent → Timers
  | .timerInit => { w with tickCallbacks := [] }
  | .call o => w.perform o
  | .addTickCallback cb => { w with tickCallbacks := w.tickCallbacks ++ [cb] }
  | .gameTime d => w.gameTime d
  | .timerUpdate time => w.timerUpdate beh time
  | .cleanup => w.cleanup
  | .inGame b => { w with inGame := b }

/-- The state after a session. -/
def session (events : List TimerEvent) : Timers := events.foldl (event beh) init

end Timers

end DreamDota
