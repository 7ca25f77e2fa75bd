import DreamDota.Lib.Agenda
import Mathlib.Algebra.Order.Floor.Defs
import Mathlib.Data.Rat.Floor
import Mathlib.Logic.Function.Basic

/-!
# The threads of scripts

`ScriptProcess.cpp`: scripts run in Lua threads, which `ThreadExec` starts and the native `Wait`
suspends until a `Tick` at or after a given time. `lua_resume` runs a thread until it returns, and
what runs in it may start further threads. `active` are the calls of `lua_resume` that have not
returned, innermost first: an event is the next thing that happens in the innermost one, or outside
of all.

Times are milliseconds and stand for `uint32_t`: `clock` is the time that has really gone by, and
`TimeRaw` is what is left of it in 32 bits. A reference in the Lua registry is the number of its
`luaL_ref`. The references of callbacks and timers, and the coroutines that scripts make and resume
themselves, are left out.

`ticks`, `waits`, `resumes`, `unrefs` and `heights` are history.
-/

namespace DreamDota

/-- A `lua_State`, by the order of the calls of `lua_newthread`. -/
abbrev Thread := ℕ

/-- A reference, by the order of the calls of `luaL_ref`; 0 is none. -/
abbrev RegistryRef := ℕ

/-- An entry of a list of sleeping threads, with the number of the call of `Wait`. -/
structure Sleeper where
  thread : Thread
  wait : ℕ
  deriving DecidableEq, Repr

/-- A call of `Wait`: when, for how many milliseconds, and after how many Ticks had begun. -/
structure WaitCall where
  thread : Thread
  clock : ℕ
  delay : ℕ
  tick : ℕ
  deriving DecidableEq, Repr

/-- A Tick resumes the thread of a call of `Wait`. -/
structure Resume where
  wait : ℕ
  thread : Thread
  tick : ℕ
  deriving DecidableEq, Repr

/-- A call of `lua_resume` that has not returned, with the height that the master stack had on entry
to the function that makes it. -/
inductive Activation where
  | threadExec (thread : Thread) (refThread : RegistryRef) (height : ℕ)
  | tick (key : ℕ) (thread : Thread) (height : ℕ)
  deriving DecidableEq, Repr

def Activation.thread : Activation → Thread
  | .threadExec thread _ _ | .tick _ thread _ => thread

def Activation.isTick : Activation → Bool
  | .threadExec .. => false
  | .tick .. => true

/-- A Tick comes from the game, outside of all threads. -/
def TickOutermost (as : List Activation) : Prop :=
  ∀ l a r, as = l ++ a :: r → a.isTick = true → r = []

namespace TickOutermost

variable {a : Activation} {as : List Activation}

theorem nil : TickOutermost [] := fun l a r h => by simp at h

theorem singleton (a : Activation) : TickOutermost [a] := by
  intro l b r h _
  cases l with
  | nil => exact (List.cons.inj h).2.symm
  | cons c l => simp at h

theorem cons (h : TickOutermost as) (ha : a.isTick = false) : TickOutermost (a :: as) := by
  intro l b r heq hb
  cases l with
  | nil =>
    rw [← (List.cons.inj heq).1, ha] at hb
    cases hb
  | cons c l => exact h l b r (List.cons.inj heq).2 hb

theorem of_cons (h : TickOutermost (a :: as)) : TickOutermost as :=
  fun l b r heq => h (a :: l) b r (congrArg (a :: ·) heq)

theorem eq_nil (h : TickOutermost (a :: as)) (ha : a.isTick = true) : as = [] := h [] a as rfl ha

end TickOutermost

/-- How a call of `lua_resume` returns. -/
inductive RunEnd where
  | finished
  /-- `Wait` has yielded; `ms` is the double it computes from its argument. -/
  | waited (ms : ℚ)
  /-- The script has called `coroutine.yield`. -/
  | yielded
  | failed
  deriving DecidableEq, Repr

inductive ScriptEvent where
  | loadScript (loaded : Bool)
  /-- A value is pushed, and `ThreadExec` is called. -/
  | threadExec (isFunction : Bool)
  | tick (elapsed : ℕ)
  | returned (r : RunEnd)
  /-- `Wait` is called where `lua_yield` raises an error: inside a call from C. -/
  | refused (ms : ℚ)
  deriving DecidableEq, Repr

structure ScriptProcess where
  clock : ℕ
  /-- The number of values on the master stack. -/
  top : ℕ
  yieldThreadMap : Agenda ℕ Sleeper
  /-- `thread_ref_map_`, as its `operator[]` reads it. -/
  threadRefMap : Thread → RegistryRef
  active : List Activation
  threads : ℕ
  /-- The references that `ThreadExec` has taken and that are not released. -/
  registry : List RegistryRef
  refs : ℕ
  unrefs : List RegistryRef
  ticks : List ℕ
  waits : List WaitCall
  resumes : List Resume
  /-- The master stack on entry to a function and on its return. -/
  heights : List (ℕ × ℕ)

/-- The argument of `SleepThread` that `Wait` computes. The conversion of a negative double is not
defined; here it is what the processor makes of it. The test `time < 0` is never true. -/
def waitLength (ms : ℚ) : ℕ :=
  if ms < 4294967295 then ((if ms < 0 then ⌈ms⌉ else ⌊ms⌋) % 2 ^ 32).toNat else 4294967295

namespace ScriptProcess

def init : ScriptProcess where
  clock := 0
  top := 0
  yieldThreadMap := ∅
  threadRefMap _ := 0
  active := []
  threads := 0
  registry := []
  refs := 0
  unrefs := []
  ticks := []
  waits := []
  resumes := []
  heights := []

def timeRaw (s : ScriptProcess) : ℕ := s.clock % 2 ^ 32

/-! ## Lua -/

/-- `lua_newthread`. -/
def newThread (s : ScriptProcess) : ScriptProcess :=
  { s with top := s.top + 1, threads := s.threads + 1 }

/-- `luaL_ref` of the value on top of the master stack. -/
def ref (s : ScriptProcess) : ScriptProcess :=
  { s with top := s.top - 1, refs := s.refs + 1, registry := s.registry ++ [s.refs + 1] }

/-- `luaL_unref`. -/
def unref (s : ScriptProcess) (r : RegistryRef) : ScriptProcess :=
  { s with registry := s.registry.erase r, unrefs := s.unrefs ++ [r] }

/-- A value is pushed on the master stack. -/
def pushValue (s : ScriptProcess) : ScriptProcess := { s with top := s.top + 1 }

/-- `ProcessError` on the master stack: the message is popped, and the table `debug` stays. On the
stack of a thread it changes nothing else. -/
def processError (s : ScriptProcess) : ScriptProcess := { s with top := s.top - 1 + 1 }

/-! ## The functions -/

/-- A function returns that was entered at a height of the master stack. -/
def leave (s : ScriptProcess) (height : ℕ) : ScriptProcess :=
  { s with heights := s.heights ++ [(height, s.top)] }

def enter (s : ScriptProcess) (a : Activation) : ScriptProcess :=
  { s with active := a :: s.active }

/-- `ThreadExec`, until `lua_resume` is called. -/
def threadExec (s : ScriptProcess) (isFunction : Bool) (height : ℕ) : ScriptProcess :=
  if isFunction then
    let funcRef := s.refs + 1
    let thread := s.threads
    let refThread := s.refs + 2
    (s.ref.newThread.ref.unref funcRef).enter (.threadExec thread refThread height)
  else s.pushValue.processError.leave height

def loadScript (s : ScriptProcess) (loaded : Bool) : ScriptProcess :=
  if loaded then s.pushValue.threadExec true s.top else s.pushValue.processError.leave s.top

def sleepThread (s : ScriptProcess) (thread : Thread) (ms : ℚ) : ScriptProcess :=
  { s with
    yieldThreadMap :=
      s.yieldThreadMap.push ((s.timeRaw + waitLength ms) % 2 ^ 32) ⟨thread, s.waits.length⟩
    waits := s.waits ++ [⟨thread, s.clock, ⌊ms⌋.toNat, s.ticks.length⟩] }

/-- `thread_ref_map_[thread] = r`; `erase` is this with 0. -/
def setThreadRef (s : ScriptProcess) (thread : Thread) (r : RegistryRef) : ScriptProcess :=
  { s with threadRefMap := Function.update s.threadRefMap thread r }

/-- The loop of `Tick`, at the entry under its iterators. -/
def loop (s : ScriptProcess) (height : ℕ) : Option (ℕ × Sleeper) → ScriptProcess
  | none => s.leave height
  | some (key, e) =>
    if key ≤ s.timeRaw then
      { s.enter (.tick key e.thread height) with
        resumes := s.resumes ++ [⟨e.wait, e.thread, s.ticks.length - 1⟩] }
    else s.leave height

/-- `Tick`, at the new time. -/
def tick (s : ScriptProcess) (elapsed : ℕ) : ScriptProcess :=
  let s := { s with clock := s.clock + elapsed, ticks := s.ticks ++ [s.clock + elapsed] }
  s.loop s.top s.yieldThreadMap.first

/-- The end of a run that `ThreadExec` has started. -/
def threadExecEnd (s : ScriptProcess) (thread : Thread) (refThread : RegistryRef) :
    RunEnd → ScriptProcess
  | .finished => s.unref refThread
  | .waited ms => (s.sleepThread thread ms).setThreadRef thread refThread
  | .yielded => s.setThreadRef thread refThread
  | .failed => s

/-- The end of a run that `Tick` has started, without the record that is erased after it. -/
def tickEnd (s : ScriptProcess) (thread : Thread) : RunEnd → ScriptProcess
  | .finished => (s.unref (s.threadRefMap thread)).setThreadRef thread 0
  | .waited ms => s.sleepThread thread ms
  | .yielded | .failed => s

/-- The record under the iterators is erased. -/
def eraseRecord (s : ScriptProcess) (key : ℕ) : ScriptProcess :=
  { s with yieldThreadMap := s.yieldThreadMap.pop key }

/-- A run that `Tick` has started is over, and its record is erased. -/
def tickEnded (s : ScriptProcess) (key : ℕ) (thread : Thread) (rest : List Activation)
    (r : RunEnd) : ScriptProcess :=
  ({ s with active := rest }.tickEnd thread r).eraseRecord key

/-- The innermost call of `lua_resume` returns. -/
def returned (s : ScriptProcess) (r : RunEnd) : ScriptProcess :=
  match s.active with
  | [] => s
  | .threadExec thread refThread height :: rest =>
    ({ s with active := rest }.threadExecEnd thread refThread r).leave height
  | .tick key thread height :: rest =>
    let s := s.tickEnded key thread rest r
    s.loop height (s.yieldThreadMap.next key)

/-- A `Tick` comes from the game, outside of all threads. -/
def event (s : ScriptProcess) : ScriptEvent → ScriptProcess
  | .loadScript loaded => s.loadScript loaded
  | .threadExec isFunction => s.pushValue.threadExec isFunction s.top
  | .tick elapsed => if s.active = [] then s.tick elapsed else s
  | .returned r => s.returned r
  | .refused ms =>
    match s.active with
    | [] => s
    | a :: _ => s.sleepThread a.thread ms

end ScriptProcess

end DreamDota
