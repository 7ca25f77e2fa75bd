import DreamDota.Auth.WorkerThread
import Mathlib.Data.Int.Order.Basic
import Mathlib.Logic.Function.Basic

/-!
# The game module

`Start`, `Change` and `Stop`, which the caller executes, and the completion handlers, which the
search and the pipe thread execute. Every access to what the threads share is a step of its own, so
a point of the model is a place between two accesses of the source.

1. `GameModule`, `Point`: the state, and the places where a thread can be.
2. `exec`: what is done at each of them.
3. `program`, `changeProgram`: the threads with all commands, and with `Change` alone.
-/

namespace DreamDota

/-! ## The state -/

/-- `INJECT_METHOD_AUTO` and `INJECT_METHOD_PASSIVE`. -/
inductive InjectMethodEnum
  | auto
  | passive
  deriving DecidableEq

/-- `STATE_INITED`, `STATE_STARTED`, `STATE_STARTING` and `STATE_STOPPING`. -/
inductive StateEnum
  | inited
  | started
  | starting
  | stopping
  deriving DecidableEq

/-- `SearchThread` and `PipeThread`. -/
inductive WorkerId
  | search
  | pipe
  deriving DecidableEq

/-- The handlers of `onThreadComplete`. -/
inductive CompleteHandler
  | onThreadEndForCleanup
  | onThreadEndForModuleCleanup
  deriving DecidableEq

/-- The handler of `onActionComplete` that belongs to the module. -/
inductive ActionHandler
  | startChangeComplete
  deriving DecidableEq

/-- `ThreadSearch` and `ThreadPipe`. -/
structure ModuleThread extends WorkerThread CompleteHandler where
  term : Bool
  deriving DecidableEq

/-- `profile` is the number stored in the configuration file. The last four fields record the
history: the methods that `Change` was called with, the last one first, and how often `DoChange`,
`Stop` and `DoStop` were called and `onActionComplete` was invoked. -/
structure GameModule where
  threads : WorkerId → ModuleThread
  injectMethod : InjectMethodEnum
  toInjectMethod : InjectMethodEnum
  state : StateEnum
  onActionComplete : Delegate ActionHandler
  profile : ℤ
  changes : List InjectMethodEnum
  doChanges : ℕ
  stops : ℕ
  doStops : ℕ
  invokes : ℕ

namespace GameModule

/-- After `Init`. -/
def init (profile : ℤ) : GameModule where
  threads := fun _ => ⟨.new, false⟩
  injectMethod := .auto
  toInjectMethod := .auto
  state := .inited
  onActionComplete := []
  profile := profile
  changes := []
  doChanges := 0
  stops := 0
  doStops := 0
  invokes := 0

def getCurrentMethod (w : GameModule) : InjectMethodEnum := w.injectMethod

/-- `SearchThread->Running()` and `PipeThread->Running()`. -/
def isRunning (w : GameModule) (id : WorkerId) : Bool := (w.threads id).running

def setThread (w : GameModule) (id : WorkerId) (t : ModuleThread) : GameModule :=
  { w with threads := Function.update w.threads id t }

/-- A change of what `ThreadSearch` and `ThreadPipe` have from `WorkerThread`. -/
def mapThread (w : GameModule) (id : WorkerId)
    (f : WorkerThread CompleteHandler → WorkerThread CompleteHandler) : GameModule :=
  w.setThread id ⟨f (w.threads id).toWorkerThread, (w.threads id).term⟩

def setTerm (w : GameModule) (id : WorkerId) (b : Bool) : GameModule :=
  w.setThread id ⟨(w.threads id).toWorkerThread, b⟩

theorem threads_setThread (w : GameModule) (id id' : WorkerId) (t : ModuleThread) :
    (w.setThread id t).threads id' = if id' = id then t else w.threads id' :=
  Function.update_apply w.threads id t id'

theorem threads_mapThread (w : GameModule) (id id' : WorkerId)
    (f : WorkerThread CompleteHandler → WorkerThread CompleteHandler) :
    ((w.mapThread id f).threads id').toWorkerThread =
      if id' = id then f (w.threads id).toWorkerThread else (w.threads id').toWorkerThread := by
  unfold mapThread
  rw [threads_setThread]
  split_ifs <;> rfl

theorem threads_setTerm (w : GameModule) (id id' : WorkerId) (b : Bool) :
    ((w.setTerm id b).threads id').toWorkerThread = (w.threads id').toWorkerThread := by
  unfold setTerm
  rw [threads_setThread]
  split_ifs with h
  · rw [h]
  · rfl

end GameModule

/-! ## The code -/

/-- What follows a `WorkerThread::Run`: in `DoChange`, and in `Start`. -/
inductive AfterRun
  | assignMethod
  | addStartHandler (m : InjectMethodEnum)
  deriving DecidableEq

/-- The places between two accesses. Each is named after the access that follows it. -/
inductive Point
  -- `Change(m)`
  | changeTest (m : InjectMethodEnum)
  | changeAdd (m : InjectMethodEnum)
  | changeSignal (m : InjectMethodEnum)
  | changeStore (m : InjectMethodEnum) (needWait : Bool)
  -- `DoChange`
  | doChange
  | assignMethod
  | invokeAction
  -- `WorkerThread::Run`
  | run (id : WorkerId) (k : AfterRun)
  | markRunning (id : WorkerId) (k : AfterRun)
  | startThread (id : WorkerId) (k : AfterRun)
  -- `Start`
  | addStartHandler (m : InjectMethodEnum)
  -- `StartChangeComplete`
  | startChangeComplete
  | setStarted
  -- `Stop`
  | stopTest (id : WorkerId) (needWait : Bool)
  | stopAdd (id : WorkerId)
  | stopSignal (id : WorkerId)
  -- `DoStop`
  | doStop
  -- `WorkerThread::ThreadProc` and `Work`
  | beginWork (id : WorkerId)
  | work (id : WorkerId)
  | clearThread (id : WorkerId)
  | clearRunning (id : WorkerId)
  | invokeComplete (id : WorkerId)
  -- `onThreadEndForCleanup` and `onThreadEndForModuleCleanup`
  | handle (id : WorkerId) (h : CompleteHandler)
  | cleanupTest
  | moduleCleanupTest (id : WorkerId)
  deriving DecidableEq

def AfterRun.point : AfterRun → Point
  | .assignMethod => .assignMethod
  | .addStartHandler m => .addStartHandler m

def ActionHandler.point : ActionHandler → Point
  | .startChangeComplete => .startChangeComplete

namespace GameModule

open Threads

/-- `ProfileSetInt`. -/
def enterChange (w : GameModule) (m : InjectMethodEnum) : GameModule :=
  { w with
    profile := match m with
      | .auto => 0
      | .passive => 1
    changes := m :: w.changes }

/-- The rest of `Stop` once the thread `id` has been dealt with. -/
def stopRest (id : WorkerId) (needWait : Bool) : List Point :=
  match id with
  | .search => [.stopTest .pipe needWait]
  | .pipe => if needWait then [] else [.doStop]

def exec : Point → GameModule → Option (Effect GameModule Point)
  | .changeTest m, w =>
    some (.goto w (if w.isRunning .search then [.changeAdd m] else [.changeStore m false]))
  | .changeAdd m, w =>
    some (.goto (w.mapThread .search (·.addHandler .onThreadEndForCleanup)) [.changeSignal m])
  | .changeSignal m, w => some (.goto (w.setTerm .search true) [.changeStore m true])
  | .changeStore m needWait, w =>
    some (.goto { w with toInjectMethod := m } (if needWait then [] else [.doChange]))
  | .doChange, w =>
    some (.goto { w with doChanges := w.doChanges + 1 }
      (if w.toInjectMethod = .auto then [.run .search .assignMethod] else [.assignMethod]))
  | .assignMethod, w => some (.goto { w with injectMethod := w.toInjectMethod } [.invokeAction])
  | .invokeAction, w =>
    some (.goto { w with invokes := w.invokes + 1 }
      (w.onActionComplete.map ActionHandler.point))
  | .run id k, w =>
    some (.goto w (if (w.threads id).thread then [k.point] else [.markRunning id k]))
  | .markRunning id k, w => some (.goto (w.mapThread id (·.setRunning true)) [.startThread id k])
  | .startThread id k, w =>
    some ⟨w.mapThread id (·.setThread true), [k.point], [[.beginWork id]]⟩
  | .addStartHandler m, w =>
    some (.goto ({ w with
      onActionComplete := w.onActionComplete.add .startChangeComplete }.enterChange m)
      [.changeTest m])
  | .startChangeComplete, w =>
    some (.goto { w with onActionComplete := w.onActionComplete.remove .startChangeComplete }
      [.setStarted])
  | .setStarted, w => some (.goto { w with state := .started } [])
  | .stopTest id needWait, w =>
    some (.goto w (if w.isRunning id then [.stopAdd id] else stopRest id needWait))
  | .stopAdd id, w =>
    some (.goto (w.mapThread id (·.addHandler .onThreadEndForModuleCleanup)) [.stopSignal id])
  | .stopSignal id, w => some (.goto (w.setTerm id true) (stopRest id true))
  | .doStop, w =>
    some (.goto { w with state := .inited, doStops := w.doStops + 1 } [.invokeAction])
  | .beginWork id, w => some (.goto (w.setTerm id false) [.work id])
  | .work id, w => if (w.threads id).term then some (.goto w [.clearThread id]) else none
  | .clearThread id, w => some (.goto (w.mapThread id (·.setThread false)) [.clearRunning id])
  | .clearRunning id, w => some (.goto (w.mapThread id (·.setRunning false)) [.invokeComplete id])
  | .invokeComplete id, w => some (.goto w ((w.threads id).onThreadComplete.map (.handle id)))
  | .handle id h, w =>
    -- both handlers remove `onThreadEndForCleanup`
    some (.goto (w.mapThread id (·.removeHandler .onThreadEndForCleanup)) (match h with
      | .onThreadEndForCleanup => [.cleanupTest]
      | .onThreadEndForModuleCleanup => [.moduleCleanupTest .search]))
  | .cleanupTest, w => some (.goto w (if w.isRunning .search then [] else [.doChange]))
  | .moduleCleanupTest .search, w =>
    some (.goto w (if w.isRunning .search then [] else [.moduleCleanupTest .pipe]))
  | .moduleCleanupTest .pipe, w =>
    some (.goto w (if w.isRunning .pipe then [] else [.doStop]))

/-- The method that `Start` passes to `Change`. -/
def savedInjectMethod (saved : ℤ) (admin : Bool) : InjectMethodEnum :=
  if !admin then .passive
  else if saved < 0 ∨ 1 < saved then .auto
  else if saved = 0 then .auto
  else .passive

inductive Command
  | start (admin : Bool)
  | change (m : InjectMethodEnum)
  | stop

/-- `Start` and `Stop` begin in the state that they assert. -/
def issue : Command → GameModule → Option (GameModule × List Point)
  | .start admin, w =>
    if w.state = .inited then
      some ({ w with state := .starting },
        [.run .pipe (.addStartHandler (savedInjectMethod w.profile admin))])
    else none
  | .change m, w => some (w.enterChange m, [.changeTest m])
  | .stop, w =>
    if w.state = .started then
      some ({ w with state := .stopping, stops := w.stops + 1 }, [.stopTest .search false])
    else none

def program : Program GameModule Point Command := ⟨issue, exec⟩

def changeProgram : Program GameModule Point InjectMethodEnum where
  issue m w := some (w.enterChange m, [.changeTest m])
  exec := exec

/-- Before the first command. -/
def initial (profile : ℤ) : Config GameModule Point := ⟨init profile, [], []⟩

/-! ## What all steps have in common -/

variable {κ : Type*} {P : Program GameModule Point κ} {w : GameModule}
  {c c' : Config GameModule Point} {i : Point} {e : Effect GameModule Point}

/-- Only `Work` blocks. -/
theorem exec_eq_none (he : exec i w = none) : ∃ id, i = .work id ∧ (w.threads id).term = false := by
  cases i with
  | work id => exact ⟨id, rfl, by simpa [exec] using he⟩
  | moduleCleanupTest id => cases id <;> cases he
  | _ => cases he

/-- The first points of the handlers. -/
def isHandler : Point → Bool
  | .handle _ _ | .startChangeComplete => true
  | _ => false

/-- A point is followed by one point at most, or by handlers. -/
theorem exec_tail (he : exec i w = some e) : ∀ j ∈ e.next.tail, isHandler j = true := by
  have hmap : ∀ {η : Type} (f : η → Point) (l : List η), (∀ h, isHandler (f h) = true) →
      ∀ j ∈ (l.map f).tail, isHandler j = true := by
    intro η f l hf j hj
    obtain ⟨h, -, rfl⟩ := List.mem_map.mp (List.mem_of_mem_tail hj)
    exact hf h
  have hrest : ∀ id needWait, ∀ j ∈ (stopRest id needWait).tail, isHandler j = true := by
    intro id needWait
    cases id <;> cases needWait <;> exact List.forall_mem_nil _
  cases i with
  | invokeAction =>
    obtain rfl := Option.some.inj he
    exact hmap _ _ fun h => by cases h; rfl
  | invokeComplete id =>
    obtain rfl := Option.some.inj he
    exact hmap _ _ fun h => rfl
  | work id =>
    obtain ⟨-, he⟩ := Option.ite_none_right_eq_some.mp he
    obtain rfl := Option.some.inj he
    exact List.forall_mem_nil _
  | changeTest | changeStore | doChange | run | cleanupTest =>
    obtain rfl := Option.some.inj he
    simp only [Effect.goto]
    split_ifs <;> exact List.forall_mem_nil _
  | stopTest id needWait =>
    obtain rfl := Option.some.inj he
    simp only [Effect.goto]
    split_ifs
    · exact List.forall_mem_nil _
    · exact hrest id needWait
  | stopSignal id =>
    obtain rfl := Option.some.inj he
    exact hrest id true
  | handle id h =>
    obtain rfl := Option.some.inj he
    cases h <;> exact List.forall_mem_nil _
  | moduleCleanupTest id =>
    cases id <;>
    · obtain rfl := Option.some.inj he
      simp only [Effect.goto]
      split_ifs <;> exact List.forall_mem_nil _
  | _ =>
    obtain rfl := Option.some.inj he
    exact List.forall_mem_nil _

/-- Only `Run` starts threads. -/
theorem exec_started (he : exec i w = some e) :
    ∀ code ∈ e.started, ∃ id, code = [.beginWork id] := by
  cases i with
  | startThread id k =>
    obtain rfl := Option.some.inj he
    intro code hcode
    exact ⟨id, List.mem_singleton.mp hcode⟩
  | work id =>
    obtain ⟨-, he⟩ := Option.ite_none_right_eq_some.mp he
    obtain rfl := Option.some.inj he
    exact List.forall_mem_nil _
  | moduleCleanupTest id =>
    cases id <;>
    · obtain rfl := Option.some.inj he
      exact List.forall_mem_nil _
  | _ =>
    obtain rfl := Option.some.inj he
    exact List.forall_mem_nil _

/-- All points but the first of each code are first points of handlers. -/
def HandlerTails (c : Config GameModule Point) : Prop :=
  ∀ code ∈ c.caller :: c.pool, ∀ j ∈ code.tail, isHandler j = true

theorem HandlerTails.exec (h : HandlerTails c) (he : GameModule.exec i c.shared = some e)
    (hex : Executed c i e c') : HandlerTails c' := by
  refine hex.tail h (exec_tail he) fun code hcode j hj => ?_
  obtain ⟨id, rfl⟩ := exec_started he code hcode
  cases hj

/-- A command begins with one point. -/
theorem HandlerTails.issue (h : HandlerTails c) (w : GameModule) (i : Point) :
    HandlerTails ⟨w, [i], c.pool⟩ := by
  intro code hcode
  rcases List.mem_cons.mp hcode with rfl | hcode
  · exact List.forall_mem_nil _
  · exact h code (List.mem_cons_of_mem _ hcode)

/-- At rest, a thread that has not ended is in its `Work` and has not been told to stop. -/
theorem HandlerTails.atRest (h : HandlerTails c) (hP : P.exec = GameModule.exec)
    (hrest : AtRest P c) : ∀ i ∈ c.points, ∃ id, .work id ∈ c.points ∧
      (c.shared.threads id).term = false ∧ (i = .work id ∨ isHandler i = true) := by
  intro i hi
  have hpool : ∀ code ∈ c.pool, ∀ j ∈ code, j ∈ c.points := fun code hcode j hj =>
    List.mem_append_right _ (List.mem_flatten.mpr ⟨code, hcode, hj⟩)
  rw [Config.points, hrest.1, List.nil_append] at hi
  obtain ⟨code, hcode, hi⟩ := List.mem_flatten.mp hi
  cases code with
  | nil => cases hi
  | cons j rest =>
    have hblocked := hrest.2 _ hcode j rfl
    rw [hP] at hblocked
    obtain ⟨id, rfl, hterm⟩ := exec_eq_none hblocked
    refine ⟨id, hpool _ hcode _ List.mem_cons_self, hterm, ?_⟩
    rcases List.mem_cons.mp hi with hi | hi
    · exact .inl hi
    · exact .inr (h _ (List.mem_cons_of_mem _ hcode) i hi)

end GameModule

end DreamDota
