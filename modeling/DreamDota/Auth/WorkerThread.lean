import DreamDota.Lib.Threads

/-!
# Worker threads

`WorkerThread` with the handlers of its completion, a `SimpleUI::Delegate`. `Run` and `ThreadProc`
are sequences of the single accesses given here; their points are in the models that use them.
-/

namespace DreamDota

/-- `SimpleUI::Delegate`: the handlers, in the order in which they were added. -/
abbrev Delegate (η : Type*) := List η

namespace Delegate

variable {η : Type*}

def add (d : Delegate η) (h : η) : Delegate η := d ++ [h]

/-- `std::find` and `erase`: the first of the handlers that equal `h`. -/
def remove [DecidableEq η] (d : Delegate η) (h : η) : Delegate η := d.erase h

end Delegate

/-- `thread` says that `thread_` is not `NULL`. -/
structure WorkerThread (η : Type*) where
  thread : Bool
  running : Bool
  onThreadComplete : Delegate η
  deriving DecidableEq

namespace WorkerThread

variable {η : Type*} (t : WorkerThread η)

/-- The constructor. -/
def new : WorkerThread η := ⟨false, false, []⟩

def setRunning (b : Bool) : WorkerThread η := { t with running := b }

def setThread (b : Bool) : WorkerThread η := { t with thread := b }

def addHandler (h : η) : WorkerThread η :=
  { t with onThreadComplete := t.onThreadComplete.add h }

def removeHandler [DecidableEq η] (h : η) : WorkerThread η :=
  { t with onThreadComplete := t.onThreadComplete.remove h }

end WorkerThread

end DreamDota
