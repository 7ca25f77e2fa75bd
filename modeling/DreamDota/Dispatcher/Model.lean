import DreamDota.Lib.Reentrant
import Mathlib.Data.List.Basic
import Mathlib.Tactic.Common

/-!
# The event dispatcher

`EventDispatcher.cpp` as a re-entrant program. `dispatch` calls the subscribers and then the
listeners of the event's id, and each of them may call the dispatcher again. The functions of the
source are `Dispatcher.listen`, `Dispatcher.performTasks`, `Dispatcher.subscribe`, `exec` (the
entry of `dispatch`, `DiscardCurrentEvent`, `currentEvent`) and `resume` (the two loops of
`dispatch`, at the return of a callback).

The rest of the program is a `Client`: its own state, the calls its code offers to callbacks, and
the instructions these expand to. Nothing a client does can change a field of the dispatcher.

`History` and the last three fields of `Dispatch` are history: `exec` and `resume` write them and
never read them.
-/

namespace DreamDota

open Reentrant

/-- `EventListenerType`, a function pointer. -/
abbrev Callback := ℕ

/-- An `Event` object: its address and its id. Ids are compared and used as keys, never computed
with. -/
structure Event where
  addr : ℕ
  id : ℕ
  deriving DecidableEq, Repr

/-- The member `current_event_`. The constructor does not set it. -/
inductive EventPtr where
  | uninit
  | null
  | ref (evt : Event)
  deriving DecidableEq, Repr

/-- `ListenerUpdateTask::type`; `TYPE_ADD` is the only one. -/
inductive TaskType where
  | add
  deriving DecidableEq, Repr

structure ListenerUpdateTask where
  type : TaskType
  eventId : ℕ
  callback : Callback
  deriving DecidableEq, Repr

def maxDispatchRecursiveLevel : BitVec 32 := 15

def eventDispatcherMaxSubscriber : ℕ := 100

/-- The dispatcher object together with the globals of its file. `map` answers `none` for an id
with no entry in `map_`. -/
structure Dispatcher where
  dispatchedLevel : BitVec 32
  currentEventDiscarded : Bool
  subscribers : List (Option Callback)
  currentEvent : EventPtr
  map : ℕ → Option (List Callback)
  tasks : List ListenerUpdateTask

namespace Dispatcher

/-- `new EventDispatcher()`, with the file's globals at their initial values. -/
def new : Dispatcher := ⟨0, false, [], .uninit, fun _ => none, []⟩

/-- The queue of an id, empty where `map_` has no entry. -/
def queue (d : Dispatcher) (id : ℕ) : List Callback := (d.map id).getD []

def listen (d : Dispatcher) (id : ℕ) (callback : Callback) : Dispatcher :=
  { d with tasks := d.tasks ++ [⟨.add, id, callback⟩] }

def subscribe (d : Dispatcher) (callback : Option Callback) : Dispatcher :=
  if d.subscribers.length < eventDispatcherMaxSubscriber then
    { d with subscribers := d.subscribers ++ [callback] }
  else d

def hasListener (d : Dispatcher) (id : ℕ) : Bool := (d.map id).isSome && !(d.queue id).isEmpty

/-- The body of the loop of `performTasks`. -/
def performTask (m : ℕ → Option (List Callback)) (q : ListenerUpdateTask) :
    ℕ → Option (List Callback) :=
  match q.type with
  | .add => Function.update m q.eventId (some ((m q.eventId).getD [] ++ [q.callback]))

def performTasks (d : Dispatcher) : Dispatcher :=
  { d with map := d.tasks.foldl performTask d.map, tasks := [] }

/-- The guard at the head of `dispatch`. -/
def atLimit (d : Dispatcher) : Bool :=
  decide (0 < d.dispatchedLevel) && decide (maxDispatchRecursiveLevel ≤ d.dispatchedLevel)

end Dispatcher

/-! ## The program around the dispatcher -/

/-- What the code of the program may do: the calls of the dispatcher, and the instructions of the
client. A dispatch may carry a tag that says on whose behalf it is made. -/
inductive Op (Instr Tag : Type) where
  | dispatch (evt : Event) (tag : Option Tag)
  | listen (eventId : ℕ) (callback : Callback)
  | subscribe (callback : Option Callback)
  | discardCurrentEvent
  | currentEvent
  | instr (i : Instr)

/-- What a callback, or the code outside every dispatch, may do. -/
inductive UserOp (Call : Type) where
  | dispatch (evt : Event)
  | listen (eventId : ℕ) (callback : Callback)
  | subscribe (callback : Option Callback)
  | discardCurrentEvent
  | currentEvent
  | call (c : Call)

/-- The rest of the program. `exec` runs one instruction; its first argument is the tag of the
dispatch whose callback is running. -/
structure Client where
  Tag : Type
  Call : Type
  Instr : Type
  State : Type
  enter : Call → Instr
  exec : Option Tag → Instr → State → List (Op Instr Tag) × State

namespace Client

abbrev Code (C : Client) : Type := Op C.Instr C.Tag

abbrev User (C : Client) : Type := UserOp C.Call

variable {C : Client}

/-- A user's operation as an operation of the program. -/
def lift : C.User → C.Code
  | .dispatch evt => .dispatch evt none
  | .listen id callback => .listen id callback
  | .subscribe callback => .subscribe callback
  | .discardCurrentEvent => .discardCurrentEvent
  | .currentEvent => .currentEvent
  | .call c => .instr (C.enter c)

end Client

/-! ## The state -/

/-- A completed call of `dispatch`. -/
structure Return where
  evt : Event
  /-- What the call returned. -/
  result : Bool
  /-- Whether a callback called `DiscardCurrentEvent` while this dispatch was handling it. -/
  discarded : Bool
  /-- The listeners called, in order. -/
  ran : List Callback
  /-- Those of them that were called after `discarded` was set. -/
  late : List Callback
  /-- The queue of the id at the return. -/
  queue : List Callback
  /-- The listeners registered for the id before the call, in order. -/
  registered : List Callback
  deriving DecidableEq, Repr

/-- A call of `currentEvent()`: the event whose callback makes it, and the answer. -/
structure Read where
  handling : Option Event
  answer : EventPtr
  deriving DecidableEq, Repr

structure History where
  /-- Every listener registered so far, by id, in order of registration. -/
  registered : ℕ → List Callback
  /-- The event of the last call of `dispatch` that was not turned away. -/
  lastBegun : Option Event
  returns : List Return
  reads : List Read

structure Globals (C : Client) where
  disp : Dispatcher
  hist : History
  client : C.State

/-- Where a dispatch is: in the subscriber loop or in the listener loop, and at which index. -/
inductive Phase where
  | subscribers (i : ℕ)
  | listeners (i : ℕ)
  deriving DecidableEq, Repr

/-- An active call of `dispatch`. -/
structure Dispatch (Tag : Type) where
  evt : Event
  tag : Option Tag
  phase : Phase
  discarded : Bool
  ran : List Callback
  late : List Callback
  registered : List Callback

/-- The event handled is in its listener loop. -/
def Dispatch.looping {Tag : Type} (f : Dispatch Tag) : Bool :=
  match f.phase with
  | .subscribers _ => false
  | .listeners _ => true

/-- A dispatch at its entry. -/
def Dispatch.begin {Tag : Type} (evt : Event) (tag : Option Tag) (registered : List Callback) :
    Dispatch Tag :=
  ⟨evt, tag, .subscribers 0, false, [], [], registered⟩

/-- A listener of the queue is called. -/
def Dispatch.callListener {Tag : Type} (f : Dispatch Tag) (i : ℕ) (callback : Callback) :
    Dispatch Tag :=
  { f with
    phase := .listeners (i + 1)
    ran := f.ran ++ [callback]
    late := if f.discarded then f.late ++ [callback] else f.late }

/-- A callback calls `DiscardCurrentEvent`. -/
def Dispatch.discard {Tag : Type} (f : Dispatch Tag) : Dispatch Tag := { f with discarded := true }

variable {C : Client}

namespace Globals

/-- A dispatch returns. -/
def returned (g : Globals C) (f : Dispatch C.Tag) (result : Bool) : Globals C :=
  { g with
    hist := { g.hist with
      returns := g.hist.returns ++
        [⟨f.evt, result, f.discarded, f.ran, f.late, g.disp.queue f.evt.id, f.registered⟩] } }

/-- The activation that `dispatch(evt)` enters. -/
def frame (g : Globals C) (evt : Event) (tag : Option C.Tag) : Dispatch C.Tag :=
  Dispatch.begin evt tag (g.hist.registered evt.id)

/-- `dispatch` at the recursion limit: the level is reset and the call answers `true`. -/
def turnAway (g : Globals C) (evt : Event) (tag : Option C.Tag) : Globals C :=
  { g.returned (g.frame evt tag) true with disp := { g.disp with dispatchedLevel := 0 } }

/-- `dispatch` below the limit, up to the subscriber loop. -/
def begin (g : Globals C) (evt : Event) : Globals C :=
  { g with
    disp := { g.disp with currentEventDiscarded := false, currentEvent := .ref evt }
    hist := { g.hist with lastBegun := some evt } }

def listen (g : Globals C) (id : ℕ) (callback : Callback) : Globals C :=
  { g with
    disp := g.disp.listen id callback
    hist := { g.hist with
      registered := Function.update g.hist.registered id (g.hist.registered id ++ [callback]) } }

def subscribe (g : Globals C) (callback : Option Callback) : Globals C :=
  { g with disp := g.disp.subscribe callback }

/-- `DiscardCurrentEvent`. -/
def discard (g : Globals C) : Globals C :=
  { g with disp := { g.disp with currentEventDiscarded := true } }

/-- A call of `currentEvent()` by a callback of `handling`. -/
def read (g : Globals C) (handling : Option Event) : Globals C :=
  { g with hist := { g.hist with reads := g.hist.reads ++ [⟨handling, g.disp.currentEvent⟩] } }

def performTasks (g : Globals C) : Globals C := { g with disp := g.disp.performTasks }

/-- `DispatchedLevel ++`. -/
def enterLoop (g : Globals C) : Globals C :=
  { g with disp := { g.disp with dispatchedLevel := g.disp.dispatchedLevel + 1 } }

/-- `DispatchedLevel --`. -/
def leaveLoop (g : Globals C) : Globals C :=
  { g with disp := { g.disp with dispatchedLevel := g.disp.dispatchedLevel - 1 } }

end Globals

/-- One operation. -/
def exec (o : C.Code) (here : Option (Dispatch C.Tag)) (g : Globals C) :
    Outcome (Globals C) (Dispatch C.Tag) C.Code :=
  match o with
  | .dispatch evt tag =>
    if g.disp.atLimit then { globals := g.turnAway evt tag }
    else { globals := g.begin evt, enter := some (g.frame evt tag) }
  | .listen id callback => { globals := g.listen id callback }
  | .subscribe callback => { globals := g.subscribe callback }
  | .discardCurrentEvent => { globals := g.discard, touch := Dispatch.discard }
  | .currentEvent => { globals := g.read (here.map Dispatch.evt) }
  | .instr i =>
    let r := C.exec (here.bind Dispatch.tag) i g.client
    { globals := { g with client := r.2 }, code := r.1 }

/-- `dispatch` after the subscriber loop: the tasks are performed, and the listener loop is entered
if the id has an entry. -/
def afterSubscribers (f : Dispatch C.Tag) (g : Globals C) : Next (Globals C) (Dispatch C.Tag) :=
  match g.performTasks.disp.map f.evt.id with
  | none => .leave (g.performTasks.returned f (!g.disp.currentEventDiscarded))
  | some _ => .skip { f with phase := .listeners 0 } g.performTasks.enterLoop

/-- The loops of `dispatch`, at the return of a callback. -/
def resume (f : Dispatch C.Tag) (g : Globals C) : Next (Globals C) (Dispatch C.Tag) :=
  match f.phase with
  | .subscribers i =>
    match g.disp.subscribers[i]? with
    | some (some _) => .call { f with phase := .subscribers (i + 1) } g
    | some none => .skip { f with phase := .subscribers (i + 1) } g
    | none => afterSubscribers f g
  | .listeners i =>
    if g.disp.currentEventDiscarded then .leave (g.leaveLoop.returned f false)
    else
      match (g.disp.queue f.evt.id)[i]? with
      | some callback => .call (f.callListener i callback) g
      | none => .leave (g.leaveLoop.returned f true)

/-- The dispatcher and its client as a re-entrant program. -/
def lang (C : Client) : Lang (Globals C) (Dispatch C.Tag) C.Code := ⟨exec, resume⟩

/-! ## The machine and its runs -/

/-- The machine. -/
abbrev Machine (C : Client) : Type := Config (Globals C) (Dispatch C.Tag) C.Code

/-- The machine before the first operation of `main`. -/
def Machine.init (client : C.State) (main : List C.User) : Machine C :=
  start ⟨Dispatcher.new, ⟨fun _ => [], none, [], []⟩, client⟩ (main.map Client.lift)

/-- One step, the `k`-th callback entered executing `beh k`. -/
def Machine.step (beh : ℕ → List C.User) (c : Machine C) : Machine C :=
  (lang C).step (fun k => (beh k).map Client.lift) c

/-- The state after `n` steps of the program `main`, the `k`-th callback entered executing
`beh k`. -/
def run (client : C.State) (main : List C.User) (beh : ℕ → List C.User) (n : ℕ) : Machine C :=
  (Machine.step beh)^[n] (Machine.init client main)

end DreamDota
