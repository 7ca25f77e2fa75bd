import DreamDota.Auth.GameModule
import DreamDota.Lib.Session

/-!
# A session and its end

`Loggedin` between the login and `onEvent`: it starts the game module, changes the inject method
and stops the module after a logout or a disconnect. The results come back through
`GameModule::onActionComplete`, which all commands share. A handler runs as one step. What the
dialog shows and the service modules are left out, but not what keeps the user from a button.

The stop signal of a thread is never lost here, and a thread that was told to stop may take as long
as it likes. Between its end and the run of a handler, and between two handlers, others may run.

1. `World`, `Step`, `step`: the state, and what can happen.
2. `SessionsOk`: every command and every session comes to its end, once.
3. `Orderly`: what can happen without confusion.
-/

namespace DreamDota.Loggedin

/-! ## The state -/

/-- `EVENT_LOGOUT` and `EVENT_EXIT`. -/
inductive EventEnum
  | logout
  | exit
  deriving DecidableEq

/-- The handlers of `onActionComplete`. Those of `Loggedin` come with the number of the command for
which they are added. -/
inductive ActionHandler
  | startChangeComplete
  | updateInjectMethodComplete (command : ℕ)
  | onLogoutComplete2 (command : ℕ)
  | onDisconnectComplete (command : ℕ)
  deriving DecidableEq

/-- The two are the same function. -/
def ActionHandler.same : ActionHandler → ActionHandler → Bool
  | .startChangeComplete, .startChangeComplete => true
  | .updateInjectMethodComplete _, .updateInjectMethodComplete _ => true
  | .onLogoutComplete2 _, .onLogoutComplete2 _ => true
  | .onDisconnectComplete _, .onDisconnectComplete _ => true
  | _, _ => false

/-- History. `completed` are the commands that had their `DoChange` or `DoStop`, and `ended` the
sessions that had their logout or disconnect. `runs` holds for every run of a handler its command,
and whether this was complete, `stops` the session and the state in which `Stop` was called, and
`raised` the session of an `onEvent`, and whether both threads had finished. -/
structure Log where
  completed : List ℕ
  runs : List (ℕ × Bool)
  stops : List (ℕ × StateEnum)
  ended : List ℕ
  raised : List (ℕ × Bool)
  deriving DecidableEq

/-- `invocations` are the lists of handlers that `onThreadComplete.Invoke` still has to run, each
with the thread it belongs to. `loginShown` says that the login dialog waits for the user, and
`logoutRuns` that the logout thread was run.

The fields from `sessions` on are history: the sessions and the commands are numbered, `changing` is
the command that stored `ToInjectMethod` last, `stopping` the last `Stop`. -/
structure World where
  threads : WorkerId → ModuleThread
  invocations : List (WorkerId × List CompleteHandler)
  injectMethod : InjectMethodEnum
  toInjectMethod : InjectMethodEnum
  state : StateEnum
  onActionComplete : Delegate ActionHandler
  profile : ℤ
  admin : Bool
  event : EventEnum
  enabled : Bool
  locked : Bool
  loginShown : Bool
  loggedIn : Bool
  logoutRuns : Bool
  sessions : ℕ
  commands : ℕ
  changing : ℕ
  stopping : ℕ
  log : Log

namespace World

variable (w : World)

/-- After the `Init`s. -/
def init (profile : ℤ) (admin : Bool) : World where
  threads := fun _ => ⟨.new, false⟩
  invocations := []
  injectMethod := .auto
  toInjectMethod := .auto
  state := .inited
  onActionComplete := []
  profile := profile
  admin := admin
  event := .logout
  enabled := false
  locked := false
  loginShown := true
  loggedIn := false
  logoutRuns := false
  sessions := 0
  commands := 0
  changing := 0
  stopping := 0
  log := ⟨[], [], [], [], []⟩

def isRunning (id : WorkerId) : Bool := (w.threads id).running

def setThread (id : WorkerId) (t : ModuleThread) : World :=
  { w with threads := Function.update w.threads id t }

/-- Both threads have finished. -/
def finished : Bool := !w.isRunning .search && !w.isRunning .pipe

/-! ## The code -/

/-- `WorkerThread::Run`, with the first statement of `Work`. -/
def run (id : WorkerId) : World :=
  if (w.threads id).thread then w
  else w.setThread id ⟨⟨true, true, (w.threads id).onThreadComplete⟩, false⟩

/-- `onThreadComplete += h` and `StopSignal`. -/
def signal (id : WorkerId) (h : CompleteHandler) : World :=
  w.setThread id ⟨(w.threads id).addHandler h, true⟩

/-- `onActionComplete -= h`. -/
def removeAction (h : ActionHandler) : World :=
  { w with onActionComplete := w.onActionComplete.eraseP h.same }

/-- `onEvent`, whose handler shows the login dialog again or closes it. -/
def raise (e : EventEnum) : World :=
  { w with
    loginShown := decide (e = .logout)
    log.raised := w.log.raised ++ [(w.sessions, w.finished)] }

/-- A handler that was added for `command` runs. -/
def record (command : ℕ) : World :=
  { w with log.runs := w.log.runs ++ [(command, decide (command ∈ w.log.completed))] }

def runAction : ActionHandler → World
  | .startChangeComplete => { w.removeAction .startChangeComplete with state := .started }
  | .updateInjectMethodComplete n =>
    { (w.record n).removeAction (.updateInjectMethodComplete n) with locked := false }
  | .onLogoutComplete2 n =>
    { (w.record n).removeAction (.onLogoutComplete2 n) with enabled := false }.raise w.event
  | .onDisconnectComplete n =>
    { (w.record n).removeAction (.onDisconnectComplete n) with
      enabled := false
      locked := false }.raise .logout

/-- `onActionComplete.Invoke(true)`. -/
def invokeAction : World := w.onActionComplete.foldl runAction w

def doChange : World :=
  let w := if w.toInjectMethod = .auto then w.run .search else w
  { w with
    injectMethod := w.toInjectMethod
    log.completed := w.changing :: w.log.completed }.invokeAction

/-- `Change(m)` as the command `n`, or a part of it. -/
def change (n : ℕ) (m : InjectMethodEnum) : World :=
  let w := { w with profile := if m = InjectMethodEnum.auto then 0 else 1 }
  if w.isRunning .search then
    { w.signal .search .onThreadEndForCleanup with toInjectMethod := m, changing := n }
  else { w with toInjectMethod := m, changing := n }.doChange

/-- `Start`. -/
def start (n : ℕ) : World :=
  let w := { w with state := .starting }
  let m := GameModule.savedInjectMethod w.profile w.admin
  let w := w.run .pipe
  { w with onActionComplete := w.onActionComplete.add .startChangeComplete }.change n m

def doStop : World :=
  { w with state := .inited, log.completed := w.stopping :: w.log.completed }.invokeAction

/-- The part of `Stop` for one thread. -/
def stopThread (id : WorkerId) : World :=
  if w.isRunning id then w.signal id .onThreadEndForModuleCleanup else w

/-- `Stop` as the command `n`. -/
def stop (n : ℕ) : World :=
  let w := { w with
    state := .stopping
    stopping := n
    log.stops := w.log.stops ++ [(w.sessions, w.state)] }
  let needWait := w.isRunning .search || w.isRunning .pipe
  let w := (w.stopThread .search).stopThread .pipe
  if needWait then w else w.doStop

/-- `MainDialog`, after a login that succeeded. -/
def mainDialog : World :=
  { w with
    loggedIn := true
    loginShown := false
    enabled := true
    locked := true
    sessions := w.sessions + 1
    commands := w.commands + 1
    onActionComplete := w.onActionComplete.add (.updateInjectMethodComplete w.commands)
    }.start w.commands

/-- `UpdateInjectMethod`, with `m` for the radio box that is checked. -/
def updateInjectMethod (m : InjectMethodEnum) : World :=
  if m = w.injectMethod then w
  else
    { w with
      locked := true
      commands := w.commands + 1
      onActionComplete := w.onActionComplete.add (.updateInjectMethodComplete w.commands)
      }.change w.commands m

/-- The button or `WM_CLOSE`, and `Auth::Logout`. -/
def logout (e : EventEnum) : World :=
  { w with event := e, locked := true, logoutRuns := w.logoutRuns || w.loggedIn }

/-- The end of a session, with the handler that is added for the `Stop`. -/
def endSession (h : ℕ → ActionHandler) : World :=
  { w with
    loggedIn := false
    logoutRuns := false
    commands := w.commands + 1
    log.ended := w.log.ended ++ [w.sessions]
    onActionComplete := w.onActionComplete.add (h w.commands) }.stop w.commands

/-- `OnLogoutComplete`. -/
def onLogoutComplete : World := w.endSession .onLogoutComplete2

/-- `OnDisconnect`. -/
def onDisconnect : World := { w with locked := true }.endSession .onDisconnectComplete

/-- A thread ends, and `Invoke` copies its handlers. -/
def finish (id : WorkerId) : World :=
  let t := w.threads id
  { w.setThread id ⟨⟨false, false, t.onThreadComplete⟩, t.term⟩ with
    invocations := w.invocations ++ [(id, t.onThreadComplete)] }

/-- Both handlers remove `onThreadEndForCleanup`. -/
def removeCleanup (id : WorkerId) : World :=
  w.setThread id
    ⟨(w.threads id).removeHandler .onThreadEndForCleanup, (w.threads id).term⟩

def onThreadEndForCleanup (id : WorkerId) : World :=
  let w := w.removeCleanup id
  if w.isRunning .search then w else w.doChange

def onThreadEndForModuleCleanup (id : WorkerId) : World :=
  let w := w.removeCleanup id
  if w.finished then w.doStop else w

def handle (id : WorkerId) : CompleteHandler → World
  | .onThreadEndForCleanup => w.onThreadEndForCleanup id
  | .onThreadEndForModuleCleanup => w.onThreadEndForModuleCleanup id

end World

/-! ## Runs -/

inductive Step
  | login
  | change (m : InjectMethodEnum)
  | logout (e : EventEnum)
  | logoutComplete
  | disconnect
  | finish (id : WorkerId)
  | handle (i : ℕ)
  deriving DecidableEq

namespace World

variable (w : World)

/-- The buttons can be used. -/
def usable : Bool := w.enabled && !w.locked

/-- A step that is not possible leaves the state. The radio box of the automatic method needs the
administrator; a disconnect comes to a session that has not asked for its end. -/
def step : Step → World
  | .login => if w.loginShown && !w.loggedIn then w.mainDialog else w
  | .change m => if w.usable && (m = .passive || w.admin) then w.updateInjectMethod m else w
  | .logout e => if w.usable then w.logout e else w
  | .logoutComplete => if w.logoutRuns then w.onLogoutComplete else w
  | .disconnect => if w.loggedIn && !w.logoutRuns then w.onDisconnect else w
  | .finish id => if (w.threads id).running && (w.threads id).term then w.finish id else w
  | .handle i =>
    match w.invocations[i]? with
    | some (id, h :: hs) => { w with invocations := w.invocations.set i (id, hs) }.handle id h
    | _ => w

/-- No thread has to end, and no handler has to run. -/
def AtRest : Prop :=
  (∀ id, w.isRunning id = true → (w.threads id).term = false) ∧ ∀ q ∈ w.invocations, q.2 = []

/-- `Stop` is called once in every session that ends, in `STATE_STARTED`. Every handler runs once
after its command is complete, and `onEvent` is raised once, after both threads. -/
structure SessionsOk : Prop where
  stopState : ∀ p ∈ w.log.stops, p.2 = .started
  stopOnce : w.log.stops.map Prod.fst = w.log.ended ∧ w.log.ended.Nodup
  runComplete : ∀ p ∈ w.log.runs, p.2 = true
  runOnce : (w.log.runs.map Prod.fst).Nodup
  raiseFinished : ∀ p ∈ w.log.raised, p.2 = true
  raiseOnce : (w.log.raised.map Prod.fst).Nodup ∧ ∀ p ∈ w.log.raised, p.1 ∈ w.log.ended
  atRest : w.AtRest → (∀ n < w.commands, n ∈ w.log.runs.map Prod.fst) ∧
    ∀ n ∈ w.log.ended, n ∈ w.log.raised.map Prod.fst

/-- `onThreadEndForCleanup` waits for the end of the search thread. -/
def Registered : Prop := .onThreadEndForCleanup ∈ (w.threads .search).onThreadComplete

/-- `onThreadEndForCleanup` has still to run after an end of the search thread. -/
def Copied : Prop := ∃ q ∈ w.invocations, .onThreadEndForCleanup ∈ q.2

/-- The next handler of the invocation is `onThreadEndForModuleCleanup`, for the search thread. -/
def removesCleanup (i : ℕ) : Bool :=
  match w.invocations[i]? with
  | some (.search, .onThreadEndForModuleCleanup :: _) => true
  | _ => false

/-- No disconnect comes while a change waits, and `onThreadEndForModuleCleanup` does not remove the
handler of a change that waits for the search thread. -/
def Orderly : Step → Prop
  | .disconnect => w.loggedIn = true → w.logoutRuns = false → ¬w.Registered ∧ ¬w.Copied
  | .handle i => w.removesCleanup i = true → w.Registered → w.Copied
  | _ => True

instance : Decidable w.Registered := inferInstanceAs (Decidable (_ ∈ _))

instance : Decidable w.Copied := inferInstanceAs (Decidable (∃ q ∈ w.invocations, _ ∈ q.2))

instance : (t : Step) → Decidable (w.Orderly t)
  | .login | .change _ | .logout _ | .logoutComplete | .finish _ => isTrue trivial
  | .disconnect => inferInstanceAs (Decidable (_ → _ → ¬w.Registered ∧ ¬w.Copied))
  | .handle _ => inferInstanceAs (Decidable (_ → w.Registered → w.Copied))

end World

end DreamDota.Loggedin
