import DreamDota.Auth.WorkerThread
import Mathlib.Logic.Function.Basic

/-!
# Logging in and out

`Login`, `Logout` and the completion handlers of the login, the logout and the keep-alive thread.
The keep-alive threads are created one after the other, and `AliveThread` points to one of them. As
in the game module, every access to what the threads share is a step of its own.

When a handler uses `AliveThread` while it is `NULL`, or an object that has been destroyed, this is
a fault, and the thread goes no further. `ThreadProc` is no handler: when the object of its thread
has been destroyed, it finds in it what was there.

1. `AuthState`, `Point`: the state, and the places where a thread can be.
2. `execPoint`: what is done at each of them.
3. `program`: the threads with the commands `Login` and `Logout`.
-/

namespace DreamDota

open Threads

namespace Auth

/-! ## The state -/

/-- `LoginThread`, `LogoutThread` and the `n`-th keep-alive thread. -/
inductive WorkerId
  | login
  | logout
  | alive (n : ℕ)
  deriving DecidableEq

inductive CompleteHandler
  | onLoginThreadComplete
  | onLogoutThreadComplete
  | onAliveThreadComplete
  deriving DecidableEq

/-- How the logins and the keep-alive requests end, in the order in which they are made. -/
structure AuthIo where
  login : ℕ → Bool
  request : ℕ → Bool

/-- `result` is the result of the login thread; `term` and `failedCount` are members of the
keep-alive threads, of which `created` have been created. The last six fields are the history: how
often each keep-alive thread was destroyed, which have ended and which were terminated, the uses
that failed, the logins and the requests. -/
structure AuthState where
  threads : WorkerId → WorkerThread CompleteHandler
  loggedIn : Bool
  aliveThread : Option ℕ
  result : Bool
  term : ℕ → Bool
  failedCount : ℕ → ℕ
  created : ℕ
  destroyed : ℕ → ℕ
  ended : ℕ → Bool
  killed : ℕ → Bool
  faults : ℕ
  logins : ℕ
  requests : ℕ

/-- After `Init`. -/
def init : AuthState where
  threads
    | .login => WorkerThread.new.addHandler .onLoginThreadComplete
    | .logout => WorkerThread.new.addHandler .onLogoutThreadComplete
    | .alive _ => .new
  loggedIn := false
  aliveThread := none
  result := false
  term := fun _ => false
  failedCount := fun _ => 0
  created := 0
  destroyed := fun _ => 0
  ended := fun _ => false
  killed := fun _ => false
  faults := 0
  logins := 0
  requests := 0

def MAX_FAILED_ALIVE : ℕ := 3

namespace AuthState

variable (w : AuthState)

def mapThread (id : WorkerId) (f : WorkerThread CompleteHandler → WorkerThread CompleteHandler) :
    AuthState :=
  { w with threads := Function.update w.threads id (f (w.threads id)) }

def fault : AuthState := { w with faults := w.faults + 1 }

def IsLive (n : ℕ) : Prop := w.destroyed n = 0

instance (n : ℕ) : Decidable (w.IsLive n) := inferInstanceAs (Decidable (_ = _))

end AuthState

/-! ## The code -/

/-- The places between two accesses. Each is named after the access that follows it. `running_` is
written together with `thread_`: nothing here reads it. -/
inductive Point
  -- `Login`
  | loginTest
  -- `Logout`
  | logoutTest
  | logoutRemove
  | logoutSignal
  -- `WorkerThread::Run`
  | run (id : WorkerId)
  | startThread (id : WorkerId)
  -- `WorkerThread::ThreadProc` and `Work`
  | work (id : WorkerId)
  | aliveRequest (n : ℕ)
  | clearThread (id : WorkerId)
  | invokeComplete (id : WorkerId)
  | exit (id : WorkerId)
  -- the handlers
  | handle (id : WorkerId) (h : CompleteHandler)
  -- `onLoginThreadComplete`
  | loginCheck
  | newAlive
  | addAlive
  | runAlive
  -- `onLogoutThreadComplete`, with the `Wait` in it
  | waitAlive
  | waitThread (n : ℕ)
  | join (n : ℕ)
  | waitEnd (n : ℕ)
  -- `onAliveThreadComplete` and `onLogoutThreadComplete`
  | deleteAlive (id : WorkerId)
  | nullAlive (id : WorkerId)
  deriving DecidableEq

/-- The thread that is at the point. `none` is the caller. -/
def owner : Point → Option WorkerId
  | .loginTest | .logoutTest | .logoutRemove | .logoutSignal => none
  | .run (.alive _) | .startThread (.alive _) => some .login
  | .run _ | .startThread _ => none
  | .work id | .clearThread id | .invokeComplete id | .exit id => some id
  | .aliveRequest n => some (.alive n)
  | .handle id _ => some id
  | .loginCheck | .newAlive | .addAlive | .runAlive => some .login
  | .waitAlive | .waitThread _ | .join _ | .waitEnd _ => some .logout
  | .deleteAlive id | .nullAlive id => some id

/-- A use of `AliveThread`. -/
def withAlive (w : AuthState) (f : ℕ → Effect AuthState Point) : Effect AuthState Point :=
  match w.aliveThread with
  | some n => if w.IsLive n then f n else .goto w.fault []
  | none => .goto w.fault []

/-- A use of the object that a method was called on. -/
def withObject (w : AuthState) (id : WorkerId) (e : Effect AuthState Point) :
    Effect AuthState Point :=
  match id with
  | .alive n => if w.IsLive n then e else .goto w.fault []
  | _ => e

variable (io : AuthIo)

/-- A keep-alive thread ends when it is told to, or after three requests have failed. -/
def execWork (w : AuthState) : WorkerId → Effect AuthState Point
  | .login =>
    .goto { w with result := io.login w.logins, logins := w.logins + 1 } [.clearThread .login]
  | .logout => .goto w [.clearThread .logout]
  | .alive n => .goto w [if w.term n then .clearThread (.alive n) else .aliveRequest n]

def execRequest (w : AuthState) (n : ℕ) : Effect AuthState Point :=
  if io.request w.requests then
    .goto { w with
      requests := w.requests + 1
      failedCount := Function.update w.failedCount n 0 } [.work (.alive n)]
  else
    .goto { w with
      requests := w.requests + 1
      failedCount := Function.update w.failedCount n (w.failedCount n + 1) }
      [if MAX_FAILED_ALIVE ≤ w.failedCount n + 1 then .clearThread (.alive n)
        else .work (.alive n)]

def execHandle (w : AuthState) (id : WorkerId) : CompleteHandler → Effect AuthState Point
  | .onLoginThreadComplete => .goto { w with loggedIn := w.result } [.loginCheck]
  | .onLogoutThreadComplete => .goto { w with loggedIn := false } [.waitAlive]
  | .onAliveThreadComplete => .goto { w with loggedIn := false } [.deleteAlive id]

/-- `delete` and what follows it: an object can be destroyed twice, and `NULL` is let pass. -/
def execDelete (w : AuthState) (id : WorkerId) : Effect AuthState Point :=
  match w.aliveThread with
  | some n =>
    .goto { w with
      destroyed := Function.update w.destroyed n (w.destroyed n + 1)
      faults := if w.IsLive n then w.faults else w.faults + 1 } [.nullAlive id]
  | none => .goto w.fault [.nullAlive id]

/-- What the thread of the point does. -/
def execPoint (w : AuthState) : Point → Option (Effect AuthState Point)
  | .loginTest => some (.goto w (if w.loggedIn then [] else [.run .login]))
  | .logoutTest => some (.goto w (if w.loggedIn then [.logoutRemove] else []))
  | .logoutRemove =>
    some (withAlive w fun n =>
      .goto (w.mapThread (.alive n) (·.removeHandler .onAliveThreadComplete)) [.logoutSignal])
  | .logoutSignal =>
    some (withAlive w fun n =>
      .goto { w with term := Function.update w.term n true } [.run .logout])
  | .run id =>
    some (withObject w id (.goto w (if (w.threads id).thread then [] else [.startThread id])))
  | .startThread id =>
    some (withObject w id
      ⟨w.mapThread id fun t => (t.setRunning true).setThread true, [], [[.work id]]⟩)
  | .work id => some (execWork io w id)
  | .aliveRequest n => some (execRequest io w n)
  | .clearThread id =>
    some (.goto (w.mapThread id fun t => (t.setThread false).setRunning false)
      [.invokeComplete id])
  | .invokeComplete id =>
    some (.goto w ((w.threads id).onThreadComplete.map (.handle id) ++ [.exit id]))
  | .exit (.alive n) => some (.goto { w with ended := Function.update w.ended n true } [])
  | .exit _ => some (.goto w [])
  | .handle id h => some (execHandle w id h)
  | .loginCheck => some (.goto w (if w.loggedIn then [.newAlive] else []))
  | .newAlive =>
    some (.goto { w with aliveThread := some w.created, created := w.created + 1 } [.addAlive])
  | .addAlive =>
    some (withAlive w fun n =>
      .goto (w.mapThread (.alive n) (·.addHandler .onAliveThreadComplete)) [.runAlive])
  | .runAlive => some (withAlive w fun n => .goto w [.run (.alive n)])
  | .waitAlive =>
    some (withAlive w fun n =>
      .goto w [if (w.threads (.alive n)).thread then .waitThread n else .waitEnd n])
  -- the handle is read once more, and there is no wait for `NULL`
  | .waitThread n =>
    some (withObject w (.alive n)
      (.goto w [if (w.threads (.alive n)).thread then .join n else .waitEnd n]))
  | .join n => if w.ended n then some (.goto w [.waitEnd n]) else none
  | .waitEnd n =>
    some (withObject w (.alive n)
      (if (w.threads (.alive n)).thread then
        -- `TerminateThread`
        .goto { w.mapThread (.alive n) (·.setThread false) with
          ended := Function.update w.ended n true
          killed := Function.update w.killed n true } [.deleteAlive .logout]
      else .goto w [.deleteAlive .logout]))
  | .deleteAlive id => some (execDelete w id)
  | .nullAlive _ => some (.goto { w with aliveThread := none } [])

/-- A thread that was terminated does nothing more. -/
def isKilled (w : AuthState) : Option WorkerId → Bool
  | some (.alive n) => w.killed n
  | _ => false

def exec (i : Point) (w : AuthState) : Option (Effect AuthState Point) :=
  if isKilled w (owner i) then none else execPoint io w i

inductive Command
  | login
  | logout

def program : Program AuthState Point Command where
  issue
    | .login, w => some (w, [.loginTest])
    | .logout, w => some (w, [.logoutTest])
  exec := exec io

/-- Before the first command. -/
def initial : Config AuthState Point := ⟨init, [], []⟩

end Auth

end DreamDota
