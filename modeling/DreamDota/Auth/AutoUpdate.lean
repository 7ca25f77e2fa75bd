import DreamDota.Auth.WorkerThread
import DreamDota.Lib.Session
import Mathlib.Data.List.Infix
import Mathlib.Logic.Function.Basic

/-!
# The update dialog

`AutoUpdate` waits for its dialog to close and then deletes the dialog and the two worker threads.
Four threads run: the one that is in `AutoUpdate`, the one of the dialog, which handles the messages
of the window, and the two workers with their completion handlers. Every use of one of the three
objects is a step of its own.

1. `exec`, `event`: the code, and one step of a thread or one action of the user.
2. `Finished`: the condition on the steps that let the dialog go.
3. `exec_info`, `exec_download`: what one point of a worker does.
-/

namespace DreamDota.AutoUpdate

/-! ## The state -/

inductive Worker
  | getInfoThread
  | downloadThread
  deriving DecidableEq, Repr

/-- What `AutoUpdate` deletes. -/
inductive UpdateObject
  | dialog
  | worker (w : Worker)
  deriving DecidableEq, Repr

inductive Handler
  | onInfoThreadComplete
  | onDownloadThreadComplete
  | onCancelComplete
  deriving DecidableEq, Repr

inductive Thread
  | main
  | dialog
  | worker (w : Worker)
  deriving DecidableEq, Repr

/-- The places between two accesses. Each is named after the access that follows it. -/
inductive Point
  -- `AutoUpdate`
  | newGetInfoThread
  | newDownloadThread
  | runGetInfoThread
  | waitClose
  | delete (o : UpdateObject)
  | returnResult
  -- `ON_WM_CLOSE`, and the end of the dialog after it or after `WM_EXIT_DIALOG`
  | closeTest
  | setStateCancel
  | removeAll
  | addCancelComplete
  | stopSignal
  | closeEnd
  | exitEnd
  -- `onCommand`
  | setStateDownloading
  | runDownloadThread
  -- `WorkerThread::ThreadProc` and `Work`
  | beginWork (w : Worker)
  | work (w : Worker)
  | clearThread (w : Worker)
  | clearRunning (w : Worker)
  | invoke (w : Worker)
  | closeHandle
  -- `onInfoThreadComplete`
  | infoRemove
  | infoTest
  | infoChangelog
  | infoStatus
  | infoLoaded
  | infoFailed
  -- `onDowloadThreadComplete`
  | downloadTest
  | extracting
  | runInstaller
  | extractFailed
  | setUpdateSuccess (success : Bool)
  | downloadFailed
  -- `onCancelComplete`
  | cancelSuccess
  -- `Dialog->Close()`
  | close
  deriving DecidableEq, Repr

/-- The objects a worker or a handler uses at a point. -/
def Point.uses : Point → List UpdateObject
  | .beginWork w | .work w | .clearThread w | .clearRunning w | .invoke w => [.worker w]
  | .infoRemove | .infoTest => [.worker .getInfoThread]
  | .infoChangelog | .infoStatus => [.worker .getInfoThread, .dialog]
  | .downloadTest => [.worker .downloadThread]
  | .infoLoaded | .infoFailed | .extracting | .extractFailed | .downloadFailed | .close => [.dialog]
  | _ => []

/-- How the two `Work` and `RunInstaller` end. -/
structure Outcome where
  info : Bool
  download : Bool
  install : Bool

/-- `worker` is `none` where the pointer is `NULL`. `code` is what a thread has still to do; a
worker that has not been started has no code, and one that has ended stands at `closeHandle`.
`opened`, `asking` and `exitPosted` are the window, the question of `ON_WM_CLOSE` and
`WM_EXIT_DIALOG` in the queue. `dangling` and `cancelled` are history: an object was used after it was deleted, and a cancel
was confirmed while a worker was running. -/
structure State where
  worker : Worker → Option (WorkerThread Handler)
  code : Thread → List Point
  opened : Bool
  asking : Bool
  exitPosted : Bool
  updateEnabled : Bool
  cancelFlag : Bool
  updateSuccess : Bool
  result : Option Bool
  deleted : List UpdateObject
  crashed : Bool
  dangling : Bool
  cancelled : Bool

/-- `AutoUpdate` after the dialog has been shown. -/
def autoUpdate : List Point :=
  [.newGetInfoThread, .newDownloadThread, .runGetInfoThread, .waitClose, .delete .dialog,
    .delete (.worker .downloadThread), .delete (.worker .getInfoThread), .returnResult]

def start : State where
  worker _ := none
  code
    | .main => autoUpdate
    | _ => []
  opened := true
  asking := false
  exitPosted := false
  updateEnabled := false
  cancelFlag := false
  updateSuccess := false
  result := none
  deleted := []
  crashed := false
  dangling := false
  cancelled := false

namespace State

variable (s : State)

def setCode (t : Thread) (code : List Point) : State :=
  { s with code := Function.update s.code t code }

def setWorker (w : Worker) (t : Option (WorkerThread Handler)) : State :=
  { s with worker := Function.update s.worker w t }

def mapWorker (w : Worker) (f : WorkerThread Handler → WorkerThread Handler) : State :=
  s.setWorker w ((s.worker w).map f)

/-- `Running()`. -/
def running (w : Worker) : Bool := (s.worker w).any (·.running)

end State

/-! ## The code -/

/-- `ThreadProc`. -/
def threadProc (w : Worker) : List Point :=
  [.beginWork w, .work w, .clearThread w, .clearRunning w, .invoke w, .closeHandle]

/-- `WorkerThread::Run`. -/
def run (w : Worker) (s : State) : State :=
  if (s.worker w).any (·.thread) then s
  else
    (s.mapWorker w fun t => (t.setRunning true).setThread true).setCode (.worker w) (threadProc w)

def Handler.code : Handler → List Point
  | .onInfoThreadComplete => [.infoRemove, .infoTest]
  | .onDownloadThreadComplete => [.downloadTest]
  | .onCancelComplete => [.cancelSuccess, .close]

/-- What is done at a point, and what the thread does before it goes on. A point that blocks is
`none`. -/
def exec (out : Outcome) (i : Point) (s : State) : Option (State × List Point) :=
  match i with
  | .newGetInfoThread =>
    some (s.setWorker .getInfoThread (some (WorkerThread.new.addHandler .onInfoThreadComplete)), [])
  | .newDownloadThread =>
    some (s.setWorker .downloadThread
      (some (WorkerThread.new.addHandler .onDownloadThreadComplete)), [])
  | .runGetInfoThread => some (run .getInfoThread s, [])
  | .waitClose => if s.opened then none else some (s, [])
  | .delete o => some ({ s with deleted := o :: s.deleted }, [])
  | .returnResult => some ({ s with result := some s.updateSuccess }, [])
  | .closeTest =>
    -- a call on a pointer that is still `NULL` ends the program
    if s.worker .getInfoThread = none ∨
        s.running .getInfoThread = false ∧ s.worker .downloadThread = none then
      some ({ s with crashed := true }, [])
    else if s.running .getInfoThread || s.running .downloadThread then
      some ({ s with asking := true }, [])
    else some (s, [.closeEnd])
  | .setStateCancel => some (s, [])
  | .removeAll =>
    some (s.mapWorker .downloadThread fun t => { t with onThreadComplete := [] }, [])
  | .addCancelComplete =>
    some (s.mapWorker .downloadThread fun t => t.addHandler .onCancelComplete, [])
  | .stopSignal => some ({ s with cancelFlag := true }, [])
  | .closeEnd | .exitEnd => some ({ s with opened := false }, [])
  | .setStateDownloading => some ({ s with updateEnabled := false }, [])
  | .runDownloadThread => some (run .downloadThread s, [])
  | .beginWork .getInfoThread => some (s, [])
  | .beginWork .downloadThread => some ({ s with cancelFlag := false }, [])
  | .work _ => some (s, [])
  | .clearThread w => some (s.mapWorker w (·.setThread false), [])
  | .clearRunning w => some (s.mapWorker w (·.setRunning false), [])
  | .invoke w => some (s, ((s.worker w).elim [] (·.onThreadComplete)).flatMap Handler.code)
  | .closeHandle => none
  | .infoRemove =>
    some (s.mapWorker .getInfoThread fun t => t.removeHandler .onInfoThreadComplete, [])
  | .infoTest =>
    some (s, if out.info then [.infoChangelog, .infoStatus, .infoLoaded] else [.infoFailed, .close])
  | .infoChangelog | .infoStatus | .infoFailed => some (s, [])
  | .infoLoaded => some ({ s with updateEnabled := true }, [])
  | .downloadTest =>
    some (s, if out.download then [.extracting, .runInstaller] else [.downloadFailed, .close])
  | .extracting => some (s, [])
  | .runInstaller =>
    some (s, if out.install then [.setUpdateSuccess true, .close]
      else [.extractFailed, .setUpdateSuccess false, .close])
  | .extractFailed => some (s, [])
  | .setUpdateSuccess success => some ({ s with updateSuccess := success }, [])
  | .downloadFailed => some ({ s with updateSuccess := false }, [])
  | .cancelSuccess => some ({ s with updateSuccess := false }, [])
  | .close => some ({ s with exitPosted := s.exitPosted || s.opened }, [])

/-- A use of objects by a worker or a handler. -/
def use (objects : List UpdateObject) (s : State) : State :=
  { s with dangling := s.dangling || objects.any (· ∈ s.deleted) }

/-- A step of a thread. -/
def step (out : Outcome) (s : State) (t : Thread) : State :=
  match s.code t with
  | [] => s
  | i :: rest =>
    match exec out i (use i.uses s) with
    | none => s
    | some (s', next) => s'.setCode t (next ++ rest)

/-- `close`, `answer`, `update` and `exitMessage` are handled by the dialog when it has nothing left
to do. `progress` is `onProgress`, which `Work` calls any number of times. -/
inductive Event
  | step (t : Thread)
  | close
  | answer (yes : Bool)
  | update
  | exitMessage
  | progress
  deriving DecidableEq, Repr

/-- The dialog waits for a message. -/
def Ready (s : State) : Prop := s.opened = true ∧ s.code .dialog = []

instance (s : State) : Decidable (Ready s) := inferInstanceAs (Decidable (_ ∧ _))

def event (out : Outcome) (s : State) (e : Event) : State :=
  if s.crashed then s
  else
    match e with
    | .step t => step out s t
    | .close => if Ready s ∧ s.asking = false then s.setCode .dialog [.closeTest] else s
    | .answer yes =>
      if Ready s ∧ s.asking = true then
        if yes then
          { s with
            asking := false
            cancelled := s.cancelled || s.running .getInfoThread || s.running .downloadThread
            code := Function.update s.code .dialog
              [.setStateCancel, .removeAll, .addCancelComplete, .stopSignal, .closeEnd] }
        else { s with asking := false }
      else s
    | .update =>
      if Ready s ∧ s.asking = false ∧ s.updateEnabled = true then
        s.setCode .dialog [.setStateDownloading, .runDownloadThread]
      else s
    | .exitMessage =>
      if Ready s ∧ s.exitPosted = true then
        { s.setCode .dialog [.exitEnd] with asking := false, exitPosted := false }
      else s
    | .progress =>
      if (s.code (.worker .downloadThread)).head? = some (.work .downloadThread) then
        use [.worker .downloadThread, .dialog] s
      else s

/-! ## The claim on a state -/

/-- No object was used after it was deleted, and the result of a cancelled update is not `true`. -/
def UpdateOk (s : State) : Prop :=
  s.dangling = false ∧ (s.cancelled = true → s.result ≠ some true)

/-- The threads of the workers have ended; that of the download need not have been started. -/
def Ended (s : State) : Prop :=
  s.code (.worker .getInfoThread) = [.closeHandle] ∧
    (s.code (.worker .downloadThread) = [] ∨ s.code (.worker .downloadThread) = [.closeHandle])

/-- The download has not yet taken its handlers. -/
def NotInvoked (s : State) : Prop :=
  s.code (.worker .downloadThread) = [] ∨
    .invoke .downloadThread ∈ s.code (.worker .downloadThread)

/-- The dialog ends after `WM_CLOSE` only when the workers have ended, and `RemoveAll` comes before
the handlers of the download are taken. -/
def Finished (s : State) (e : Event) : Prop :=
  e = .step .dialog →
    ((s.code .dialog).head? = some .closeEnd → Ended s) ∧
    ((s.code .dialog).head? = some .removeAll → s.cancelled = true → NotInvoked s)

instance (s : State) : Decidable (Ended s) := inferInstanceAs (Decidable (_ ∧ _))

instance (s : State) : Decidable (NotInvoked s) := inferInstanceAs (Decidable (_ ∨ _))

instance (s : State) (e : Event) : Decidable (Finished s e) :=
  inferInstanceAs (Decidable (_ → _))

/-! ## Where the threads can be -/

def mainCodes : List (List Point) := autoUpdate.tails

def cancelCode : List Point :=
  [.setStateCancel, .removeAll, .addCancelComplete, .stopSignal, .closeEnd]

def updateCode : List Point := [.setStateDownloading, .runDownloadThread]

def dialogCodes : List (List Point) :=
  [.closeTest] :: [.exitEnd] :: (cancelCode.tails ++ updateCode.tails)

def infoCodes : List (List Point) :=
  (threadProc .getInfoThread).tails ++
    ([[.infoRemove, .infoTest, .closeHandle], [.infoTest, .closeHandle],
      [.infoChangelog, .infoStatus, .infoLoaded, .closeHandle],
      [.infoStatus, .infoLoaded, .closeHandle], [.infoLoaded, .closeHandle],
      [.infoFailed, .close, .closeHandle], [.close, .closeHandle]] : List (List Point))

def downloadCodes : List (List Point) :=
  (threadProc .downloadThread).tails ++
    ([[.downloadTest, .closeHandle], [.extracting, .runInstaller, .closeHandle],
      [.runInstaller, .closeHandle], [.setUpdateSuccess true, .close, .closeHandle],
      [.extractFailed, .setUpdateSuccess false, .close, .closeHandle],
      [.setUpdateSuccess false, .close, .closeHandle], [.downloadFailed, .close, .closeHandle],
      [.cancelSuccess, .close, .closeHandle], [.close, .closeHandle]] : List (List Point))

variable {out : Outcome} {s s' : State}

/-- The handlers of a worker. -/
def State.handlers (s : State) (w : Worker) : List Handler :=
  (s.worker w).elim [] (·.onThreadComplete)

def State.HandlersOk (s : State) (w : Worker) (hs : List (List Handler)) : Prop :=
  s.handlers w ∈ hs

/-- A worker runs until `running_` is cleared. -/
def State.RunningOk (s : State) (w : Worker) : Prop :=
  s.running w = true → .clearRunning w ∈ s.code (.worker w)

/-- What the steps of a worker leave as it is. -/
structure WorkerFrame (w : Worker) (s s' : State) : Prop where
  code : ∀ t, t ≠ .worker w → s'.code t = s.code t
  worker : ∀ w', w' ≠ w → s'.worker w' = s.worker w'
  opened : s'.opened = s.opened
  asking : s'.asking = s.asking
  deleted : s'.deleted = s.deleted
  result : s'.result = s.result
  cancelled : s'.cancelled = s.cancelled
  dangling : s.deleted = [] → s'.dangling = s.dangling
  running : s.RunningOk w → s'.RunningOk w

/-- The points that a worker's thread executes. -/
def Point.OfWorker (w : Worker) : Point → Prop
  | .beginWork w' | .work w' | .clearThread w' | .clearRunning w' | .invoke w' => w' = w
  | .infoRemove | .infoTest | .infoChangelog | .infoStatus | .infoLoaded | .infoFailed =>
    w = .getInfoThread
  | .downloadTest | .extracting | .runInstaller | .extractFailed | .setUpdateSuccess _
  | .downloadFailed | .cancelSuccess => w = .downloadThread
  | .closeHandle | .close => True
  | _ => False

/-- What the points of a worker do not change. -/
structure Keeps (w : Worker) (s s' : State) : Prop where
  code : s'.code = s.code
  worker : ∀ w', w' ≠ w → s'.worker w' = s.worker w'
  opened : s'.opened = s.opened
  asking : s'.asking = s.asking
  deleted : s'.deleted = s.deleted
  result : s'.result = s.result
  cancelled : s'.cancelled = s.cancelled
  dangling : s'.dangling = s.dangling

theorem Keeps.mapWorker (w : Worker) (s : State) (f : WorkerThread Handler → WorkerThread Handler) :
    Keeps w s (s.mapWorker w f) :=
  ⟨rfl, fun _ hw => Function.update_of_ne hw _ _, rfl, rfl, rfl, rfl, rfl, rfl⟩

theorem keeps_of_exec {w : Worker} {i : Point} {next : List Point} (hi : i.OfWorker w)
    (he : exec out i s = some (s', next)) : Keeps w s s' := by
  cases i
  case beginWork w' =>
    cases w' <;> cases he <;> exact ⟨rfl, fun _ _ => rfl, rfl, rfl, rfl, rfl, rfl, rfl⟩
  case clearThread w' => obtain rfl : w' = w := hi; cases he; exact .mapWorker _ _ _
  case clearRunning w' => obtain rfl : w' = w := hi; cases he; exact .mapWorker _ _ _
  case infoRemove => obtain rfl : w = .getInfoThread := hi; cases he; exact .mapWorker _ _ _
  all_goals first
    | exact hi.elim
    | cases he; done
    | (cases he; exact ⟨rfl, fun _ _ => rfl, rfl, rfl, rfl, rfl, rfl, rfl⟩)

theorem workerFrame_of_keeps {w : Worker} {i : Point} {rest next : List Point}
    (hcode : s.code (.worker w) = i :: rest) (hkeeps : Keeps w (use i.uses s) s')
    (hrunning : s'.running w = true → s.running w = true ∧
      (.clearRunning w ∈ i :: rest → .clearRunning w ∈ next ++ rest)) :
    WorkerFrame w s (s'.setCode (.worker w) (next ++ rest)) := by
  refine ⟨fun t ht => ?_, hkeeps.worker, hkeeps.opened, hkeeps.asking, hkeeps.deleted,
    hkeeps.result, hkeeps.cancelled, fun hnil => ?_, fun hok hs' => ?_⟩
  · show Function.update s'.code _ _ t = s.code t
    rw [Function.update_of_ne ht, hkeeps.code]
    rfl
  · refine hkeeps.dangling.trans ?_
    simp [use, hnil]
  · obtain ⟨hs, hmem⟩ := hrunning hs'
    have hold := hok hs
    rw [hcode] at hold
    show .clearRunning w ∈ Function.update s'.code _ _ _
    rw [Function.update_self]
    exact hmem hold

theorem worker_mapWorker (s : State) (w : Worker)
    (f : WorkerThread Handler → WorkerThread Handler) :
    (s.mapWorker w f).worker w = (s.worker w).map f := Function.update_self ..

theorem running_mapWorker (s : State) (w : Worker)
    (f : WorkerThread Handler → WorkerThread Handler) :
    (s.mapWorker w f).running w = (s.worker w).any fun t => (f t).running := by
  rw [State.running, worker_mapWorker, Option.any_map]

theorem handlers_mapWorker (s : State) (w : Worker)
    (f : WorkerThread Handler → WorkerThread Handler) :
    (s.mapWorker w f).handlers w = (s.worker w).elim [] fun t => (f t).onThreadComplete := by
  rw [State.handlers, worker_mapWorker, Option.elim_map]
  rfl

/-- One point of the first worker: where it goes on, and the flags. -/
structure InfoExec (i : Point) (rest next : List Point) (s s' : State) : Prop where
  owner : i.OfWorker .getInfoThread
  codes : next ++ rest ∈ infoCodes
  begun : next ++ rest ≠ []
  updateSuccess : s'.updateSuccess = s.updateSuccess
  flags : s'.updateEnabled = s.updateEnabled ∧ s'.exitPosted = s.exitPosted ∨
    next ++ rest = [.closeHandle] ∧
      (s'.updateEnabled = s.updateEnabled ∨ s'.exitPosted = s.exitPosted)
  handlers : s'.HandlersOk .getInfoThread [[], [.onInfoThreadComplete]]
  running : s'.running .getInfoThread = true → s.running .getInfoThread = true ∧
    (.clearRunning .getInfoThread ∈ i :: rest → .clearRunning .getInfoThread ∈ next ++ rest)

/-- A point that changes nothing. -/
theorem InfoExec.of_same {i : Point} {rest next : List Point}
    (hhandlers : s.HandlersOk .getInfoThread [[], [.onInfoThreadComplete]])
    (howner : i.OfWorker .getInfoThread) (hcodes : next ++ rest ∈ infoCodes)
    (hbegun : next ++ rest ≠ [])
    (hrun : .clearRunning .getInfoThread ∈ i :: rest →
      .clearRunning .getInfoThread ∈ next ++ rest) : InfoExec i rest next s s :=
  ⟨howner, hcodes, hbegun, rfl, .inl ⟨rfl, rfl⟩, hhandlers, fun h => ⟨h, hrun⟩⟩

theorem exec_info {i : Point} {rest next : List Point} (hcode : i :: rest ∈ infoCodes)
    (hhandlers : s.HandlersOk .getInfoThread [[], [.onInfoThreadComplete]])
    (he : exec out i s = some (s', next)) : InfoExec i rest next s s' := by
  simp only [infoCodes, threadProc, List.tails, List.mem_append, List.mem_cons, List.not_mem_nil,
    or_false, or_assoc, List.cons.injEq, reduceCtorEq] at hcode
  rcases hcode with ⟨rfl, rfl⟩ | ⟨rfl, rfl⟩ | ⟨rfl, rfl⟩ | ⟨rfl, rfl⟩ | ⟨rfl, rfl⟩ | ⟨rfl, rfl⟩ |
    ⟨rfl, rfl⟩ | ⟨rfl, rfl⟩ | ⟨rfl, rfl⟩ | ⟨rfl, rfl⟩ | ⟨rfl, rfl⟩ | ⟨rfl, rfl⟩ | ⟨rfl, rfl⟩ <;>
    cases he
  · exact .of_same hhandlers rfl (by decide) (List.cons_ne_nil _ _) (by decide)
  · exact .of_same hhandlers rfl (by decide) (List.cons_ne_nil _ _) (by decide)
  · -- `clearThread`
    refine ⟨rfl, by decide, List.cons_ne_nil _ _, rfl, .inl ⟨rfl, rfl⟩, ?_, fun h => ?_⟩
    · rw [State.HandlersOk, handlers_mapWorker]
      exact hhandlers
    · rw [running_mapWorker] at h
      exact ⟨h, by decide⟩
  · -- `clearRunning`
    refine ⟨rfl, by decide, List.cons_ne_nil _ _, rfl, .inl ⟨rfl, rfl⟩, ?_, fun h => ?_⟩
    · rw [State.HandlersOk, handlers_mapWorker]
      exact hhandlers
    · rw [running_mapWorker] at h
      cases hw : s.worker .getInfoThread <;> rw [hw] at h <;> cases h
  · -- `invoke`
    have hcopy : (s.worker .getInfoThread).elim [] (·.onThreadComplete) =
        s.handlers .getInfoThread := rfl
    rw [hcopy]
    rcases List.mem_pair.mp hhandlers with h | h <;> rw [h]
    · exact .of_same hhandlers rfl (by decide) (List.cons_ne_nil _ _) (by decide)
    · exact .of_same hhandlers rfl (by decide) (List.cons_ne_nil _ _) (by decide)
  · -- `infoRemove`
    refine ⟨rfl, by decide, List.cons_ne_nil _ _, rfl, .inl ⟨rfl, rfl⟩, ?_, fun h => ?_⟩
    · rw [State.HandlersOk, handlers_mapWorker]
      unfold State.HandlersOk State.handlers at hhandlers
      cases hw : s.worker .getInfoThread with
      | none => exact List.mem_cons_self
      | some t =>
        rw [hw] at hhandlers
        have hremove (d : List Handler) (hd : d ∈ [[], [Handler.onInfoThreadComplete]]) :
            d.erase .onInfoThreadComplete ∈ [[], [Handler.onInfoThreadComplete]] := by
          rcases List.mem_pair.mp hd with rfl | rfl <;> decide
        exact hremove _ hhandlers
    · rw [running_mapWorker] at h
      exact ⟨h, by decide⟩
  · -- `infoTest`
    cases out.info
    · exact .of_same hhandlers rfl (by decide) (List.cons_ne_nil _ _) (by decide)
    · exact .of_same hhandlers rfl (by decide) (List.cons_ne_nil _ _) (by decide)
  · exact .of_same hhandlers rfl (by decide) (List.cons_ne_nil _ _) (by decide)
  · exact .of_same hhandlers rfl (by decide) (List.cons_ne_nil _ _) (by decide)
  · -- `infoLoaded`
    exact ⟨rfl, by decide, List.cons_ne_nil _ _, rfl, .inr ⟨rfl, .inr rfl⟩, hhandlers,
      fun h => ⟨h, by decide⟩⟩
  · exact .of_same hhandlers rfl (by decide) (List.cons_ne_nil _ _) (by decide)
  · -- `close`
    exact ⟨trivial, by decide, List.cons_ne_nil _ _, rfl, .inr ⟨rfl, .inl rfl⟩, hhandlers,
      fun h => ⟨h, by decide⟩⟩

/-- Where the download is after an update that succeeded. -/
def successCodes : List (List Point) := [[.close, .closeHandle], [.closeHandle]]

/-- The download comes to `onCancelComplete` or has no handler. -/
def CancelCode (code : List Point) (hs : List Handler) : Prop :=
  .invoke .downloadThread ∈ code ∧ hs ∈ [[], [Handler.onCancelComplete]] ∨
    code ∈ [[.cancelSuccess, .close, .closeHandle], [.close, .closeHandle], [.closeHandle]]

instance (code : List Point) (hs : List Handler) : Decidable (CancelCode code hs) :=
  inferInstanceAs (Decidable (_ ∨ _))

def knownHandlers : List (List Handler) :=
  [[], [.onDownloadThreadComplete], [.onCancelComplete]]

/-- One point of the download: where it goes on, and the flags. -/
structure DownloadExec (i : Point) (rest next : List Point) (s s' : State) : Prop where
  owner : i.OfWorker .downloadThread
  codes : next ++ rest ∈ downloadCodes
  begun : next ++ rest ≠ []
  updateEnabled : s'.updateEnabled = s.updateEnabled
  exitPosted : s'.exitPosted = s.exitPosted ∨ next ++ rest = [.closeHandle]
  handlers : s'.handlers .downloadThread = s.handlers .downloadThread
  success : s'.updateSuccess = true → next ++ rest ∈ successCodes
  cancel : CancelCode (i :: rest) (s.handlers .downloadThread) →
    CancelCode (next ++ rest) (s.handlers .downloadThread) ∧
      (s.updateSuccess = false → s'.updateSuccess = false)
  running : s'.running .downloadThread = true → s.running .downloadThread = true ∧
    (.clearRunning .downloadThread ∈ i :: rest → .clearRunning .downloadThread ∈ next ++ rest)

/-- A point at which no update has succeeded yet, and which does not end the attempt. -/
theorem DownloadExec.of_flags {i : Point} {rest next : List Point}
    (howner : i.OfWorker .downloadThread) (hcodes : next ++ rest ∈ downloadCodes)
    (hbegun : next ++ rest ≠ []) (henabled : s'.updateEnabled = s.updateEnabled)
    (hposted : s'.exitPosted = s.exitPosted)
    (hhandlers : s'.handlers .downloadThread = s.handlers .downloadThread)
    (hbefore : s.updateSuccess = true → i :: rest ∈ successCodes)
    (hout : i :: rest ∉ successCodes)
    (hsuccess : s'.updateSuccess = true → s.updateSuccess = true)
    (hcancel : CancelCode (i :: rest) (s.handlers .downloadThread) →
      CancelCode (next ++ rest) (s.handlers .downloadThread))
    (hrun : s'.running .downloadThread = true → s.running .downloadThread = true ∧
      (.clearRunning .downloadThread ∈ i :: rest → .clearRunning .downloadThread ∈ next ++ rest)) :
    DownloadExec i rest next s s' where
  owner := howner
  codes := hcodes
  begun := hbegun
  updateEnabled := henabled
  exitPosted := .inl hposted
  handlers := hhandlers
  success h := absurd (hbefore (hsuccess h)) hout
  cancel h := ⟨hcancel h, fun hs => by
    cases hs' : s'.updateSuccess with
    | false => rfl
    | true => exact (hs.symm.trans (hsuccess hs')).symm⟩
  running := hrun

theorem exec_download {i : Point} {rest next : List Point} (hcode : i :: rest ∈ downloadCodes)
    (hhandlers : s.HandlersOk .downloadThread knownHandlers)
    (hbefore : s.updateSuccess = true → i :: rest ∈ successCodes)
    (he : exec out i s = some (s', next)) : DownloadExec i rest next s s' := by
  simp only [downloadCodes, threadProc, List.tails, List.mem_append, List.mem_cons,
    List.not_mem_nil, or_false, or_assoc, List.cons.injEq, reduceCtorEq] at hcode
  rcases hcode with ⟨rfl, rfl⟩ | ⟨rfl, rfl⟩ | ⟨rfl, rfl⟩ | ⟨rfl, rfl⟩ | ⟨rfl, rfl⟩ | ⟨rfl, rfl⟩ |
    ⟨rfl, rfl⟩ | ⟨rfl, rfl⟩ | ⟨rfl, rfl⟩ | ⟨rfl, rfl⟩ | ⟨rfl, rfl⟩ | ⟨rfl, rfl⟩ | ⟨rfl, rfl⟩ |
    ⟨rfl, rfl⟩ | ⟨rfl, rfl⟩ <;> cases he
  · -- `beginWork`
    exact .of_flags rfl (by decide) (List.cons_ne_nil _ _) rfl rfl rfl hbefore (by decide) id
      (by simp [CancelCode]) fun h => ⟨h, by decide⟩
  · exact .of_flags rfl (by decide) (List.cons_ne_nil _ _) rfl rfl rfl hbefore (by decide) id
      (by simp [CancelCode]) fun h => ⟨h, by decide⟩
  · -- `clearThread`
    refine .of_flags rfl (by decide) (List.cons_ne_nil _ _) rfl rfl ?_ hbefore (by decide) id
      (by simp [CancelCode]) fun h => ?_
    · rw [handlers_mapWorker]
      rfl
    · rw [running_mapWorker] at h
      exact ⟨h, by decide⟩
  · -- `clearRunning`
    refine .of_flags rfl (by decide) (List.cons_ne_nil _ _) rfl rfl ?_ hbefore (by decide) id
      (by simp [CancelCode]) fun h => ?_
    · rw [handlers_mapWorker]
      rfl
    · rw [running_mapWorker] at h
      cases hw : s.worker .downloadThread <;> rw [hw] at h <;> cases h
  · -- `invoke`
    have hcopy : (s.worker .downloadThread).elim [] (·.onThreadComplete) =
        s.handlers .downloadThread := rfl
    unfold State.HandlersOk knownHandlers at hhandlers
    rw [hcopy]
    simp only [List.mem_cons, List.not_mem_nil, or_false] at hhandlers
    rcases hhandlers with h | h | h
    · refine .of_flags rfl ?_ ?_ rfl rfl rfl hbefore (by decide) id ?_ fun hr => ⟨hr, ?_⟩ <;>
        rw [h] <;> decide
    · refine .of_flags rfl ?_ ?_ rfl rfl rfl hbefore (by decide) id ?_ fun hr => ⟨hr, ?_⟩ <;>
        rw [h] <;> decide
    · refine .of_flags rfl ?_ ?_ rfl rfl rfl hbefore (by decide) id ?_ fun hr => ⟨hr, ?_⟩ <;>
        rw [h] <;> decide
  · -- `downloadTest`
    cases out.download
    · exact .of_flags rfl (by decide) (List.cons_ne_nil _ _) rfl rfl rfl hbefore (by decide) id
        (by simp [CancelCode]) fun h => ⟨h, by decide⟩
    · exact .of_flags rfl (by decide) (List.cons_ne_nil _ _) rfl rfl rfl hbefore (by decide) id
        (by simp [CancelCode]) fun h => ⟨h, by decide⟩
  · exact .of_flags rfl (by decide) (List.cons_ne_nil _ _) rfl rfl rfl hbefore (by decide) id
      (by simp [CancelCode]) fun h => ⟨h, by decide⟩
  · -- `runInstaller`
    cases out.install
    · exact .of_flags rfl (by decide) (List.cons_ne_nil _ _) rfl rfl rfl hbefore (by decide) id
        (by simp [CancelCode]) fun h => ⟨h, by decide⟩
    · exact .of_flags rfl (by decide) (List.cons_ne_nil _ _) rfl rfl rfl hbefore (by decide) id
        (by simp [CancelCode]) fun h => ⟨h, by decide⟩
  · -- `setUpdateSuccess true`
    exact ⟨rfl, by decide, List.cons_ne_nil _ _, rfl, .inl rfl, rfl, fun _ => by decide,
      by simp [CancelCode], fun h => ⟨h, by decide⟩⟩
  · exact .of_flags rfl (by decide) (List.cons_ne_nil _ _) rfl rfl rfl hbefore (by decide) id
      (by simp [CancelCode]) fun h => ⟨h, by decide⟩
  · -- `setUpdateSuccess false`
    exact .of_flags rfl (by decide) (List.cons_ne_nil _ _) rfl rfl rfl hbefore (by decide) nofun
      (by simp [CancelCode]) fun h => ⟨h, by decide⟩
  · -- `downloadFailed`
    exact .of_flags rfl (by decide) (List.cons_ne_nil _ _) rfl rfl rfl hbefore (by decide) nofun
      (by simp [CancelCode]) fun h => ⟨h, by decide⟩
  · -- `cancelSuccess`
    exact .of_flags rfl (by decide) (List.cons_ne_nil _ _) rfl rfl rfl hbefore (by decide) nofun
      (by simp [CancelCode]) fun h => ⟨h, by decide⟩
  · -- `close`
    exact ⟨trivial, by decide, List.cons_ne_nil _ _, rfl, .inr rfl, rfl, fun _ => by decide,
      fun _ => ⟨.inr (by decide), id⟩, fun h => ⟨h, by decide⟩⟩

end DreamDota.AutoUpdate
