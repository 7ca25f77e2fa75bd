import DreamDota.Lib.Threads

/-!
# Stop requests

`StopSignal` of `ThreadSearch` and of `ThreadPipe` against `Work`, which resets `term_` when it
starts. `stopOk_quiet`: a request is kept, and `Work` comes to its end, as long as no request falls
between the start of a thread and the reset, or, for the pipe, between a test of `term_` and
`Pipe_Create`.

1. `Pc`, `Point`, `exec`: the code. The thread of the `n`-th `Run` has the number `n`.
2. `StopOk`, `Quiet`: the property, and the condition.
3. `CurrentOk`: what holds of the thread that works. `CurrentOk.advance` is its step.
4. `Inv`: all threads. Those of earlier runs have left `Work`.
5. `reached_of_stopped`: what is left for a thread that was stopped.
-/

namespace DreamDota

open Threads

namespace StopRequest

/-- `ThreadSearch` and `ThreadPipe`. -/
inductive Kind
  | search
  | pipe
  deriving DecidableEq

/-- The places in `Work` and in the rest of `ThreadProc`, each named after the access that follows
it. -/
inductive Pc
  | reset
  | test
  -- the body of `ThreadSearch`
  | search
  -- the body of `ThreadPipe`
  | create
  | listen
  | listenTest
  | connection
  | termTest
  | termPipe
  -- after the loop
  | clearWin
  | clearThread
  | clearRunning
  | invokeComplete
  | closeHandle
  deriving DecidableEq

inductive Point
  -- `Run` and `StopSignal`
  | run
  | markRunning
  | startThread
  | signalTerm
  | signalPipe
  -- the game at the other end of the pipe comes or goes
  | game
  -- the thread of the `n`-th accepted `Run`
  | work (n : ℕ) (pc : Pc)
  deriving DecidableEq

/-- A test of `term_` in the `run`-th run: whether `StopSignal` had been called for it, what was
read, and whether it was the test of the loop. -/
structure Read where
  run : ℕ
  signaled : Bool
  value : Bool
  loop : Bool
  deriving DecidableEq

/-- `pipe` says that `ctx_.pipe` is open, and `game` that the game has connected. `runs` counts the
accepted `Run` calls. The last fields record the history: the runs for which `StopSignal` was called,
those for which it has returned, those whose handlers were invoked, and the tests of `term_`. -/
structure Worker where
  term : Bool
  thread : Bool
  running : Bool
  pipe : Bool
  disconnected : Bool
  game : Bool
  runs : ℕ
  signaled : List ℕ
  stopped : List ℕ
  completed : List ℕ
  reads : List Read
  deriving DecidableEq

namespace Worker

/-- The constructor. -/
def new : Worker := ⟨false, false, false, false, false, false, 0, [], [], [], []⟩

/-- There is a run that has not been completed. -/
def InProgress (w : Worker) : Prop := w.runs ≠ 0 ∧ w.runs ∉ w.completed

instance (w : Worker) : Decidable w.InProgress := inferInstanceAs (Decidable (_ ∧ _))

/-- `Pipe_Term`. A thread that listens, or waits for the game, goes on. -/
def pipeTerm (w : Worker) : Worker := { w with disconnected := true, pipe := false }

/-- `StopSignal` has set `term_`. -/
def noteSignaled (w : Worker) : Worker :=
  if w.InProgress then { w with signaled := w.runs :: w.signaled } else w

/-- `StopSignal` returns. -/
def noteStopped (w : Worker) : Worker :=
  if w.InProgress then { w with stopped := w.runs :: w.stopped } else w

/-- A test of `term_`. -/
def noteRead (w : Worker) (n : ℕ) (loop : Bool) : Worker :=
  { w with reads := ⟨n, decide (n ∈ w.signaled), w.term, loop⟩ :: w.reads }

end Worker

/-- What a thread does at each place. `Pipe_Create` succeeds: otherwise the program ends. -/
def execWork (kind : Kind) (w : Worker) (n : ℕ) : Pc → Option (Worker × Option Pc)
  | .reset => some ({ w with term := false }, some .test)
  | .test =>
    some (w.noteRead n true, some (
      if w.term then (match kind with | .search => .clearWin | .pipe => .clearThread)
      else (match kind with | .search => .search | .pipe => .create)))
  | .search => some (w, some .test)
  | .create => some ({ w with pipe := true, disconnected := false }, some .listen)
  | .listen =>
    -- `ConnectNamedPipe` returns when the game has connected, or the pipe was closed
    if !w.pipe then some (w, some .listenTest)
    else if w.game then some (w, some (if w.disconnected then .listenTest else .connection))
    else none
  | .listenTest => some (w.noteRead n false, some (if w.term then .connection else .test))
  | .connection => if w.pipe && w.game then none else some (w, some .termTest)
  | .termTest => some (w.noteRead n false, some (if w.term then .test else .termPipe))
  | .termPipe => some (w.pipeTerm, some .test)
  | .clearWin => some (w, some .clearThread)
  | .clearThread => some ({ w with thread := false }, some .clearRunning)
  | .clearRunning => some ({ w with running := false }, some .invokeComplete)
  | .invokeComplete => some ({ w with completed := n :: w.completed }, some .closeHandle)
  | .closeHandle => some (w, none)

def exec (kind : Kind) : Point → Worker → Option (Effect Worker Point)
  | .run, w => some (.goto w (if w.thread then [] else [.markRunning]))
  | .markRunning, w => some (.goto { w with running := true } [.startThread])
  | .startThread, w =>
    some ⟨{ w with thread := true, runs := w.runs + 1 }, [], [[.work (w.runs + 1) .reset]]⟩
  | .signalTerm, w =>
    let w := { w with term := true }.noteSignaled
    some (match kind with
      | .search => .goto w.noteStopped []
      | .pipe => .goto w [.signalPipe])
  | .signalPipe, w => some (.goto w.pipeTerm.noteStopped [])
  | .game, w => some (.goto { w with game := !w.game } [.game])
  | .work n pc, w =>
    (execWork kind w n pc).map fun r => .goto r.1 (r.2.toList.map (.work n))

/-- What the controller calls. -/
inductive Command
  | run
  | stopSignal

def program (kind : Kind) : Program Worker Point Command where
  issue
    | .run, w => some (w, [.run])
    | .stopSignal, w => some (w, [.signalTerm])
  exec := exec kind

/-- The thread with the number 0 stands for the game. -/
def initial : Config Worker Point := ⟨.new, [], [[.game]]⟩

/-- The tests of the loop in the `n`-th run after `StopSignal`. -/
def lateTests (w : Worker) (n : ℕ) : ℕ :=
  w.reads.countP fun r => r.run = n && r.signaled && r.loop

/-- After `StopSignal` every test reads `true`, and the loop is tested once at most. When
`StopSignal` has returned, nine steps of the thread lead to the handlers, and after these `Run`
starts a fresh run. -/
structure StopOk (kind : Kind) (c : Config Worker Point) : Prop where
  reads : ∀ r ∈ c.shared.reads, r.signaled = true → r.value = true
  leaves : ∀ n, lateTests c.shared n ≤ 1
  reached : ∀ n ∈ c.shared.stopped,
    n ∈ (Threads.run (program kind) c (List.replicate 9 (.worker n))).shared.completed
  fresh : c.caller = [] → c.shared.runs ∈ c.shared.completed →
    let c' := Threads.run (program kind) c [.issue .run, .caller, .caller, .caller]
    c'.shared.runs = c.shared.runs + 1 ∧ c'.shared.runs ∉ c'.shared.signaled ∧
      .work c'.shared.runs .reset ∈ c'.points

/-- `term_` is not set while a thread has not come to its reset, and the pipe is not terminated while
a thread is about to create it. -/
def Quiet (c : Config Worker Point) : Point → Prop
  | .signalTerm => .work c.shared.runs .reset ∉ c.points
  | .signalPipe => .work c.shared.runs .create ∉ c.points
  | _ => True

instance (c : Config Worker Point) : DecidablePred (Quiet c)
  | .signalTerm => inferInstanceAs (Decidable (_ ∉ _))
  | .signalPipe => inferInstanceAs (Decidable (_ ∉ _))
  | .run | .markRunning | .startThread | .game | .work _ _ => isTrue trivial

/-! ## The thread that works -/

/-- In the loop of `Work`, or before it. -/
def Pc.inLoop : Pc → Bool
  | .clearWin | .clearThread | .clearRunning | .invokeComplete | .closeHandle => false
  | _ => true

/-- `thread_` is set. -/
def Pc.inWork : Pc → Bool
  | .clearRunning | .invokeComplete | .closeHandle => false
  | _ => true

/-- In the body of `ThreadPipe`. -/
def Pc.inPipe : Pc → Bool
  | .create | .listen | .listenTest | .connection | .termTest | .termPipe => true
  | _ => false

theorem Pc.inWork_of_inLoop {pc : Pc} : pc.inLoop = true → pc.inWork = true := by
  cases pc <;> decide

/-- The thread of the last run, at `pc`. -/
structure CurrentOk (kind : Kind) (w : Worker) (pc : Pc) : Prop where
  thread : w.thread = pc.inWork
  shape : kind = .search → pc.inPipe = false
  fresh : pc = .reset → w.runs ∉ w.signaled
  term : pc.inLoop = true → w.runs ∈ w.signaled → w.term = true
  pipe : kind = .pipe → pc.inLoop = true → w.runs ∈ w.stopped → pc ≠ .create ∧ w.pipe = false
  leave : pc.inLoop = true → lateTests w w.runs = 0

/-- What the history says of all runs. -/
structure History (w : Worker) : Prop where
  signaled : ∀ n ∈ w.signaled, 0 < n ∧ n ≤ w.runs
  stopped : ∀ n ∈ w.stopped, n ∈ w.signaled
  completed : ∀ n ∈ w.completed, 0 < n ∧ n ≤ w.runs
  reads_le : ∀ r ∈ w.reads, r.run ≤ w.runs
  reads : ∀ r ∈ w.reads, r.signaled = true → r.value = true
  leaves : ∀ n, lateTests w n ≤ 1

variable {kind : Kind} {w w' : Worker} {n m : ℕ} {pc pc' : Pc} {next : Option Pc}

theorem lateTests_noteRead (w : Worker) (n m : ℕ) (loop : Bool) :
    lateTests (w.noteRead n loop) m =
      lateTests w m + if n = m ∧ n ∈ w.signaled ∧ loop = true then 1 else 0 := by
  unfold lateTests Worker.noteRead
  rw [List.countP_cons]
  congr 1
  by_cases hn : n = m <;> by_cases hs : n ∈ w.signaled <;> cases loop <;> simp [hn, hs]

theorem lateTests_congr (hreads : w'.reads = w.reads) (n : ℕ) : lateTests w' n = lateTests w n := by
  unfold lateTests
  rw [hreads]

theorem lateTests_of_lt (h : History w) (hn : w.runs < n) : lateTests w n = 0 := by
  rw [lateTests, List.countP_eq_zero]
  intro r hr
  have hle := h.reads_le r hr
  have hne : r.run ≠ n := by omega
  simp [hne]

/-- What a thread leaves as it is. -/
theorem execWork_frame (he : execWork kind w n pc = some (w', next)) :
    w'.runs = w.runs ∧ w'.signaled = w.signaled ∧ w'.stopped = w.stopped ∧
      (∀ m, m ∈ w'.completed ↔ m ∈ w.completed ∨ (m = n ∧ pc = .invokeComplete)) ∧
      (pc.inWork = false → w'.thread = w.thread ∧ w'.term = w.term ∧ w'.pipe = w.pipe ∧
        w'.reads = w.reads) := by
  have hsame : ∀ l : List ℕ, ∀ m, pc ≠ .invokeComplete →
      (m ∈ l ↔ m ∈ l ∨ (m = n ∧ pc = .invokeComplete)) := fun l m hpc => by simp [hpc]
  cases pc with
  | invokeComplete =>
    obtain ⟨rfl, -⟩ := Prod.mk.inj (Option.some.inj he)
    refine ⟨rfl, rfl, rfl, fun m => ?_, fun _ => ⟨rfl, rfl, rfl, rfl⟩⟩
    rw [List.mem_cons]
    tauto
  | listen =>
    simp only [execWork] at he
    split_ifs at he <;> obtain ⟨rfl, -⟩ := Prod.mk.inj (Option.some.inj he) <;>
      exact ⟨rfl, rfl, rfl, fun m => hsame _ m nofun, nofun⟩
  | connection =>
    simp only [execWork] at he
    split_ifs at he
    obtain ⟨rfl, -⟩ := Prod.mk.inj (Option.some.inj he)
    exact ⟨rfl, rfl, rfl, fun m => hsame _ m nofun, nofun⟩
  | clearRunning | closeHandle =>
    obtain ⟨rfl, -⟩ := Prod.mk.inj (Option.some.inj he)
    exact ⟨rfl, rfl, rfl, fun m => hsame _ m nofun, fun _ => ⟨rfl, rfl, rfl, rfl⟩⟩
  | _ =>
    obtain ⟨rfl, -⟩ := Prod.mk.inj (Option.some.inj he)
    exact ⟨rfl, rfl, rfl, fun m => hsame _ m nofun, nofun⟩

theorem CurrentOk.congr (h : CurrentOk kind w pc) (hruns : w'.runs = w.runs)
    (hsignaled : w'.signaled = w.signaled) (hstopped : w'.stopped = w.stopped)
    (hthread : w'.thread = w.thread) (hterm : w'.term = w.term) (hpipe : w'.pipe = w.pipe)
    (hreads : w'.reads = w.reads) : CurrentOk kind w' pc := by
  obtain ⟨hset, hshape, hfresh, hkept, hclosed, hleave⟩ := h
  refine ⟨?_, hshape, ?_, ?_, ?_, ?_⟩
  · rw [hthread, hset]
  · rwa [hruns, hsignaled]
  · rwa [hruns, hsignaled, hterm]
  · rwa [hruns, hstopped, hpipe]
  · rwa [hruns, lateTests_congr hreads]

/-- The history is not written to. -/
theorem History.congr (h : History w) (hruns : w'.runs = w.runs) (hsignaled : w'.signaled = w.signaled)
    (hstopped : w'.stopped = w.stopped) (hcompleted : w'.completed = w.completed)
    (hreads : w'.reads = w.reads) : History w' := by
  refine ⟨?_, ?_, ?_, ?_, ?_, fun n => ?_⟩
  · rw [hsignaled, hruns]
    exact h.signaled
  · rw [hstopped, hsignaled]
    exact h.stopped
  · rw [hcompleted, hruns]
    exact h.completed
  · rw [hreads, hruns]
    exact h.reads_le
  · rw [hreads]
    exact h.reads
  · rw [lateTests_congr hreads]
    exact h.leaves n

/-- The thread that works goes on. -/
theorem CurrentOk.advance (h : CurrentOk kind w pc) (hw : History w)
    (he : execWork kind w w.runs pc = some (w', some pc')) : CurrentOk kind w' pc' := by
  have hstopped : w.runs ∈ w.stopped → w.runs ∈ w.signaled := hw.stopped _
  obtain ⟨hthread, hshape, hfresh, hterm, hpipe, hleave⟩ := h
  cases pc with
  | reset =>
    obtain ⟨rfl, hnext⟩ := Prod.mk.inj (Option.some.inj he)
    obtain rfl := Option.some.inj hnext
    exact ⟨hthread, fun _ => rfl, nofun, fun _ hs => absurd hs (hfresh rfl),
      fun _ _ hs => absurd (hstopped hs) (hfresh rfl), fun _ => hleave rfl⟩
  | test =>
    obtain ⟨rfl, hnext⟩ := Prod.mk.inj (Option.some.inj he)
    obtain rfl := Option.some.inj hnext
    cases hvalue : w.term with
    | true => cases kind <;> exact ⟨hthread, fun _ => rfl, nofun, nofun, nofun, nofun⟩
    | false =>
      have hnot : w.runs ∉ w.signaled := fun hs => nomatch hvalue.symm.trans (hterm rfl hs)
      have hlate : lateTests (w.noteRead w.runs true) w.runs = 0 := by
        rw [lateTests_noteRead, hleave rfl, if_neg fun hand => hnot hand.2.1]
      cases kind with
      | search =>
        exact ⟨hthread, fun _ => rfl, nofun, fun _ hs => absurd hs hnot,
          fun _ _ hs => absurd (hstopped hs) hnot, fun _ => hlate⟩
      | pipe =>
        exact ⟨hthread, nofun, nofun, fun _ hs => absurd hs hnot,
          fun _ _ hs => absurd (hstopped hs) hnot, fun _ => hlate⟩
  | create =>
    obtain ⟨rfl, hnext⟩ := Prod.mk.inj (Option.some.inj he)
    obtain rfl := Option.some.inj hnext
    exact ⟨hthread, hshape, nofun, hterm, fun hk _ hs => absurd rfl (hpipe hk rfl hs).1, hleave⟩
  | listen =>
    simp only [execWork] at he
    split_ifs at he <;> obtain ⟨rfl, hnext⟩ := Prod.mk.inj (Option.some.inj he) <;>
      obtain rfl := Option.some.inj hnext <;>
      exact ⟨hthread, hshape, nofun, hterm, fun hk _ hs => ⟨nofun, (hpipe hk rfl hs).2⟩, hleave⟩
  | connection =>
    simp only [execWork] at he
    split_ifs at he
    obtain ⟨rfl, hnext⟩ := Prod.mk.inj (Option.some.inj he)
    obtain rfl := Option.some.inj hnext
    exact ⟨hthread, hshape, nofun, hterm, fun hk _ hs => ⟨nofun, (hpipe hk rfl hs).2⟩, hleave⟩
  | listenTest | termTest =>
    obtain ⟨rfl, hnext⟩ := Prod.mk.inj (Option.some.inj he)
    obtain rfl := Option.some.inj hnext
    have hlate : lateTests (w.noteRead w.runs false) w.runs = 0 := by
      rw [lateTests_noteRead, hleave rfl, if_neg fun hand => nomatch hand.2.2]
    cases w.term <;>
      exact ⟨hthread, (fun hk => nomatch hshape hk), nofun, hterm,
        fun hk _ hs => ⟨nofun, (hpipe hk rfl hs).2⟩, fun _ => hlate⟩
  | search =>
    obtain ⟨rfl, hnext⟩ := Prod.mk.inj (Option.some.inj he)
    obtain rfl := Option.some.inj hnext
    exact ⟨hthread, hshape, nofun, hterm, fun hk _ hs => ⟨nofun, (hpipe hk rfl hs).2⟩, hleave⟩
  | termPipe =>
    obtain ⟨rfl, hnext⟩ := Prod.mk.inj (Option.some.inj he)
    obtain rfl := Option.some.inj hnext
    exact ⟨hthread, fun _ => rfl, nofun, hterm, fun _ _ _ => ⟨nofun, rfl⟩, hleave⟩
  | clearWin | clearRunning | invokeComplete =>
    obtain ⟨rfl, hnext⟩ := Prod.mk.inj (Option.some.inj he)
    obtain rfl := Option.some.inj hnext
    exact ⟨hthread, fun _ => rfl, nofun, nofun, nofun, nofun⟩
  | clearThread =>
    obtain ⟨rfl, hnext⟩ := Prod.mk.inj (Option.some.inj he)
    obtain rfl := Option.some.inj hnext
    exact ⟨rfl, fun _ => rfl, nofun, nofun, nofun, nofun⟩
  | closeHandle => cases he

/-- The tests of `term_` are recorded. -/
theorem History.advance (hw : History w) (hn : 0 < n) (hle : n ≤ w.runs)
    (h : n = w.runs → CurrentOk kind w pc) (hold : n ≠ w.runs → pc.inWork = false)
    (he : execWork kind w n pc = some (w', next)) : History w' := by
  have hread : ∀ loop, pc.inLoop = true → History (w.noteRead n loop) := by
    intro loop hloop
    obtain ⟨hsig, hstop, hcomp, hreads_le, hreads, hleaves⟩ := hw
    have hcurrent : n = w.runs := by
      by_contra hne
      exact nomatch (hold hne).symm.trans (Pc.inWork_of_inLoop hloop)
    have hok := h hcurrent
    refine ⟨hsig, hstop, hcomp, ?_, ?_, fun m => ?_⟩
    · intro r hr
      rcases List.mem_cons.mp hr with rfl | hr
      · exact hle
      · exact hreads_le r hr
    · intro r hr hs
      rcases List.mem_cons.mp hr with rfl | hr
      · exact hok.term hloop (hcurrent ▸ of_decide_eq_true hs)
      · exact hreads r hr hs
    · rw [lateTests_noteRead]
      by_cases hm : n = m
      · have hzero : lateTests w m = 0 := by rw [← hm, hcurrent]; exact hok.leave hloop
        rw [hzero]
        split_ifs <;> omega
      · rw [if_neg fun hand => hm hand.1]
        exact hleaves m
  cases pc with
  | test | listenTest | termTest =>
    obtain ⟨rfl, -⟩ := Prod.mk.inj (Option.some.inj he)
    exact hread _ rfl
  | invokeComplete =>
    obtain ⟨rfl, -⟩ := Prod.mk.inj (Option.some.inj he)
    refine ⟨hw.signaled, hw.stopped, fun m hm => ?_, hw.reads_le, hw.reads, hw.leaves⟩
    rcases List.mem_cons.mp hm with rfl | hm
    · exact ⟨hn, hle⟩
    · exact hw.completed m hm
  | listen | connection =>
    simp only [execWork] at he
    split_ifs at he <;> obtain ⟨rfl, -⟩ := Prod.mk.inj (Option.some.inj he) <;> exact hw
  | _ =>
    obtain ⟨rfl, -⟩ := Prod.mk.inj (Option.some.inj he)
    exact hw.congr rfl rfl rfl rfl rfl

/-! ## All threads -/

/-- The thread of the `n`-th run, which has the given code. -/
inductive ThreadOk (kind : Kind) (w : Worker) (n : ℕ) : List Point → Prop
  | ended (hcompleted : n ∈ w.completed) (hthread : n = w.runs → w.thread = false) :
    ThreadOk kind w n []
  | working (pc : Pc) (hcompleted : n ∈ w.completed ↔ pc = .closeHandle)
    (hold : n ≠ w.runs → pc.inWork = false) (hcurrent : n = w.runs → CurrentOk kind w pc) :
    ThreadOk kind w n [.work n pc]

/-- The controller, which has the given code. -/
inductive ControllerOk (kind : Kind) (w : Worker) : List Point → Prop
  | idle : ControllerOk kind w []
  | run : ControllerOk kind w [.run]
  | markRunning (hthread : w.thread = false) : ControllerOk kind w [.markRunning]
  | startThread (hthread : w.thread = false) : ControllerOk kind w [.startThread]
  | signalTerm : ControllerOk kind w [.signalTerm]
  | signalPipe (hkind : kind = .pipe) (hsignaled : w.InProgress → w.runs ∈ w.signaled) :
    ControllerOk kind w [.signalPipe]

structure Inv (kind : Kind) (c : Config Worker Point) : Prop where
  history : History c.shared
  length : c.pool.length = c.shared.runs + 1
  game : c.pool.getD 0 [] = [.game]
  threads : ∀ n, 0 < n → n ≤ c.shared.runs → ThreadOk kind c.shared n (c.pool.getD n [])
  controller : ControllerOk kind c.shared c.caller

theorem inv_initial (kind : Kind) : Inv kind initial where
  history := ⟨nofun, nofun, nofun, nofun, nofun, fun _ => Nat.zero_le _⟩
  length := rfl
  game := rfl
  threads _ hn hle := absurd (Nat.lt_of_lt_of_le hn hle) (Nat.lt_irrefl 0)
  controller := .idle

/-- A step of another thread, or of the controller. -/
theorem ThreadOk.congr {code : List Point} (h : ThreadOk kind w n code) (hruns : w'.runs = w.runs)
    (hcompleted : n ∈ w'.completed ↔ n ∈ w.completed)
    (hthread : n = w.runs → w.thread = false → w'.thread = false)
    (hcurrent : ∀ pc, n = w.runs → code = [.work n pc] → CurrentOk kind w pc →
      CurrentOk kind w' pc) : ThreadOk kind w' n code := by
  cases h with
  | ended hc ht => exact .ended (hcompleted.mpr hc) fun hn => hthread (hruns ▸ hn) (ht (hruns ▸ hn))
  | working pc hc hold hcur =>
    refine .working pc (hcompleted.trans hc) (fun hn => hold (hruns ▸ hn)) fun hn => ?_
    exact hcurrent pc (hruns ▸ hn) rfl (hcur (hruns ▸ hn))

/-- The order of the places after the loop. -/
theorem execWork_next (he : execWork kind w n pc = some (w', next)) :
    (next = none → pc = .closeHandle) ∧ ∀ pc' ∈ next, pc ≠ .closeHandle ∧
      (pc' = .closeHandle ↔ pc = .invokeComplete) ∧ (pc.inWork = false → pc'.inWork = false) := by
  cases pc with
  | test | listenTest | termTest =>
    obtain ⟨-, rfl⟩ := Prod.mk.inj (Option.some.inj he)
    refine ⟨nofun, fun pc' hpc => ?_⟩
    obtain rfl := Option.mem_some_iff.mp hpc
    cases kind <;> split <;> decide
  | listen =>
    simp only [execWork] at he
    split_ifs at he <;> obtain ⟨-, rfl⟩ := Prod.mk.inj (Option.some.inj he) <;>
      exact ⟨nofun, fun pc' hpc => by obtain rfl := Option.mem_some_iff.mp hpc; decide⟩
  | connection =>
    simp only [execWork] at he
    split_ifs at he
    obtain ⟨-, rfl⟩ := Prod.mk.inj (Option.some.inj he)
    exact ⟨nofun, fun pc' hpc => by obtain rfl := Option.mem_some_iff.mp hpc; decide⟩
  | closeHandle =>
    obtain ⟨-, rfl⟩ := Prod.mk.inj (Option.some.inj he)
    exact ⟨fun _ => rfl, nofun⟩
  | _ =>
    obtain ⟨-, rfl⟩ := Prod.mk.inj (Option.some.inj he)
    exact ⟨nofun, fun pc' hpc => by obtain rfl := Option.mem_some_iff.mp hpc; decide⟩

/-- A step of the thread itself. -/
theorem ThreadOk.advance (h : ThreadOk kind w n [.work n pc]) (hw : History w)
    (he : execWork kind w n pc = some (w', next)) :
    ThreadOk kind w' n (next.toList.map (.work n)) := by
  obtain ⟨hruns, -, -, hcompleted, hkeep⟩ := execWork_frame he
  obtain ⟨hnone, hsome⟩ := execWork_next he
  cases h with
  | working _ hc hold hcurrent =>
    cases next with
    | none =>
      obtain rfl := hnone rfl
      refine .ended ((hcompleted n).mpr (.inl (hc.mpr rfl))) fun hn => ?_
      exact (hkeep rfl).1.trans (hcurrent (hn.trans hruns)).thread
    | some pc' =>
      obtain ⟨hopen, hclose, hleft⟩ := hsome pc' rfl
      refine .working pc' ?_ (fun hn => hleft (hold fun heq => hn (heq.trans hruns.symm))) fun hn => ?_
      · rw [hcompleted, hc, hclose]
        exact ⟨fun hor => hor.elim (fun heq => absurd heq hopen) And.right, fun heq => .inr ⟨rfl, heq⟩⟩
      · obtain rfl := hn.trans hruns
        exact (hcurrent rfl).advance hw he

theorem getD_set_self {β : Type*} {l : List (List β)} {k : ℕ} {a : List β} (hk : k < l.length) :
    (l.set k a).getD k [] = a := by
  rw [List.getD_eq_getElem _ _ (by rwa [List.length_set]), List.getElem_set_self]

theorem getD_set_of_ne {β : Type*} {l : List (List β)} {k m : ℕ} {a : List β} (hk : m ≠ k) :
    (l.set k a).getD m [] = l.getD m [] := by
  rw [List.getD_eq_getElem?_getD, List.getD_eq_getElem?_getD, List.getElem?_set_ne hk.symm]

variable {c : Config Worker Point}

/-- What the controller is about to do does not depend on what the threads do. -/
theorem ControllerOk.congr {code : List Point} (h : ControllerOk kind w code)
    (hruns : w'.runs = w.runs) (hsignaled : w'.signaled = w.signaled)
    (hcompleted : ∀ m, m ∈ w.completed → m ∈ w'.completed)
    (hthread : w.thread = false → w'.thread = false) : ControllerOk kind w' code := by
  cases h with
  | idle => exact .idle
  | run => exact .run
  | markRunning ht => exact .markRunning (hthread ht)
  | startThread ht => exact .startThread (hthread ht)
  | signalTerm => exact .signalTerm
  | signalPipe hk hs =>
    refine .signalPipe hk fun hin => ?_
    rw [hruns, hsignaled]
    exact hs ⟨hruns ▸ hin.1, fun hmem => hin.2 (hruns ▸ hcompleted _ hmem)⟩

/-- A step of the thread of a run. -/
theorem Inv.work (h : Inv kind c) (hn : 0 < n) (hle : n ≤ c.shared.runs)
    (hcode : c.pool.getD n [] = [.work n pc]) (he : execWork kind c.shared n pc = some (w', next)) :
    Inv kind ⟨w', c.caller, c.pool.set n (next.toList.map (.work n))⟩ := by
  obtain ⟨hhistory, hlength, hgame, hthreads, hcontroller⟩ := h
  have hthread := hthreads n hn hle
  rw [hcode] at hthread
  obtain ⟨hruns, hsignaled, hstopped, hcompleted, hkeep⟩ := execWork_frame he
  have hself : (c.shared.runs = n → CurrentOk kind c.shared pc) ∧
      (n ≠ c.shared.runs → pc.inWork = false) := by
    cases hthread with
    | working _ _ hold hcurrent => exact ⟨fun heq => hcurrent heq.symm, hold⟩
  have hclear : c.shared.thread = false → w'.thread = false := by
    intro hfalse
    by_cases hwork : pc.inWork = false
    · exact (hkeep hwork).1.trans hfalse
    · have heq : c.shared.runs = n := by
        by_contra hne
        exact hwork (hself.2 (Ne.symm hne))
      exact absurd ((hself.1 heq).thread.symm.trans hfalse) hwork
  refine ⟨hhistory.advance hn hle (fun heq => hself.1 heq.symm) hself.2 he, ?_, ?_, ?_, ?_⟩
  · rw [List.length_set, hlength, hruns]
  · rw [getD_set_of_ne (by omega), hgame]
  · intro m hm hmle
    by_cases hmn : m = n
    · subst hmn
      rw [getD_set_self (by omega)]
      exact hthread.advance hhistory he
    · rw [getD_set_of_ne hmn]
      refine (hthreads m hm (hruns ▸ hmle)).congr hruns ?_ (fun _ => hclear) fun pc' hcur _ hok => ?_
      · rw [hcompleted]
        exact or_iff_left fun hand => hmn hand.1
      · obtain ⟨ht, hterm, hpipe, hreads⟩ := hkeep (hself.2 fun heq => hmn (hcur.trans heq.symm))
        exact hok.congr hruns hsignaled hstopped ht hterm hpipe hreads
  · exact hcontroller.congr hruns hsignaled (fun m hm => (hcompleted m).mpr (.inl hm)) hclear

/-- A step of the game. -/
theorem Inv.gameStep (h : Inv kind c) :
    Inv kind ⟨{ c.shared with game := !c.shared.game }, c.caller, c.pool.set 0 [.game]⟩ := by
  obtain ⟨hhistory, hlength, hgame, hthreads, hcontroller⟩ := h
  have hhistory' : History { c.shared with game := !c.shared.game } :=
    hhistory.congr rfl rfl rfl rfl rfl
  refine ⟨hhistory', ?_, ?_, fun n hn hle => ?_, ?_⟩
  · rw [List.length_set, hlength]
  · exact getD_set_self (by omega)
  · rw [getD_set_of_ne (by omega)]
    exact (hthreads n hn hle).congr rfl Iff.rfl (fun _ => id) fun _ _ _ hok =>
      hok.congr rfl rfl rfl rfl rfl rfl rfl
  · exact hcontroller.congr rfl rfl (fun _ => id) id

/-- What a step of a thread can be. -/
theorem Inv.worker_cases (h : Inv kind c) (hn : 0 < n) :
    step (program kind) c (.worker n) = c ∨ ∃ pc w' next, n ≤ c.shared.runs ∧
      c.pool.getD n [] = [.work n pc] ∧ execWork kind c.shared n pc = some (w', next) ∧
      step (program kind) c (.worker n) =
        ⟨w', c.caller, c.pool.set n (next.toList.map (.work n))⟩ := by
  by_cases hblocked : ∀ i ∈ (c.pool.getD n []).head?, exec kind i c.shared = none
  · exact .inl (step_eq_self nofun hblocked)
  push Not at hblocked
  obtain ⟨i, hi, hne⟩ := hblocked
  obtain ⟨e, he⟩ := Option.ne_none_iff_exists'.mp hne
  have hle : n ≤ c.shared.runs := by
    by_contra hlt
    rw [List.getD_eq_default _ _ (by have := h.length; omega)] at hi
    cases hi
  have hthread := h.threads n hn hle
  cases hcode : c.pool.getD n [] with
  | nil =>
    rw [hcode] at hi
    cases hi
  | cons j rest =>
    rw [hcode] at hi hthread
    obtain rfl := Option.some.inj hi
    cases hthread with
    | working pc _ _ _ =>
      obtain ⟨⟨w', next⟩, hwork, rfl⟩ := Option.map_eq_some_iff.mp he
      refine .inr ⟨pc, w', next, hle, rfl, hwork, ?_⟩
      rw [step_worker hcode he, Effect.goto, List.append_nil, List.append_nil]

/-- A thread forgets no stop request, and no completion. -/
theorem Inv.worker_mono (h : Inv kind c) (hn : 0 < n) :
    (step (program kind) c (.worker n)).shared.stopped = c.shared.stopped ∧
      ∀ m ∈ c.shared.completed, m ∈ (step (program kind) c (.worker n)).shared.completed := by
  obtain hskip | ⟨pc, w', next, -, -, hwork, hstep⟩ := h.worker_cases hn
  · rw [hskip]
    exact ⟨rfl, fun _ => id⟩
  · obtain ⟨-, -, hstopped, hcompleted, -⟩ := execWork_frame hwork
    rw [hstep]
    exact ⟨hstopped, fun m hm => (hcompleted m).mpr (.inl hm)⟩

theorem Inv.worker (h : Inv kind c) (k : ℕ) : Inv kind (step (program kind) c (.worker k)) := by
  rcases Nat.eq_zero_or_pos k with rfl | hk
  · have he : (program kind).exec .game c.shared =
        some (.goto { c.shared with game := !c.shared.game } [.game]) := rfl
    rw [step_worker h.game he, Effect.goto, List.append_nil, List.append_nil]
    exact h.gameStep
  · obtain hskip | ⟨pc, w', next, hle, hcode, hwork, hstep⟩ := h.worker_cases hk
    · rw [hskip]
      exact h
    · rw [hstep]
      exact h.work hk hle hcode hwork

/-- The controller sets fields that no thread reads, and its code. -/
theorem Inv.controllerStep (h : Inv kind c) {code : List Point} (hhistory : History w')
    (hruns : w'.runs = c.shared.runs) (hcompleted : w'.completed = c.shared.completed)
    (hthread : w'.thread = c.shared.thread) (hcode : ControllerOk kind w' code)
    (hcurrent : ∀ pc, .work c.shared.runs pc ∈ c.points → CurrentOk kind c.shared pc →
      CurrentOk kind w' pc) : Inv kind ⟨w', code, c.pool⟩ := by
  refine ⟨hhistory, h.length.trans (by rw [hruns]), h.game, fun n hn hle => ?_, hcode⟩
  refine (h.threads n hn (hruns ▸ hle)).congr hruns (by rw [hcompleted]) (fun _ => hthread.trans) ?_
  intro pc hn' hget hok
  refine hcurrent pc ?_ hok
  subst hn'
  have hlt : c.shared.runs < c.pool.length := by have := h.length; omega
  rw [List.getD_eq_getElem _ _ hlt] at hget
  refine List.mem_append_right _ (List.mem_flatten_of_mem (List.getElem_mem hlt) ?_)
  rw [hget]
  exact List.mem_singleton_self _

/-- `Run` creates the thread. -/
theorem Inv.startThread (h : Inv kind c) (hthread : c.shared.thread = false) :
    Inv kind ⟨{ c.shared with thread := true, runs := c.shared.runs + 1 }, [],
      c.pool ++ [[.work (c.shared.runs + 1) .reset]]⟩ := by
  obtain ⟨hhistory, hlength, hgame, hthreads, -⟩ := h
  have hnew : c.shared.runs + 1 ∉ c.shared.signaled := fun hmem => by
    have := (hhistory.signaled _ hmem).2
    omega
  have hlate := lateTests_of_lt hhistory (Nat.lt_succ_self _)
  have hhistory' : History { c.shared with thread := true, runs := c.shared.runs + 1 } :=
    ⟨fun n hn => ⟨(hhistory.signaled n hn).1, Nat.le_succ_of_le (hhistory.signaled n hn).2⟩,
      hhistory.stopped,
      fun n hn => ⟨(hhistory.completed n hn).1, Nat.le_succ_of_le (hhistory.completed n hn).2⟩,
      fun r hr => Nat.le_succ_of_le (hhistory.reads_le r hr), hhistory.reads, hhistory.leaves⟩
  refine ⟨hhistory', ?_, ?_, fun n hn hle => ?_, .idle⟩
  · rw [List.length_append, hlength, List.length_singleton]
  · rw [List.getD_append _ _ _ _ (by omega), hgame]
  · rcases Nat.lt_or_ge c.shared.runs n with hlt | hold
    · -- the new thread
      obtain rfl : n = c.shared.runs + 1 := Nat.le_antisymm hle hlt
      rw [List.getD_append_right _ _ _ _ (Nat.le_of_eq hlength), hlength, Nat.sub_self,
        List.getD_cons_zero]
      refine .working .reset ⟨fun hmem => ?_, nofun⟩ (absurd rfl) fun _ => ?_
      · have := (hhistory.completed _ hmem).2
        omega
      · exact ⟨rfl, fun _ => rfl, fun _ => hnew, fun _ hs => absurd hs hnew,
          fun _ _ hs => absurd (hhistory.stopped _ hs) hnew,
          fun _ => hlate⟩
    · rw [List.getD_append _ _ _ _ (by omega)]
      have hlt : n ≠ c.shared.runs + 1 := by omega
      have hthread' := hthreads n hn hold
      generalize c.pool.getD n [] = code at hthread' ⊢
      cases hthread' with
      | ended hc _ => exact .ended hc fun heq => absurd heq hlt
      | working pc hc hleft hcurrent =>
        refine .working pc hc (fun _ => ?_) fun heq => absurd heq hlt
        by_cases heq : n = c.shared.runs
        · exact (hcurrent heq).thread.symm.trans hthread
        · exact hleft heq

theorem noteSignaled_eq (w : Worker) :
    w.noteSignaled = { w with signaled := w.noteSignaled.signaled } := by
  unfold Worker.noteSignaled
  split <;> rfl

theorem mem_noteSignaled : n ∈ w.noteSignaled.signaled ↔
    n ∈ w.signaled ∨ (n = w.runs ∧ w.InProgress) := by
  unfold Worker.noteSignaled
  split
  · rename_i hin
    rw [List.mem_cons]
    tauto
  · tauto

theorem noteStopped_eq (w : Worker) :
    w.noteStopped = { w with stopped := w.noteStopped.stopped } := by
  unfold Worker.noteStopped
  split <;> rfl

theorem mem_noteStopped : n ∈ w.noteStopped.stopped ↔
    n ∈ w.stopped ∨ (n = w.runs ∧ w.InProgress) := by
  unfold Worker.noteStopped
  split
  · rename_i hin
    rw [List.mem_cons]
    tauto
  · tauto

/-- `StopSignal` sets `term_`. -/
theorem Inv.signalTerm (h : Inv kind c) (hq : Quiet c .signalTerm) {code : List Point}
    (hcode : ControllerOk kind { c.shared with term := true }.noteSignaled code) :
    Inv kind ⟨{ c.shared with term := true }.noteSignaled, code, c.pool⟩ := by
  have hhistory := h.history
  have hmem : ∀ n, n ∈ { c.shared with term := true }.noteSignaled.signaled ↔
      n ∈ c.shared.signaled ∨ (n = c.shared.runs ∧ c.shared.InProgress) := fun n => mem_noteSignaled
  rw [noteSignaled_eq] at hcode ⊢
  generalize { c.shared with term := true }.noteSignaled.signaled = signaled at hmem hcode ⊢
  have hhistory' : History { c.shared with term := true, signaled := signaled } := by
    refine ⟨fun n hn => ?_, fun n hn => (hmem n).mpr (.inl (hhistory.stopped n hn)),
      hhistory.completed, hhistory.reads_le, hhistory.reads, hhistory.leaves⟩
    rcases (hmem n).mp hn with hn | ⟨rfl, hin⟩
    · exact hhistory.signaled n hn
    · exact ⟨Nat.pos_of_ne_zero hin.1, Nat.le_refl _⟩
  refine h.controllerStep hhistory' rfl rfl rfl hcode fun pc hpc hok => ?_
  obtain ⟨hthread, hshape, -, -, hpipe, hleave⟩ := hok
  refine ⟨hthread, hshape, fun hreset => ?_, fun _ _ => rfl, hpipe, hleave⟩
  subst hreset
  exact absurd hpc hq

/-- `StopSignal` returns. -/
theorem Inv.noteStopped (h : Inv kind c)
    (hsignaled : c.shared.InProgress → c.shared.runs ∈ c.shared.signaled)
    (hpipe : kind = .pipe → c.shared.pipe = false ∧ .work c.shared.runs .create ∉ c.points) :
    Inv kind ⟨c.shared.noteStopped, [], c.pool⟩ := by
  have hhistory := h.history
  have hmem : ∀ n, n ∈ c.shared.noteStopped.stopped ↔
      n ∈ c.shared.stopped ∨ (n = c.shared.runs ∧ c.shared.InProgress) := fun n => mem_noteStopped
  rw [noteStopped_eq]
  generalize c.shared.noteStopped.stopped = stopped at hmem ⊢
  have hhistory' : History { c.shared with stopped := stopped } := by
    refine ⟨hhistory.signaled, fun n hn => ?_, hhistory.completed, hhistory.reads_le,
      hhistory.reads, hhistory.leaves⟩
    rcases (hmem n).mp hn with hn | ⟨rfl, hin⟩
    · exact hhistory.stopped n hn
    · exact hsignaled hin
  refine h.controllerStep hhistory' rfl rfl rfl .idle fun pc hpc hok => ?_
  obtain ⟨hthread, hshape, hfresh, hterm, -, hleave⟩ := hok
  refine ⟨hthread, hshape, hfresh, hterm, fun hk _ _ => ⟨?_, (hpipe hk).1⟩, hleave⟩
  rintro rfl
  exact (hpipe hk).2 hpc

/-- `StopSignal` terminates the pipe. -/
theorem Inv.pipeTerm (h : Inv kind c) : Inv kind ⟨c.shared.pipeTerm, c.caller, c.pool⟩ := by
  have hhistory' : History c.shared.pipeTerm := h.history.congr rfl rfl rfl rfl rfl
  refine h.controllerStep hhistory' rfl rfl rfl ?_ fun pc _ hok => ?_
  · exact h.controller.congr rfl rfl (fun _ => id) id
  · obtain ⟨hthread, hshape, hfresh, hterm, hpipe, hleave⟩ := hok
    exact ⟨hthread, hshape, hfresh, hterm, fun hk hloop hs => ⟨(hpipe hk hloop hs).1, rfl⟩, hleave⟩

/-- The code of the controller has no effect on the threads. -/
theorem Inv.setCaller (h : Inv kind c) {code : List Point} (hcode : ControllerOk kind c.shared code) :
    Inv kind ⟨c.shared, code, c.pool⟩ :=
  h.controllerStep h.history rfl rfl rfl hcode fun _ _ => id

theorem Inv.caller (h : Inv kind c) (hq : ∀ i ∈ c.pointOf (.caller : Act Command), Quiet c i) :
    Inv kind (step (program kind) c .caller) := by
  have hcontroller := h.controller
  obtain ⟨w, caller, pool⟩ := c
  cases hcontroller with
  | idle => exact h
  | run =>
    show Inv kind ⟨w, (if w.thread then [] else [.markRunning]) ++ [], pool ++ []⟩
    rw [List.append_nil, List.append_nil]
    split
    · exact h.setCaller .idle
    · rename_i hthread
      exact h.setCaller (.markRunning (Bool.eq_false_iff.mpr hthread))
  | markRunning hthread =>
    show Inv kind ⟨{ w with running := true }, [.startThread], pool ++ []⟩
    rw [List.append_nil]
    refine h.controllerStep ?_ rfl rfl rfl (.startThread hthread) fun _ _ hok =>
      hok.congr rfl rfl rfl rfl rfl rfl rfl
    exact h.history.congr rfl rfl rfl rfl rfl
  | startThread hthread => exact h.startThread hthread
  | signalTerm =>
    have hquiet : Quiet ⟨w, [.signalTerm], pool⟩ .signalTerm := hq _ rfl
    have hsignaled : { w with term := true }.noteSignaled.InProgress →
        { w with term := true }.noteSignaled.runs ∈ { w with term := true }.noteSignaled.signaled := by
      rw [noteSignaled_eq]
      exact fun hin => mem_noteSignaled.mpr (.inr ⟨rfl, hin⟩)
    cases kind with
    | search =>
      show Inv .search ⟨{ w with term := true }.noteSignaled.noteStopped, [], pool ++ []⟩
      rw [List.append_nil]
      exact (h.signalTerm hquiet .idle).noteStopped hsignaled nofun
    | pipe =>
      show Inv .pipe ⟨{ w with term := true }.noteSignaled, [.signalPipe], pool ++ []⟩
      rw [List.append_nil]
      exact h.signalTerm hquiet (.signalPipe rfl hsignaled)
  | signalPipe hkind hsignaled =>
    have hquiet : Quiet ⟨w, [.signalPipe], pool⟩ .signalPipe := hq _ rfl
    show Inv kind ⟨w.pipeTerm.noteStopped, [], pool ++ []⟩
    rw [List.append_nil]
    exact h.pipeTerm.noteStopped hsignaled fun _ => ⟨rfl, hquiet⟩

/-- What the guarded steps keep. -/
theorem Inv.step (h : Inv kind c) (a : Act Command) (hq : ∀ i ∈ c.pointOf a, Quiet c i) :
    Inv kind (Threads.step (program kind) c a) := by
  cases a with
  | caller => exact h.caller hq
  | worker k => exact h.worker k
  | issue cmd =>
    obtain hskip | ⟨w, code, -, hcmd, hstep⟩ := step_issue (program kind) c cmd
    · rw [hskip]
      exact h
    · rw [hstep]
      cases cmd with
      | run =>
        obtain ⟨rfl, rfl⟩ := Prod.mk.inj (Option.some.inj hcmd)
        exact h.setCaller .run
      | stopSignal =>
        obtain ⟨rfl, rfl⟩ := Prod.mk.inj (Option.some.inj hcmd)
        exact h.setCaller .signalTerm

/-! ## What is left for a thread that was stopped -/

/-- The steps to the handlers once `term_` is set and the pipe is closed. -/
def Pc.rank : Pc → ℕ
  | .closeHandle => 0
  | .invokeComplete => 1
  | .clearRunning => 2
  | .clearThread => 3
  | .clearWin => 4
  | .reset | .test => 5
  | .search | .create | .termPipe | .termTest => 6
  | .connection => 7
  | .listenTest => 8
  | .listen => 9

theorem Pc.rank_le (pc : Pc) : pc.rank ≤ 9 := by
  cases pc <;> decide

/-- A thread that was stopped does not wait, and comes nearer to the handlers. -/
theorem execWork_of_stopped (hpc : pc ≠ .closeHandle) (hleft : n ≠ w.runs → pc.inWork = false)
    (hok : n = w.runs → CurrentOk kind w pc) (hs : n ∈ w.signaled) (hstop : n ∈ w.stopped) :
    ∃ w' pc', execWork kind w n pc = some (w', some pc') ∧ pc'.rank < pc.rank := by
  have hloop : pc.inLoop = true → n = w.runs := by
    intro hloop
    by_contra hne
    exact nomatch (hleft hne).symm.trans (Pc.inWork_of_inLoop hloop)
  have hterm : pc.inLoop = true → w.term = true := by
    intro hl
    obtain rfl := hloop hl
    exact (hok rfl).term hl hs
  have hpipe : pc.inPipe = true → pc ≠ .create ∧ w.pipe = false := by
    intro hin
    have hl : pc.inLoop = true := by cases pc <;> first | rfl | exact absurd hin (by decide)
    obtain rfl := hloop hl
    cases kind with
    | search => exact absurd hin (by rw [(hok rfl).shape rfl]; decide)
    | pipe => exact (hok rfl).pipe rfl hl hstop
  cases pc with
  | reset =>
    obtain rfl := hloop rfl
    exact absurd hs ((hok rfl).fresh rfl)
  | test =>
    refine ⟨_, _, rfl, ?_⟩
    rw [hterm rfl]
    cases kind <;> decide
  | create => exact absurd rfl (hpipe rfl).1
  | listen =>
    refine ⟨w, .listenTest, ?_, by decide⟩
    rw [execWork, (hpipe rfl).2]
    rfl
  | connection =>
    refine ⟨w, .termTest, ?_, by decide⟩
    rw [execWork, (hpipe rfl).2]
    rfl
  | listenTest | termTest =>
    refine ⟨_, _, rfl, ?_⟩
    rw [hterm rfl]
    decide
  | closeHandle => exact absurd rfl hpc
  | _ => exact ⟨_, _, rfl, by decide⟩

theorem ThreadOk.of_rank {code : List Point} (h : ThreadOk kind w n code) :
    n ∈ w.completed ∨ ∃ pc, code = [.work n pc] ∧ pc ≠ .closeHandle := by
  cases h with
  | ended hc _ => exact .inl hc
  | working pc hc _ _ =>
    by_cases hclose : pc = .closeHandle
    · exact .inl (hc.mpr hclose)
    · exact .inr ⟨pc, rfl, hclose⟩

/-- `StopSignal` has returned: the thread comes to the handlers on its own. -/
theorem reached_of_stopped (h : Inv kind c) (hs : n ∈ c.shared.stopped) {k : ℕ}
    (hk : n ∈ c.shared.completed ∨
      ∃ pc, c.pool.getD n [] = [.work n pc] ∧ pc ≠ .closeHandle ∧ pc.rank ≤ k) :
    n ∈ (Threads.run (program kind) c (List.replicate k (.worker n))).shared.completed := by
  have hsignaled := h.history.stopped n hs
  obtain ⟨hn, hle⟩ := h.history.signaled n hsignaled
  induction k generalizing c with
  | zero =>
    obtain hc | ⟨pc, -, hclose, hrank⟩ := hk
    · exact hc
    · cases pc <;> first | exact absurd rfl hclose | exact absurd hrank (by decide)
  | succ k ih =>
    obtain ⟨hstopped, hcompleted⟩ := h.worker_mono hn
    have hs' : n ∈ (Threads.step (program kind) c (.worker n)).shared.stopped := hstopped ▸ hs
    have hinv := h.worker n
    have hsignaled' := hinv.history.stopped n hs'
    have hle' := (hinv.history.signaled n hsignaled').2
    refine ih hinv hs' ?_ hsignaled' hle'
    obtain hc | ⟨pc, hcode, hclose, hrank⟩ := hk
    · exact .inl (hcompleted n hc)
    have hthread := h.threads n hn hle
    rw [hcode] at hthread
    cases hthread with
    | working _ _ hold hcurrent =>
      obtain ⟨w', pc', hwork, hlt⟩ :=
        execWork_of_stopped hclose hold hcurrent hsignaled hs
      have he : (program kind).exec (.work n pc) c.shared = some (.goto w' [.work n pc']) := by
        show (execWork kind c.shared n pc).map _ = _
        rw [hwork]
        rfl
      have hnext : (Threads.step (program kind) c (.worker n)).pool.getD n [] = [.work n pc'] := by
        rw [step_worker hcode he, Effect.goto, List.append_nil, List.append_nil]
        exact getD_set_self (by rw [h.length]; omega)
      obtain hc | ⟨pc'', hcode', hclose'⟩ := (hinv.threads n hn hle').of_rank
      · exact .inl hc
      · rw [hnext] at hcode'
        cases hcode'
        exact .inr ⟨pc', hnext, hclose', by omega⟩

/-- `Run` is accepted once the handlers were invoked. -/
theorem fresh_of_completed (h : Inv kind c) (hcaller : c.caller = [])
    (hcompleted : c.shared.runs ∈ c.shared.completed) :
    Threads.run (program kind) c [.issue .run, .caller, .caller, .caller] =
      ⟨{ c.shared with running := true, thread := true, runs := c.shared.runs + 1 }, [],
        c.pool ++ [[.work (c.shared.runs + 1) .reset]]⟩ := by
  have hn := (h.history.completed _ hcompleted).1
  have hthread : c.shared.thread = false := by
    have hok := h.threads _ hn (Nat.le_refl _)
    generalize c.pool.getD c.shared.runs [] = code at hok
    cases hok with
    | ended _ hend => exact hend rfl
    | working pc hc _ hcurrent =>
      obtain rfl := hc.mp hcompleted
      exact (hcurrent rfl).thread
  obtain ⟨w, caller, pool⟩ := c
  obtain rfl : caller = [] := hcaller
  have hrun : exec kind .run w = some (.goto w [.markRunning]) := by
    rw [exec, if_neg (Bool.eq_false_iff.mp hthread)]
  calc Threads.run (program kind) ⟨w, [], pool⟩ [.issue .run, .caller, .caller, .caller]
      = Threads.run (program kind) ⟨w, [.run], pool⟩ [.caller, .caller, .caller] := rfl
    _ = Threads.run (program kind) ⟨w, [.markRunning], pool⟩ [.caller, .caller] := by
      rw [Threads.run, List.foldl_cons, step_caller hrun, Effect.goto, List.append_nil, List.append_nil]
      rfl
    _ = Threads.run (program kind) ⟨{ w with running := true }, [.startThread], pool⟩ [.caller] := by
      have hmark : exec kind .markRunning w =
          some (.goto { w with running := true } [.startThread]) := rfl
      rw [Threads.run, List.foldl_cons, step_caller hmark, Effect.goto, List.append_nil,
        List.append_nil]
      rfl
    _ = _ := rfl

theorem stopOk_of_inv (h : Inv kind c) : StopOk kind c where
  reads := h.history.reads
  leaves := h.history.leaves
  reached n hn := by
    have hsignaled := h.history.stopped n hn
    obtain ⟨hpos, hle⟩ := h.history.signaled n hsignaled
    refine reached_of_stopped h hn ?_
    obtain hc | ⟨pc, hcode, hclose⟩ := (h.threads n hpos hle).of_rank
    · exact .inl hc
    · exact .inr ⟨pc, hcode, hclose, pc.rank_le⟩
  fresh hcaller hcompleted := by
    rw [fresh_of_completed h hcaller hcompleted]
    refine ⟨rfl, fun hmem => ?_, ?_⟩
    · exact absurd (h.history.signaled _ hmem).2 (Nat.not_succ_le_self _)
    · simp [Config.points]

/-- No stop request is lost when `term_` is set after the reset, and the pipe is not terminated just
before it is created. -/
theorem stopOk_quiet (kind : Kind) (acts : List (Act Command))
    (h : Guarded (program kind) Quiet initial acts) :
    StopOk kind (Threads.run (program kind) initial acts) :=
  stopOk_of_inv (h.run (fun _ a hinv hq => hinv.step a hq) (inv_initial kind))

/-- The pipe: the game connects, `StopSignal` is called, and the handlers are reached. -/
theorem stopOk_pipe :
    StopOk .pipe (Threads.run (program .pipe) initial ([.issue .run] ++ List.replicate 3 .caller ++
      List.replicate 4 (.worker 1) ++ [.worker 0, .issue .stopSignal, .caller, .caller] ++
      List.replicate 9 (.worker 1))) :=
  stopOk_quiet .pipe _ (by decide)

/-- `StopSignal` comes before the reset, and the loop does not see it. -/
theorem not_stopOk :
    ¬ ∀ acts : List (Act Command), StopOk .search (Threads.run (program .search) initial acts) := by
  intro h
  have hread := (h ([Act.issue Command.run] ++ List.replicate 3 Act.caller ++
    [Act.issue Command.stopSignal, Act.caller] ++ List.replicate 2 (Act.worker 1))).reads
    ⟨1, true, false, true⟩ (by decide) rfl
  cases hread

end StopRequest

end DreamDota
