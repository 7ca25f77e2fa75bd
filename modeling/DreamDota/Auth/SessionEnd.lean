import DreamDota.Auth.Loggedin
import Mathlib.Algebra.Ring.Nat
import Mathlib.Data.List.Nodup
import Mathlib.Order.Nat

/-!
# Sessions that end well

`sessionsOk_of_orderly`: in every order of steps that are orderly, every command gets its handler
run and every session its `onEvent`.

1. `Ledger`: the history when all went well.
2. `Out`, `Idle`, `Changing`, `Ending`: the phases of a session.
3. What each step makes of each phase, `Inv.step`.
4. The two steps that are not orderly, and what they lead to.
-/

namespace DreamDota.Loggedin

/-! ## The history -/

namespace Log

variable {l : Log} {n s e : ℕ}

/-- The handlers of the first `n` commands have run, `s` sessions have been ended, and `e` of them
have raised `onEvent`. -/
structure Ledger (l : Log) (n s e : ℕ) : Prop where
  completed : ∀ c ∈ l.completed, c < n
  runs : l.runs = (List.range n).map fun i => (i, true)
  stops : l.stops = (List.range s).map fun i => (i + 1, .started)
  ended : l.ended = (List.range s).map fun i => i + 1
  raised : l.raised = (List.range e).map fun i => (i + 1, true)

theorem nodup_sessions (s : ℕ) : ((List.range s).map fun i => i + 1).Nodup :=
  List.Nodup.map (fun _ _ h => Nat.succ.inj h) List.nodup_range

theorem range_succ_map {α : Type*} (f : ℕ → α) (k : ℕ) :
    (List.range (k + 1)).map f = (List.range k).map f ++ [f k] := by
  rw [List.range_succ, List.map_append]
  rfl

theorem Ledger.map_runs (h : l.Ledger n s e) : l.runs.map Prod.fst = List.range n := by
  rw [h.runs, List.map_map]
  exact List.map_id _

theorem Ledger.map_raised (h : l.Ledger n s e) :
    l.raised.map Prod.fst = (List.range e).map fun i => i + 1 := by
  rw [h.raised, List.map_map]
  rfl

/-- The command `n` is complete, and its handler runs. -/
theorem Ledger.run (h : l.Ledger n s e) {completed : List ℕ}
    (hc : ∀ c ∈ completed, c < n + 1) :
    Ledger { l with completed, runs := l.runs ++ [(n, true)] } (n + 1) s e :=
  { h with
    completed := hc
    runs := by rw [range_succ_map, ← h.runs] }

theorem Ledger.complete (h : l.Ledger n s e) : ∀ c ∈ n :: l.completed, c < n + 1 := by
  intro c hc
  rcases List.mem_cons.mp hc with rfl | hc
  · exact Nat.lt_succ_self c
  · exact Nat.lt_succ_of_lt (h.completed c hc)

end Log

namespace World

open Log

variable {w : World} {n s e : ℕ} {id : WorkerId}

theorem sessionsOk_of_ledger (h : w.log.Ledger n s e) (he : e ≤ s)
    (hrest : w.AtRest → w.commands = n ∧ s = e) : w.SessionsOk := by
  refine ⟨?_, ⟨?_, ?_⟩, ?_, ?_, ?_, ⟨?_, ?_⟩, ?_⟩
  · rw [h.stops]
    exact List.forall_mem_map.mpr fun _ _ => rfl
  · rw [h.stops, h.ended, List.map_map]
    rfl
  · rw [h.ended]
    exact nodup_sessions s
  · rw [h.runs]
    exact List.forall_mem_map.mpr fun _ _ => rfl
  · rw [h.map_runs]
    exact List.nodup_range
  · rw [h.raised]
    exact List.forall_mem_map.mpr fun _ _ => rfl
  · rw [h.map_raised]
    exact nodup_sessions e
  · rw [h.raised, h.ended]
    refine List.forall_mem_map.mpr fun i hi => List.mem_map.mpr ⟨i, ?_, rfl⟩
    exact List.mem_range.mpr (lt_of_lt_of_le (List.mem_range.mp hi) he)
  · intro hw
    obtain ⟨hn, rfl⟩ := hrest hw
    refine ⟨fun i hi => ?_, fun i hi => ?_⟩
    · rw [h.map_runs]
      exact List.mem_range.mpr (hn ▸ hi)
    · rw [h.map_raised, ← h.ended]
      exact hi

/-! ## Threads -/

/-- How often `onThreadEndForCleanup` is registered at the search thread. -/
def registered (w : World) : ℕ := (w.threads .search).onThreadComplete.count .onThreadEndForCleanup

/-- How often it has still to run. -/
def copies (w : World) : ℕ :=
  (w.invocations.map fun q => q.2.count .onThreadEndForCleanup).sum

theorem registered_iff : w.Registered ↔ 0 < w.registered := List.count_pos_iff.symm

theorem copied_iff : w.Copied ↔ 0 < w.copies := by
  rw [Copied, copies, Nat.pos_iff_ne_zero, Ne, List.sum_eq_zero_iff_forall_eq_nat]
  simp only [List.forall_mem_map, not_forall, List.count_eq_zero, not_not, exists_prop]

/-- What holds of the threads in every phase. -/
structure Settled (w : World) : Prop where
  thread : ∀ id, (w.threads id).thread = (w.threads id).running
  pipe : .onThreadEndForCleanup ∉ (w.threads .pipe).onThreadComplete
  invocations : ∀ q ∈ w.invocations, q.1 = .pipe → .onThreadEndForCleanup ∉ q.2

/-- `Run` changes the thread and nothing else. -/
theorem exists_run (h : w.Settled) (id : WorkerId) :
    ∃ f, w.run id = { w with threads := f } ∧ (∀ id, (f id).thread = (f id).running) ∧
      (∀ id, (f id).onThreadComplete = (w.threads id).onThreadComplete) ∧
      (∀ id', id' ≠ id → f id' = w.threads id') ∧ (f id).running = true ∧
      ((w.threads id).running = false → (f id).term = false) := by
  unfold run
  split_ifs with ht
  · refine ⟨w.threads, rfl, h.thread, fun _ => rfl, fun _ _ => rfl, (h.thread id) ▸ ht, ?_⟩
    intro hr
    rw [h.thread, hr] at ht
    nomatch ht
  · refine ⟨_, rfl, fun id' => ?_, fun id' => ?_, fun id' hne => Function.update_of_ne hne _ _,
      ?_, fun _ => ?_⟩
    · by_cases hid : id' = id
      · rw [hid, Function.update_self]
      · rw [Function.update_of_ne hid, h.thread]
    · by_cases hid : id' = id
      · rw [hid, Function.update_self]
      · rw [Function.update_of_ne hid]
    · rw [Function.update_self]
    · rw [Function.update_self]

/-- `DoChange` up to its `Invoke`. -/
theorem exists_doChange (h : w.Settled) :
    ∃ f, w.doChange = { w with
        threads := f
        injectMethod := w.toInjectMethod
        log.completed := w.changing :: w.log.completed : World }.invokeAction ∧
      (∀ id, (f id).thread = (f id).running) ∧
      (∀ id, (f id).onThreadComplete = (w.threads id).onThreadComplete) ∧
      f .pipe = w.threads .pipe := by
  unfold doChange
  split_ifs
  · obtain ⟨f, hrun, hthread, hhandlers, hother, -⟩ := exists_run h .search
    refine ⟨f, ?_, hthread, hhandlers, hother .pipe (by decide)⟩
    rw [hrun]
  · exact ⟨w.threads, rfl, h.thread, fun _ => rfl, rfl⟩

/-! ## Handlers of `onActionComplete` -/

theorem invokeAction_nil (h : w.onActionComplete = []) : w.invokeAction = w := by
  rw [invokeAction, h]
  rfl

theorem invokeAction_start
    (h : w.onActionComplete = [.updateInjectMethodComplete n, .startChangeComplete]) :
    w.invokeAction =
      { w.record n with onActionComplete := [], locked := false, state := .started } := by
  rw [invokeAction, h]
  simp only [List.foldl_cons, List.foldl_nil, runAction, removeAction, record, h]
  rfl

theorem invokeAction_update (h : w.onActionComplete = [.updateInjectMethodComplete n]) :
    w.invokeAction = { w.record n with onActionComplete := [], locked := false } := by
  rw [invokeAction, h]
  simp only [List.foldl_cons, List.foldl_nil, runAction, removeAction, record, h]
  rfl

/-- The handlers that wait for the end of a session. -/
def IsEnd (h : ActionHandler) (n : ℕ) : Prop :=
  h = .onLogoutComplete2 n ∨ h = .onDisconnectComplete n

/-- What the two have in common: the dialog cannot be used afterwards. -/
theorem invokeAction_end {h : ActionHandler} (hend : IsEnd h n) (hw : w.onActionComplete = [h]) :
    ∃ b e, w.invokeAction = { w with
      onActionComplete := []
      enabled := false
      locked := b
      loginShown := e
      log.runs := (w.record n).log.runs
      log.raised := w.log.raised ++ [(w.sessions, w.finished)] } := by
  rw [invokeAction, hw]
  rcases hend with rfl | rfl
  · refine ⟨w.locked, decide (w.event = .logout), ?_⟩
    simp only [List.foldl_cons, List.foldl_nil, runAction, removeAction, record, hw]
    rfl
  · refine ⟨false, true, ?_⟩
    simp only [List.foldl_cons, List.foldl_nil, runAction, removeAction, record, hw]
    rfl

theorem record_of_mem (h : n ∈ w.log.completed) :
    w.record n = { w with log.runs := w.log.runs ++ [(n, true)] } := by
  rw [record, decide_eq_true h]

/-! ## Phases -/

/-- Nobody is logged in. -/
structure Out (w : World) : Prop extends w.Settled where
  actions : w.onActionComplete = []
  loggedIn : w.loggedIn = false
  logoutRuns : w.logoutRuns = false
  enabled : w.enabled = false
  running : ∀ id, w.isRunning id = false
  registered : w.registered = 0
  copies : w.copies = 0
  stopping : w.invocations ≠ [] → w.stopping < w.commands
  ledger : w.log.Ledger w.commands w.sessions w.sessions

/-- The module is started, and no command is under way. -/
structure Idle (w : World) (s : ℕ) : Prop extends w.Settled where
  sessions : w.sessions = s + 1
  state : w.state = .started
  actions : w.onActionComplete = []
  loginShown : w.loginShown = false
  loggedIn : w.loggedIn = true
  locked : w.logoutRuns = true → w.locked = true
  pipeRuns : w.isRunning .pipe = true
  pipeTerm : (w.threads .pipe).term = false
  registered : w.registered = 0
  copies : w.copies = 0
  ledger : w.log.Ledger w.commands s s

/-- The command `n`, a `Change`, waits for the search thread to end or for its handler to run. -/
structure Changing (w : World) (n s : ℕ) : Prop extends w.Settled where
  sessions : w.sessions = s + 1
  commands : w.commands = n + 1
  changing : w.changing = n
  state : w.state = .started
  actions : w.onActionComplete = [.updateInjectMethodComplete n]
  loginShown : w.loginShown = false
  loggedIn : w.loggedIn = true
  logoutRuns : w.logoutRuns = false
  locked : w.locked = true
  pipeRuns : w.isRunning .pipe = true
  pipeTerm : (w.threads .pipe).term = false
  search : w.isRunning .search = true ∧ (w.threads .search).term = true ∧ w.registered = 1 ∧
      w.copies = 0 ∨
    w.isRunning .search = false ∧ w.registered ≤ 1 ∧ w.copies = 1
  ledger : w.log.Ledger n s s

/-- The command `n`, a `Stop`, waits for the threads to end or for one of its handlers to run. -/
structure Ending (w : World) (n s : ℕ) : Prop extends w.Settled where
  sessions : w.sessions = s + 1
  commands : w.commands = n + 1
  stopping : w.stopping = n
  actions : ∃ h, IsEnd h n ∧ w.onActionComplete = [h]
  loginShown : w.loginShown = false
  loggedIn : w.loggedIn = false
  logoutRuns : w.logoutRuns = false
  locked : w.locked = true
  handlers : ∀ id, w.isRunning id = true → (w.threads id).term = true ∧
    .onThreadEndForModuleCleanup ∈ (w.threads id).onThreadComplete
  waits : (∃ id, w.isRunning id = true) ∨
    ∃ q ∈ w.invocations, .onThreadEndForModuleCleanup ∈ q.2
  registered : w.registered = 0
  copies : w.copies = 0
  ledger : w.log.Ledger n (s + 1) s

/-- The sessions are in one of the phases. -/
def Inv (w : World) : Prop :=
  w.Out ∨ (∃ s, w.Idle s) ∨ (∃ n s, w.Changing n s) ∨ ∃ n s, w.Ending n s

theorem Out.sessionsOk (h : w.Out) : w.SessionsOk :=
  sessionsOk_of_ledger h.ledger le_rfl fun _ => ⟨rfl, rfl⟩

theorem Idle.sessionsOk (h : w.Idle s) : w.SessionsOk :=
  sessionsOk_of_ledger h.ledger le_rfl fun _ => ⟨rfl, rfl⟩

/-- At rest there is no invocation that could go on. -/
theorem AtRest.notMem (hrest : w.AtRest) {q : WorkerId × List CompleteHandler}
    (hq : q ∈ w.invocations) (h : CompleteHandler) : h ∉ q.2 := by
  rw [hrest.2 q hq]
  exact List.not_mem_nil

theorem Changing.not_atRest (h : w.Changing n s) : ¬w.AtRest := by
  intro hrest
  rcases h.search with ⟨hrun, hterm, -⟩ | ⟨-, -, hcopies⟩
  · rw [hrest.1 _ hrun] at hterm
    nomatch hterm
  · obtain ⟨q, hq, hmem⟩ := copied_iff.mpr (hcopies ▸ Nat.one_pos)
    exact hrest.notMem hq _ hmem

theorem Ending.not_atRest (h : w.Ending n s) : ¬w.AtRest := by
  intro hrest
  rcases h.waits with ⟨id, hrun⟩ | ⟨q, hq, hmem⟩
  · have hterm := (h.handlers id hrun).1
    rw [hrest.1 id hrun] at hterm
    nomatch hterm
  · exact hrest.notMem hq _ hmem

theorem Inv.sessionsOk (h : w.Inv) : w.SessionsOk := by
  rcases h with h | ⟨s, h⟩ | ⟨n, s, h⟩ | ⟨n, s, h⟩
  · exact h.sessionsOk
  · exact h.sessionsOk
  · exact sessionsOk_of_ledger h.ledger le_rfl fun hrest => absurd hrest h.not_atRest
  · exact sessionsOk_of_ledger h.ledger (Nat.le_succ s) fun hrest => absurd hrest h.not_atRest

theorem inv_init (profile : ℤ) (admin : Bool) : (init profile admin).Inv :=
  .inl {
    thread := fun _ => rfl
    pipe := List.not_mem_nil
    invocations := nofun
    actions := rfl
    loggedIn := rfl
    logoutRuns := rfl
    enabled := rfl
    running := fun _ => rfl
    registered := rfl
    copies := rfl
    stopping := fun h => absurd rfl h
    ledger := ⟨nofun, rfl, rfl, rfl, rfl⟩ }

/-! ## Changes -/

/-- The command `n`, `Start` or a `Change`, is under way and does not wait for the search thread. -/
structure Issued (w : World) (n s : ℕ) : Prop extends w.Settled where
  sessions : w.sessions = s + 1
  commands : w.commands = n + 1
  actions : w.onActionComplete = [.updateInjectMethodComplete n] ∧ w.state = .started ∨
    w.onActionComplete = [.updateInjectMethodComplete n, .startChangeComplete]
  loginShown : w.loginShown = false
  loggedIn : w.loggedIn = true
  logoutRuns : w.logoutRuns = false
  pipeRuns : w.isRunning .pipe = true
  pipeTerm : (w.threads .pipe).term = false
  registered : w.registered = 0
  copies : w.copies = 0
  ledger : w.log.Ledger n s s

theorem invokeAction_issued
    (h : w.onActionComplete = [.updateInjectMethodComplete n] ∧ w.state = .started ∨
      w.onActionComplete = [.updateInjectMethodComplete n, .startChangeComplete])
    (hn : n ∈ w.log.completed) :
    w.invokeAction = { w with
      log.runs := w.log.runs ++ [(n, true)]
      onActionComplete := []
      locked := false
      state := .started } := by
  rcases h with ⟨hactions, hstate⟩ | hactions
  · rw [invokeAction_update hactions, record_of_mem hn, ← hstate]
  · rw [invokeAction_start hactions, record_of_mem hn]

/-- `DoChange` completes the command. -/
theorem Issued.doChange (h : w.Issued n s) (hc : w.changing = n) : w.doChange.Idle s := by
  obtain ⟨f, hf, hthread, hhandlers, hpipe⟩ := exists_doChange h.toSettled
  have hissued : Issued { w with threads := f } n s := { h with
    thread := hthread
    pipe := by rw [hhandlers]; exact h.pipe
    pipeRuns := (congrArg (·.running) hpipe).trans h.pipeRuns
    pipeTerm := (congrArg (·.term) hpipe).trans h.pipeTerm
    registered := (congrArg (List.count _) (hhandlers .search)).trans h.registered
    ledger := h.ledger }
  rw [hf, invokeAction_issued (w := { w with
    threads := f
    injectMethod := w.toInjectMethod
    log.completed := w.changing :: w.log.completed }) (n := n) h.actions
      (hc ▸ List.mem_cons_self)]
  exact { hissued with
    state := rfl
    actions := rfl
    locked := fun hl => absurd (hl.symm.trans h.logoutRuns) (by decide)
    ledger := by
      show Ledger _ w.commands s s
      rw [h.commands, hc]
      exact h.ledger.run h.ledger.complete }

theorem change_of_running (m : InjectMethodEnum) (h : w.isRunning .search = true) :
    w.change n m = { w.signal .search .onThreadEndForCleanup with
      profile := if m = InjectMethodEnum.auto then 0 else 1
      toInjectMethod := m
      changing := n } := if_pos h

theorem change_of_not_running (m : InjectMethodEnum) (h : w.isRunning .search = false) :
    w.change n m = { w with
      profile := if m = InjectMethodEnum.auto then 0 else 1
      toInjectMethod := m
      changing := n : World }.doChange := if_neg (Bool.eq_false_iff.mp h)

/-- `Change` when the search thread does not run. -/
theorem Issued.change (h : w.Issued n s) (m : InjectMethodEnum)
    (hsearch : w.isRunning .search = false) : (w.change n m).Idle s := by
  rw [change_of_not_running m hsearch]
  exact Issued.doChange { h with ledger := h.ledger } rfl

theorem signal_threads (w : World) (id id' : WorkerId) (h : CompleteHandler) :
    (w.signal id h).threads id' =
      if id' = id then ⟨(w.threads id).addHandler h, true⟩ else w.threads id' :=
  Function.update_apply w.threads id _ id'

/-- `Change` when it does. -/
theorem Issued.change_wait (h : w.Issued n s) (m : InjectMethodEnum)
    (hsearch : w.isRunning .search = true) (hlocked : w.locked = true)
    (hactions : w.onActionComplete = [.updateInjectMethodComplete n])
    (hstate : w.state = .started) : (w.change n m).Changing n s := by
  rw [change_of_running m hsearch]
  have hpipe : (w.signal .search .onThreadEndForCleanup).threads .pipe = w.threads .pipe := by
    rw [signal_threads, if_neg (by decide)]
  have hthread := signal_threads w .search .search .onThreadEndForCleanup
  rw [if_pos rfl] at hthread
  exact {
    thread := fun id => by
      cases id with
      | search => exact (congrArg (·.thread) hthread).trans ((h.thread .search).trans
          (congrArg (·.running) hthread).symm)
      | pipe => exact (congrArg (·.thread) hpipe).trans ((h.thread .pipe).trans
          (congrArg (·.running) hpipe).symm)
    pipe := fun hmem => h.pipe (by rwa [hpipe] at hmem)
    invocations := h.invocations
    sessions := h.sessions
    commands := h.commands
    changing := rfl
    state := hstate
    actions := hactions
    loginShown := h.loginShown
    loggedIn := h.loggedIn
    logoutRuns := h.logoutRuns
    locked := hlocked
    pipeRuns := (congrArg (·.running) hpipe).trans h.pipeRuns
    pipeTerm := (congrArg (·.term) hpipe).trans h.pipeTerm
    search := by
      refine .inl ⟨(congrArg (·.running) hthread).trans hsearch, congrArg (·.term) hthread, ?_,
        h.copies⟩
      refine (congrArg (fun t => List.count _ t.onThreadComplete) hthread).trans ?_
      have hcount : (w.threads .search).onThreadComplete.count .onThreadEndForCleanup = 0 :=
        h.registered
      rw [WorkerThread.addHandler, Delegate.add, List.count_append, hcount]
      rfl
    ledger := h.ledger }

/-- A login starts the module. -/
theorem Out.mainDialog (h : w.Out) : w.mainDialog.Idle w.sessions := by
  obtain ⟨f, hf, hthread, hhandlers, hother, hrun, hterm⟩ := exists_run (w := { w with
    loggedIn := true
    loginShown := false
    enabled := true
    locked := true
    sessions := w.sessions + 1
    commands := w.commands + 1
    onActionComplete := w.onActionComplete.add (.updateInjectMethodComplete w.commands)
    state := .starting }) ⟨h.thread, h.pipe, h.invocations⟩ .pipe
  have hsearch : f .search = w.threads .search := hother .search (by decide)
  rw [World.mainDialog, start, hf]
  refine Issued.change ?_ _ ((congrArg (·.running) hsearch).trans (h.running .search))
  exact {
    thread := hthread
    pipe := by rw [hhandlers]; exact h.pipe
    invocations := h.invocations
    sessions := rfl
    commands := rfl
    actions := .inr (by rw [h.actions]; rfl)
    loginShown := rfl
    loggedIn := rfl
    logoutRuns := h.logoutRuns
    pipeRuns := hrun
    pipeTerm := hterm (h.running .pipe)
    registered := (congrArg (List.count _) (hhandlers .search)).trans h.registered
    copies := h.copies
    ledger := h.ledger }

theorem Idle.updateInjectMethod (h : w.Idle s) (m : InjectMethodEnum)
    (hlocked : w.locked = false) :
    (w.updateInjectMethod m).Idle s ∨ ∃ n, (w.updateInjectMethod m).Changing n s := by
  unfold World.updateInjectMethod
  split_ifs with hm
  · exact .inl h
  have hlogout : w.logoutRuns = false :=
    eq_false_of_ne_true fun hl => absurd ((h.locked hl).symm.trans hlocked) (by decide)
  have hactions : w.onActionComplete.add (.updateInjectMethodComplete w.commands) =
      [.updateInjectMethodComplete w.commands] := by rw [h.actions]; rfl
  have hissued : Issued { w with
      locked := true
      commands := w.commands + 1
      onActionComplete := w.onActionComplete.add (.updateInjectMethodComplete w.commands) }
      w.commands s := { h with
    commands := rfl
    actions := .inl ⟨hactions, h.state⟩
    logoutRuns := hlogout }
  cases hrun : w.isRunning .search with
  | true => exact .inr ⟨w.commands, hissued.change_wait m hrun rfl hactions h.state⟩
  | false => exact .inl (hissued.change m hrun)

theorem Idle.logout (h : w.Idle s) (e : EventEnum) : (w.logout e).Idle s :=
  { h with
    locked := fun _ => rfl
    ledger := h.ledger }

/-! ## The end of a session -/

/-- A thread after `Stop` has seen to it. -/
def told (t : ModuleThread) : ModuleThread :=
  if t.running then ⟨t.addHandler .onThreadEndForModuleCleanup, true⟩ else t

theorem stopThread_eq (w : World) (id : WorkerId) :
    w.stopThread id = w.setThread id (told (w.threads id)) := by
  unfold stopThread told signal
  cases hrun : (w.threads id).running with
  | true => rw [isRunning, hrun, if_pos rfl, if_pos rfl]
  | false =>
    rw [isRunning, hrun, if_neg Bool.false_ne_true, if_neg Bool.false_ne_true, setThread,
      Function.update_eq_self]

theorem stopThreads_eq (w : World) :
    (w.stopThread .search).stopThread .pipe =
      { w with threads := fun id => told (w.threads id) } := by
  have hthreads : ((w.setThread .search (told (w.threads .search))).setThread .pipe
      (told (w.threads .pipe))).threads = fun id => told (w.threads id) := by
    funext id
    cases id <;> rfl
  rw [stopThread_eq, stopThread_eq]
  exact congrArg (fun f => { w with threads := f : World }) hthreads

theorem told_thread {t : ModuleThread} (h : t.thread = t.running) :
    (told t).thread = (told t).running := by
  unfold told
  split_ifs <;> exact h

theorem told_running (t : ModuleThread) : (told t).running = t.running := by
  unfold told
  split_ifs <;> rfl

theorem count_told (t : ModuleThread) :
    (told t).onThreadComplete.count .onThreadEndForCleanup =
      t.onThreadComplete.count .onThreadEndForCleanup := by
  unfold told
  split_ifs
  · exact List.count_append.trans (Nat.add_zero _)
  · rfl

theorem told_of_running {t : ModuleThread} (h : t.running = true) :
    (told t).term = true ∧ .onThreadEndForModuleCleanup ∈ (told t).onThreadComplete := by
  rw [told, if_pos h]
  exact ⟨rfl, List.mem_append_right _ (List.mem_singleton_self _)⟩

/-- `Stop` waits for the pipe thread at least. -/
theorem Idle.endSession (h : w.Idle s) {hd : ℕ → ActionHandler} (hend : ∀ n, IsEnd (hd n) n)
    (hlocked : w.locked = true) : (w.endSession hd).Ending w.commands s := by
  rw [World.endSession, stop, stopThreads_eq]
  have hwait : (w.isRunning .search || w.isRunning .pipe) = true := by
    rw [h.pipeRuns, Bool.or_true]
  refine (congrArg (fun w' : World => w'.Ending w.commands s) (if_pos hwait)).mpr ?_
  exact {
    thread := fun id => told_thread (h.thread id)
    pipe := by
      refine List.count_eq_zero.mp ((count_told _).trans ?_)
      exact List.count_eq_zero.mpr h.pipe
    invocations := h.invocations
    sessions := h.sessions
    commands := rfl
    stopping := rfl
    actions := ⟨hd w.commands, hend _, by rw [h.actions]; rfl⟩
    loginShown := h.loginShown
    loggedIn := rfl
    logoutRuns := rfl
    locked := hlocked
    handlers := fun id hrun => told_of_running ((told_running _).symm.trans hrun)
    waits := .inl ⟨.pipe, (told_running _).trans h.pipeRuns⟩
    registered := (count_told _).trans h.registered
    copies := h.copies
    ledger := by
      refine ⟨h.ledger.completed, h.ledger.runs, ?_, ?_, h.ledger.raised⟩
      · rw [range_succ_map, ← h.ledger.stops, h.sessions, h.state]
      · rw [range_succ_map, ← h.ledger.ended, h.sessions] }

/-! ## The end of a thread -/

theorem finish_threads (w : World) (id id' : WorkerId) :
    (w.finish id).threads id' =
      if id' = id then ⟨⟨false, false, (w.threads id).onThreadComplete⟩, (w.threads id).term⟩
      else w.threads id' :=
  Function.update_apply w.threads id _ id'

theorem finish_onThreadComplete (w : World) (id id' : WorkerId) :
    ((w.finish id).threads id').onThreadComplete = (w.threads id').onThreadComplete := by
  rw [finish_threads]
  split_ifs with h
  · rw [h]
  · rfl

theorem Settled.finish (h : w.Settled) (id : WorkerId) : (w.finish id).Settled where
  thread id' := by
    rw [finish_threads]
    split_ifs
    · rfl
    · exact h.thread id'
  pipe := by
    rw [finish_onThreadComplete]
    exact h.pipe
  invocations q hq hpipe := by
    rcases List.mem_append.mp hq with hq | hq
    · exact h.invocations q hq hpipe
    · obtain rfl := List.mem_singleton.mp hq
      obtain rfl : id = .pipe := hpipe
      exact h.pipe

theorem finish_registered (w : World) (id : WorkerId) :
    (w.finish id).registered = w.registered :=
  congrArg (List.count _) (finish_onThreadComplete w id .search)

/-- Only the search thread has handlers of changes. -/
theorem Settled.finish_copies (h : w.Settled) (id : WorkerId) :
    (w.finish id).copies = w.copies + if id = .search then w.registered else 0 := by
  have happend : (w.finish id).copies =
      w.copies + (w.threads id).onThreadComplete.count .onThreadEndForCleanup := by
    simp only [copies, World.finish, List.map_append, List.map_cons, List.map_nil,
      List.sum_append, List.sum_cons, List.sum_nil, Nat.add_zero]
  rw [happend]
  cases id with
  | search => rfl
  | pipe => rw [List.count_eq_zero.mpr h.pipe, if_neg (by decide)]

/-- While the module is started, the pipe thread goes on. -/
theorem Idle.finish (h : w.Idle s) (id : WorkerId) (hterm : (w.threads id).term = true) :
    (w.finish id).Idle s := by
  have hid : .pipe ≠ id := fun heq =>
    absurd (h.pipeTerm.symm.trans ((congrArg (fun i => (w.threads i).term) heq).trans hterm))
      (by decide)
  have hpipe : (w.finish id).threads .pipe = w.threads .pipe :=
    (finish_threads w id .pipe).trans (if_neg hid)
  exact { h with
    toSettled := h.toSettled.finish id
    pipeRuns := (congrArg (·.running) hpipe).trans h.pipeRuns
    pipeTerm := (congrArg (·.term) hpipe).trans h.pipeTerm
    registered := (finish_registered w id).trans h.registered
    copies := by
      rw [h.finish_copies, h.copies, h.registered, ite_self]
    ledger := h.ledger }

/-- The search thread ends, and the handler of the change is copied. -/
theorem Changing.finish (h : w.Changing n s) (id : WorkerId) (hrun : w.isRunning id = true)
    (hterm : (w.threads id).term = true) : (w.finish id).Changing n s := by
  obtain rfl : id = .search := by
    cases id with
    | search => rfl
    | pipe => exact absurd (h.pipeTerm.symm.trans hterm) (by decide)
  have hpipe : (w.finish .search).threads .pipe = w.threads .pipe := rfl
  rcases h.search with ⟨-, -, hregistered, hcopies⟩ | ⟨hstopped, -⟩
  · exact { h with
      toSettled := h.toSettled.finish .search
      pipeRuns := (congrArg (·.running) hpipe).trans h.pipeRuns
      pipeTerm := (congrArg (·.term) hpipe).trans h.pipeTerm
      search := by
        refine .inr ⟨rfl, ((finish_registered w .search).trans hregistered).le, ?_⟩
        rw [h.finish_copies, hcopies, hregistered, if_pos rfl]
      ledger := h.ledger }
  · exact absurd (hstopped.symm.trans hrun) (by decide)

/-- A thread that `Stop` waits for ends, and the handler of `Stop` is copied. -/
theorem Ending.finish (h : w.Ending n s) (id : WorkerId) (hrun : w.isRunning id = true) :
    (w.finish id).Ending n s :=
  { h with
    toSettled := h.toSettled.finish id
    handlers := by
      intro id' hrun'
      rw [isRunning, finish_threads] at hrun'
      rw [finish_threads]
      split_ifs at hrun' ⊢ with hid
      exact h.handlers id' hrun'
    waits := .inr ⟨_, List.mem_append_right _ (List.mem_singleton_self _), (h.handlers id hrun).2⟩
    registered := (finish_registered w id).trans h.registered
    copies := by
      rw [h.finish_copies, h.copies, h.registered, ite_self]
    ledger := h.ledger }

/-! ## The run of a handler -/

theorem sum_set {α : Type*} (f : α → ℕ) {l : List α} {i : ℕ} {a : α} (b : α) (h : l[i]? = some a) :
    ((l.set i b).map f).sum + f a = (l.map f).sum + f b := by
  induction l generalizing i with
  | nil => nomatch h
  | cons c l ih =>
    cases i with
    | zero =>
      obtain rfl := Option.some.inj h
      simp only [List.set_cons_zero, List.map_cons, List.sum_cons]
      omega
    | succ i =>
      have := ih h
      simp only [List.set_cons_succ, List.map_cons, List.sum_cons]
      omega

/-- `w` with the first handler of an invocation taken out. -/
def pop (w : World) (i : ℕ) (id : WorkerId) (hs : List CompleteHandler) : World :=
  { w with invocations := w.invocations.set i (id, hs) }

variable {i : ℕ} {h : CompleteHandler} {hs : List CompleteHandler}

theorem pop_copies (hi : w.invocations[i]? = some (id, h :: hs)) :
    (w.pop i id hs).copies + (if h = .onThreadEndForCleanup then 1 else 0) = w.copies := by
  have hsum := sum_set (fun q => q.2.count .onThreadEndForCleanup) (id, hs) hi
  simp only [List.count_cons, beq_iff_eq] at hsum
  unfold copies pop
  dsimp only
  omega

theorem Settled.pop (hw : w.Settled) (hi : w.invocations[i]? = some (id, h :: hs)) :
    (w.pop i id hs).Settled where
  thread := hw.thread
  pipe := hw.pipe
  invocations q hq hpipe := by
    rcases List.mem_or_eq_of_mem_set hq with hq | rfl
    · exact hw.invocations q hq hpipe
    · exact fun hmem => hw.invocations _ (List.mem_of_getElem? hi) hpipe
        (List.mem_cons_of_mem _ hmem)

theorem removeCleanup_threads (w : World) (id id' : WorkerId) :
    (w.removeCleanup id).threads id' =
      if id' = id then
        ⟨(w.threads id).removeHandler .onThreadEndForCleanup, (w.threads id).term⟩
      else w.threads id' :=
  Function.update_apply w.threads id _ id'

theorem removeCleanup_running (w : World) (id id' : WorkerId) :
    (w.removeCleanup id).isRunning id' = w.isRunning id' := by
  rw [isRunning, removeCleanup_threads, isRunning]
  split_ifs with hid
  · rw [hid]
    rfl
  · rfl

theorem Settled.removeCleanup (hw : w.Settled) (id : WorkerId) : (w.removeCleanup id).Settled where
  thread id' := by
    rw [removeCleanup_threads]
    split_ifs
    · exact hw.thread id
    · exact hw.thread id'
  pipe := by
    rw [removeCleanup_threads]
    split_ifs with hid
    · exact fun hmem => hw.pipe (hid ▸ List.mem_of_mem_erase hmem)
    · exact hw.pipe
  invocations := hw.invocations

theorem removeCleanup_registered (w : World) (id : WorkerId) :
    (w.removeCleanup id).registered = w.registered - if id = .search then 1 else 0 := by
  rw [registered, removeCleanup_threads]
  cases id with
  | search =>
    rw [if_pos rfl, if_pos rfl, WorkerThread.removeHandler, Delegate.remove,
      List.count_erase_self]
    rfl
  | pipe => rfl

theorem pipe_of_removeCleanup (w : World) (id : WorkerId) :
    ((w.removeCleanup id).threads .pipe).term = (w.threads .pipe).term := by
  rw [removeCleanup_threads]
  split_ifs with hid
  · rw [hid]
  · rfl

/-- In these phases there is no handler of a change. -/
theorem handler_of_copies (hi : w.invocations[i]? = some (id, h :: hs)) (hc : w.copies = 0) :
    h = .onThreadEndForModuleCleanup ∧ (w.pop i id hs).copies = 0 := by
  have hpop := pop_copies hi
  cases h with
  | onThreadEndForModuleCleanup => exact ⟨rfl, by omega⟩
  | onThreadEndForCleanup =>
    rw [if_pos rfl] at hpop
    omega

theorem removeCleanup_finished (w : World) (id : WorkerId) :
    (w.removeCleanup id).finished = w.finished := by
  rw [finished, finished, removeCleanup_running, removeCleanup_running]

/-- A handler of `Stop` while a thread runs. -/
theorem handle_of_running (hrun : w.finished = false) :
    w.handle id .onThreadEndForModuleCleanup = w.removeCleanup id :=
  if_neg (by rw [removeCleanup_finished, hrun]; exact Bool.false_ne_true)

/-- A handler of `Stop` when both threads have finished. -/
theorem handle_of_finished (hrun : w.finished = true) :
    w.handle id .onThreadEndForModuleCleanup = (w.removeCleanup id).doStop :=
  if_pos (by rw [removeCleanup_finished, hrun])

theorem exists_running (h : w.finished = false) : ∃ id, w.isRunning id = true := by
  cases hsearch : w.isRunning .search with
  | true => exact ⟨.search, hsearch⟩
  | false =>
    rw [finished, hsearch, Bool.not_false, Bool.true_and, Bool.not_eq_false'] at h
    exact ⟨.pipe, h⟩

theorem running_of_finished (h : w.finished = true) (id : WorkerId) : w.isRunning id = false := by
  obtain ⟨hsearch, hpipe⟩ := Bool.and_eq_true_iff.mp h
  cases id with
  | search => simpa using hsearch
  | pipe => simpa using hpipe

theorem finished_of_pipe (hpipe : w.isRunning .pipe = true) : w.finished = false := by
  rw [finished, hpipe, Bool.not_true, Bool.and_false]

theorem registered_removeCleanup (hw : w.registered = 0) (id : WorkerId) :
    (w.removeCleanup id).registered = 0 := by
  rw [removeCleanup_registered, hw, Nat.zero_sub]

theorem doStop_of_nil (hw : w.onActionComplete = []) :
    w.doStop = { w with state := .inited, log.completed := w.stopping :: w.log.completed } :=
  invokeAction_nil (w := { w with
    state := .inited
    log.completed := w.stopping :: w.log.completed }) hw

theorem doStop_of_end {hd : ActionHandler} (hend : IsEnd hd n) (hw : w.onActionComplete = [hd])
    (hstopping : w.stopping = n) :
    ∃ b e, w.doStop = { w with
      state := .inited
      onActionComplete := []
      enabled := false
      locked := b
      loginShown := e
      log.completed := n :: w.log.completed
      log.runs := w.log.runs ++ [(n, true)]
      log.raised := w.log.raised ++ [(w.sessions, w.finished)] } := by
  obtain ⟨b, e, heq⟩ := invokeAction_end (w := { w with
    state := .inited
    log.completed := w.stopping :: w.log.completed }) hend hw
  refine ⟨b, e, heq.trans ?_⟩
  rw [record_of_mem (by rw [hstopping]; exact List.mem_cons_self), hstopping]
  rfl

/-- A handler that was left by an earlier `Stop` calls `DoStop` once more. -/
theorem Out.handle (hw : w.Out) (hi : w.invocations[i]? = some (id, h :: hs)) :
    ((w.pop i id hs).handle id h).Out := by
  obtain ⟨rfl, hc⟩ := handler_of_copies hi hw.copies
  have hfinished : (w.pop i id hs).finished = true := by
    rw [finished, show (w.pop i id hs).isRunning = w.isRunning from rfl, hw.running, hw.running]
    rfl
  rw [handle_of_finished hfinished,
    doStop_of_nil (w := (w.pop i id hs).removeCleanup id) hw.actions]
  have hsettled := (hw.toSettled.pop hi).removeCleanup id
  have hstopping := hw.stopping (List.ne_nil_of_mem (List.mem_of_getElem? hi))
  exact { hw with
    toSettled := ⟨hsettled.thread, hsettled.pipe, hsettled.invocations⟩
    running := fun id' => (removeCleanup_running _ id id').trans (hw.running id')
    registered := registered_removeCleanup (w := w.pop i id hs) hw.registered id
    copies := hc
    stopping := fun _ => hstopping
    ledger := { hw.ledger with
      completed := List.forall_mem_cons.mpr ⟨hstopping, hw.ledger.completed⟩ } }

/-- While the module is started, it does nothing. -/
theorem Idle.handle (hw : w.Idle s) (hi : w.invocations[i]? = some (id, h :: hs)) :
    ((w.pop i id hs).handle id h).Idle s := by
  obtain ⟨rfl, hc⟩ := handler_of_copies hi hw.copies
  rw [handle_of_running (finished_of_pipe (w := w.pop i id hs) hw.pipeRuns)]
  exact { hw with
    toSettled := (hw.toSettled.pop hi).removeCleanup id
    pipeRuns := (removeCleanup_running _ id .pipe).trans hw.pipeRuns
    pipeTerm := (pipe_of_removeCleanup _ id).trans hw.pipeTerm
    registered := registered_removeCleanup (w := w.pop i id hs) hw.registered id
    copies := hc }

/-- It may remove the handler of the change, but not before this has been copied. -/
theorem Changing.handle_module (hw : w.Changing n s)
    (hi : w.invocations[i]? = some (id, .onThreadEndForModuleCleanup :: hs))
    (horderly : id = .search → w.Registered → w.Copied) :
    ((w.pop i id hs).handle id .onThreadEndForModuleCleanup).Changing n s := by
  have hc : (w.pop i id hs).copies = w.copies := pop_copies hi
  rw [handle_of_running (finished_of_pipe (w := w.pop i id hs) hw.pipeRuns)]
  have hregistered := removeCleanup_registered (w.pop i id hs) id
  exact { hw with
    toSettled := (hw.toSettled.pop hi).removeCleanup id
    pipeRuns := (removeCleanup_running _ id .pipe).trans hw.pipeRuns
    pipeTerm := (pipe_of_removeCleanup _ id).trans hw.pipeTerm
    search := by
      rcases hw.search with ⟨hrun, hterm, hr, hcopies⟩ | ⟨hrun, hr, hcopies⟩
      · have hid : id ≠ .search := fun hid => by
          have hcopied := copied_iff.mp (horderly hid (registered_iff.mpr (hr ▸ Nat.one_pos)))
          omega
        refine .inl ⟨(removeCleanup_running _ id .search).trans hrun, ?_, ?_, hc.trans hcopies⟩
        · rw [removeCleanup_threads, if_neg hid.symm]
          exact hterm
        · rw [hregistered, if_neg hid]
          exact hr
      · refine .inr ⟨(removeCleanup_running _ id .search).trans hrun, ?_, hc.trans hcopies⟩
        rw [hregistered]
        exact (Nat.sub_le _ _).trans hr }

/-- The handler of the change. -/
theorem Changing.handle_change (hw : w.Changing n s)
    (hi : w.invocations[i]? = some (id, .onThreadEndForCleanup :: hs)) :
    ((w.pop i id hs).handle id .onThreadEndForCleanup).Idle s := by
  have hc : (w.pop i id hs).copies + 1 = w.copies := pop_copies hi
  obtain rfl : id = .search := by
    cases id with
    | search => rfl
    | pipe =>
      exact absurd List.mem_cons_self (hw.invocations _ (List.mem_of_getElem? hi) rfl)
  rcases hw.search with ⟨-, -, -, hcopies⟩ | ⟨hrun, hr, hcopies⟩
  · omega
  have hstopped : ((w.pop i .search hs).removeCleanup .search).isRunning .search = false :=
    (removeCleanup_running _ _ _).trans hrun
  have hdo : (w.pop i .search hs).handle .search .onThreadEndForCleanup =
      ((w.pop i .search hs).removeCleanup .search).doChange :=
    if_neg (Bool.eq_false_iff.mp hstopped)
  rw [hdo]
  refine Issued.doChange { hw with
    toSettled := (hw.toSettled.pop hi).removeCleanup .search
    actions := .inl ⟨hw.actions, hw.state⟩
    registered := ?_
    copies := ?_ } hw.changing
  · rw [removeCleanup_registered, if_pos rfl]
    exact Nat.sub_eq_zero_of_le hr
  · exact Nat.succ.inj (hc.trans hcopies)

/-- The last handler of the `Stop` completes it. -/
theorem Ending.handle (hw : w.Ending n s) (hi : w.invocations[i]? = some (id, h :: hs)) :
    ((w.pop i id hs).handle id h).Out ∨ ((w.pop i id hs).handle id h).Ending n s := by
  obtain ⟨rfl, hc⟩ := handler_of_copies hi hw.copies
  have hsettled := (hw.toSettled.pop hi).removeCleanup id
  have hregistered := registered_removeCleanup (w := w.pop i id hs) hw.registered id
  cases hfinished : (w.pop i id hs).finished with
  | true =>
    left
    obtain ⟨hd, hend, hactions⟩ := hw.actions
    obtain ⟨b, e, hstop⟩ := doStop_of_end (w := (w.pop i id hs).removeCleanup id) hend hactions
      hw.stopping
    rw [handle_of_finished hfinished, hstop]
    exact {
      toSettled := ⟨hsettled.thread, hsettled.pipe, hsettled.invocations⟩
      actions := rfl
      loggedIn := hw.loggedIn
      logoutRuns := hw.logoutRuns
      enabled := rfl
      running := fun id' =>
        (removeCleanup_running _ id id').trans (running_of_finished hfinished id')
      registered := hregistered
      copies := hc
      stopping := fun _ => by
        show w.stopping < w.commands
        rw [hw.stopping, hw.commands]
        exact Nat.lt_succ_self n
      ledger := by
        show Ledger _ w.commands w.sessions w.sessions
        rw [hw.commands, hw.sessions]
        refine { hw.ledger.run hw.ledger.complete with raised := ?_ }
        show w.log.raised ++ [(w.sessions, ((w.pop i id hs).removeCleanup id).finished)] = _
        rw [removeCleanup_finished, hfinished, hw.ledger.raised, hw.sessions, range_succ_map] }
  | false =>
    right
    rw [handle_of_running hfinished]
    exact { hw with
      toSettled := hsettled
      handlers := by
        intro id' hrun
        obtain ⟨hterm, hmem⟩ := hw.handlers id' ((removeCleanup_running _ id id').symm.trans hrun)
        rw [removeCleanup_threads]
        split_ifs with hid
        · subst hid
          exact ⟨hterm, (List.mem_erase_of_ne (by decide)).mpr hmem⟩
        · exact ⟨hterm, hmem⟩
      waits := by
        obtain ⟨id', hrun⟩ := exists_running hfinished
        exact .inl ⟨id', (removeCleanup_running _ id id').trans hrun⟩
      registered := hregistered
      copies := hc
      ledger := hw.ledger }

/-! ## Runs -/

/-- The step runs the next handler of an invocation, if there is one. -/
theorem step_handle_cases (w : World) (i : ℕ) :
    w.step (.handle i) = w ∨ ∃ id h hs, w.invocations[i]? = some (id, h :: hs) ∧
      w.step (.handle i) = (w.pop i id hs).handle id h := by
  rw [step]
  split
  · next id h hs hi => exact .inr ⟨id, h, hs, hi, rfl⟩
  · exact .inl rfl

theorem Inv.handle (hw : w.Inv) (i : ℕ) (horderly : w.Orderly (.handle i)) :
    (w.step (.handle i)).Inv := by
  rcases step_handle_cases w i with heq | ⟨id, h, hs, hi, heq⟩
  · rwa [heq]
  rw [heq]
  rcases hw with hw | ⟨s, hw⟩ | ⟨n, s, hw⟩ | ⟨n, s, hw⟩
  · exact .inl (hw.handle hi)
  · exact .inr (.inl ⟨s, hw.handle hi⟩)
  · cases h with
    | onThreadEndForCleanup => exact .inr (.inl ⟨s, hw.handle_change hi⟩)
    | onThreadEndForModuleCleanup =>
      refine .inr (.inr (.inl ⟨n, s, hw.handle_module hi fun hid => ?_⟩))
      obtain rfl := hid
      exact horderly (by rw [removesCleanup, hi])
  · rcases hw.handle hi with hout | hending
    · exact .inl hout
    · exact .inr (.inr (.inr ⟨n, s, hending⟩))

theorem usable_iff : w.usable = true ↔ w.enabled = true ∧ w.locked = false := by
  rw [usable, Bool.and_eq_true, Bool.not_eq_true']

/-- The dialog can be used in one phase only. -/
theorem Inv.of_usable (hw : w.Inv) (husable : w.usable = true) : ∃ s, w.Idle s := by
  obtain ⟨henabled, hlocked⟩ := usable_iff.mp husable
  rcases hw with hw | hw | ⟨n, s, hw⟩ | ⟨n, s, hw⟩
  · exact absurd (hw.enabled.symm.trans henabled) (by decide)
  · exact hw
  · exact absurd (hw.locked.symm.trans hlocked) (by decide)
  · exact absurd (hw.locked.symm.trans hlocked) (by decide)

theorem Inv.login (hw : w.Inv) (hshown : w.loginShown = true) : w.mainDialog.Inv := by
  rcases hw with hw | ⟨s, hw⟩ | ⟨n, s, hw⟩ | ⟨n, s, hw⟩
  · exact .inr (.inl ⟨w.sessions, hw.mainDialog⟩)
  all_goals exact absurd (hw.loginShown.symm.trans hshown) (by decide)

/-- A logout that is complete was asked for with no change under way. -/
theorem Inv.logoutComplete (hw : w.Inv) (hlogout : w.logoutRuns = true) :
    w.onLogoutComplete.Inv := by
  rcases hw with hw | ⟨s, hw⟩ | ⟨n, s, hw⟩ | ⟨n, s, hw⟩
  · exact absurd (hw.logoutRuns.symm.trans hlogout) (by decide)
  · exact .inr (.inr (.inr ⟨w.commands, s, hw.endSession (fun _ => .inl rfl) (hw.locked hlogout)⟩))
  all_goals exact absurd (hw.logoutRuns.symm.trans hlogout) (by decide)

theorem Inv.disconnect (hw : w.Inv) (hlogged : w.loggedIn = true)
    (hchange : ¬w.Registered ∧ ¬w.Copied) : w.onDisconnect.Inv := by
  rcases hw with hw | ⟨s, hw⟩ | ⟨n, s, hw⟩ | ⟨n, s, hw⟩
  · exact absurd (hw.loggedIn.symm.trans hlogged) (by decide)
  · have hidle : Idle { w with locked := true } s := { hw with
      locked := fun _ => rfl
      ledger := hw.ledger }
    exact .inr (.inr (.inr ⟨w.commands, s, hidle.endSession (fun _ => .inr rfl) rfl⟩))
  · rw [registered_iff, copied_iff] at hchange
    rcases hw.search with ⟨-, -, hr, -⟩ | ⟨-, -, hc⟩
    · exact absurd (hr ▸ Nat.one_pos) hchange.1
    · exact absurd (hc ▸ Nat.one_pos) hchange.2
  · exact absurd (hw.loggedIn.symm.trans hlogged) (by decide)

theorem Inv.finish (hw : w.Inv) (hrun : w.isRunning id = true)
    (hterm : (w.threads id).term = true) : (w.finish id).Inv := by
  rcases hw with hw | ⟨s, hw⟩ | ⟨n, s, hw⟩ | ⟨n, s, hw⟩
  · exact absurd ((hw.running id).symm.trans hrun) (by decide)
  · exact .inr (.inl ⟨s, hw.finish id hterm⟩)
  · exact .inr (.inr (.inl ⟨n, s, hw.finish id hrun hterm⟩))
  · exact .inr (.inr (.inr ⟨n, s, hw.finish id hrun⟩))

/-- Every orderly step leads from one phase to the next, or stays in it. -/
theorem Inv.step (hw : w.Inv) (t : Step) (horderly : w.Orderly t) : (w.step t).Inv := by
  cases t with
  | login =>
    rw [World.step]
    split_ifs with hguard
    · exact hw.login (Bool.and_eq_true_iff.mp hguard).1
    · exact hw
  | change m =>
    rw [World.step]
    split_ifs with hguard
    · have husable := (Bool.and_eq_true_iff.mp hguard).1
      obtain ⟨s, hidle⟩ := hw.of_usable husable
      rcases hidle.updateInjectMethod m (usable_iff.mp husable).2 with h | ⟨n, h⟩
      · exact .inr (.inl ⟨s, h⟩)
      · exact .inr (.inr (.inl ⟨n, s, h⟩))
    · exact hw
  | logout e =>
    rw [World.step]
    split_ifs with hguard
    · obtain ⟨s, hidle⟩ := hw.of_usable hguard
      exact .inr (.inl ⟨s, hidle.logout e⟩)
    · exact hw
  | logoutComplete =>
    rw [World.step]
    split_ifs with hguard
    · exact hw.logoutComplete hguard
    · exact hw
  | disconnect =>
    rw [World.step]
    split_ifs with hguard
    · rw [Bool.and_eq_true, Bool.not_eq_true'] at hguard
      exact hw.disconnect hguard.1 (horderly hguard.1 hguard.2)
    · exact hw
  | finish id =>
    rw [World.step]
    split_ifs with hguard
    · obtain ⟨hrun, hterm⟩ := Bool.and_eq_true_iff.mp hguard
      exact hw.finish hrun hterm
    · exact hw
  | handle i => exact hw.handle i horderly

variable {profile : ℤ} {admin : Bool} {ts : List Step}

/-- Every session comes to its end in a run of orderly steps. -/
theorem sessionsOk_of_orderly
    (horderly : Session.Steps step (init profile admin) ts Orderly) :
    Session.Always step (init profile admin) ts SessionsOk :=
  (Session.Always.of_steps (fun _ t _ hw horderly => hw.step t horderly) (inv_init profile admin)
    horderly).mono fun _ => Inv.sessionsOk

/-- A session with a change, then one that ends with a disconnect. The last handler of the first
session runs in the second one. -/
theorem sessionsOk_two_sessions :
    Session.Always step (init 0 true)
      [.login, .change .passive, .finish .search, .handle 0, .change .auto, .logout .logout,
        .logoutComplete, .finish .search, .finish .pipe, .handle 2, .login, .handle 1, .disconnect,
        .finish .pipe, .finish .search, .handle 3] SessionsOk :=
  sessionsOk_of_orderly (by decide)

/-- A disconnect while the change waits for the search thread: `onEvent` is raised while the pipe
thread still runs. -/
theorem not_sessionsOk_disconnect : ¬∀ (profile : ℤ) (admin : Bool) (ts : List Step),
    Session.Always step (init profile admin) ts SessionsOk := by
  intro h
  have hlast := (h 0 true
    [.login, .change .passive, .disconnect, .finish .search, .handle 0]).last
  exact absurd (hlast.raiseFinished (1, false) (by decide)) (by decide)

end World

end DreamDota.Loggedin
