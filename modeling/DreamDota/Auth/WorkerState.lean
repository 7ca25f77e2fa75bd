import DreamDota.Lib.Threads

/-!
# The state of a worker thread

`WorkerThread::Run`, which the controller and the completion handlers call, against `ThreadProc`.
`Run` tests `thread_` and then sets both fields; a thread that ends clears them one after the other.
`stateOk_settled`: `Running()` is right, and one thread works at a time, as long as nothing has
changed between the test of a `Run` and what it sets.

1. `Worker`, `Point`, `exec`: the threads.
2. `StateOk`, `Settled`: the property, and the condition.
3. `Busy`, `Inv`: at most one thread is on its way between `running_ = true` and
   `running_ = false`. `Inv.exec` is the step.
-/

namespace DreamDota

open Threads

namespace WorkerState

/-- `thread` is the handle in `thread_`. The threads have the numbers in which they were created, and
`suspended` are those that have not been resumed. -/
structure Worker where
  thread : Option ℕ
  running : Bool
  created : ℕ
  suspended : List ℕ
  completions : ℕ
  deriving DecidableEq

/-- The constructor. -/
def Worker.new : Worker := ⟨none, false, 0, [], 0⟩

/-- The places between two accesses. Each is named after the access that follows it. -/
inductive Point
  -- `Run`
  | run
  | markRunning
  | startThread
  | resumeThread
  -- `ThreadProc`
  | beginThread
  | work
  | clearThread
  | clearRunning
  | invokeComplete
  | closeHandle
  deriving DecidableEq

/-- `calls k` is how often the handlers of the `k`-th completion call `Run`. A thread is inside of
`Work` as long as it is at `work`. -/
def exec (calls : ℕ → ℕ) : Point → Worker → Option (Effect Worker Point)
  | .run, w => some (.goto w (if w.thread.isSome then [] else [.markRunning]))
  | .markRunning, w => some (.goto { w with running := true } [.startThread])
  | .startThread, w =>
    some (.goto { w with
      thread := some w.created
      created := w.created + 1
      suspended := w.created :: w.suspended } [.resumeThread])
  | .resumeThread, w =>
    match w.thread with
    | some handle =>
      if handle ∈ w.suspended then
        some ⟨{ w with suspended := w.suspended.erase handle }, [], [[.beginThread]]⟩
      else some (.goto w [])
    | none => some (.goto w [])
  | .beginThread, w => some (.goto w [.work])
  | .work, w => some (.goto w [.clearThread])
  | .clearThread, w => some (.goto { w with thread := none } [.clearRunning])
  | .clearRunning, w => some (.goto { w with running := false } [.invokeComplete])
  | .invokeComplete, w =>
    some (.goto { w with completions := w.completions + 1 }
      (List.replicate (calls w.completions) .run ++ [.closeHandle]))
  | .closeHandle, w => some (.goto w [])

/-- The controller calls `Run`. -/
def program (calls : ℕ → ℕ) : Program Worker Point Unit where
  issue _ w := some (w, [.run])
  exec := exec calls

def initial : Config Worker Point := ⟨.new, [], []⟩

/-- A `Run` was accepted, and its thread has not left `Work`. -/
def live : Point → Bool
  | .startThread | .resumeThread | .beginThread | .work => true
  | _ => false

/-- One thread works at a time, and `Running()` is true while a thread works or is requested. -/
structure StateOk (c : Config Worker Point) : Prop where
  single : c.points.count .work ≤ 1
  running : ∀ i ∈ c.points, live i = true → c.shared.running = true

/-- When a `Run` that found `thread_` empty sets `running_`: `thread_` is still empty, no other `Run`
is about to set it, and no thread is about to clear `running_`. -/
def Settled (c : Config Worker Point) : Point → Prop
  | .markRunning =>
    c.shared.thread = none ∧ .startThread ∉ c.points ∧ .clearRunning ∉ c.points
  | _ => True

instance (c : Config Worker Point) : DecidablePred (Settled c)
  | .markRunning => inferInstanceAs (Decidable (_ ∧ _ ∧ _))
  | .run | .startThread | .resumeThread | .beginThread | .work | .clearThread | .clearRunning
  | .invokeComplete | .closeHandle => isTrue trivial

/-! ## What all steps keep -/

/-- From `running_ = true` to `running_ = false`. -/
def busy : Point → Bool
  | .startThread | .resumeThread | .beginThread | .work | .clearThread | .clearRunning => true
  | _ => false

/-- From `thread_` set to `thread_ = NULL`. -/
def started : Point → Bool
  | .resumeThread | .beginThread | .work | .clearThread => true
  | _ => false

structure Inv (c : Config Worker Point) : Prop where
  single : c.points.countP busy ≤ 1
  running : 0 < c.points.countP busy → c.shared.running = true
  thread : c.shared.thread.isSome ↔ 0 < c.points.countP started
  resume : .resumeThread ∈ c.points → ∃ handle, c.shared.thread = some handle ∧
    handle ∈ c.shared.suspended

theorem inv_initial : Inv initial :=
  ⟨Nat.zero_le _, fun h => absurd h (Nat.lt_irrefl _), iff_of_false nofun (Nat.lt_irrefl _), nofun⟩

variable {calls : ℕ → ℕ} {c c' : Config Worker Point} {i : Point} {e : Effect Worker Point}

theorem countP_started_le (c : Config Worker Point) :
    c.points.countP started ≤ c.points.countP busy :=
  List.countP_mono_left fun i _ h => by cases i <;> first | rfl | cases h

/-- Where a `Run` goes on, nothing is on its way. -/
theorem Inv.countP_busy_eq_zero (h : Inv c) (hq : Settled c .markRunning) :
    c.points.countP busy = 0 := by
  obtain ⟨hthread, hstart, hclear⟩ := hq
  rw [List.countP_eq_zero]
  intro i hi hbusy
  have hnone : ¬ 0 < c.points.countP started := by
    rw [← h.thread, hthread]
    exact nofun
  have hnot : started i = false := by
    by_contra hs
    exact hnone (List.countP_pos_iff.mpr ⟨i, hi, eq_true_of_ne_false hs⟩)
  cases i with
  | startThread => exact hstart hi
  | clearRunning => exact hclear hi
  | run | markRunning | invokeComplete | closeHandle => cases hbusy
  | resumeThread | beginThread | work | clearThread => cases hnot

theorem Inv.stateOk (h : Inv c) : StateOk c where
  single := by
    refine Nat.le_trans ?_ h.single
    exact List.countP_mono_left fun i _ hi => by rw [eq_of_beq hi]; rfl
  running i hi hlive := by
    refine h.running (List.countP_pos_iff.mpr ⟨i, hi, ?_⟩)
    cases i <;> first | rfl | cases hlive

/-- A step that leaves `thread_` and what is suspended alone, and resumes nothing new. -/
theorem Inv.resume_of_eq (h : Inv c) (hex : Executed c i e c')
    (hthread : e.shared.thread = c.shared.thread)
    (hsuspended : e.shared.suspended = c.shared.suspended)
    (hnew : .resumeThread ∉ e.next ++ e.started.flatten) (hmem : .resumeThread ∈ c'.points) :
    ∃ handle, c'.shared.thread = some handle ∧ handle ∈ c'.shared.suspended := by
  rw [hex.shared, hthread, hsuspended]
  rcases hex.of_mem hmem with hold | hnext | hstarted
  · exact h.resume hold
  · exact absurd (List.mem_append_left _ hnext) hnew
  · exact absurd (List.mem_append_right _ hstarted) hnew

/-- A step that moves a thread on without a change of the two fields. -/
theorem Inv.keep (h : Inv c) (hex : Executed c i e c')
    (hbusy : c'.points.countP busy = c.points.countP busy)
    (hstarted : c'.points.countP started = c.points.countP started)
    (hthread : e.shared.thread = c.shared.thread) (hrunning : e.shared.running = c.shared.running)
    (hsuspended : e.shared.suspended = c.shared.suspended)
    (hnew : .resumeThread ∉ e.next ++ e.started.flatten) : Inv c' where
  single := hbusy ▸ h.single
  running hpos := by
    rw [hex.shared, hrunning]
    exact h.running (hbusy ▸ hpos)
  thread := by
    rw [hex.shared, hthread, hstarted]
    exact h.thread
  resume := h.resume_of_eq hex hthread hsuspended hnew

theorem notMem_of_countP {p : Point → Bool} (hc : c.points.countP p = 0) (hi : p i = true) :
    i ∉ c.points := fun hmem => List.countP_eq_zero.mp hc i hmem hi

/-- A step of the threads. -/
theorem Inv.exec (h : Inv c) (hq : Settled c i) (he : WorkerState.exec calls i c.shared = some e)
    (hex : Executed c i e c') : Inv c' := by
  have hbusy := hex.countP busy
  have hstarted := hex.countP started
  have hle := countP_started_le c
  have hsingle := h.single
  have hthread := h.thread
  have hshared := hex.shared
  cases i with
  | run =>
    obtain rfl := Option.some.inj he
    have hnext : ∀ p : Point → Bool, p .markRunning = false →
        (if c.shared.thread.isSome then [] else [Point.markRunning]).countP p = 0 := by
      intro p hp
      split_ifs <;> simp [hp]
    have hb := hnext busy rfl
    have hs := hnext started rfl
    refine h.keep hex ?_ ?_ rfl rfl rfl ?_
    · simpa [busy, Effect.goto, hb] using hbusy
    · simpa [started, Effect.goto, hs] using hstarted
    · simp only [Effect.goto]
      split_ifs <;> simp
  | markRunning =>
    obtain rfl := Option.some.inj he
    have hnone := h.countP_busy_eq_zero hq
    have hb : c'.points.countP busy = 1 := by simpa [busy, Effect.goto, hnone] using hbusy
    have hs : c'.points.countP started = c.points.countP started := by
      simpa [started, Effect.goto] using hstarted
    refine ⟨Nat.le_of_eq hb, fun _ => by rw [hshared]; rfl, ?_,
      h.resume_of_eq hex rfl rfl (by simp [Effect.goto])⟩
    rw [hshared, hs]
    exact hthread
  | startThread =>
    obtain rfl := Option.some.inj he
    have hb : c'.points.countP busy = c.points.countP busy := by
      simpa [busy, Effect.goto] using hbusy
    have hs : c'.points.countP started = c.points.countP started + 1 := by
      simpa [started, Effect.goto] using hstarted
    refine ⟨by omega, fun hpos => ?_, ?_, fun _ => ?_⟩
    · rw [hshared]
      exact h.running (hb ▸ hpos)
    · rw [hshared]
      exact iff_of_true rfl (by omega)
    · rw [hshared]
      exact ⟨_, rfl, List.mem_cons_self⟩
  | resumeThread =>
    obtain ⟨handle, hsome, hsuspended⟩ := h.resume hex.mem
    rw [WorkerState.exec, hsome] at he
    simp only [if_pos hsuspended] at he
    obtain rfl := Option.some.inj he
    have hb : c'.points.countP busy = c.points.countP busy := by simpa [busy] using hbusy
    have hs : c'.points.countP started = c.points.countP started := by
      simpa [started] using hstarted
    -- the only `Run` that was about to resume a thread has done so
    have hgone : c'.points.countP (· = .resumeThread) = 0 := by
      have hcount := hex.countP (· = .resumeThread)
      have hone : c.points.countP (· = .resumeThread) ≤ c.points.countP busy :=
        List.countP_mono_left fun i _ hi => by rw [of_decide_eq_true hi]; rfl
      simp at hcount
      omega
    refine ⟨by omega, fun hpos => ?_, ?_, fun hres => absurd hres (notMem_of_countP hgone rfl)⟩
    · rw [hshared]
      exact h.running (hb ▸ hpos)
    · rw [hsome] at hthread
      rw [hshared, hs]
      exact hthread
  | beginThread | work | closeHandle =>
    obtain rfl := Option.some.inj he
    refine h.keep hex ?_ ?_ rfl rfl rfl (by simp [Effect.goto])
    · simpa [busy, Effect.goto] using hbusy
    · simpa [started, Effect.goto] using hstarted
  | clearThread =>
    obtain rfl := Option.some.inj he
    have hb : c'.points.countP busy = c.points.countP busy := by
      simpa [busy, Effect.goto] using hbusy
    have hs : c'.points.countP started + 1 = c.points.countP started := by
      simpa [started, Effect.goto] using hstarted
    have hzero : c'.points.countP started = 0 := by omega
    refine ⟨by omega, fun hpos => ?_, ?_, fun hres => absurd hres (notMem_of_countP hzero rfl)⟩
    · rw [hshared]
      exact h.running (hb ▸ hpos)
    · rw [hshared]
      exact iff_of_false nofun (by omega)
  | clearRunning =>
    obtain rfl := Option.some.inj he
    have hb : c'.points.countP busy + 1 = c.points.countP busy := by
      simpa [busy, Effect.goto] using hbusy
    have hs : c'.points.countP started = c.points.countP started := by
      simpa [started, Effect.goto] using hstarted
    refine ⟨by omega, fun hpos => by omega, ?_, h.resume_of_eq hex rfl rfl (by simp [Effect.goto])⟩
    rw [hshared, hs]
    exact hthread
  | invokeComplete =>
    obtain rfl := Option.some.inj he
    refine h.keep hex ?_ ?_ rfl rfl rfl (by simp [Effect.goto])
    · simpa [busy, Effect.goto, List.countP_replicate] using hbusy
    · simpa [started, Effect.goto, List.countP_replicate] using hstarted

/-! ## Runs -/

theorem Inv.step (c : Config Worker Point) (a : Act Unit) (h : Inv c)
    (hq : ∀ i ∈ c.pointOf a, Settled c i) : Inv (step (program calls) c a) := by
  refine step_guarded ?_ (fun c i e c' h hq he hex => h.exec hq he hex) c a h hq
  intro c cmd w code h hcaller hissue
  obtain ⟨rfl, rfl⟩ := Prod.mk.inj (Option.some.inj hissue)
  obtain ⟨w, code, pool⟩ := c
  obtain rfl : code = [] := hcaller
  have hsame : ∀ p : Point → Bool, p .run = false →
      (Config.points ⟨w, [Point.run], pool⟩).countP p =
        (Config.points ⟨w, [], pool⟩).countP p := by
    intro p hp
    simp [Config.points, hp]
  have hb := hsame busy rfl
  have hs := hsame started rfl
  refine ⟨hb ▸ h.single, fun hpos => h.running (hb ▸ hpos), hs ▸ h.thread, fun hres => ?_⟩
  exact h.resume (by simpa [Config.points] using hres)

/-- As long as nothing changes between the test of a `Run` and what it sets, one thread works at a
time and `Running()` is right. -/
theorem stateOk_settled {calls : ℕ → ℕ} {acts : List (Act Unit)}
    (h : Guarded (program calls) Settled initial acts) :
    StateOk (Threads.run (program calls) initial acts) :=
  (h.run Inv.step inv_initial).stateOk

/-- `Run`, whose thread works and clears `thread_`; then a second `Run`, and the first thread clears
`running_`. -/
def restart : List (Act Unit) :=
  [Act.issue ()] ++ List.replicate 4 Act.caller ++ List.replicate 3 (Act.worker 0) ++
    [Act.issue ()] ++ List.replicate 4 Act.caller ++ [Act.worker 0, Act.worker 1]

/-- The second thread works, and `Running()` is false. -/
theorem restart_not_running :
    ¬ ∀ calls acts, StateOk (Threads.run (program calls) initial acts) := by
  intro h
  have hrunning := (h (fun _ => 0) restart).running .work (by decide) rfl
  revert hrunning
  decide

/-- Two times `Run`, the second after the first thread has ended. -/
theorem stateOk_two_runs :
    StateOk (Threads.run (program fun _ => 0) initial
      ([.issue ()] ++ List.replicate 4 .caller ++ List.replicate 6 (.worker 0) ++ [.issue ()] ++
        List.replicate 4 .caller)) :=
  stateOk_settled (by decide)

end WorkerState

end DreamDota
