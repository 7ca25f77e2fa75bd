import DreamDota.Auth.GameModule

/-!
# What is left of a stop

`onThreadEndForModuleCleanup` removes `onThreadEndForCleanup` where it should remove itself, so that
a `Stop` that has to wait for a thread leaves its handler behind. `stopsOk_immediate`: the stops
come out right as long as none of them has to wait.

1. `registered_exec`: the handler of a `Stop` is registered by `Stop` and removed by nobody.
2. `StopsOk`, `Immediate`: the property, and the condition.
3. `StopInv.exec`: what the steps keep while no `Stop` waits.
4. `LeftBehind.step`: what all steps keep once a `Stop` has to wait.
-/

namespace DreamDota

open Threads

namespace GameModule

variable {w : GameModule} {c c' : Config GameModule Point} {i : Point} {e : Effect GameModule Point}

/-! ## The handler of `Stop` -/

/-- `onThreadEndForModuleCleanup` is among the handlers of the thread. -/
def Registered (w : GameModule) (id : WorkerId) : Prop :=
  .onThreadEndForModuleCleanup ∈ (w.threads id).onThreadComplete

instance (w : GameModule) (id : WorkerId) : Decidable (Registered w id) :=
  inferInstanceAs (Decidable (_ ∈ _))

theorem registered_mapThread (w : GameModule) (id id' : WorkerId)
    (f : WorkerThread CompleteHandler → WorkerThread CompleteHandler) :
    Registered (w.mapThread id f) id' ↔
      .onThreadEndForModuleCleanup ∈ if id' = id
        then (f (w.threads id).toWorkerThread).onThreadComplete
        else (w.threads id').onThreadComplete := by
  unfold Registered
  rw [threads_mapThread]
  split_ifs <;> rfl

theorem registered_setTerm (w : GameModule) (id id' : WorkerId) (b : Bool) :
    Registered (w.setTerm id b) id' ↔ Registered w id' := by
  unfold Registered
  rw [threads_setTerm]

/-- A change of the other fields. -/
theorem registered_congr {f : WorkerThread CompleteHandler → WorkerThread CompleteHandler}
    (hf : ∀ t, (f t).onThreadComplete = t.onThreadComplete) (w : GameModule) (id id' : WorkerId) :
    Registered (w.mapThread id f) id' ↔ Registered w id' := by
  rw [registered_mapThread, hf]
  split_ifs with h
  · rw [h]
    rfl
  · rfl

/-- Only `Stop` registers the handler, and nobody removes it. -/
theorem registered_exec (he : exec i w = some e) (id : WorkerId) :
    Registered e.shared id ↔ Registered w id ∨ i = .stopAdd id := by
  cases i with
  | changeAdd m =>
    obtain rfl := Option.some.inj he
    rw [Effect.goto, registered_mapThread]
    split_ifs with h
    · simp [h, WorkerThread.addHandler, Delegate.add, Registered]
    · simp [Registered]
  | stopAdd id' =>
    obtain rfl := Option.some.inj he
    rw [Effect.goto, registered_mapThread]
    split_ifs with h
    · simp [h, WorkerThread.addHandler, Delegate.add]
    · simp [Ne.symm h, Registered]
  | handle id' h' =>
    obtain rfl := Option.some.inj he
    rw [Effect.goto, registered_mapThread]
    split_ifs with h
    · simp [h, WorkerThread.removeHandler, Delegate.remove, Registered, List.mem_erase_of_ne]
    · simp [Registered]
  | changeSignal | stopSignal | beginWork =>
    obtain rfl := Option.some.inj he
    simp [Effect.goto, registered_setTerm]
  | markRunning | startThread | clearThread | clearRunning =>
    obtain rfl := Option.some.inj he
    simp only [Effect.goto, reduceCtorEq, or_false]
    refine registered_congr ?_ w _ id
    exact fun _ => rfl
  | work id' =>
    obtain ⟨-, he⟩ := Option.ite_none_right_eq_some.mp he
    obtain rfl := Option.some.inj he
    simp [Effect.goto]
  | moduleCleanupTest id' =>
    cases id' <;>
    · obtain rfl := Option.some.inj he
      simp [Effect.goto]
  | _ =>
    obtain rfl := Option.some.inj he
    simp [Effect.goto, Registered, enterChange]

/-! ## The property and the condition -/

/-- No `DoStop` without a `Stop`; at rest each `Stop` has led to one `DoStop`, and each `DoStop`,
like each `DoChange`, to one `onActionComplete`; and no `Stop` that is complete has left a handler
behind. -/
structure StopsOk (c : Config GameModule Point) : Prop where
  doStops_le : c.shared.doStops ≤ c.shared.stops
  atRest : AtRest program c → c.shared.doStops = c.shared.stops ∧
    c.shared.invokes = c.shared.doChanges + c.shared.doStops
  removed : c.shared.doStops = c.shared.stops → ∀ id, ¬ Registered c.shared id

/-- No `Stop` finds a thread running. -/
def Immediate (c : Config GameModule Point) : Point → Prop
  | .stopTest id _ => c.shared.isRunning id = false
  | _ => True

/-! ## While no `Stop` waits -/

/-- The points of a `Stop` that waits. -/
def waits : Point → Bool
  | .stopTest _ true | .stopAdd _ | .stopSignal _ => true
  | .handle _ .onThreadEndForModuleCleanup | .moduleCleanupTest _ => true
  | _ => false

/-- The points before a `DoStop`. -/
def stopping : Point → Bool
  | .stopTest _ _ | .doStop => true
  | _ => false

/-- The points before an `onActionComplete`. -/
def invoking : Point → Bool
  | .run _ .assignMethod | .markRunning _ .assignMethod | .startThread _ .assignMethod => true
  | .assignMethod | .invokeAction => true
  | _ => false

structure StopInv (c : Config GameModule Point) : Prop where
  tails : HandlerTails c
  points : ∀ i ∈ c.points, waits i = false
  registered : ∀ id, ¬ Registered c.shared id
  stops : c.shared.stops = c.shared.doStops + c.points.countP stopping
  invokes : c.shared.doChanges + c.shared.doStops = c.shared.invokes + c.points.countP invoking

/-- What a point does to the counts. -/
structure Counted (w : GameModule) (i : Point) (e : Effect GameModule Point) : Prop where
  next : ∀ j ∈ e.next, waits j = false
  stops : e.shared.stops = w.stops
  doStops : e.shared.doStops + e.next.countP stopping =
    w.doStops + if stopping i = true then 1 else 0
  invokes : e.shared.doChanges + e.shared.doStops + w.invokes +
      (if invoking i = true then 1 else 0) =
    w.doChanges + w.doStops + e.shared.invokes + e.next.countP invoking

/-- A point that calls handlers. -/
theorem countP_handlers {next : List Point} (hnext : ∀ j ∈ next, isHandler j = true) :
    next.countP stopping = 0 ∧ next.countP invoking = 0 := by
  have hneither : ∀ j, isHandler j = true → stopping j = false ∧ invoking j = false := by
    intro j hj
    cases j <;> first | exact ⟨rfl, rfl⟩ | cases hj
  constructor
  · refine List.countP_eq_zero.mpr fun j hj => ?_
    rw [(hneither j (hnext j hj)).1]
    decide
  · refine List.countP_eq_zero.mpr fun j hj => ?_
    rw [(hneither j (hnext j hj)).2]
    decide

theorem counted (hi : waits i = false) (hregistered : ∀ id, ¬ Registered w id)
    (hq : ∀ id needWait, i = .stopTest id needWait → w.isRunning id = false)
    (he : exec i w = some e) : Counted w i e := by
  cases i with
  | changeTest | cleanupTest =>
    obtain rfl := Option.some.inj he
    cases hr : w.isRunning .search <;> constructor <;>
      simp [Effect.goto, waits, stopping, invoking]
  | changeStore m needWait =>
    obtain rfl := Option.some.inj he
    cases needWait <;> constructor <;> simp [Effect.goto, waits, stopping, invoking]
  | doChange =>
    obtain rfl := Option.some.inj he
    cases hm : w.toInjectMethod <;> constructor <;>
      simp [Effect.goto, waits, stopping, invoking] <;> omega
  | run id k =>
    obtain rfl := Option.some.inj he
    cases ht : (w.threads id).thread <;> cases k <;> constructor <;>
      simp [Effect.goto, waits, stopping, invoking, AfterRun.point]
  | markRunning id k | startThread id k =>
    obtain rfl := Option.some.inj he
    cases k <;> constructor <;>
      simp [Effect.goto, waits, stopping, invoking, AfterRun.point, mapThread, setThread]
  | invokeAction =>
    obtain rfl := Option.some.inj he
    have hnext : ∀ j ∈ w.onActionComplete.map ActionHandler.point, j = .startChangeComplete := by
      intro j hj
      obtain ⟨h, -, rfl⟩ := List.mem_map.mp hj
      rfl
    obtain ⟨hstopping, hinvoking⟩ := countP_handlers fun j hj => by rw [hnext j hj]; rfl
    refine ⟨fun j hj => by rw [hnext j hj]; rfl, rfl, ?_, ?_⟩
    · rw [Effect.goto, hstopping]
      rfl
    · simp only [Effect.goto, hinvoking, invoking, ↓reduceIte]
      omega
  | invokeComplete id =>
    obtain rfl := Option.some.inj he
    have hnext : ∀ j ∈ (w.threads id).onThreadComplete.map (Point.handle id),
        j = .handle id .onThreadEndForCleanup := by
      intro j hj
      obtain ⟨h, hh, rfl⟩ := List.mem_map.mp hj
      cases h with
      | onThreadEndForCleanup => rfl
      | onThreadEndForModuleCleanup => exact absurd hh (hregistered id)
    obtain ⟨hstopping, hinvoking⟩ := countP_handlers fun j hj => by rw [hnext j hj]; rfl
    refine ⟨fun j hj => by rw [hnext j hj]; rfl, rfl, ?_, ?_⟩
    · rw [Effect.goto, hstopping]
      rfl
    · rw [Effect.goto, hinvoking]
      rfl
  | doStop =>
    obtain rfl := Option.some.inj he
    constructor <;> simp [Effect.goto, waits, stopping, invoking]
    omega
  | work id =>
    obtain ⟨-, he⟩ := Option.ite_none_right_eq_some.mp he
    obtain rfl := Option.some.inj he
    constructor <;> simp [Effect.goto, waits, stopping, invoking]
  | stopTest id needWait =>
    cases needWait with
    | true => cases hi
    | false =>
      obtain rfl := Option.some.inj he
      rw [hq id false rfl]
      cases id <;> constructor <;> simp [Effect.goto, waits, stopping, invoking, stopRest]
  | handle id h =>
    cases h with
    | onThreadEndForCleanup =>
      obtain rfl := Option.some.inj he
      constructor <;> simp [Effect.goto, waits, stopping, invoking, mapThread, setThread]
    | onThreadEndForModuleCleanup => cases hi
  | stopAdd | stopSignal | moduleCleanupTest => cases hi
  | _ =>
    obtain rfl := Option.some.inj he
    constructor <;> simp [Effect.goto, waits, stopping, invoking, mapThread, setThread, setTerm,
      enterChange]

theorem StopInv.exec (h : StopInv c) (hq : Immediate c i)
    (he : GameModule.exec i c.shared = some e) (hex : Executed c i e c') : StopInv c' := by
  have hi := h.points i hex.mem
  have hcounted : Counted c.shared i e := counted hi h.registered (by rintro id _ rfl; exact hq) he
  have hstarted : ∀ j ∈ e.started.flatten, ∃ id, j = .beginWork id := by
    intro j hj
    obtain ⟨code, hcode, hj⟩ := List.mem_flatten.mp hj
    obtain ⟨id, rfl⟩ := exec_started he code hcode
    exact ⟨id, List.mem_singleton.mp hj⟩
  have hzero : ∀ p : Point → Bool, (∀ id, p (.beginWork id) = false) →
      e.started.flatten.countP p = 0 := by
    intro p hp
    refine List.countP_eq_zero.mpr fun j hj => ?_
    obtain ⟨id, rfl⟩ := hstarted j hj
    rw [hp id]
    decide
  refine ⟨h.tails.exec he hex, ?_, ?_, ?_, ?_⟩
  · intro j hj
    obtain hj | hj | hj := hex.of_mem hj
    · exact h.points j hj
    · exact hcounted.next j hj
    · obtain ⟨id, rfl⟩ := hstarted j hj
      rfl
  · intro id hreg
    rw [hex.shared, registered_exec he] at hreg
    rcases hreg with hreg | rfl
    · exact h.registered id hreg
    · cases hi
  · have hcount := hex.countP stopping
    have hold := h.stops
    have hstops := hcounted.stops
    have hdoStops := hcounted.doStops
    rw [hzero stopping fun _ => rfl] at hcount
    rw [hex.shared]
    omega
  · have hcount := hex.countP invoking
    have hold := h.invokes
    have hinvokes := hcounted.invokes
    rw [hzero invoking fun _ => rfl] at hcount
    rw [hex.shared]
    omega

/-- A command begins at `i`. -/
theorem StopInv.begin (h : StopInv c) (hcaller : c.caller = []) (hwaits : waits i = false)
    (hinvoking : invoking i = false) (hthreads : w.threads = c.shared.threads)
    (hstops : w.stops = c.shared.stops + if stopping i = true then 1 else 0)
    (hdone : w.doStops = c.shared.doStops ∧ w.doChanges = c.shared.doChanges ∧
      w.invokes = c.shared.invokes) : StopInv ⟨w, [i], c.pool⟩ := by
  obtain ⟨hdoStops, hdoChanges, hinvokes⟩ := hdone
  have hpoints : c.points = c.pool.flatten := by
    rw [Config.points, hcaller, List.nil_append]
  have hold := h.stops
  have hinv := h.invokes
  rw [hpoints] at hold hinv
  refine ⟨h.tails.issue _ _, ?_, ?_, ?_, ?_⟩
  · intro j hj
    rcases List.mem_cons.mp hj with rfl | hj
    · exact hwaits
    · exact h.points j (hpoints ▸ hj)
  · unfold Registered
    rw [hthreads]
    exact h.registered
  · show w.stops = w.doStops + (i :: c.pool.flatten).countP stopping
    rw [List.countP_cons]
    omega
  · show w.doChanges + w.doStops = w.invokes + (i :: c.pool.flatten).countP invoking
    rw [List.countP_cons_of_neg (by rw [hinvoking]; decide)]
    omega

theorem StopInv.issue (h : StopInv c) (hcaller : c.caller = []) {cmd : Command} {code : List Point}
    (hissue : program.issue cmd c.shared = some (w, code)) : StopInv ⟨w, code, c.pool⟩ := by
  cases cmd with
  | start admin =>
    obtain ⟨-, hissue⟩ := Option.ite_none_right_eq_some.mp hissue
    obtain ⟨rfl, rfl⟩ := Prod.mk.inj (Option.some.inj hissue)
    exact h.begin hcaller rfl rfl rfl rfl ⟨rfl, rfl, rfl⟩
  | change m =>
    obtain ⟨rfl, rfl⟩ := Prod.mk.inj (Option.some.inj hissue)
    exact h.begin hcaller rfl rfl rfl rfl ⟨rfl, rfl, rfl⟩
  | stop =>
    obtain ⟨-, hissue⟩ := Option.ite_none_right_eq_some.mp hissue
    obtain ⟨rfl, rfl⟩ := Prod.mk.inj (Option.some.inj hissue)
    exact h.begin hcaller rfl rfl rfl rfl ⟨rfl, rfl, rfl⟩

theorem StopInv.step (c : Config GameModule Point) (a : Act Command) (h : StopInv c)
    (hq : ∀ i ∈ c.pointOf a, Immediate c i) : StopInv (step program c a) :=
  step_guarded (fun _ _ _ _ h hcaller hissue => h.issue hcaller hissue)
    (fun _ _ _ _ h hq he hex => h.exec hq he hex) c a h hq

theorem stopInv_initial (profile : ℤ) : StopInv (initial profile) := by
  constructor <;> simp [initial, init, HandlerTails, Config.points, Registered, WorkerThread.new]

theorem StopInv.stopsOk (h : StopInv c) : StopsOk c where
  doStops_le := by
    rw [h.stops]
    exact Nat.le_add_right _ _
  atRest := by
    intro hrest
    have hpoints : ∀ i ∈ c.points, stopping i = false ∧ invoking i = false := by
      intro i hi
      obtain ⟨id, -, -, rfl | hhandler⟩ := h.tails.atRest rfl hrest i hi
      · exact ⟨rfl, rfl⟩
      · cases i <;> first | exact ⟨rfl, rfl⟩ | cases hhandler
    have hstopping : c.points.countP stopping = 0 :=
      List.countP_eq_zero.mpr fun i hi => by rw [(hpoints i hi).1]; decide
    have hinvoking : c.points.countP invoking = 0 :=
      List.countP_eq_zero.mpr fun i hi => by rw [(hpoints i hi).2]; decide
    have hstops := h.stops
    have hinvokes := h.invokes
    rw [hstopping] at hstops
    rw [hinvoking] at hinvokes
    exact ⟨hstops.symm, hinvokes.symm⟩
  removed := fun _ => h.registered

/-! ## A stop that waits -/

/-- The handler of a `Stop` is registered, or will be. -/
def LeftBehind (c : Config GameModule Point) : Prop :=
  ∃ id, Registered c.shared id ∨ .stopAdd id ∈ c.points

theorem LeftBehind.exec (h : LeftBehind c) (he : GameModule.exec i c.shared = some e)
    (hex : Executed c i e c') : LeftBehind c' := by
  obtain ⟨id, hreg | hadd⟩ := h
  · refine ⟨id, .inl ?_⟩
    rw [hex.shared, registered_exec he]
    exact .inl hreg
  · by_cases hi : i = .stopAdd id
    · refine ⟨id, .inl ?_⟩
      rw [hex.shared, registered_exec he]
      exact .inr hi
    · exact ⟨id, .inr (hex.mem_of_ne hadd (Ne.symm hi))⟩

theorem threads_issue {cmd : Command} {code : List Point}
    (h : program.issue cmd c.shared = some (w, code)) : w.threads = c.shared.threads := by
  cases cmd with
  | start | stop =>
    obtain ⟨-, h⟩ := Option.ite_none_right_eq_some.mp h
    obtain ⟨rfl, -⟩ := Prod.mk.inj (Option.some.inj h)
    rfl
  | change m =>
    obtain ⟨rfl, -⟩ := Prod.mk.inj (Option.some.inj h)
    rfl

theorem LeftBehind.step (c : Config GameModule Point) (a : Act Command) (h : LeftBehind c) :
    LeftBehind (step program c a) := by
  refine step_guarded (Q := fun _ _ => True) ?_ ?_ c a h fun _ _ => trivial
  · rintro c cmd w code ⟨id, hreg | hadd⟩ hcaller hissue
    · refine ⟨id, .inl ?_⟩
      unfold Registered
      rw [threads_issue hissue]
      exact hreg
    · refine ⟨id, .inr ?_⟩
      rw [Config.points, hcaller] at hadd
      exact List.mem_append_right _ hadd
  · exact fun c i e c' h _ he hex => h.exec he hex

theorem handlerTails_step (c : Config GameModule Point) (a : Act Command) (h : HandlerTails c) :
    HandlerTails (step program c a) := by
  refine step_guarded (Q := fun _ _ => True) ?_ ?_ c a h fun _ _ => trivial
  · intro c cmd w code h _ hissue
    obtain ⟨i, rfl⟩ : ∃ i, code = [i] := by
      cases cmd with
      | start | stop =>
        obtain ⟨-, hissue⟩ := Option.ite_none_right_eq_some.mp hissue
        exact ⟨_, (Prod.mk.inj (Option.some.inj hissue)).2.symm⟩
      | change m => exact ⟨_, (Prod.mk.inj (Option.some.inj hissue)).2.symm⟩
    exact h.issue w i
  · exact fun c i e c' h _ he hex => h.exec he hex

/-- A `Stop` that finds a thread running is about to register its handler. -/
theorem leftBehind_of_waits (c : Config GameModule Point) (a : Act Command)
    (h : ¬ ∀ i ∈ c.pointOf a, Immediate c i) : LeftBehind (step program c a) := by
  push Not at h
  obtain ⟨i, hi, hwait⟩ := h
  cases i with
  | stopTest id needWait =>
    have hrunning : c.shared.isRunning id = true := eq_true_of_ne_false hwait
    have he : exec (.stopTest id needWait) c.shared = some (.goto c.shared [.stopAdd id]) := by
      rw [exec, if_pos hrunning]
    have hex : Executed c _ _ (Threads.step program c a) := executed_step hi he
    exact ⟨id, .inr (hex.mem_next List.mem_cons_self)⟩
  | _ => exact absurd trivial hwait

/-- The stops come out right in every state as long as none of them finds a thread running. At
rest they do so only then. -/
theorem stopsOk_immediate (profile : ℤ) (acts : List (Act Command)) :
    (Guarded program Immediate (initial profile) acts →
      StopsOk (Threads.run program (initial profile) acts)) ∧
    (AtRest program (Threads.run program (initial profile) acts) →
      StopsOk (Threads.run program (initial profile) acts) →
      Guarded program Immediate (initial profile) acts) := by
  constructor
  · intro h
    exact (h.run StopInv.step (stopInv_initial profile)).stopsOk
  · intro hrest hok
    by_contra h
    have htails : HandlerTails (Threads.run program (initial profile) acts) :=
      run_invariant handlerTails_step (stopInv_initial profile).tails acts
    obtain ⟨id, hreg | hadd⟩ := of_not_guarded leftBehind_of_waits LeftBehind.step h
    · exact hok.removed (hok.atRest hrest).1 id hreg
    · obtain ⟨_, -, -, heq | hhandler⟩ := htails.atRest rfl hrest _ hadd
      · cases heq
      · cases hhandler

/-- `Start` with the passive method, and a `Stop` that waits for the pipe thread. -/
def startAndStop : List (Act Command) :=
  [Act.issue (Command.start false)] ++ List.replicate 11 Act.caller ++
    [Act.worker 0, Act.issue Command.stop] ++ List.replicate 4 Act.caller ++
    List.replicate 9 (Act.worker 0)

/-- The `Stop` is complete, and its handler is still registered. -/
theorem handler_left : ¬ ∀ profile acts, StopsOk (Threads.run program (initial profile) acts) := by
  intro h
  exact (h 0 startAndStop).removed (by decide) .pipe (by decide)

end GameModule

end DreamDota
