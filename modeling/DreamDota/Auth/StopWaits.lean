import DreamDota.Auth.Stop

/-!
# Every stop waits

`Start` starts the pipe thread, which ends only when a `Stop` tells it to. So the first `Stop` finds
it running: `doStops_eq_zero`.
-/

namespace DreamDota

open Threads

namespace GameModule

variable {w : GameModule} {c c' : Config GameModule Point} {i : Point} {e : Effect GameModule Point}

/-- The points that come after the pipe thread is started. -/
def needsPipe : Point → Bool
  | .addStartHandler _ | .startChangeComplete | .setStarted | .stopTest _ _ => true
  | .startThread .pipe _ => true
  | .run .search (.addStartHandler _) | .markRunning .search (.addStartHandler _) => true
  | .startThread .search (.addStartHandler _) => true
  | _ => false

/-- The points of the end of the pipe thread, and of `DoStop`. -/
def afterPipe : Point → Bool
  | .clearThread .pipe | .clearRunning .pipe | .doStop => true
  | _ => false

/-- What lets a module be started. -/
structure Fresh (w : GameModule) : Prop where
  thread : (w.threads .pipe).thread = false
  state : w.state ≠ .started
  actions : w.onActionComplete = []

/-- The pipe thread has been started, or nothing that needs it has happened. -/
structure PipeInv (c : Config GameModule Point) : Prop where
  points : ∀ i ∈ c.points, afterPipe i = false
  term : (c.shared.threads .pipe).term = false
  started : c.shared.isRunning .pipe = true ∨
    (Fresh c.shared ∧ ∀ i ∈ c.points, needsPipe i = false)
  doStops : c.shared.doStops = 0

/-- What a point does before the first `DoStop`. -/
structure KeepsPipe (w : GameModule) (e : Effect GameModule Point) : Prop where
  points : ∀ j ∈ e.next, afterPipe j = false
  term : (e.shared.threads .pipe).term = false
  started : e.shared.isRunning .pipe = true ∨
    (Fresh e.shared ∧ w.isRunning .pipe = false ∧ ∀ j ∈ e.next, needsPipe j = false)
  doStops : e.shared.doStops = 0

/-- A point that does not touch the pipe thread. -/
theorem KeepsPipe.of_eq (hterm : (w.threads .pipe).term = false)
    (hstarted : w.isRunning .pipe = true ∨ (Fresh w ∧ needsPipe i = false))
    (hpipe : (e.shared.threads .pipe).term = (w.threads .pipe).term ∧
      (e.shared.threads .pipe).running = (w.threads .pipe).running)
    (hdoStops : e.shared.doStops = 0) (hnext : ∀ j ∈ e.next, afterPipe j = false)
    (hfresh : Fresh w → needsPipe i = false →
      Fresh e.shared ∧ ∀ j ∈ e.next, needsPipe j = false) : KeepsPipe w e where
  points := hnext
  term := hpipe.1.trans hterm
  started := by
    cases hr : w.isRunning .pipe with
    | true => exact .inl (hpipe.2.trans hr)
    | false =>
      obtain hs | ⟨hf, hn⟩ := hstarted
      · rw [hr] at hs
        cases hs
      · obtain ⟨hf', hn'⟩ := hfresh hf hn
        exact .inr ⟨hf', rfl, hn'⟩
  doStops := hdoStops

theorem keepsPipe (hwaits : waits i = false) (hafter : afterPipe i = false)
    (hterm : (w.threads .pipe).term = false)
    (hstarted : w.isRunning .pipe = true ∨ (Fresh w ∧ needsPipe i = false))
    (hdoStops : w.doStops = 0)
    (hq : ∀ id needWait, i = .stopTest id needWait → w.isRunning id = false)
    (he : exec i w = some e) : KeepsPipe w e := by
  cases i with
  | changeTest | changeStore | doChange | cleanupTest =>
    obtain rfl := Option.some.inj he
    simp only [Effect.goto]
    refine .of_eq hterm hstarted ⟨rfl, rfl⟩ hdoStops ?_ fun hf _ =>
      ⟨⟨hf.thread, hf.state, hf.actions⟩, ?_⟩ <;> dsimp only <;> split_ifs <;>
      simp [afterPipe, needsPipe]
  | changeAdd | changeSignal | assignMethod =>
    obtain rfl := Option.some.inj he
    exact .of_eq hterm hstarted ⟨rfl, rfl⟩ hdoStops (by simp [Effect.goto, afterPipe]) fun hf _ =>
      ⟨⟨hf.thread, hf.state, hf.actions⟩, by simp [Effect.goto, needsPipe]⟩
  | invokeAction =>
    obtain rfl := Option.some.inj he
    refine .of_eq hterm hstarted ⟨rfl, rfl⟩ hdoStops ?_ fun hf _ =>
      ⟨⟨hf.thread, hf.state, hf.actions⟩, ?_⟩
    · intro j hj
      obtain ⟨h, -, rfl⟩ := List.mem_map.mp hj
      rfl
    · intro j hj
      obtain ⟨h, hh, -⟩ := List.mem_map.mp hj
      rw [hf.actions] at hh
      cases hh
  | run id k =>
    obtain rfl := Option.some.inj he
    refine .of_eq hterm hstarted ⟨rfl, rfl⟩ hdoStops ?_ fun hf hn => ⟨hf, ?_⟩
    · cases k <;> simp only [Effect.goto] <;> split_ifs <;> simp [afterPipe, AfterRun.point]
    · cases id with
      | search =>
        cases k with
        | assignMethod =>
          simp only [Effect.goto]
          split_ifs <;> simp [needsPipe, AfterRun.point]
        | addStartHandler m => cases hn
      | pipe =>
        rw [Effect.goto, hf.thread]
        simp [needsPipe]
  | markRunning id k =>
    obtain rfl := Option.some.inj he
    cases id with
    | search =>
      refine .of_eq hterm hstarted ⟨rfl, rfl⟩ hdoStops (by simp [Effect.goto, afterPipe])
        fun hf hn => ⟨⟨hf.thread, hf.state, hf.actions⟩, ?_⟩
      cases k with
      | assignMethod => simp [Effect.goto, needsPipe]
      | addStartHandler m => cases hn
    | pipe => exact ⟨by simp [Effect.goto, afterPipe], hterm, .inl rfl, hdoStops⟩
  | startThread id k =>
    obtain rfl := Option.some.inj he
    have hnext : ∀ j ∈ [k.point], afterPipe j = false := by
      cases k <;> simp [afterPipe, AfterRun.point]
    cases id with
    | search =>
      refine .of_eq hterm hstarted ⟨rfl, rfl⟩ hdoStops hnext
        fun hf hn => ⟨⟨hf.thread, hf.state, hf.actions⟩, ?_⟩
      cases k with
      | assignMethod => simp [needsPipe, AfterRun.point]
      | addStartHandler m => cases hn
    | pipe =>
      exact .of_eq hterm hstarted ⟨rfl, rfl⟩ hdoStops hnext fun _ hn => absurd hn (by simp [needsPipe])
  | addStartHandler | startChangeComplete | setStarted =>
    obtain rfl := Option.some.inj he
    exact .of_eq hterm hstarted ⟨rfl, rfl⟩ hdoStops (by simp [Effect.goto, afterPipe])
      fun _ hn => absurd hn (by simp [needsPipe])
  | stopTest id needWait =>
    cases needWait with
    | true => cases hwaits
    | false =>
      have hidle := hq id false rfl
      obtain hs | ⟨-, hn⟩ := hstarted
      · obtain rfl := Option.some.inj he
        rw [hidle]
        cases id with
        | search => exact ⟨by simp [Effect.goto, stopRest, afterPipe], hterm, .inl hs, hdoStops⟩
        | pipe =>
          rw [hs] at hidle
          cases hidle
      · cases hn
  | doStop => cases hafter
  | beginWork id =>
    obtain rfl := Option.some.inj he
    cases id <;>
    exact .of_eq hterm hstarted ⟨by first | rfl | exact hterm.symm, rfl⟩ hdoStops
      (by simp [Effect.goto, afterPipe])
      fun hf _ => ⟨⟨hf.thread, hf.state, hf.actions⟩, by simp [Effect.goto, needsPipe]⟩
  | work id =>
    obtain ⟨hrun, he⟩ := Option.ite_none_right_eq_some.mp he
    obtain rfl := Option.some.inj he
    cases id with
    | search =>
      exact .of_eq hterm hstarted ⟨rfl, rfl⟩ hdoStops (by simp [Effect.goto, afterPipe])
        fun hf _ => ⟨hf, by simp [Effect.goto, needsPipe]⟩
    | pipe =>
      rw [hterm] at hrun
      cases hrun
  | clearThread id | clearRunning id =>
    obtain rfl := Option.some.inj he
    cases id with
    | search =>
      exact .of_eq hterm hstarted ⟨rfl, rfl⟩ hdoStops (by simp [Effect.goto, afterPipe])
        fun hf _ => ⟨⟨hf.thread, hf.state, hf.actions⟩, by simp [Effect.goto, needsPipe]⟩
    | pipe => cases hafter
  | invokeComplete id =>
    obtain rfl := Option.some.inj he
    refine .of_eq hterm hstarted ⟨rfl, rfl⟩ hdoStops ?_ fun hf _ => ⟨hf, ?_⟩
    all_goals
      intro j hj
      obtain ⟨h, -, rfl⟩ := List.mem_map.mp hj
      rfl
  | handle id h =>
    obtain rfl := Option.some.inj he
    cases h with
    | onThreadEndForCleanup =>
      cases id <;>
      exact .of_eq hterm hstarted ⟨rfl, rfl⟩ hdoStops (by simp [Effect.goto, afterPipe])
        fun hf _ => ⟨⟨hf.thread, hf.state, hf.actions⟩, by simp [Effect.goto, needsPipe]⟩
    | onThreadEndForModuleCleanup => cases hwaits
  | stopAdd | stopSignal | moduleCleanupTest => cases hwaits

theorem PipeInv.exec (h : PipeInv c) (hs : StopInv c) (hq : Immediate c i)
    (he : GameModule.exec i c.shared = some e) (hex : Executed c i e c') : PipeInv c' := by
  have hk : KeepsPipe c.shared e := by
    refine keepsPipe (hs.points i hex.mem) (h.points i hex.mem) h.term ?_ h.doStops ?_ he
    · exact h.started.imp_right fun hf => ⟨hf.1, hf.2 i hex.mem⟩
    · rintro id _ rfl
      exact hq
  have hstarted : ∀ j ∈ e.started.flatten, afterPipe j = false ∧ needsPipe j = false := by
    intro j hj
    obtain ⟨code, hcode, hj⟩ := List.mem_flatten.mp hj
    obtain ⟨id, rfl⟩ := exec_started he code hcode
    rw [List.mem_singleton.mp hj]
    exact ⟨rfl, rfl⟩
  refine ⟨?_, ?_, ?_, ?_⟩
  · intro j hj
    obtain hj | hj | hj := hex.of_mem hj
    · exact h.points j hj
    · exact hk.points j hj
    · exact (hstarted j hj).1
  · rw [hex.shared]
    exact hk.term
  · rw [hex.shared]
    obtain hr | ⟨hfresh, hidle, hnext⟩ := hk.started
    · exact .inl hr
    · refine .inr ⟨hfresh, fun j hj => ?_⟩
      obtain hj | hj | hj := hex.of_mem hj
      · obtain hr | ⟨-, hold⟩ := h.started
        · rw [hidle] at hr
          cases hr
        · exact hold j hj
      · exact hnext j hj
      · exact (hstarted j hj).2
  · rw [hex.shared]
    exact hk.doStops

/-- A command begins at `i`. -/
theorem PipeInv.begin (h : PipeInv c) (hcaller : c.caller = []) (hafter : afterPipe i = false)
    (hthreads : w.threads = c.shared.threads) (hdoStops : w.doStops = c.shared.doStops)
    (hfresh : Fresh c.shared → Fresh w ∧ needsPipe i = false) : PipeInv ⟨w, [i], c.pool⟩ := by
  have hpoints : c.points = c.pool.flatten := by
    rw [Config.points, hcaller, List.nil_append]
  refine ⟨?_, ?_, ?_, hdoStops.trans h.doStops⟩
  · intro j hj
    rcases List.mem_cons.mp hj with rfl | hj
    · exact hafter
    · exact h.points j (hpoints ▸ hj)
  · rw [hthreads]
    exact h.term
  · obtain hr | ⟨hf, hn⟩ := h.started
    · left
      rw [isRunning, hthreads]
      exact hr
    · refine .inr ⟨(hfresh hf).1, fun j hj => ?_⟩
      rcases List.mem_cons.mp hj with rfl | hj
      · exact (hfresh hf).2
      · exact hn j (hpoints ▸ hj)

theorem PipeInv.issue (h : PipeInv c) (hcaller : c.caller = []) {cmd : Command} {code : List Point}
    (hissue : program.issue cmd c.shared = some (w, code)) : PipeInv ⟨w, code, c.pool⟩ := by
  cases cmd with
  | start admin =>
    obtain ⟨-, hissue⟩ := Option.ite_none_right_eq_some.mp hissue
    obtain ⟨rfl, rfl⟩ := Prod.mk.inj (Option.some.inj hissue)
    refine h.begin hcaller rfl rfl rfl fun hf => ⟨⟨hf.thread, ?_, hf.actions⟩, rfl⟩
    exact StateEnum.noConfusion
  | change m =>
    obtain ⟨rfl, rfl⟩ := Prod.mk.inj (Option.some.inj hissue)
    exact h.begin hcaller rfl rfl rfl fun hf => ⟨⟨hf.thread, hf.state, hf.actions⟩, rfl⟩
  | stop =>
    obtain ⟨hstarted, hissue⟩ := Option.ite_none_right_eq_some.mp hissue
    obtain ⟨rfl, rfl⟩ := Prod.mk.inj (Option.some.inj hissue)
    exact h.begin hcaller rfl rfl rfl fun hf => absurd hstarted hf.state

/-- As long as no `Stop` waits, no `Stop` comes to its `DoStop`. -/
theorem doStops_eq_zero (profile : ℤ) (acts : List (Act Command))
    (h : Guarded program Immediate (initial profile) acts) :
    (Threads.run program (initial profile) acts).shared.doStops = 0 := by
  have hinitial : StopInv (initial profile) ∧ PipeInv (initial profile) := by
    refine ⟨stopInv_initial profile, ?_, rfl, .inr ⟨⟨rfl, ?_, rfl⟩, ?_⟩, rfl⟩
    all_goals simp [initial, init, Config.points]
  have hstep : ∀ c a, StopInv c ∧ PipeInv c → (∀ i ∈ c.pointOf a, Immediate c i) →
      StopInv (Threads.step program c a) ∧ PipeInv (Threads.step program c a) := by
    refine step_guarded (I := fun c => StopInv c ∧ PipeInv c) ?_ ?_
    · exact fun c cmd w code hc hcaller hissue =>
        ⟨hc.1.issue hcaller hissue, hc.2.issue hcaller hissue⟩
    · exact fun c i e c' hc hq he hex => ⟨hc.1.exec hq he hex, hc.2.exec hc.1 hq he hex⟩
  exact (h.run hstep hinitial).2.doStops

end GameModule

end DreamDota
