import DreamDota.Auth.SessionEnd

/-!
# Sessions that end badly

The condition of `sessionsOk_of_orderly` is exact. After a step that is not orderly the handlers of
two commands wait for the same `Invoke`, or the handler of a change waits for ever.

1. `Failed`: a handler has run before its command was complete.
2. `Confused`: a change and a `Stop` are both under way.
3. `Lost`: a change that nobody will complete.
4. `not_sessionsOk_of_not_orderly`: from there on, no state at rest is well.
-/

namespace DreamDota.Loggedin

namespace World

open Log

variable {w w' : World} {n m s : ℕ} {id : WorkerId} {t : Step}

/-! ## Early handlers -/

/-- A handler has run before its command was complete. -/
def Failed (w : World) : Prop := ∃ p ∈ w.log.runs, p.2 = false

theorem Failed.not_sessionsOk (h : w.Failed) : ¬w.SessionsOk := by
  obtain ⟨p, hp, hfalse⟩ := h
  exact fun hok => absurd ((hok.runComplete p hp).symm.trans hfalse) (by decide)

theorem Failed.of_prefix (h : w.Failed) (hw : w.log.runs <+: w'.log.runs) : w'.Failed := by
  obtain ⟨p, hp, hfalse⟩ := h
  exact ⟨p, hw.subset hp, hfalse⟩

theorem run_eq (w : World) (id : WorkerId) :
    w.run id = { w with threads := (w.run id).threads } := by
  unfold run
  split_ifs <;> rfl

variable {l : List (ℕ × Bool)}

theorem runAction_runs (h : ActionHandler) (hl : l <+: w.log.runs) :
    l <+: (w.runAction h).log.runs := by
  cases h with
  | startChangeComplete => exact hl
  | _ => exact hl.trans (List.prefix_append _ _)

theorem invokeAction_runs (hl : l <+: w.log.runs) : l <+: w.invokeAction.log.runs := by
  have hfoldl : ∀ (hs : List ActionHandler) (w : World), l <+: w.log.runs →
      l <+: (hs.foldl runAction w).log.runs := by
    intro hs
    induction hs with
    | nil => exact fun _ hl => hl
    | cons h hs ih => exact fun w hl => ih _ (runAction_runs h hl)
  exact hfoldl _ w hl

theorem doChange_runs (hl : l <+: w.log.runs) : l <+: w.doChange.log.runs := by
  unfold doChange
  refine invokeAction_runs ?_
  split_ifs
  · rwa [run_eq]
  · exact hl

theorem change_runs (m : InjectMethodEnum) (hl : l <+: w.log.runs) :
    l <+: (w.change n m).log.runs := by
  cases hrun : w.isRunning .search with
  | true => rwa [change_of_running m hrun]
  | false =>
    rw [change_of_not_running m hrun]
    exact doChange_runs hl

theorem doStop_runs (hl : l <+: w.log.runs) : l <+: w.doStop.log.runs :=
  invokeAction_runs (w := { w with
    state := .inited
    log.completed := w.stopping :: w.log.completed }) hl

theorem stop_runs (hl : l <+: w.log.runs) : l <+: (w.stop n).log.runs := by
  unfold stop
  dsimp only
  rw [stopThreads_eq]
  split_ifs
  · exact hl
  · exact doStop_runs hl

theorem mainDialog_runs (hl : l <+: w.log.runs) : l <+: w.mainDialog.log.runs := by
  unfold mainDialog start
  refine change_runs _ ?_
  dsimp only
  rwa [run_eq]

theorem handle_runs (h : CompleteHandler) (hl : l <+: w.log.runs) :
    l <+: (w.handle id h).log.runs := by
  cases h with
  | onThreadEndForCleanup =>
    unfold handle onThreadEndForCleanup
    dsimp only
    split_ifs
    · exact hl
    · exact doChange_runs hl
  | onThreadEndForModuleCleanup =>
    unfold handle onThreadEndForModuleCleanup
    dsimp only
    split_ifs
    · exact doStop_runs hl
    · exact hl

/-- What has run has run. -/
theorem step_runs (t : Step) (hl : l <+: w.log.runs) : l <+: (w.step t).log.runs := by
  cases t with
  | handle i =>
    rcases step_handle_cases w i with heq | ⟨id, h, hs, -, heq⟩
    · rwa [heq]
    · rw [heq]
      exact handle_runs h hl
  | login =>
    rw [World.step]
    split_ifs
    · exact mainDialog_runs hl
    · exact hl
  | change m =>
    rw [World.step, updateInjectMethod]
    split_ifs
    · exact hl
    · exact change_runs _ hl
    · exact hl
  | logoutComplete | disconnect =>
    rw [World.step]
    split_ifs
    · exact stop_runs hl
    · exact hl
  | logout _ | finish _ =>
    rw [World.step]
    split_ifs <;> exact hl

theorem Failed.step (h : w.Failed) (t : Step) : (w.step t).Failed :=
  h.of_prefix (step_runs t List.prefix_rfl)

/-! ## Two commands -/

/-- The change `n` and the `Stop` `m` wait for the same `Invoke`. -/
structure Confused (w : World) (n m : ℕ) : Prop where
  actions : w.onActionComplete = [.updateInjectMethodComplete n, .onDisconnectComplete m]
  ne : n ≠ m
  change : n ∉ w.log.completed
  stop : m ∉ w.log.completed
  commands : n < w.commands
  notRun : n ∉ w.log.runs.map Prod.fst
  loginShown : w.loginShown = false
  loggedIn : w.loggedIn = false
  logoutRuns : w.logoutRuns = false
  locked : w.locked = true

/-- The next `Invoke` completes one of the two commands at most. -/
theorem failed_of_confused {c : ℕ} (h : w.Confused n m)
    (hc : w'.log.completed = c :: w.log.completed) (hw : w'.onActionComplete = w.onActionComplete) :
    w'.invokeAction.Failed := by
  have hruns : w'.invokeAction.log.runs = w'.log.runs ++
      [(n, decide (n ∈ w'.log.completed)), (m, decide (m ∈ w'.log.completed))] := by
    rw [invokeAction, hw, h.actions]
    simp [runAction, record, removeAction, raise]
  by_cases hn : n = c
  · refine ⟨(m, decide (m ∈ w'.log.completed)), ?_, ?_⟩
    · rw [hruns]
      exact List.mem_append_right _ (List.mem_cons_of_mem _ List.mem_cons_self)
    · refine decide_eq_false ?_
      rw [hc, List.mem_cons, not_or]
      exact ⟨fun hm => h.ne (hn.trans hm.symm), h.stop⟩
  · refine ⟨(n, decide (n ∈ w'.log.completed)), ?_, ?_⟩
    · rw [hruns]
      exact List.mem_append_right _ List.mem_cons_self
    · refine decide_eq_false ?_
      rw [hc, List.mem_cons, not_or]
      exact ⟨hn, h.change⟩

theorem Confused.handle (h : w.Confused n m) (hd : CompleteHandler) :
    (w.handle id hd).Confused n m ∨ (w.handle id hd).Failed := by
  have hremove : (w.removeCleanup id).Confused n m := { h with }
  cases hd with
  | onThreadEndForCleanup =>
    rw [World.handle, onThreadEndForCleanup]
    split_ifs
    · exact .inl hremove
    · right
      rw [World.doChange]
      split_ifs
      · rw [run_eq]
        exact failed_of_confused hremove rfl rfl
      · exact failed_of_confused hremove rfl rfl
  | onThreadEndForModuleCleanup =>
    rw [World.handle, onThreadEndForModuleCleanup]
    split_ifs
    · exact .inr (failed_of_confused hremove rfl rfl)
    · exact .inl hremove

theorem Confused.step (h : w.Confused n m) (t : Step) :
    (w.step t).Confused n m ∨ (w.step t).Failed := by
  cases t with
  | handle i =>
    rcases step_handle_cases w i with heq | ⟨id, hd, hs, -, heq⟩
    · rw [heq]
      exact .inl h
    · have hpop : (w.pop i id hs).Confused n m := { h with }
      rw [heq]
      exact hpop.handle hd
  | login =>
    rw [World.step, h.loginShown]
    exact .inl h
  | change m =>
    rw [World.step, usable, h.locked, Bool.not_true, Bool.and_false, Bool.false_and]
    exact .inl h
  | logout e =>
    rw [World.step, usable, h.locked, Bool.not_true, Bool.and_false]
    exact .inl h
  | logoutComplete =>
    rw [World.step, h.logoutRuns]
    exact .inl h
  | disconnect =>
    rw [World.step, h.loggedIn]
    exact .inl h
  | finish id =>
    rw [World.step]
    split_ifs
    · exact .inl { h with }
    · exact .inl h

/-! ## A change that is lost -/

/-- The handler of the change `n` is gone. -/
structure Lost (w : World) (n : ℕ) : Prop extends w.Settled where
  actions : w.onActionComplete = [.updateInjectMethodComplete n]
  completed : ∀ c ∈ w.log.completed, c < n
  commands : n < w.commands
  notRun : n ∉ w.log.runs.map Prod.fst
  loginShown : w.loginShown = false
  logoutRuns : w.logoutRuns = false
  locked : w.locked = true
  pipeRuns : w.isRunning .pipe = true
  pipeTerm : (w.threads .pipe).term = false
  registered : w.registered = 0
  copies : w.copies = 0

/-- What a disconnect makes of a change that is under way or lost. -/
theorem confused_of_disconnect (hactions : w.onActionComplete = [.updateInjectMethodComplete n])
    (hcompleted : ∀ c ∈ w.log.completed, c < n) (hcommands : n < w.commands)
    (hrun : n ∉ w.log.runs.map Prod.fst) (hshown : w.loginShown = false)
    (hpipe : w.isRunning .pipe = true) : w.onDisconnect.Confused n w.commands := by
  have hwait : (w.isRunning .search || w.isRunning .pipe) = true := by rw [hpipe, Bool.or_true]
  rw [onDisconnect, World.endSession, World.stop, stopThreads_eq]
  refine (congrArg (fun w' : World => w'.Confused n w.commands) (if_pos hwait)).mpr ?_
  exact {
    actions := by rw [hactions]; rfl
    ne := hcommands.ne
    change := fun hn => (hcompleted n hn).false
    stop := fun hm => (hcommands.trans (hcompleted _ hm)).false
    commands := hcommands.trans (Nat.lt_succ_self _)
    notRun := hrun
    loginShown := hshown
    loggedIn := rfl
    logoutRuns := rfl
    locked := rfl }

theorem Lost.handle (h : w.Lost n) {i : ℕ} {hd : CompleteHandler} {hs : List CompleteHandler}
    (hi : w.invocations[i]? = some (id, hd :: hs)) : ((w.pop i id hs).handle id hd).Lost n := by
  obtain ⟨rfl, hc⟩ := handler_of_copies hi h.copies
  rw [handle_of_running (finished_of_pipe (w := w.pop i id hs) h.pipeRuns)]
  exact { h with
    toSettled := (h.toSettled.pop hi).removeCleanup id
    pipeRuns := (removeCleanup_running _ id .pipe).trans h.pipeRuns
    pipeTerm := (pipe_of_removeCleanup _ id).trans h.pipeTerm
    registered := registered_removeCleanup (w := w.pop i id hs) h.registered id
    copies := hc }

theorem Lost.finish (h : w.Lost n) (hterm : (w.threads id).term = true) : (w.finish id).Lost n := by
  obtain rfl : id = .search := by
    cases id with
    | search => rfl
    | pipe => exact absurd (h.pipeTerm.symm.trans hterm) (by decide)
  exact { h with
    toSettled := h.toSettled.finish .search
    pipeRuns := h.pipeRuns
    pipeTerm := h.pipeTerm
    registered := (finish_registered w .search).trans h.registered
    copies := by rw [h.finish_copies, h.copies, h.registered, ite_self] }

theorem Lost.step (h : w.Lost n) (t : Step) :
    (w.step t).Lost n ∨ ∃ m, (w.step t).Confused n m := by
  cases t with
  | handle i =>
    left
    rcases step_handle_cases w i with heq | ⟨id, hd, hs, hi, heq⟩
    · rwa [heq]
    · rw [heq]
      exact h.handle hi
  | disconnect =>
    rw [World.step]
    split_ifs
    · exact .inr ⟨w.commands, confused_of_disconnect h.actions h.completed h.commands h.notRun
        h.loginShown h.pipeRuns⟩
    · exact .inl h
  | login =>
    rw [World.step, h.loginShown]
    exact .inl h
  | change m =>
    rw [World.step, usable, h.locked, Bool.not_true, Bool.and_false, Bool.false_and]
    exact .inl h
  | logout e =>
    rw [World.step, usable, h.locked, Bool.not_true, Bool.and_false]
    exact .inl h
  | logoutComplete =>
    rw [World.step, h.logoutRuns]
    exact .inl h
  | finish id =>
    rw [World.step]
    split_ifs with hguard
    · exact .inl (h.finish (Bool.and_eq_true_iff.mp hguard).2)
    · exact .inl h

/-! ## Runs -/

def Broken (w : World) : Prop := w.Failed ∨ (∃ n m, w.Confused n m) ∨ ∃ n, w.Lost n

theorem Broken.step (h : w.Broken) (t : Step) : (w.step t).Broken := by
  rcases h with h | ⟨n, m, h⟩ | ⟨n, h⟩
  · exact .inl (h.step t)
  · rcases h.step t with h | h
    · exact .inr (.inl ⟨n, m, h⟩)
    · exact .inl h
  · rcases h.step t with h | ⟨m, h⟩
    · exact .inr (.inr ⟨n, h⟩)
    · exact .inr (.inl ⟨n, m, h⟩)

theorem Broken.foldl (h : w.Broken) (ts : List Step) : (ts.foldl World.step w).Broken := by
  induction ts generalizing w with
  | nil => exact h
  | cons t ts ih => exact ih (h.step t)

theorem Broken.not_sessionsOk (h : w.Broken) (hrest : w.AtRest) : ¬w.SessionsOk := by
  rcases h with h | ⟨n, m, h⟩ | ⟨n, h⟩
  · exact h.not_sessionsOk
  · exact fun hok => h.notRun ((hok.atRest hrest).1 n h.commands)
  · exact fun hok => h.notRun ((hok.atRest hrest).1 n h.commands)

theorem Changing.notRun (h : w.Changing n s) : n ∉ w.log.runs.map Prod.fst := by
  rw [h.ledger.map_runs, List.mem_range]
  exact lt_irrefl n

/-- In the other phases there is no handler of a change. -/
theorem Inv.changing (hw : w.Inv) (h : w.Registered ∨ w.Copied) : ∃ n s, w.Changing n s := by
  rw [registered_iff, copied_iff] at h
  have hnone : w.registered = 0 → w.copies = 0 → False := by omega
  rcases hw with hw | ⟨s, hw⟩ | hw | ⟨n, s, hw⟩
  · exact (hnone hw.registered hw.copies).elim
  · exact (hnone hw.registered hw.copies).elim
  · exact hw
  · exact (hnone hw.registered hw.copies).elim

theorem exists_of_removesCleanup {i : ℕ} (h : w.removesCleanup i = true) :
    ∃ hs, w.invocations[i]? = some (.search, .onThreadEndForModuleCleanup :: hs) := by
  unfold removesCleanup at h
  split at h
  · next hs hi => exact ⟨hs, hi⟩
  · nomatch h

/-- The handler of an earlier `Stop` removes the one of the change. -/
theorem Changing.lost (h : w.Changing n s) {i : ℕ} (hi : w.removesCleanup i = true)
    (hcopied : ¬w.Copied) : (w.step (.handle i)).Lost n := by
  obtain ⟨hs, hi⟩ := exists_of_removesCleanup hi
  rw [copied_iff] at hcopied
  have hone : w.registered = 1 ∧ w.copies = 0 := by
    rcases h.search with ⟨-, -, hr, hc⟩ | ⟨-, -, hc⟩
    · exact ⟨hr, hc⟩
    · omega
  have hstep : w.step (.handle i) = (w.pop i .search hs).removeCleanup .search := by
    rw [World.step, hi]
    exact handle_of_running (finished_of_pipe (w := w.pop i .search hs) h.pipeRuns)
  rw [hstep]
  exact {
    toSettled := (h.toSettled.pop hi).removeCleanup .search
    actions := h.actions
    completed := h.ledger.completed
    commands := h.commands ▸ Nat.lt_succ_self n
    notRun := h.notRun
    loginShown := h.loginShown
    logoutRuns := h.logoutRuns
    locked := h.locked
    pipeRuns := (removeCleanup_running _ .search .pipe).trans h.pipeRuns
    pipeTerm := (pipe_of_removeCleanup _ .search).trans h.pipeTerm
    registered := by
      rw [removeCleanup_registered, if_pos rfl]
      exact Nat.sub_eq_zero_of_le hone.1.le
    copies := (pop_copies hi).trans hone.2 }

/-- A step that is not orderly leaves something broken. -/
theorem Inv.broken (hw : w.Inv) (ht : ¬w.Orderly t) : (w.step t).Broken := by
  cases t with
  | disconnect =>
    simp only [Orderly, Classical.not_imp, not_and_or, not_not] at ht
    obtain ⟨hlogged, hlogout, hchange⟩ := ht
    obtain ⟨n, s, h⟩ := hw.changing hchange
    have hstep : w.step .disconnect = w.onDisconnect := by
      rw [World.step, hlogged, hlogout]
      rfl
    rw [hstep]
    exact .inr (.inl ⟨n, w.commands, confused_of_disconnect h.actions h.ledger.completed
      (h.commands ▸ Nat.lt_succ_self n) h.notRun h.loginShown h.pipeRuns⟩)
  | handle i =>
    simp only [Orderly, Classical.not_imp] at ht
    obtain ⟨hi, hregistered, hcopied⟩ := ht
    obtain ⟨n, s, h⟩ := hw.changing (.inl hregistered)
    exact .inr (.inr ⟨n, h.lost hi hcopied⟩)
  | _ => exact absurd trivial ht

/-- Once a step was not orderly, no later state at rest is well. -/
theorem not_sessionsOk_of_not_orderly {profile : ℤ} {admin : Bool} {ts₁ ts₂ : List Step}
    (h₁ : Session.Steps World.step (init profile admin) ts₁ Orderly)
    (ht : ¬(ts₁.foldl World.step (init profile admin)).Orderly t)
    (hrest : ((ts₁ ++ t :: ts₂).foldl World.step (init profile admin)).AtRest) :
    ¬((ts₁ ++ t :: ts₂).foldl World.step (init profile admin)).SessionsOk := by
  have hinv : (ts₁.foldl World.step (init profile admin)).Inv :=
    (Session.Always.of_steps (fun _ t _ hw ht => hw.step t ht) (inv_init profile admin) h₁).last
  rw [List.foldl_append, List.foldl_cons] at hrest ⊢
  exact ((hinv.broken ht).foldl ts₂).not_sessionsOk hrest

end World

end DreamDota.Loggedin
