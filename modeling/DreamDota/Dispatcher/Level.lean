import DreamDota.Dispatcher.Step

/-!
# The recursion guard

`DispatchedLevel` is meant to count the listener loops in progress. It does so along a run if and
only if `dispatch` is never called inside fifteen of them (`levelOk_iff`). At the limit the call
resets the level to 0 below fifteen loops that will each decrement it, so it wraps, and later calls
are turned away with no loop in progress (`dispatch_wraps`).
-/

namespace DreamDota

open Reentrant

variable {C : Client}

/-- The listener loops in progress. -/
def activeLoops (c : Machine C) : ℕ := c.infos.countP Dispatch.looping

/-- The level counts the loops in progress, it is 0 outside every dispatch, and a call inside fewer
than the maximal number of loops is served. -/
structure LevelOk (beh : ℕ → List C.User) (c : Machine C) : Prop where
  level_eq : c.globals.disp.dispatchedLevel.toNat = activeLoops c
  top_level : c.infos = [] → c.globals.disp.dispatchedLevel = 0
  served : ∀ evt tag, c.next = some (.dispatch evt tag) →
    activeLoops c < maxDispatchRecursiveLevel.toNat →
    (c.step beh).infos = c.globals.frame evt tag :: c.infos

/-- The next step is a call of `dispatch` inside the maximal number of loops. -/
def LimitCall (c : Machine C) : Prop :=
  (∃ evt tag, c.next = some (.dispatch evt tag)) ∧
    maxDispatchRecursiveLevel.toNat ≤ activeLoops c

/-- Below every active dispatch there are fewer than fifteen loops: it was not turned away. -/
def LoopsBounded : List (Dispatch C.Tag) → Prop
  | [] => True
  | _ :: fs => fs.countP Dispatch.looping < 15 ∧ LoopsBounded fs

/-- The level counts the loops in progress, and no loop is too deep. -/
def LevelCounts (fs : List (Dispatch C.Tag)) (g : Globals C) : Prop :=
  g.disp.dispatchedLevel.toNat = fs.countP Dispatch.looping ∧ LoopsBounded fs

theorem countP_modifyHead_discard (fs : List (Dispatch C.Tag)) :
    (fs.modifyHead Dispatch.discard).countP Dispatch.looping = fs.countP Dispatch.looping := by
  cases fs with
  | nil => rfl
  | cons f fs => rfl

theorem LoopsBounded.modifyHead_discard {fs : List (Dispatch C.Tag)} (h : LoopsBounded fs) :
    LoopsBounded (fs.modifyHead Dispatch.discard) := by
  cases fs with
  | nil => trivial
  | cons f fs => exact h

/-- The level counts the loops after every step that is not a call at the limit. -/
theorem LevelCounts.step {beh : ℕ → List C.User} {c : Machine C}
    (h : LevelCounts c.infos c.globals) (hok : ¬ LimitCall c) :
    LevelCounts (c.step beh).infos (c.step beh).globals := by
  obtain ⟨hl, hb⟩ := h
  refine Machine.infos_step (Ψ := LevelCounts) ⟨hl, hb⟩ ?turnAway ?begin (fun _ _ _ => ⟨hl, hb⟩)
    ?subscribe ?discard (fun _ => ⟨hl, hb⟩) (fun _ => ⟨hl, hb⟩) ?subscriber ?noEntry ?enterLoop
    ?listener ?leaveLoop
  case turnAway =>
    intro evt tag hn hlim
    exact absurd ⟨⟨evt, tag, hn⟩, Nat.le_trans (atLimit_iff.mp hlim) (Nat.le_of_eq hl)⟩ hok
  case begin =>
    intro evt tag _ hlim
    have hlt : c.infos.countP Dispatch.looping < 15 := by
      have := mt atLimit_iff.mpr (by rw [hlim]; simp)
      omega
    exact ⟨by simpa [Globals.begin, Globals.frame, Dispatch.begin, Dispatch.looping] using hl,
      hlt, hb⟩
  case subscribe =>
    intro callback _
    unfold Globals.subscribe Dispatcher.subscribe
    split_ifs <;> exact ⟨hl, hb⟩
  case discard =>
    intro _
    exact ⟨by rw [countP_modifyHead_discard]; exact hl, hb.modifyHead_discard⟩
  case subscriber =>
    intro f fs i _ hf hp _
    rw [hf] at hl hb
    exact ⟨by simpa [List.countP_cons, Dispatch.looping, hp] using hl, hb⟩
  case noEntry =>
    intro f fs i _ hf hp _ _ _
    rw [hf] at hl hb
    have hl' : c.globals.disp.dispatchedLevel.toNat = fs.countP Dispatch.looping := by
      simpa [List.countP_cons, Dispatch.looping, hp] using hl
    exact ⟨hl', hb.2⟩
  case enterLoop =>
    intro f fs i q _ hf hp _ _
    rw [hf] at hl hb
    have hlt := hb.1
    have hl' : c.globals.disp.dispatchedLevel.toNat = fs.countP Dispatch.looping := by
      simpa [List.countP_cons, Dispatch.looping, hp] using hl
    refine ⟨?_, hb⟩
    show (c.globals.disp.dispatchedLevel + 1).toNat = _
    rw [BitVec.toNat_add, hl', List.countP_cons]
    simp [Dispatch.looping]
    omega
  case listener =>
    intro f fs i callback _ hf hp _ _
    rw [hf] at hl hb
    exact ⟨by simpa [List.countP_cons, Dispatch.looping, hp, Dispatch.callListener] using hl, hb⟩
  case leaveLoop =>
    intro f fs i _ hf hp _ _
    rw [hf] at hl hb
    have hlt := hb.1
    have hl' : c.globals.disp.dispatchedLevel.toNat = fs.countP Dispatch.looping + 1 := by
      simpa [List.countP_cons, Dispatch.looping, hp] using hl
    refine ⟨?_, hb.2⟩
    show (c.globals.disp.dispatchedLevel - 1).toNat = _
    rw [BitVec.toNat_sub, hl']
    simp
    omega

/-- What the level counts is what the recursion guard needs. -/
theorem LevelCounts.levelOk {beh : ℕ → List C.User} {c : Machine C}
    (h : LevelCounts c.infos c.globals) : LevelOk beh c where
  level_eq := h.1
  top_level := by
    intro hc
    apply BitVec.eq_of_toNat_eq
    rw [h.1, hc]
    rfl
  served := by
    intro evt tag hn hlt
    have hl : c.globals.disp.atLimit = false := by
      rw [← Bool.not_eq_true, atLimit_iff, h.1]
      exact Nat.not_le.mpr hlt
    exact (Machine.step_begin hn hl).2

/-- A call at the limit loses the count. -/
theorem LevelOk.not_limitCall {beh : ℕ → List C.User} {c : Machine C} (h : LevelOk beh c)
    (h' : LevelOk beh (c.step beh)) : ¬ LimitCall c := by
  rintro ⟨⟨evt, tag, hn⟩, hlim⟩
  have hl : c.globals.disp.atLimit = true :=
    atLimit_iff.mpr (Nat.le_trans hlim (Nat.le_of_eq h.level_eq.symm))
  obtain ⟨hg, hi⟩ := Machine.step_turnAway beh hn hl
  have heq := h'.level_eq
  rw [hg, activeLoops, hi] at heq
  have h0 : (0 : ℕ) = activeLoops c := heq
  have : 15 ≤ activeLoops c := hlim
  omega

/-- **The recursion guard.** The level is exact along a run, and no call below the limit is turned
away, if and only if no call is made at the limit. -/
theorem levelOk_iff (client : C.State) (main : List C.User) (beh : ℕ → List C.User) :
    (∀ n, LevelOk beh (run client main beh n)) ↔ ∀ n, ¬ LimitCall (run client main beh n) := by
  have h0 : LevelCounts (Machine.init client main : Machine C).infos
      (Machine.init client main : Machine C).globals := ⟨rfl, trivial⟩
  refine Run.guarded_iff (P := LevelOk beh) (Q := fun c => ¬ LimitCall c)
    (K := fun c => LevelCounts c.infos c.globals) ?_ ?_ h0 h0.levelOk
  · intro c hk _ hok
    exact ⟨hk.step hok, (hk.step hok).levelOk⟩
  · intro c hk hp hp'
    have hok := hp.not_limitCall hp'
    exact ⟨hk.step hok, hok⟩

/-! ## A run that reaches the limit -/

/-- A program with nothing beside the dispatcher. -/
def Client.idle : Client := ⟨Unit, Unit, Unit, Unit, fun _ => (), fun _ _ _ => ([], ())⟩

/-- One listener, and two dispatches of its event. -/
def limitMain : List Client.idle.User :=
  [.listen 1000 7, .dispatch ⟨0, 1000⟩, .dispatch ⟨0, 1000⟩]

/-- The listener dispatches its own event fifteen times over. -/
def limitListeners (k : ℕ) : List Client.idle.User :=
  if k < 15 then [.dispatch ⟨0, 1000⟩] else []

/-- The fifteenth nested call is turned away. When the outermost dispatch has returned the level is
`2 ^ 32 - 15`, and the next call runs no listener. -/
theorem dispatch_wraps :
    ¬ (∀ n, LevelOk limitListeners (run () limitMain limitListeners n)) ∧
      (run () limitMain limitListeners 62).infos.length = 0 ∧
      (run () limitMain limitListeners 62).globals.disp.dispatchedLevel = 4294967281#32 ∧
      (run () limitMain limitListeners 63).infos.length = 0 := by
  have hlen : (run () limitMain limitListeners 62).infos.length = 0 := by decide +kernel
  have hlev :
      (run () limitMain limitListeners 62).globals.disp.dispatchedLevel = 4294967281#32 := by
    decide +kernel
  have hnext : (run () limitMain limitListeners 63).infos.length = 0 := by decide +kernel
  refine ⟨fun h => ?_, hlen, hlev, hnext⟩
  have h0 := (h 62).top_level (List.length_eq_zero_iff.mp hlen)
  rw [hlev] at h0
  exact absurd h0 (by decide)

end DreamDota
