import DreamDota.Lib.Session
import DreamDota.Timer.Ownership

/-!
# The timer handles of scripts

`ScriptNatives.cpp`, `ScriptTimer.h`: `CreateTimer` gives a script a userdata that holds a raw
pointer to a `ScriptTimer`, and two references in the registry that the destructor of the timer
releases. `DestoryTimer` marks the timer only, and `Timer_Update` deletes it if it finds it in the
queue.

A handle is the number of its `CreateTimer`. Scripts run as callbacks of timers, as tick callbacks
and from outside, and `beh` lists the calls of the `k`-th callback. The module's own code has pointers
to its own timers only. Everything happens inside one game.

`unrefs`, `destroyed` and `uses` are history.

1. `Sound`: what holds in every session.
2. `released_session`: a pass releases a destroyed timer or brings it forward in the queue.
3. `handlesOk_of_guarded`: the sessions whose calls meet a queued timer.
-/

namespace DreamDota

/-- A reference that `CreateTimer` takes in the registry. -/
inductive TimerRef where
  | callback (tm : TimerId)
  | userdata (tm : TimerId)
  deriving DecidableEq, Repr

def TimerRef.timer : TimerRef → TimerId
  | .callback tm | .userdata tm => tm

/-- What a script does with a handle. -/
inductive HandleCall where
  | startTimer
  | pauseTimer
  | destoryTimer
  | timerGetElapsed
  | timerGetRemaining
  | timerGetTimeout
  deriving DecidableEq, Repr

namespace HandleCall

/-- The call of the timer. -/
def op (tm : TimerId) : HandleCall → Option TimerOp
  | .startTimer => some (.start tm)
  | .pauseTimer => some (.pause tm)
  | .destoryTimer => some (.destroy tm)
  | .timerGetElapsed | .timerGetRemaining | .timerGetTimeout => none

/-- The milliseconds that the script gets, divided by 1000. -/
def answer (t : Timer) : HandleCall → Option (BitVec 32)
  | .timerGetElapsed => some t.elapsed
  | .timerGetRemaining => some t.remaining
  | .timerGetTimeout => some t.timeout
  | .startTimer | .pauseTimer | .destoryTimer => none

end HandleCall

/-- The calls of a callback. -/
inductive ScriptCall where
  | createTimer (interval : BitVec 32) (periodic : Bool)
  | handle (h : ℕ) (c : HandleCall)
  /-- A call of the module's own code. -/
  | own (o : TimerOp)

/-- A call that follows the pointer of a handle, and what it meets. -/
structure HandleUse where
  timer : TimerId
  call : HandleCall
  live : Bool
  destroyed : Bool
  queued : Bool
  answer : Option (BitVec 32)
  deriving DecidableEq, Repr

/-- A timer is destroyed, and used after that, only while it is in a queue. -/
def HandleUse.Guarded (u : HandleUse) : Prop :=
  (u.call = .destoryTimer ∨ u.destroyed = true) → u.queued = true

instance (u : HandleUse) : Decidable (u.Guarded) := inferInstanceAs (Decidable (_ → _))

structure ScriptTimers where
  timers : Timers
  /-- The timers that the handles point to. -/
  handles : List TimerId
  registry : List TimerRef
  /-- The calls of `luaL_unref`. -/
  unrefs : List TimerRef
  /-- The timers on whose handle `DestoryTimer` was called. -/
  destroyed : List TimerId
  uses : List HandleUse

/-- The calls that the callbacks make: by the function called and the number of the call. -/
abbrev ScriptBehaviour := TimerCallback → ℕ → List ScriptCall

/-- `ScriptTimerHandler`. -/
def scriptTimerHandler : TimerCallback := 0

namespace ScriptTimers

/-- The beginning of a game. -/
def init : ScriptTimers where
  timers := { Timers.init with inGame := true }
  handles := []
  registry := []
  unrefs := []
  destroyed := []
  uses := []

/-- A change of the timers. -/
def lift (f : Timers → Timers) (s : ScriptTimers) : ScriptTimers := { s with timers := f s.timers }

/-- The timers in the two queues, in the order in which the passes reach them. -/
def queue (s : ScriptTimers) : List TimerId := s.timers.timerQueue ++ s.timers.taskQueue

/-! ## The calls -/

/-- `CreateTimer`, after the check of its arguments. -/
def createTimer (s : ScriptTimers) (interval : BitVec 32) (periodic : Bool) : ScriptTimers :=
  let tm := s.timers.heap.length
  { s with
    timers := s.timers.perform (.new interval scriptTimerHandler periodic false)
    handles := s.handles ++ [tm]
    registry := s.registry ++ [.callback tm, .userdata tm] }

/-- A call on the handle of `tm`. -/
def useHandle (s : ScriptTimers) (tm : TimerId) (c : HandleCall) : ScriptTimers :=
  { s with
    timers := (c.op tm).elim s.timers s.timers.perform
    destroyed := if c = .destoryTimer then tm :: s.destroyed else s.destroyed
    uses := s.uses ++ [⟨tm, c, (s.timers.get tm).isSome, decide (tm ∈ s.destroyed),
      decide (tm ∈ s.queue), (s.timers.get tm).bind c.answer⟩] }

/-- What is no handle does not pass `luaL_checkudata`. -/
def call (s : ScriptTimers) : ScriptCall → ScriptTimers
  | .createTimer interval periodic => s.createTimer interval periodic
  | .handle h c => (s.handles[h]?).elim s fun tm => s.useHandle tm c
  | .own o => if o.target.all (· ∉ s.handles) then s.lift (·.perform o) else s

variable (beh : ScriptBehaviour)

def callback (s : ScriptTimers) (cb : TimerCallback) : ScriptTimers :=
  (beh cb s.timers.calls).foldl call (s.lift fun w => { w with calls := w.calls + 1 })

/-! ## `Timer_Update` -/

/-- `Timer::update`. -/
def update (time : BitVec 32) (s : ScriptTimers) (tm : TimerId) : ScriptTimers :=
  match s.timers.get tm with
  | none => s
  | some t =>
    if t.paused then
      s.lift fun w => (w.noteUpdate tm).modify tm fun t => { t with lastUpdateTime := time }
    else if (t.advance s.timers.timeRaw time).timeRemaining = 0 then
      ((s.lift fun w => ((w.noteUpdate tm).noteFired tm).modify tm
        (Timer.expire w.timeRaw time)).callback beh t.callback).lift (·.finish tm)
    else s.lift fun w => (w.noteUpdate tm).modify tm (Timer.advance w.timeRaw time)

/-- The timer is deleted. The destructor of a `ScriptTimer` releases its references, inside a game. -/
def delete (s : ScriptTimers) (tm : TimerId) (queue : List TimerId) : ScriptTimers :=
  if tm ∈ s.handles ∧ s.timers.inGame then
    { s.lift (·.delete tm queue) with
      registry := (s.registry.erase (.callback tm)).erase (.userdata tm)
      unrefs := s.unrefs ++ [.callback tm, .userdata tm] }
  else s.lift (·.delete tm queue)

/-- The loop of `Timer_Update`. -/
def pass (time : BitVec 32) : List TimerId → List TimerId → ScriptTimers → ScriptTimers
  | _, [], s => s
  | kept, tm :: rest, s =>
    if s.timers.disposed tm then pass time kept rest (s.delete tm (kept ++ rest))
    else
      let s' := s.update beh time tm
      if s'.timers.returnsZero tm && s'.timers.disposed tm then s'.delete tm (kept ++ rest)
      else pass time (kept ++ [tm]) rest s'

/-- `Timer_Update` up to its loop. -/
def beforePass (s : ScriptTimers) : ScriptTimers :=
  (s.timers.tickCallbacks.foldl (callback beh) s).lift Timers.doUpdateTasks

def timerUpdate (time : BitVec 32) (s : ScriptTimers) : ScriptTimers :=
  if s.timers.inGame then
    let s := s.beforePass beh
    pass beh time [] s.timers.timerQueue s
  else s

end ScriptTimers

/-- What happens inside a game. -/
inductive ScriptTimerEvent where
  | call (c : ScriptCall)
  | addTickCallback (cb : TimerCallback)
  | gameTime (d : ℕ)
  | timerUpdate (time : BitVec 32)

def ScriptTimerEvent.isUpdate : ScriptTimerEvent → Bool
  | .timerUpdate _ => true
  | _ => false

namespace ScriptTimers

variable (beh : ScriptBehaviour)

def event (s : ScriptTimers) : ScriptTimerEvent → ScriptTimers
  | .call c => s.call c
  | .addTickCallback cb =>
    s.lift fun w => { w with tickCallbacks := w.tickCallbacks ++ [cb] }
  | .gameTime d => s.lift (·.gameTime d)
  | .timerUpdate time => s.timerUpdate beh time

/-- The state after a session. -/
def session (events : List ScriptTimerEvent) : ScriptTimers := events.foldl (event beh) init

/-! ## The law -/

/-- What the claims about timer handles say of a state. -/
structure Ok (s : ScriptTimers) : Prop where
  live : ∀ u ∈ s.uses, u.live = true
  held : ∀ r : TimerRef, r.timer ∈ s.handles → r.timer ∉ s.destroyed →
    s.unrefs.count r = 0 ∧ s.registry.count r = 1
  once : ∀ r : TimerRef, r.timer ∈ s.destroyed →
    (s.unrefs.count r = 1 ∧ s.registry.count r = 0) ∨
      (s.unrefs.count r = 0 ∧ s.registry.count r = 1 ∧ r.timer ∈ s.queue)

/-- What the claims about timer handles say of a session. A destroyed timer is released by as many
updates as there are timers before it in the queues, and one more. -/
structure HandlesOk (events : List ScriptTimerEvent) : Prop where
  states : Session.Always (event beh) init events Ok
  released : ∀ pre rest, pre ++ rest <+: events → ∀ r : TimerRef,
    r.timer ∈ (session beh pre).destroyed →
      (session beh pre).queue.idxOf r.timer < rest.countP ScriptTimerEvent.isUpdate →
        (session beh (pre ++ rest)).unrefs.count r = 1

/-! ## What always holds -/

/-- What holds in every session. -/
structure Sound (s : ScriptTimers) : Prop where
  owned : Timers.Owned s.timers
  inGame : s.timers.inGame = true
  lt : ∀ tm ∈ s.handles, tm < s.timers.heap.length
  known : ∀ tm ∈ s.destroyed, tm ∈ s.handles
  flags : ∀ tm ∈ s.handles, ∀ t, s.timers.get tm = some t →
    t.autoDispose = false ∧ (t.disposed = true ↔ tm ∈ s.destroyed)
  gone : ∀ tm ∈ s.handles, s.timers.get tm = none → tm ∈ s.timers.deleted
  late : ∀ tm ∈ s.timers.deleted, tm ∈ s.handles → tm ∈ s.destroyed
  unrefs : ∀ r : TimerRef, r.timer ∈ s.handles →
    s.unrefs.count r = s.timers.deleted.count r.timer
  registry : ∀ r : TimerRef, r.timer ∈ s.handles →
    s.registry.count r + s.timers.deleted.count r.timer = 1
  foreign : ∀ r ∈ s.registry ++ s.unrefs, r.timer ∈ s.handles
  uses : ∀ u ∈ s.uses, u.live = false → u.destroyed = true ∧ u.queued = false
  added : (∀ u ∈ s.uses, u.Guarded) → ∀ tm ∈ s.destroyed, ∀ t, s.timers.get tm = some t →
    t.added = true

variable {beh} {s s' : ScriptTimers} {tm : TimerId} {t : Timer} {w : Timers}

theorem sound_init : Sound init where
  owned := ⟨⟨List.forall_mem_nil _, List.nodup_nil⟩, (fun _ _ h => by cases h),
    List.forall_mem_nil _, List.nodup_nil⟩
  inGame := rfl
  lt := List.forall_mem_nil _
  known := List.forall_mem_nil _
  flags := List.forall_mem_nil _
  gone := List.forall_mem_nil _
  late := List.forall_mem_nil _
  unrefs := fun _ h => absurd h List.not_mem_nil
  registry := fun _ h => absurd h List.not_mem_nil
  foreign := List.forall_mem_nil _
  uses := List.forall_mem_nil _
  added := fun _ => List.forall_mem_nil _

/-- A live timer is not released yet. -/
theorem Sound.count_deleted (h : Sound s) (hget : s.timers.get tm = some t) :
    s.timers.deleted.count tm = 0 := by
  refine List.count_eq_zero.mpr fun hm => ?_
  rw [(h.owned.gone tm hm).1] at hget
  cases hget

/-- Where every call met its guard, all timers that are used live, and those destroyed are released
or wait in a queue. -/
theorem Sound.ok (h : Sound s) (hg : ∀ u ∈ s.uses, u.Guarded) : Ok s where
  live := by
    intro u hu
    refine eq_true_of_ne_false fun hf => ?_
    obtain ⟨hd, hq⟩ := h.uses u hu hf
    rw [hg u hu (.inr hd)] at hq
    cases hq
  held := by
    intro r hr hn
    have hcount : s.timers.deleted.count r.timer = 0 :=
      List.count_eq_zero.mpr fun hm => hn (h.late _ hm hr)
    have hreg := h.registry r hr
    rw [hcount] at hreg
    exact ⟨(h.unrefs r hr).trans hcount, hreg⟩
  once := by
    intro r hr
    have hin := h.known _ hr
    have hun := h.unrefs r hin
    have hreg := h.registry r hin
    cases hget : s.timers.get r.timer with
    | none =>
      have hcount : s.timers.deleted.count r.timer = 1 :=
        List.count_eq_one_of_mem h.owned.once (h.gone _ hin hget)
      exact .inl ⟨hun.trans hcount, by omega⟩
    | some t =>
      have hcount := h.count_deleted hget
      exact .inr ⟨hun.trans hcount, by omega, h.owned.entered _ t hget (h.added hg _ hr t hget)⟩

/-- A change of the timers that deletes none, and neither destroys nor restores one of a script. -/
theorem Sound.timers {w : Timers} (h : Sound s) (howned : Timers.Owned w)
    (hkept : Timers.Kept s.timers w) (hgame : w.inGame = s.timers.inGame)
    (hflags : ∀ tm ∈ s.handles, ∀ t t', s.timers.get tm = some t → w.get tm = some t' →
      t'.autoDispose = t.autoDispose ∧ t'.disposed = t.disposed) :
    Sound { s with timers := w } where
  owned := howned
  inGame := hgame.trans h.inGame
  lt := fun tm hm => Nat.lt_of_lt_of_le (h.lt tm hm) hkept.length_le
  known := h.known
  flags := by
    intro tm hm t' hget'
    cases hget : s.timers.get tm with
    | none =>
      have hnone := hkept.gone tm (h.lt tm hm) hget
      rw [hget'] at hnone
      cases hnone
    | some t =>
      obtain ⟨ha, hd⟩ := hflags tm hm t t' hget hget'
      obtain ⟨ha', hd'⟩ := h.flags tm hm t hget
      exact ⟨ha.trans ha', by rw [hd]; exact hd'⟩
  gone := by
    intro tm hm hnone
    show tm ∈ w.deleted
    rw [hkept.deleted]
    refine h.gone tm hm ?_
    cases hget : s.timers.get tm with
    | none => rfl
    | some t =>
      obtain ⟨t', hget', -⟩ := hkept.survives tm t hget
      rw [show w.get tm = none from hnone] at hget'
      cases hget'
  late := by
    show ∀ tm ∈ w.deleted, _
    rw [hkept.deleted]
    exact h.late
  unrefs := by
    show ∀ r : TimerRef, _ → _ = w.deleted.count r.timer
    rw [hkept.deleted]
    exact h.unrefs
  registry := by
    show ∀ r : TimerRef, _ → _ + w.deleted.count r.timer = 1
    rw [hkept.deleted]
    exact h.registry
  foreign := h.foreign
  uses := h.uses
  added := by
    intro hg tm hm t' hget'
    cases hget : s.timers.get tm with
    | none =>
      have hnone := hkept.gone tm (h.lt tm (h.known tm hm)) hget
      rw [show w.get tm = some t' from hget'] at hnone
      cases hnone
    | some t =>
      obtain ⟨t'', hget'', -, ha⟩ := hkept.survives tm t hget
      obtain rfl : t'' = t' := Option.some.inj (hget''.symm.trans hget')
      exact ha (h.added hg tm hm t hget)

/-! ## The calls -/

theorem inGame_start (w : Timers) (tm : TimerId) : (w.start tm).inGame = w.inGame := by
  show (w.add tm).inGame = w.inGame
  unfold Timers.add
  split <;> [rfl; (split_ifs <;> rfl)]

theorem inGame_perform (w : Timers) (o : TimerOp) : (w.perform o).inGame = w.inGame := by
  cases o with
  | start tm | reset tm =>
    refine (inGame_start _ tm).trans ?_
    unfold Timers.noteStart
    split_ifs <;> rfl
  | _ => rfl

theorem inGame_finish (w : Timers) (tm : TimerId) : (w.finish tm).inGame = w.inGame := by
  unfold Timers.finish
  split
  · rfl
  · split_ifs
    · rfl
    · exact inGame_start _ tm
    · rfl
    · rfl

/-- A call that destroys no timer. -/
theorem effect_disposed {o : TimerOp} {timeRaw : BitVec 32} (ho : ∀ tm, o ≠ .destroy tm) :
    (o.effect timeRaw t).disposed = t.disposed := by
  cases o with
  | destroy tm => exact absurd rfl (ho tm)
  | start tm | reset tm =>
    show (Timer.start timeRaw t).disposed = t.disposed
    unfold Timer.start
    split_ifs <;> rfl
  | _ => rfl

/-- A call on a timer that is not a script's, or one that destroys none. -/
theorem Sound.perform {o : TimerOp} (h : Sound s)
    (ho : (∀ tm ∈ o.target, tm ∉ s.handles) ∨ ∀ tm, o ≠ .destroy tm) :
    Sound { s with timers := s.timers.perform o } := by
  refine h.timers (h.owned.perform o) (Timers.kept_perform _ o) (inGame_perform _ o)
    fun tm hm t t' hget hget' => ?_
  rw [Timers.get_perform o hget] at hget'
  obtain rfl := Option.some.inj hget'
  split_ifs with htarget
  · rcases ho with ho | ho
    · exact absurd hm (ho tm htarget)
    · exact ⟨(Timer.effect_fixed _ o t).2.1, effect_disposed ho⟩
  · exact ⟨rfl, rfl⟩

theorem Sound.createTimer (h : Sound s) (interval : BitVec 32) (periodic : Bool) :
    Sound (s.createTimer interval periodic) := by
  have hp : Sound { s with
      timers := s.timers.perform (.new interval scriptTimerHandler periodic false) } :=
    h.perform (.inl (fun _ hm => by cases hm))
  have hlen : (s.timers.perform (.new interval scriptTimerHandler periodic false)).heap.length =
      s.timers.heap.length + 1 := by simp [Timers.perform]
  have hget : (s.timers.perform (.new interval scriptTimerHandler periodic false)).get
      s.timers.heap.length = some (Timer.new interval scriptTimerHandler periodic false) := by
    simp [Timers.get, Timers.perform]
  have hnew : s.timers.heap.length ∉ s.handles := fun hm => Nat.lt_irrefl _ (h.lt _ hm)
  have hmem : ∀ tm, tm ∈ (s.createTimer interval periodic).handles →
      tm ∈ s.handles ∨ tm = s.timers.heap.length := by
    intro tm hm
    exact (List.mem_append.mp hm).imp_right List.mem_singleton.mp
  have hcount : s.timers.deleted.count s.timers.heap.length = 0 :=
    List.count_eq_zero.mpr fun hm => Nat.lt_irrefl _ (h.owned.gone _ hm).2
  have hfresh : ∀ (r : TimerRef) (l : List TimerRef), (∀ r ∈ l, r.timer ∈ s.handles) →
      r.timer = s.timers.heap.length → l.count r = 0 := by
    intro r l hl hr
    exact List.count_eq_zero.mpr fun hm => hnew (hr ▸ hl r hm)
  have hold : ∀ r : TimerRef, r.timer ∈ s.handles →
      [TimerRef.callback s.timers.heap.length, .userdata s.timers.heap.length].count r = 0 := by
    intro r hr
    refine List.count_eq_zero.mpr fun hm => hnew ?_
    rcases List.mem_pair.mp hm with rfl | rfl <;> exact hr
  refine ⟨hp.owned, hp.inGame, fun tm hm => ?_, fun tm hm => ?_, fun tm hm t ht => ?_,
    fun tm hm hn => ?_, fun tm hd hm => ?_, fun r hr => ?_, fun r hr => ?_, fun r hr => ?_, hp.uses,
    hp.added⟩
  · rcases hmem tm hm with hm | rfl
    · exact hp.lt tm hm
    · show _ < (s.timers.perform _).heap.length
      rw [hlen]
      exact Nat.lt_succ_self _
  · exact List.mem_append_left _ (h.known tm hm)
  · rcases hmem tm hm with hm | rfl
    · exact hp.flags tm hm t ht
    · obtain rfl := Option.some.inj (hget.symm.trans ht)
      exact ⟨rfl, iff_of_false Bool.false_ne_true fun hd => hnew (h.known _ hd)⟩
  · rcases hmem tm hm with hm | rfl
    · exact hp.gone tm hm hn
    · rw [show (s.timers.perform _).get _ = none from hn] at hget
      cases hget
  · rcases hmem tm hm with hm | rfl
    · exact hp.late tm hd hm
    · exact absurd (h.owned.gone _ hd).2 (Nat.lt_irrefl _)
  · rcases hmem _ hr with hr | hr
    · exact h.unrefs r hr
    · show s.unrefs.count r = s.timers.deleted.count r.timer
      rw [hr, hcount]
      exact hfresh r _ (fun r hr => h.foreign r (List.mem_append_right _ hr)) hr
  · show (s.registry ++ [_, _]).count r + s.timers.deleted.count r.timer = 1
    rw [List.count_append]
    rcases hmem _ hr with hr | hr
    · rw [hold r hr]
      exact h.registry r hr
    · rw [hr, hcount, hfresh r _ (fun r hr => h.foreign r (List.mem_append_left _ hr)) hr, ← hr]
      cases r <;> simp [TimerRef.timer]
  · show r.timer ∈ s.handles ++ _
    rcases List.mem_append.mp hr with hr | hr
    · rcases List.mem_append.mp hr with hr | hr
      · exact List.mem_append_left _ (h.foreign r (List.mem_append_left _ hr))
      · refine List.mem_append_right _ (List.mem_singleton.mpr ?_)
        rcases List.mem_pair.mp hr with rfl | rfl <;> rfl
    · exact List.mem_append_left _ (h.foreign r (List.mem_append_right _ hr))

/-- A pointer that leads nowhere is that of a destroyed timer in no queue. -/
theorem Sound.dangling (h : Sound s) (hm : tm ∈ s.handles) (hget : s.timers.get tm = none) :
    tm ∈ s.destroyed ∧ tm ∉ s.queue := by
  refine ⟨h.late tm (h.gone tm hm hget) hm, fun hq => ?_⟩
  obtain ⟨t, ht, -⟩ := h.owned.added tm hq
  rw [hget] at ht
  cases ht

/-- A call that destroys nothing is noted. -/
theorem Sound.note (h : Sound s) (hu : ∀ u ∈ s'.uses, u ∈ s.uses ∨
      (u.live = false → u.destroyed = true ∧ u.queued = false))
    (hsub : s.uses ⊆ s'.uses) (hs : s' = { s with uses := s'.uses }) : Sound s' := by
  rw [hs]
  exact ⟨h.owned, h.inGame, h.lt, h.known, h.flags, h.gone, h.late, h.unrefs, h.registry, h.foreign,
    fun u hm => (hu u hm).elim (h.uses u) id, fun hg => h.added fun u hm => hg u (hsub hm)⟩

theorem Sound.useHandle (h : Sound s) (hm : tm ∈ s.handles) (c : HandleCall) :
    Sound (s.useHandle tm c) := by
  have hdangling : ∀ u ∈ (s.useHandle tm c).uses, u ∈ s.uses ∨
      (u.live = false → u.destroyed = true ∧ u.queued = false) := by
    intro u hu
    refine (List.mem_append.mp hu).imp_right fun hu hlive => ?_
    obtain rfl := List.mem_singleton.mp hu
    have hnone : s.timers.get tm = none := by simpa using hlive
    obtain ⟨hd, hq⟩ := h.dangling hm hnone
    exact ⟨decide_eq_true hd, decide_eq_false hq⟩
  by_cases hc : c = .destoryTimer
  · subst hc
    have hkept : Timers.Kept s.timers (s.timers.perform (.destroy tm)) := Timers.kept_perform _ _
    have hget' : ∀ tm', (s.timers.perform (.destroy tm)).get tm' =
        if tm = tm' then (s.timers.get tm').map Timer.destroy else s.timers.get tm' :=
      fun tm' => Timers.get_modify s.timers tm tm' Timer.destroy
    have hsome : ∀ tm' t', (s.timers.perform (.destroy tm)).get tm' = some t' →
        ∃ t, s.timers.get tm' = some t ∧ t' = if tm = tm' then t.destroy else t := by
      intro tm' t' ht'
      rw [hget'] at ht'
      split_ifs at ht' ⊢
      · obtain ⟨t, ht, rfl⟩ := Option.map_eq_some_iff.mp ht'
        exact ⟨t, ht, rfl⟩
      · exact ⟨t', ht', rfl⟩
    refine ⟨h.owned.perform (.destroy tm), (inGame_perform s.timers (.destroy tm)).trans h.inGame,
      fun tm' hm' => Nat.lt_of_lt_of_le (h.lt tm' hm') hkept.length_le,
      List.forall_mem_cons.mpr ⟨hm, h.known⟩, fun tm' hm' t' ht' => ?_, fun tm' hm' hn => ?_,
      fun tm' hd hm' => List.mem_cons_of_mem _ (h.late tm' hd hm'), h.unrefs, h.registry, h.foreign,
      fun u hu => (hdangling u hu).elim (h.uses u) id, fun hg tm' hd t' ht' => ?_⟩
    · obtain ⟨t, hget, rfl⟩ := hsome tm' t' ht'
      obtain ⟨hauto, hdisposed⟩ := h.flags tm' hm' t hget
      by_cases htm : tm = tm'
      · subst htm
        rw [if_pos rfl]
        exact ⟨hauto, iff_of_true rfl List.mem_cons_self⟩
      · rw [if_neg htm]
        exact ⟨hauto, hdisposed.trans ⟨List.mem_cons_of_mem _,
          fun hm => (List.mem_cons.mp hm).resolve_left (Ne.symm htm)⟩⟩
    · refine h.gone tm' hm' ?_
      have hnone : (s.timers.perform (.destroy tm)).get tm' = none := hn
      rw [hget'] at hnone
      split_ifs at hnone
      · exact Option.map_eq_none_iff.mp hnone
      · exact hnone
    · obtain ⟨t, hget, rfl⟩ := hsome tm' t' ht'
      have hadded : t.added = true := by
        rcases List.mem_cons.mp hd with rfl | hd
        · -- the guard of this call: the timer is in a queue
          have hq := hg _ (List.mem_append_right _ (List.mem_singleton_self _)) (.inl rfl)
          obtain ⟨t', ht', ha⟩ := h.owned.added tm' (of_decide_eq_true hq)
          rw [Option.some.inj (hget.symm.trans ht')]
          exact ha
        · exact h.added (fun u hu => hg u (List.mem_append_left _ hu)) tm' hd t hget
      split_ifs <;> exact hadded
  · have hp : Sound { s with timers := (c.op tm).elim s.timers s.timers.perform } := by
      cases c with
      | destoryTimer => exact absurd rfl hc
      | startTimer => exact h.perform (o := .start tm) (.inr (fun _ hd => by cases hd))
      | pauseTimer => exact h.perform (o := .pause tm) (.inr (fun _ hd => by cases hd))
      | _ => exact h
    refine hp.note hdangling (List.subset_append_left _ _) ?_
    simp only [ScriptTimers.useHandle, if_neg hc]

theorem Sound.call (h : Sound s) (c : ScriptCall) : Sound (s.call c) := by
  cases c with
  | createTimer interval periodic => exact h.createTimer interval periodic
  | handle n c =>
    show Sound ((s.handles[n]?).elim s fun tm => s.useHandle tm c)
    cases hn : s.handles[n]? with
    | none => exact h
    | some tm => exact h.useHandle (List.mem_of_getElem? hn) c
  | own o =>
    show Sound (if o.target.all (· ∉ s.handles) then s.lift (·.perform o) else s)
    split_ifs with ho
    · refine h.perform (.inl fun tm htm => ?_)
      rw [htm] at ho
      simpa using ho
    · exact h

theorem Sound.foldl_call (h : Sound s) (cs : List ScriptCall) :
    Sound (cs.foldl ScriptTimers.call s) := by
  induction cs generalizing s with
  | nil => exact h
  | cons c cs ih => exact ih (h.call c)

/-- A change that reaches no timer. -/
theorem Sound.of_heap {w : Timers} (h : Sound s) (hh : w.heap = s.timers.heap)
    (hq : w.timerQueue = s.timers.timerQueue) (ht : w.taskQueue = s.timers.taskQueue)
    (hd : w.deleted = s.timers.deleted) (hg : w.inGame = s.timers.inGame) :
    Sound { s with timers := w } := by
  refine h.timers (h.owned.of_heap hh hq ht hd) (.of_heap hh hq hd) hg fun tm _ t t' hget hget' => ?_
  unfold Timers.get at hget hget'
  rw [hh] at hget'
  obtain rfl := Option.some.inj (hget.symm.trans hget')
  exact ⟨rfl, rfl⟩

theorem Sound.callback (h : Sound s) (cb : TimerCallback) : Sound (s.callback beh cb) := by
  have hcalls : Sound (s.lift fun w => { w with calls := w.calls + 1 }) :=
    h.of_heap rfl rfl rfl rfl rfl
  exact hcalls.foldl_call _

/-! ## `Timer_Update` -/

/-- A change of one timer that neither destroys it nor adds it. -/
theorem Sound.modify (h : Sound s) (tm : TimerId) {f : Timer → Timer}
    (hf : ∀ t, (f t).autoDispose = t.autoDispose ∧ (f t).disposed = t.disposed ∧
      (f t).added = t.added) : Sound (s.lift (·.modify tm f)) := by
  have hkept : Timers.Kept s.timers (s.timers.modify tm f) :=
    Timers.kept_modify _ tm (fun t hd => (hf t).2.1.trans hd) (fun t ha => (hf t).2.2.trans ha)
  refine h.timers ?_ hkept rfl fun tm' _ t t' hget hget' => ?_
  · exact h.owned.kept hkept (h.owned.toQueued.congr hkept rfl)
      (h.owned.entered.modify tm fun t => (hf t).2.2)
  · rw [Timers.get_modify, hget] at hget'
    split_ifs at hget'
    · obtain rfl := Option.some.inj hget'
      exact ⟨(hf t).1, (hf t).2.1⟩
    · obtain rfl := Option.some.inj hget'
      exact ⟨rfl, rfl⟩

/-- A script's timer does not dispose of itself when it expires. -/
theorem finish_fixed {timeRaw : BitVec 32} (ha : t.autoDispose = false) :
    (t.finish timeRaw).autoDispose = t.autoDispose ∧ (t.finish timeRaw).disposed = t.disposed := by
  unfold Timer.finish
  split_ifs with hd hp hauto
  · exact ⟨rfl, rfl⟩
  · unfold Timer.start
    split_ifs <;> exact ⟨rfl, rfl⟩
  · rw [ha] at hauto
    cases hauto
  · exact ⟨rfl, rfl⟩

theorem Sound.finish (h : Sound s) (tm : TimerId) : Sound (s.lift (·.finish tm)) := by
  refine h.timers ?_ (Timers.kept_finish _ tm) (inGame_finish _ tm) fun tm' hm t t' hget hget' => ?_
  · exact h.owned.kept (Timers.kept_finish _ tm) (h.owned.toQueued.finish tm)
      (h.owned.entered.finish tm)
  · by_cases htm : tm = tm'
    · subst htm
      rw [Timers.get_finish_self hget] at hget'
      obtain rfl := Option.some.inj hget'
      exact finish_fixed (h.flags tm hm t hget).1
    · rw [Timers.get_finish_other htm, hget] at hget'
      obtain rfl := Option.some.inj hget'
      exact ⟨rfl, rfl⟩

theorem Sound.update (time : BitVec 32) (h : Sound s) (tm : TimerId) :
    Sound (s.update beh time tm) := by
  unfold ScriptTimers.update
  have hnote : Sound (s.lift (·.noteUpdate tm)) := h.of_heap rfl rfl rfl rfl rfl
  split
  · exact h
  · split_ifs
    · exact hnote.modify tm (fun _ => ⟨rfl, rfl, rfl⟩)
    · have hfired : Sound ((s.lift (·.noteUpdate tm)).lift (·.noteFired tm)) :=
        hnote.of_heap rfl rfl rfl rfl rfl
      refine Sound.finish (Sound.callback ?_ _) tm
      exact hfired.modify tm (fun _ => ⟨rfl, rfl, rfl⟩)
    · exact hnote.modify tm (fun _ => ⟨rfl, rfl, rfl⟩)

theorem count_refs (tm : TimerId) (r : TimerRef) :
    [TimerRef.callback tm, .userdata tm].count r = if tm = r.timer then 1 else 0 := by
  cases r with
  | callback tm' | userdata tm' =>
    by_cases h : tm = tm' <;> simp [TimerRef.timer, h]

/-- A timer of the first queue is deleted, which is disposed. -/
theorem Sound.delete {kept rest : List TimerId} (h : Sound s)
    (hq : s.timers.timerQueue = kept ++ tm :: rest) (hd : s.timers.disposed tm = true) :
    Sound (s.delete tm (kept ++ rest)) := by
  have howned : Timers.Owned (s.timers.delete tm (kept ++ rest)) := h.owned.delete hq
  obtain ⟨t, hget, -⟩ := h.owned.added tm (by rw [hq]; simp)
  have hdisposed : t.disposed = true := by
    unfold Timers.disposed at hd
    rwa [hget] at hd
  have hdestroyed : tm ∈ s.handles → tm ∈ s.destroyed :=
    fun hm => (h.flags tm hm t hget).2.mp hdisposed
  have hcount : ∀ tm', (s.timers.deleted ++ [tm]).count tm' =
      s.timers.deleted.count tm' + if tm = tm' then 1 else 0 := by
    intro tm'
    rw [List.count_append, List.count_singleton]
    simp only [beq_iff_eq]
  have hflags : ∀ tm' ∈ s.handles, ∀ t, (s.timers.delete tm (kept ++ rest)).get tm' = some t →
      t.autoDispose = false ∧ (t.disposed = true ↔ tm' ∈ s.destroyed) := by
    intro tm' hm t' ht'
    rw [Timers.get_delete] at ht'
    split_ifs at ht'
    exact h.flags tm' hm t' ht'
  have hgone : ∀ tm' ∈ s.handles, (s.timers.delete tm (kept ++ rest)).get tm' = none →
      tm' ∈ s.timers.deleted ++ [tm] := by
    intro tm' hm hn
    rw [Timers.get_delete] at hn
    split_ifs at hn with htm
    · exact List.mem_append_right _ (List.mem_singleton.mpr htm.symm)
    · exact List.mem_append_left _ (h.gone tm' hm hn)
  have hlate : ∀ tm' ∈ s.timers.deleted ++ [tm], tm' ∈ s.handles → tm' ∈ s.destroyed := by
    intro tm' hd' hm
    rcases List.mem_append.mp hd' with hd' | hd'
    · exact h.late tm' hd' hm
    · obtain rfl := List.mem_singleton.mp hd'
      exact hdestroyed hm
  have hlt : ∀ tm' ∈ s.handles, tm' < (s.timers.delete tm (kept ++ rest)).heap.length := by
    intro tm' hm
    simpa [Timers.delete] using h.lt tm' hm
  have hadded : (∀ u ∈ s.uses, u.Guarded) → ∀ tm' ∈ s.destroyed, ∀ t,
      (s.timers.delete tm (kept ++ rest)).get tm' = some t → t.added = true := by
    intro hg tm' hm t' ht'
    rw [Timers.get_delete] at ht'
    split_ifs at ht'
    exact h.added hg tm' hm t' ht'
  unfold ScriptTimers.delete
  by_cases hm : tm ∈ s.handles
  · rw [if_pos ⟨hm, h.inGame⟩]
    have hzero := h.count_deleted hget
    refine ⟨howned, h.inGame, hlt, h.known, hflags, hgone, hlate, fun r hr => ?_, fun r hr => ?_,
      fun r hr => ?_, h.uses, hadded⟩
    · show (s.unrefs ++ [TimerRef.callback tm, .userdata tm]).count r =
        (s.timers.deleted ++ [tm]).count r.timer
      rw [List.count_append, hcount, count_refs, h.unrefs r hr]
    · have hold := h.registry r hr
      have hone := count_refs tm r
      rw [List.count_cons, List.count_cons, List.count_nil, Nat.zero_add] at hone
      show ((s.registry.erase (.callback tm)).erase (.userdata tm)).count r +
        (s.timers.deleted ++ [tm]).count r.timer = 1
      rw [hcount, List.count_erase, List.count_erase]
      by_cases htm : tm = r.timer
      · rw [← htm, hzero] at hold
        rw [if_pos htm] at hone ⊢
        rw [← htm, hzero]
        omega
      · rw [if_neg htm] at hone ⊢
        omega
    · rcases List.mem_append.mp hr with hr | hr
      · exact h.foreign r (List.mem_append_left _
          (List.mem_of_mem_erase (List.mem_of_mem_erase hr)))
      · rcases List.mem_append.mp hr with hr | hr
        · exact h.foreign r (List.mem_append_right _ hr)
        · rcases List.mem_pair.mp hr with rfl | rfl <;> exact hm
  · rw [if_neg (fun hc => hm hc.1)]
    refine ⟨howned, h.inGame, hlt, h.known, hflags, hgone, hlate, fun r hr => ?_, fun r hr => ?_,
      h.foreign, h.uses, hadded⟩
    · show s.unrefs.count r = (s.timers.deleted ++ [tm]).count r.timer
      rw [hcount, if_neg (fun heq : tm = r.timer => hm (heq ▸ hr))]
      exact h.unrefs r hr
    · show s.registry.count r + (s.timers.deleted ++ [tm]).count r.timer = 1
      rw [hcount, if_neg (fun heq : tm = r.timer => hm (heq ▸ hr))]
      exact h.registry r hr

/-! ## What a callback leaves -/

/-- Between `s` and `s'` no timer is deleted, and the queues grow at the end. -/
structure Onward (s s' : ScriptTimers) : Prop where
  kept : Timers.Kept s.timers s'.timers
  tasks : s.timers.taskQueue <+: s'.timers.taskQueue
  destroyed : s.destroyed ⊆ s'.destroyed
  uses : s.uses ⊆ s'.uses

theorem Onward.refl (s : ScriptTimers) : Onward s s :=
  ⟨.refl _, List.prefix_rfl, List.Subset.refl _, List.Subset.refl _⟩

theorem Onward.trans {s'' : ScriptTimers} (h : Onward s s') (h' : Onward s' s'') : Onward s s'' :=
  ⟨h.kept.trans h'.kept, h.tasks.trans h'.tasks, List.Subset.trans h.destroyed h'.destroyed,
    List.Subset.trans h.uses h'.uses⟩

theorem onward_lift {f : Timers → Timers} (hk : Timers.Kept s.timers (f s.timers))
    (ht : s.timers.taskQueue <+: (f s.timers).taskQueue) : Onward s (s.lift f) :=
  ⟨hk, ht, List.Subset.refl _, List.Subset.refl _⟩

theorem tasks_start (w : Timers) (tm : TimerId) : w.taskQueue <+: (w.start tm).taskQueue := by
  rw [Timers.taskQueue_start]
  split_ifs
  · exact List.prefix_append _ _
  · exact List.prefix_rfl

theorem tasks_perform (w : Timers) (o : TimerOp) : w.taskQueue <+: (w.perform o).taskQueue := by
  cases o with
  | start tm | reset tm =>
    have hnote : (w.noteStart tm).taskQueue = w.taskQueue := by
      unfold Timers.noteStart
      split_ifs <;> rfl
    rw [← hnote]
    exact tasks_start _ tm
  | _ => exact List.prefix_rfl

theorem tasks_finish (w : Timers) (tm : TimerId) : w.taskQueue <+: (w.finish tm).taskQueue := by
  unfold Timers.finish
  split
  · exact List.prefix_rfl
  · split_ifs
    · exact List.prefix_rfl
    · exact tasks_start (w.modify tm fun t => { t with execCount := t.execCount + 1 }) tm
    · exact List.prefix_rfl
    · exact List.prefix_rfl

theorem onward_useHandle (s : ScriptTimers) (tm : TimerId) (c : HandleCall) :
    Onward s (s.useHandle tm c) := by
  have hdestroyed : s.destroyed ⊆ (s.useHandle tm c).destroyed := by
    unfold ScriptTimers.useHandle
    dsimp only
    split_ifs
    · exact List.subset_cons_self _ _
    · exact List.Subset.refl _
  have htimers : (s.useHandle tm c).timers = (c.op tm).elim s.timers s.timers.perform := rfl
  refine ⟨?_, ?_, hdestroyed, List.subset_append_left _ _⟩
  · rw [htimers]
    cases c.op tm with
    | none => exact .refl _
    | some o => exact Timers.kept_perform _ o
  · rw [htimers]
    cases c.op tm with
    | none => exact List.prefix_rfl
    | some o => exact tasks_perform _ o

theorem onward_call (s : ScriptTimers) (c : ScriptCall) : Onward s (s.call c) := by
  cases c with
  | createTimer interval periodic =>
    exact ⟨Timers.kept_perform s.timers (.new interval scriptTimerHandler periodic false),
      List.prefix_rfl, List.Subset.refl _, List.Subset.refl _⟩
  | handle n c =>
    show Onward s ((s.handles[n]?).elim s fun tm => s.useHandle tm c)
    cases s.handles[n]? with
    | none => exact .refl s
    | some tm => exact onward_useHandle s tm c
  | own o =>
    show Onward s (if o.target.all (· ∉ s.handles) then s.lift (·.perform o) else s)
    split_ifs
    · exact onward_lift (Timers.kept_perform _ _) (tasks_perform _ _)
    · exact .refl s

theorem onward_callback (s : ScriptTimers) (cb : TimerCallback) : Onward s (s.callback beh cb) := by
  have key : ∀ (cs : List ScriptCall) (s : ScriptTimers), Onward s (cs.foldl call s) := by
    intro cs
    induction cs with
    | nil => exact .refl
    | cons c cs ih => exact fun s => (onward_call s c).trans (ih _)
  have hcalls : Onward s (s.lift fun w => { w with calls := w.calls + 1 }) :=
    onward_lift (.of_heap rfl rfl rfl) List.prefix_rfl
  exact hcalls.trans (key _ _)

theorem onward_modify (s : ScriptTimers) (tm : TimerId) {f : Timer → Timer}
    (hf : ∀ t, (f t).disposed = t.disposed ∧ (f t).added = t.added) :
    Onward s (s.lift (·.modify tm f)) :=
  onward_lift (Timers.kept_modify _ tm (fun t hd => (hf t).1.trans hd)
    fun t ha => (hf t).2.trans ha) List.prefix_rfl

theorem onward_update (time : BitVec 32) (s : ScriptTimers) (tm : TimerId) :
    Onward s (s.update beh time tm) := by
  unfold ScriptTimers.update
  have hnote : Onward s (s.lift (·.noteUpdate tm)) :=
    onward_lift (.of_heap rfl rfl rfl) List.prefix_rfl
  split
  · exact .refl s
  · split_ifs
    · exact hnote.trans (onward_modify _ tm (fun _ => ⟨rfl, rfl⟩))
    · have hfired : Onward s ((s.lift (·.noteUpdate tm)).lift (·.noteFired tm)) :=
        hnote.trans (onward_lift (.of_heap rfl rfl rfl) List.prefix_rfl)
      have hexpired := hfired.trans (onward_modify _ tm (f := Timer.expire s.timers.timeRaw time)
        (fun _ => ⟨rfl, rfl⟩))
      exact (hexpired.trans (@onward_callback beh _ _)).trans
        (onward_lift (Timers.kept_finish _ tm) (tasks_finish _ tm))
    · exact hnote.trans (onward_modify _ tm (fun _ => ⟨rfl, rfl⟩))

/-- The queues only grow at the end, so the timers in them stay where they are. -/
theorem Onward.queue (h : Onward s s') : s.queue <+: s'.queue := by
  unfold ScriptTimers.queue
  rw [h.kept.timerQueue]
  exact (List.prefix_append_right_inj _).mpr h.tasks

theorem timerQueue_delete (s : ScriptTimers) (tm : TimerId) (queue : List TimerId) :
    (s.delete tm queue).timers = s.timers.delete tm queue := by
  unfold ScriptTimers.delete
  split_ifs <;> rfl

theorem Onward.idxOf (h : Onward s s') (hm : tm ∈ s.queue) :
    s'.queue.idxOf tm = s.queue.idxOf tm := by
  obtain ⟨extra, hextra⟩ := h.queue
  rw [← hextra]
  exact List.idxOf_append_of_mem hm

theorem Onward.disposed (h : Onward s s') (hd : s.timers.disposed tm = true) :
    s'.timers.disposed tm = true := by
  obtain ⟨t, hget, hdisposed⟩ := (Option.any_eq_true _ _).mp hd
  obtain ⟨t', hget', hkeep, -⟩ := h.kept.survives tm t hget
  exact (Option.any_eq_true _ _).mpr ⟨t', hget', hkeep hdisposed⟩

/-! ## The passes -/

/-- The pass meets the timers of its queue while they exist. -/
theorem Sound.pass (time : BitVec 32) (todo kept : List TimerId) (h : Sound s)
    (hq : s.timers.timerQueue = kept ++ todo) : Sound (ScriptTimers.pass beh time kept todo s) := by
  induction todo generalizing kept s with
  | nil => exact h
  | cons tm rest ih =>
    have hu : (s.update beh time tm).timers.timerQueue = kept ++ tm :: rest :=
      (onward_update time s tm).kept.timerQueue.trans hq
    rw [ScriptTimers.pass]
    simp only
    split_ifs with hd hend
    · exact ih kept (h.delete hq hd) (by rw [timerQueue_delete]; rfl)
    · exact (h.update time tm).delete hu (Bool.and_eq_true_iff.mp hend).2
    · exact ih (kept ++ [tm]) (h.update time tm) (by rw [hu]; simp)

/-- The tick callbacks run one after the other. -/
theorem Sound.foldl_callback (beh : ScriptBehaviour) (cbs : List TimerCallback) (h : Sound s) :
    Sound (cbs.foldl (ScriptTimers.callback beh) s) ∧
      Onward s (cbs.foldl (ScriptTimers.callback beh) s) := by
  induction cbs generalizing s with
  | nil => exact ⟨h, .refl s⟩
  | cons cb cbs ih =>
    obtain ⟨hs, hon⟩ := ih (h.callback cb)
    exact ⟨hs, (onward_callback s cb).trans hon⟩

theorem Sound.beforePass (h : Sound s) : Sound (s.beforePass beh) := by
  obtain ⟨hall, -⟩ := h.foldl_callback beh s.timers.tickCallbacks
  unfold ScriptTimers.beforePass
  exact ⟨hall.owned.doUpdateTasks, hall.inGame, hall.lt, hall.known, hall.flags, hall.gone, hall.late,
    hall.unrefs, hall.registry, hall.foreign, hall.uses, hall.added⟩

theorem Sound.timerUpdate (time : BitVec 32) (h : Sound s) : Sound (s.timerUpdate beh time) := by
  unfold ScriptTimers.timerUpdate
  rw [if_pos h.inGame]
  exact h.beforePass.pass time _ [] rfl

theorem Sound.event (h : Sound s) (e : ScriptTimerEvent) : Sound (s.event beh e) := by
  cases e with
  | call c => exact h.call c
  | addTickCallback cb => exact h.of_heap rfl rfl rfl rfl rfl
  | gameTime d => exact h.of_heap rfl rfl rfl rfl rfl
  | timerUpdate time => exact h.timerUpdate time

/-! ## When a destroyed timer is released -/

/-- What an update of the timers adds. -/
structure Later (s s' : ScriptTimers) : Prop where
  deleted : s.timers.deleted ⊆ s'.timers.deleted
  destroyed : s.destroyed ⊆ s'.destroyed
  uses : s.uses ⊆ s'.uses

theorem Later.refl (s : ScriptTimers) : Later s s :=
  ⟨List.Subset.refl _, List.Subset.refl _, List.Subset.refl _⟩

theorem Later.trans {s'' : ScriptTimers} (h : Later s s') (h' : Later s' s'') : Later s s'' :=
  ⟨List.Subset.trans h.deleted h'.deleted, List.Subset.trans h.destroyed h'.destroyed,
    List.Subset.trans h.uses h'.uses⟩

theorem Onward.later (h : Onward s s') : Later s s' :=
  ⟨by rw [h.kept.deleted]; exact List.Subset.refl _, h.destroyed, h.uses⟩

theorem later_delete (s : ScriptTimers) (tm : TimerId) (queue : List TimerId) :
    Later s (s.delete tm queue) := by
  unfold ScriptTimers.delete
  split_ifs
  · exact ⟨List.subset_append_left _ _, List.Subset.refl _, List.Subset.refl _⟩
  · exact ⟨List.subset_append_left _ _, List.Subset.refl _, List.Subset.refl _⟩

theorem mem_deleted_delete (s : ScriptTimers) (tm : TimerId) (queue : List TimerId) :
    tm ∈ (s.delete tm queue).timers.deleted := by
  rw [timerQueue_delete]
  exact List.mem_append_right _ (List.mem_singleton_self _)

theorem later_pass (time : BitVec 32) (todo kept : List TimerId) (s : ScriptTimers) :
    Later s (pass beh time kept todo s) := by
  induction todo generalizing kept s with
  | nil => exact .refl s
  | cons tm rest ih =>
    have hu : Later s (s.update beh time tm) := (onward_update time s tm).later
    rw [ScriptTimers.pass]
    simp only
    split_ifs
    · exact (later_delete s tm _).trans (ih _ _)
    · exact hu.trans (later_delete _ tm _)
    · exact hu.trans (ih _ _)

/-- A timer moves forward when one before it leaves. -/
theorem idxOf_lt {kept rest tasks tasks' : List TimerId} {x : TimerId} (hm : tm ∈ rest)
    (hk : tm ∉ kept) (hx : x ≠ tm) :
    (kept ++ rest ++ tasks').idxOf tm < (kept ++ x :: rest ++ tasks).idxOf tm := by
  rw [List.append_assoc, List.append_assoc, List.idxOf_append_of_notMem hk,
    List.idxOf_append_of_notMem hk, List.cons_append, List.idxOf_cons_ne _ hx,
    List.idxOf_append_of_mem hm, List.idxOf_append_of_mem hm]
  omega

/-- A pass that has a disposed timer before it deletes the timer, or ends before it and brings it
forward. -/
theorem pass_releases (time : BitVec 32) (todo kept : List TimerId) (h : Sound s)
    (hq : s.timers.timerQueue = kept ++ todo) (hm : tm ∈ todo)
    (hd : s.timers.disposed tm = true) :
    tm ∈ (pass beh time kept todo s).timers.deleted ∨
      (pass beh time kept todo s).queue.idxOf tm < s.queue.idxOf tm := by
  induction todo generalizing kept s with
  | nil => cases hm
  | cons x rest ih =>
    have hkept : tm ∉ kept := by
      have hnd := (List.nodup_append.mp h.owned.nodup).1
      rw [hq] at hnd
      exact fun hk => (List.nodup_append.mp hnd).2.2 tm hk tm hm rfl
    have hqueue : s.queue = kept ++ x :: rest ++ s.timers.taskQueue := by rw [queue, hq]
    have hon : Onward s (s.update beh time x) := onward_update time s x
    have hu : (s.update beh time x).timers.timerQueue = kept ++ x :: rest :=
      hon.kept.timerQueue.trans hq
    rw [ScriptTimers.pass]
    simp only
    by_cases hx : x = tm
    · subst hx
      rw [if_pos hd]
      exact .inl ((later_pass time rest kept _).deleted (mem_deleted_delete s x _))
    · have hrest : tm ∈ rest := (List.mem_cons.mp hm).resolve_left (Ne.symm hx)
      split_ifs with hdx hend
      · have hs := h.delete hq hdx
        have hq' : (s.delete x (kept ++ rest)).timers.timerQueue = kept ++ rest := by
          rw [timerQueue_delete]
          rfl
        have hd' : (s.delete x (kept ++ rest)).timers.disposed tm = true := by
          rw [timerQueue_delete, Timers.disposed, Timers.get_delete, if_neg hx]
          exact hd
        refine (ih kept hs hq' hrest hd').imp_right fun hlt => Nat.lt_trans hlt ?_
        rw [hqueue, queue, hq']
        exact idxOf_lt hrest hkept hx
      · right
        rw [queue, timerQueue_delete, hqueue]
        exact idxOf_lt hrest hkept hx
      · have hd' : (s.update beh time x).timers.disposed tm = true := hon.disposed hd
        have hin : tm ∈ s.queue := by
          rw [hqueue]
          exact List.mem_append_left _ (List.mem_append_right _ hm)
        rw [← hon.idxOf hin]
        exact ih (kept ++ [x]) (h.update time x) (by rw [hu]; simp) hrest hd'

/-- An update of the timers releases a disposed timer, or brings it forward. -/
theorem timerUpdate_releases (time : BitVec 32) (h : Sound s) (hm : tm ∈ s.queue)
    (hd : s.timers.disposed tm = true) :
    tm ∈ (s.timerUpdate beh time).timers.deleted ∨
      (s.timerUpdate beh time).queue.idxOf tm < s.queue.idxOf tm := by
  obtain ⟨-, hon⟩ := h.foldl_callback beh s.timers.tickCallbacks
  have hqueue : (s.beforePass beh).queue =
      (s.timers.tickCallbacks.foldl (callback beh) s).queue := List.append_nil _
  have hm' : tm ∈ (s.beforePass beh).timers.timerQueue := hon.queue.subset hm
  have hd' : (s.beforePass beh).timers.disposed tm = true := hon.disposed hd
  unfold ScriptTimers.timerUpdate
  rw [if_pos h.inGame, ← hon.idxOf hm, ← hqueue]
  exact pass_releases time _ [] h.beforePass rfl hm' hd'

theorem later_event (beh : ScriptBehaviour) (h : Sound s) (e : ScriptTimerEvent) :
    Later s (s.event beh e) := by
  cases e with
  | call c => exact (onward_call s c).later
  | addTickCallback cb | gameTime d =>
    exact ⟨List.Subset.refl _, List.Subset.refl _, List.Subset.refl _⟩
  | timerUpdate time =>
    obtain ⟨-, hon⟩ := h.foldl_callback beh s.timers.tickCallbacks
    have hbefore : Later s (s.beforePass beh) :=
      ⟨hon.later.deleted, hon.later.destroyed, hon.later.uses⟩
    show Later s (s.timerUpdate beh time)
    unfold ScriptTimers.timerUpdate
    rw [if_pos h.inGame]
    exact hbefore.trans (later_pass time _ [] _)

theorem later_foldl (beh : ScriptBehaviour) (h : Sound s) (events : List ScriptTimerEvent) :
    Sound (events.foldl (event beh) s) ∧ Later s (events.foldl (event beh) s) := by
  induction events generalizing s with
  | nil => exact ⟨h, .refl s⟩
  | cons e events ih =>
    obtain ⟨hs, hl⟩ := ih (h.event e)
    exact ⟨hs, (later_event beh h e).trans hl⟩

/-- A destroyed timer that was started is deleted after as many updates as there are timers before
it, and one more. -/
theorem released_foldl (h : Sound s) (events : List ScriptTimerEvent)
    (hg : ∀ u ∈ (events.foldl (event beh) s).uses, u.Guarded) (hm : tm ∈ s.destroyed)
    (hidx : tm ∈ s.timers.deleted ∨
      s.queue.idxOf tm < events.countP ScriptTimerEvent.isUpdate) :
    tm ∈ (events.foldl (event beh) s).timers.deleted := by
  induction events generalizing s with
  | nil => exact hidx.resolve_right (Nat.not_lt_zero _)
  | cons e events ih =>
    have hlater := later_event beh h e
    have hrest : Later (s.event beh e) (events.foldl (event beh) (s.event beh e)) :=
      (later_foldl beh (h.event e) events).2
    refine ih (h.event e) hg (hlater.destroyed hm) ?_
    rcases hidx with hdel | hidx
    · exact .inl (hlater.deleted hdel)
    · cases hget : s.timers.get tm with
      | none => exact .inl (hlater.deleted (h.gone tm (h.known tm hm) hget))
      | some t =>
        have hguard : ∀ u ∈ s.uses, u.Guarded := fun u hu =>
          hg u (hrest.uses (hlater.uses hu))
        have hq : tm ∈ s.queue := h.owned.entered tm t hget (h.added hguard tm hm t hget)
        have hd : s.timers.disposed tm = true :=
          (Option.any_eq_true _ _).mpr ⟨t, hget, (h.flags tm (h.known tm hm) t hget).2.mpr hm⟩
        cases e with
        | timerUpdate time =>
          refine (timerUpdate_releases time h hq hd).imp_right fun hlt => ?_
          have hcount : (ScriptTimerEvent.timerUpdate time :: events).countP
              ScriptTimerEvent.isUpdate = events.countP ScriptTimerEvent.isUpdate + 1 :=
            List.countP_cons_of_pos rfl
          rw [hcount] at hidx
          exact Nat.lt_of_lt_of_le hlt (Nat.lt_succ_iff.mp hidx)
        | call c =>
          right
          rw [show (s.event beh (.call c)).queue.idxOf tm = _ from (onward_call s c).idxOf hq]
          rwa [List.countP_cons_of_neg (by simp [ScriptTimerEvent.isUpdate])] at hidx
        | addTickCallback cb =>
          rw [List.countP_cons_of_neg (by simp [ScriptTimerEvent.isUpdate])] at hidx
          exact .inr hidx
        | gameTime d =>
          rw [List.countP_cons_of_neg (by simp [ScriptTimerEvent.isUpdate])] at hidx
          exact .inr hidx

/-- **Timer handles.** In a session in which every timer that is destroyed, or used after that, is in
a queue at that moment, no call follows a pointer to a deleted timer, and the references of a timer
are released once if it is destroyed, by the updates that follow, and not before. -/
theorem handlesOk_of_guarded (beh : ScriptBehaviour) (events : List ScriptTimerEvent)
    (h : ∀ u ∈ (session beh events).uses, u.Guarded) : HandlesOk beh events := by
  have hpre : ∀ pre, pre <+: events → Sound (session beh pre) ∧
      ∀ u ∈ (session beh pre).uses, u.Guarded := by
    rintro pre ⟨rest, rfl⟩
    have hs : Sound (session beh pre) := (later_foldl beh sound_init pre).1
    refine ⟨hs, fun u hu => h u ?_⟩
    unfold session
    rw [List.foldl_append]
    exact (later_foldl beh hs rest).2.uses hu
  constructor
  · exact fun pre hp => (hpre pre hp).1.ok (hpre pre hp).2
  · intro pre rest hp r hr hidx
    obtain ⟨hs, -⟩ := hpre pre ((List.prefix_append _ _).trans hp)
    obtain ⟨hs', hg'⟩ := hpre (pre ++ rest) hp
    have hfold : session beh (pre ++ rest) = rest.foldl (event beh) (session beh pre) :=
      List.foldl_append
    have hdel : r.timer ∈ (session beh (pre ++ rest)).timers.deleted := by
      rw [hfold] at hg' ⊢
      exact released_foldl hs rest hg' hr (.inr hidx)
    have hdestroyed : r.timer ∈ (session beh (pre ++ rest)).destroyed := by
      rw [hfold]
      exact (later_foldl beh hs rest).2.destroyed hr
    rw [hs'.unrefs r (hs'.known _ hdestroyed)]
    exact List.count_eq_one_of_mem hs'.owned.once hdel

/-! ## Three sessions -/

/-- The first callback destroys its own timer, looks at it, and starts another one. -/
def selfDestroying : ScriptBehaviour := fun _ k =>
  if k = 0 then
    [.handle 0 .destoryTimer, .handle 0 .timerGetElapsed, .createTimer 5 true,
      .handle 1 .startTimer]
  else []

theorem handlesOk_selfDestroying :
    HandlesOk selfDestroying
      [.call (.createTimer 10 false), .call (.handle 0 .startTimer), .call (.own (.new 3 7 true true)),
        .call (.own (.start 1)), .gameTime 10, .timerUpdate 10, .gameTime 5, .timerUpdate 15,
        .call (.handle 1 .pauseTimer), .call (.handle 1 .destoryTimer), .timerUpdate 15,
        .call (.handle 2 .startTimer)] :=
  handlesOk_of_guarded _ _ (by decide +kernel)

/-- A script looks at a timer that it destroyed before the last update. -/
def lateSession : List ScriptTimerEvent :=
  [.call (.createTimer 10 false), .call (.handle 0 .startTimer), .call (.handle 0 .destoryTimer),
    .timerUpdate 0, .call (.handle 0 .timerGetElapsed)]

/-- A script destroys a timer that it never started. -/
def neverStarted : List ScriptTimerEvent :=
  [.call (.createTimer 10 false), .call (.handle 0 .destoryTimer), .timerUpdate 0, .timerUpdate 0]

/-- The first script reads a deleted object. The timer of the second one is in no queue, so nothing
deletes it or releases its references. -/
theorem handle_outlives_timer :
    ¬ HandlesOk (fun _ _ => []) lateSession ∧ ¬ HandlesOk (fun _ _ => []) neverStarted := by
  refine ⟨fun h => ?_, fun h => ?_⟩
  · have hlive := h.states.last.live
      ⟨0, .timerGetElapsed, false, true, false, none⟩ (by decide +kernel)
    cases hlive
  · have honce := h.released (neverStarted.take 2) (neverStarted.drop 2) List.prefix_rfl
      (.callback 0) (by decide +kernel) (by decide +kernel)
    exact absurd honce (by decide +kernel)

end ScriptTimers

end DreamDota
