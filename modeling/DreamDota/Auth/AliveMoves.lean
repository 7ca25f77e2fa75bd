import DreamDota.Lib.Threads
import Mathlib.Tactic.Common

/-!
# The keep-alive thread as tokens

What matters for the lifetime of the keep-alive threads: how many threads are at each place, and a
few numbers about the object that `AliveThread` points to. A Boolean is 0 or 1. The threads of
objects that `AliveThread` does not point to any more are not counted.

`Move`: what a step can do to the tokens. `Move.ok`: every move keeps `Ok`, in which at most one of
three things is going on: a login that creates the object, a failure or a logout that destroys it.
-/

namespace DreamDota

open Threads

namespace Auth

/-- Where a thread is. What differs in the points of a place does not matter here. -/
inductive Place
  -- `Logout`
  | logoutTest
  | logoutRemove
  | logoutSignal
  | logoutStart
  -- the logout thread and `onLogoutThreadComplete`
  | logoutWork
  | logoutHandle
  | logoutWait
  | logoutJoin
  | logoutDelete
  | logoutNull
  -- `onLoginThreadComplete`
  | loginCheck
  | addAlive
  | runAlive
  -- the keep-alive thread and `onAliveThreadComplete`
  | aliveWork
  | aliveInvoke
  | aliveHandle
  | aliveDelete
  | aliveNull
  | aliveExit
  | other
  deriving DecidableEq

/-- The places where a thread uses `AliveThread` or its object. -/
def Place.uses : Place → Bool
  | .logoutRemove | .logoutSignal | .addAlive | .runAlive | .aliveDelete => true
  | .logoutWait | .logoutJoin | .logoutDelete => true
  | _ => false

/-- `null` says that `AliveThread` is `NULL`, `gone` how often its object was destroyed, and
`handlers`, `thread` and `ended` are of its object. -/
structure Counts where
  n : Place → ℕ
  null : ℕ
  loggedIn : ℕ
  logoutThread : ℕ
  handlers : ℕ
  thread : ℕ
  ended : ℕ
  gone : ℕ

namespace Counts

variable (v : Counts)

/-- A thread goes from `a` to `bs`. -/
def go (a : Place) (bs : List Place) : Counts := { v with n := fire v.n a bs }

/-- The caller is in `Logout` and has found itself logged in. -/
def leaving : ℕ := v.n .logoutRemove + v.n .logoutSignal + v.n .logoutStart

/-- The completions of the logout thread. -/
def completing : ℕ :=
  v.n .logoutHandle + v.n .logoutWait + v.n .logoutJoin + v.n .logoutDelete + v.n .logoutNull

def creating : ℕ := v.n .addAlive + v.n .runAlive

def working : ℕ := v.n .aliveWork + v.n .aliveInvoke

def failing : ℕ := v.n .aliveHandle + v.n .aliveDelete + v.n .aliveNull

/-- The handler was removed. -/
def removed : ℕ := v.n .logoutSignal + v.n .logoutStart + v.n .logoutWork + v.completing

/-- The object is destroyed, or about to be, and nobody is logged in. -/
def ending : ℕ :=
  v.n .aliveDelete + v.n .aliveNull + v.n .logoutWait + v.n .logoutJoin + v.n .logoutDelete +
    v.n .logoutNull

structure Ok : Prop where
  thread_eq : v.thread ≤ 1 ∧ (v.thread = 1 ↔ 0 < v.n .aliveWork)
  logoutThread_eq : v.logoutThread ≤ 1 ∧ (v.logoutThread = 1 ↔ 0 < v.n .logoutWork)
  handlers_le : v.handlers ≤ 1
  -- one at a time
  one_caller : v.n .logoutTest + v.leaving ≤ 1
  one_logout : v.n .logoutWork + v.completing ≤ 1
  one_thread : v.creating + v.working + v.failing ≤ 1
  alone : 0 < v.creating + v.failing → v.leaving + v.n .logoutWork + v.completing = 0
  leave : 0 < v.leaving → v.completing = 0
  start : 0 < v.n .logoutStart → v.n .logoutWork = 0
  -- the object
  null_eq : v.null ≤ 1 ∧ (v.null = 1 → v.creating + v.working + v.failing + v.leaving +
    v.n .logoutWork + v.completing + v.n .aliveExit = 0)
  gone_eq : v.null = 0 → v.gone = v.n .aliveNull + v.n .logoutNull
  handled : 0 < v.n .addAlive + v.removed → v.handlers = 0
  unhandled : v.null = 0 → v.handlers = 0 → 0 < v.n .addAlive + v.removed
  needed : v.null = 0 → 0 < v.creating + v.working + v.failing + v.removed
  loggedIn_eq : 0 < v.loggedIn → (v.null = 0 ∧ v.ending = 0) ∨ 0 < v.n .loginCheck
  -- its thread
  stopped : 0 < v.n .logoutDelete + v.n .logoutNull → v.thread = 0
  returned : 0 < v.n .aliveExit + v.ended → v.creating + v.working = 0
  joined : 0 < v.n .logoutJoin → 0 < v.working + v.n .aliveExit + v.ended

/-- A thread goes from `a`, and the threads of the object that `AliveThread` pointed to are not
counted any more. -/
structure Nulled (n : Place → ℕ) (a : Place) (n' : Place → ℕ) : Prop where
  work : n' .aliveWork = 0
  invoke : n' .aliveInvoke = 0
  exit : n' .aliveExit = 0
  rest : ∀ p, p ≠ .aliveWork → p ≠ .aliveInvoke → p ≠ .aliveExit → p ≠ .other →
    n' p = fire n a [] p

/-- `Logout`. -/
inductive CallerMove (v : Counts) : Place → Counts → Prop
  | leave : CallerMove v .logoutTest (v.go .logoutTest [])
  | enter (hloggedIn : 0 < v.loggedIn) (hcheck : v.n .loginCheck = 0) (hcreate : v.creating = 0)
    (hfail : v.failing = 0) (hcomplete : v.completing = 0) :
    CallerMove v .logoutTest (v.go .logoutTest [.logoutRemove])
  | remove : CallerMove v .logoutRemove
    { v.go .logoutRemove [.logoutSignal] with handlers := v.handlers - 1 }
  | started (h : v.logoutThread = 1) : CallerMove v .logoutSignal (v.go .logoutSignal [])
  | run (h : v.logoutThread = 0) :
    CallerMove v .logoutSignal (v.go .logoutSignal [.logoutStart])
  | start : CallerMove v .logoutStart
    { v.go .logoutStart [.logoutWork] with logoutThread := 1 }

/-- The logout thread. -/
inductive LogoutMove (v : Counts) : Place → Counts → Prop
  | clearThread (h : v.leaving = 0) : LogoutMove v .logoutWork
    { v.go .logoutWork [.logoutHandle] with logoutThread := 0 }
  | handle : LogoutMove v .logoutHandle
    { v.go .logoutHandle [.logoutWait] with loggedIn := 0 }
  | wait (h : v.thread = 1) : LogoutMove v .logoutWait (v.go .logoutWait [.logoutJoin])
  | noWait (h : v.thread = 0) : LogoutMove v .logoutWait (v.go .logoutWait [.logoutDelete])
  | join (h : v.ended = 1) : LogoutMove v .logoutJoin (v.go .logoutJoin [.logoutDelete])
  | delete : LogoutMove v .logoutDelete
    { v.go .logoutDelete [.logoutNull] with gone := v.gone + 1 }

/-- `onLoginThreadComplete`. -/
inductive LoginMove (v : Counts) : Place → Counts → Prop
  | handle (b : ℕ) : LoginMove v .other { v.go .other [.loginCheck] with loggedIn := b }
  | failed (h : v.loggedIn = 0) : LoginMove v .loginCheck (v.go .loginCheck [])
  | new (h : v.null = 1) : LoginMove v .loginCheck
    { v.go .loginCheck [.addAlive] with
      null := 0
      handlers := 0
      thread := 0
      ended := 0
      gone := 0 }
  | add : LoginMove v .addAlive
    { v.go .addAlive [.runAlive] with handlers := v.handlers + 1 }
  | started (h : v.thread = 1) : LoginMove v .runAlive (v.go .runAlive [])
  | start : LoginMove v .runAlive { v.go .runAlive [.aliveWork] with thread := 1 }

/-- The keep-alive thread. -/
inductive AliveMove (v : Counts) : Place → Counts → Prop
  | clearThread : AliveMove v .aliveWork { v.go .aliveWork [.aliveInvoke] with thread := 0 }
  | invoke (h : 0 < v.handlers → v.n .logoutRemove = 0) : AliveMove v .aliveInvoke
    (v.go .aliveInvoke (List.replicate v.handlers .aliveHandle ++ [.aliveExit]))
  | handle : AliveMove v .aliveHandle { v.go .aliveHandle [.aliveDelete] with loggedIn := 0 }
  | delete : AliveMove v .aliveDelete
    { v.go .aliveDelete [.aliveNull] with gone := v.gone + 1 }
  | exit : AliveMove v .aliveExit { v.go .aliveExit [] with ended := 1 }

/-- What a step of a thread can do, that is at the place. -/
inductive Move (v : Counts) : Place → Counts → Prop
  | caller {a : Place} {v' : Counts} (h : CallerMove v a v') : Move v a v'
  | logout {a : Place} {v' : Counts} (h : LogoutMove v a v') : Move v a v'
  | login {a : Place} {v' : Counts} (h : LoginMove v a v') : Move v a v'
  | alive {a : Place} {v' : Counts} (h : AliveMove v a v') : Move v a v'
  | null {a : Place} {n' : Place → ℕ} (ha : a = .aliveNull ∨ a = .logoutNull)
    (h : Nulled v.n a n') :
    Move v a { v with n := n', null := 1, handlers := 0, thread := 0, ended := 0, gone := 0 }
  | within (a : Place) {bs : List Place} (h : ∀ p ∈ bs, p = .other) : Move v a (v.go a (a :: bs))
  | elsewhere {bs : List Place} (h : ∀ p ∈ bs, p = .other) : Move v .other (v.go .other bs)

attribute [local grind =] go leaving completing creating working failing removed ending

/-- What a move does to the number at a place. -/
@[grind =] theorem go_n (a : Place) (bs : List Place) (p : Place) :
    (v.go a bs).n p = v.n p - (if p = a then 1 else 0) + bs.count p := rfl

variable {v} {a : Place} {v' : Counts}

/-- What is at no place of interest does not matter. -/
theorem Ok.congr {v' : Counts} (hv : v.Ok)
    (h : ∃ m, v' = { v with n := m } ∧ ∀ p, p ≠ .other → m p = v.n p) : v'.Ok := by
  obtain ⟨m, rfl, hm⟩ := h
  obtain ⟨n, null, loggedIn, logoutThread, handlers, thread, ended, gone⟩ := v
  cases hv
  simp only [leaving, completing, creating, working, failing, removed, ending] at *
  constructor <;> simp (disch := decide) only [leaving, completing, creating, working, failing,
    removed, ending, hm] <;> assumption

theorem go_self (ha : 0 < v.n a) {bs : List Place} (h : ∀ p ∈ bs, p = .other) :
    ∃ m, v.go a (a :: bs) = { v with n := m } ∧ ∀ p, p ≠ .other → m p = v.n p := by
  refine ⟨_, rfl, fun p hp => ?_⟩
  have hcount : bs.count p = 0 := List.count_eq_zero.mpr fun hmem => hp (h p hmem)
  unfold fire
  rw [List.count_cons, hcount]
  by_cases heq : p = a
  · subst heq
    simp
    omega
  · simp [heq, beq_eq_false_iff_ne.mpr (Ne.symm heq)]

theorem go_other {bs : List Place} (h : ∀ p ∈ bs, p = .other) :
    ∃ m, v.go .other bs = { v with n := m } ∧ ∀ p, p ≠ .other → m p = v.n p := by
  refine ⟨_, rfl, fun p hp => ?_⟩
  have hcount : bs.count p = 0 := List.count_eq_zero.mpr fun hmem => hp (h p hmem)
  unfold fire
  rw [hcount, if_neg hp, Nat.sub_zero, Nat.add_zero]

/-! A move keeps every clause that speaks neither of its places nor of the numbers that it changes.
The other clauses are listed, with the ones that they follow from. -/

theorem CallerMove.ok (hv : v.Ok) (ha : 0 < v.n a) (h : CallerMove v a v') : v'.Ok := by
  cases h with
  | leave =>
    exact { hv with
      one_caller := by grind [hv.one_caller] }
  | enter hloggedIn hcheck hcreate hfail hcomplete =>
    exact { hv with
      one_caller := by grind [hv.one_caller]
      alone := by grind
      leave := by grind
      null_eq := by grind [hv.loggedIn_eq] }
  | remove =>
    exact { hv with
      handlers_le := by grind [hv.handlers_le]
      one_caller := by grind [hv.one_caller]
      alone := fun hpos => by grind [hv.alone hpos]
      leave := fun _ => hv.leave (by grind)
      null_eq := by grind [hv.null_eq]
      handled := by grind [hv.handlers_le]
      unhandled := by grind
      needed := by grind }
  | started h =>
    exact { hv with
      one_caller := by grind [hv.one_caller]
      alone := fun hpos => by grind [hv.alone hpos]
      leave := fun _ => hv.leave (by grind)
      null_eq := by grind [hv.null_eq]
      handled := by grind [hv.handled]
      unhandled := by grind [hv.logoutThread_eq]
      needed := by grind [hv.logoutThread_eq] }
  | run h =>
    exact { hv with
      one_caller := by grind [hv.one_caller]
      alone := fun hpos => by grind [hv.alone hpos]
      leave := fun _ => hv.leave (by grind)
      start := by grind [hv.logoutThread_eq]
      null_eq := by grind [hv.null_eq]
      handled := by grind [hv.handled]
      unhandled := by grind
      needed := by grind }
  | start =>
    exact { hv with
      logoutThread_eq := by grind
      one_caller := by grind [hv.one_caller]
      one_logout := by grind [hv.leave (by grind), hv.start ha]
      alone := fun hpos => by grind [hv.alone hpos]
      leave := fun _ => hv.leave (by grind)
      start := by grind [hv.one_caller]
      null_eq := by grind [hv.null_eq]
      handled := by grind [hv.handled]
      unhandled := by grind
      needed := by grind }

theorem LogoutMove.ok (hv : v.Ok) (ha : 0 < v.n a) (h : LogoutMove v a v') : v'.Ok := by
  cases h with
  | clearThread h =>
    exact { hv with
      logoutThread_eq := by grind [hv.one_logout]
      one_logout := by grind [hv.one_logout]
      alone := fun hpos => by grind [hv.alone hpos]
      leave := by grind
      start := by grind
      null_eq := by grind [hv.null_eq]
      handled := by grind [hv.handled]
      unhandled := by grind
      needed := by grind }
  | handle =>
    exact { hv with
      one_logout := by grind [hv.one_logout]
      alone := fun hpos => by grind [hv.alone hpos]
      leave := fun hpos => by grind [hv.leave hpos]
      null_eq := by grind [hv.null_eq]
      handled := by grind [hv.handled]
      unhandled := by grind
      needed := by grind
      loggedIn_eq := by grind }
  | wait h =>
    exact { hv with
      one_logout := by grind [hv.one_logout]
      alone := fun hpos => by grind [hv.alone hpos]
      leave := fun hpos => by grind [hv.leave hpos]
      null_eq := by grind [hv.null_eq]
      handled := by grind [hv.handled]
      unhandled := by grind
      needed := by grind
      loggedIn_eq := by grind [hv.loggedIn_eq]
      joined := by grind [hv.thread_eq] }
  | noWait h =>
    exact { hv with
      one_logout := by grind [hv.one_logout]
      alone := fun hpos => by grind [hv.alone hpos]
      leave := fun hpos => by grind [hv.leave hpos]
      null_eq := by grind [hv.null_eq]
      handled := by grind [hv.handled]
      unhandled := by grind
      needed := by grind
      loggedIn_eq := by grind [hv.loggedIn_eq]
      stopped := by grind }
  | join h =>
    exact { hv with
      one_logout := by grind [hv.one_logout]
      alone := fun hpos => by grind [hv.alone hpos]
      leave := fun hpos => by grind [hv.leave hpos]
      null_eq := by grind [hv.null_eq]
      handled := by grind [hv.handled]
      unhandled := by grind
      needed := by grind
      loggedIn_eq := by grind [hv.loggedIn_eq]
      stopped := by grind [hv.thread_eq, hv.returned (by omega)]
      joined := by grind }
  | delete =>
    exact { hv with
      one_logout := by grind [hv.one_logout]
      alone := fun hpos => by grind [hv.alone hpos]
      leave := fun hpos => by grind [hv.leave hpos]
      null_eq := by grind [hv.null_eq]
      gone_eq := by grind [hv.gone_eq]
      handled := by grind [hv.handled]
      unhandled := by grind
      needed := by grind
      loggedIn_eq := by grind [hv.loggedIn_eq]
      stopped := by grind [hv.stopped] }

theorem LoginMove.ok (hv : v.Ok) (ha : 0 < v.n a) (h : LoginMove v a v') : v'.Ok := by
  cases h with
  | handle b =>
    exact { hv with
      loggedIn_eq := by grind }
  | failed h =>
    exact { hv with
      loggedIn_eq := by grind }
  | new h =>
    exact { hv with
      thread_eq := by grind [hv.null_eq]
      handlers_le := by grind
      one_thread := by grind [hv.null_eq]
      alone := by grind [hv.null_eq]
      null_eq := by grind
      gone_eq := by grind [hv.null_eq]
      handled := by grind
      unhandled := by grind
      needed := by grind
      loggedIn_eq := by grind [hv.null_eq]
      stopped := by grind
      returned := by grind [hv.null_eq]
      joined := by grind [hv.null_eq] }
  | add =>
    exact { hv with
      handlers_le := by grind [hv.handled]
      one_thread := by grind [hv.one_thread]
      alone := fun _ => hv.alone (by grind)
      null_eq := by grind [hv.null_eq]
      handled := by grind [hv.one_thread, hv.alone (by grind)]
      unhandled := by grind
      needed := by grind
      returned := fun hpos => by grind [hv.returned hpos] }
  | started h =>
    exact { hv with
      one_thread := by grind [hv.one_thread]
      alone := fun _ => hv.alone (by grind)
      null_eq := by grind [hv.null_eq]
      needed := by grind [hv.thread_eq]
      returned := fun hpos => by grind [hv.returned hpos] }
  | start =>
    exact { hv with
      thread_eq := by grind
      one_thread := by grind [hv.one_thread]
      alone := fun _ => hv.alone (by grind)
      null_eq := by grind [hv.null_eq]
      needed := by grind
      stopped := fun _ => by grind [hv.alone (by grind)]
      returned := fun hpos => by grind [hv.returned hpos]
      joined := by grind }

theorem AliveMove.ok (hv : v.Ok) (ha : 0 < v.n a) (h : AliveMove v a v') : v'.Ok := by
  cases h with
  | clearThread =>
    exact { hv with
      thread_eq := by grind [hv.one_thread]
      one_thread := by grind [hv.one_thread]
      null_eq := by grind [hv.null_eq]
      needed := by grind
      stopped := by grind
      returned := fun hpos => by grind [hv.returned hpos]
      joined := by grind }
  | invoke h =>
    exact { hv with
      thread_eq := by grind [hv.thread_eq]
      logoutThread_eq := by grind [hv.logoutThread_eq]
      one_caller := by grind [hv.one_caller]
      one_logout := by grind [hv.one_logout]
      one_thread := by grind [hv.handlers_le, hv.one_thread]
      alone := by grind [hv.alone, hv.handled]
      leave := fun _ => by grind [hv.leave (by grind)]
      start := by grind [hv.start]
      null_eq := by grind [hv.null_eq]
      gone_eq := by grind [hv.gone_eq]
      handled := by grind [hv.handled]
      unhandled := fun hnull hnone => by grind [hv.unhandled hnull hnone]
      needed := by grind [hv.handled, hv.unhandled]
      loggedIn_eq := by grind [hv.loggedIn_eq]
      stopped := by grind [hv.stopped]
      returned := by grind [hv.one_thread]
      joined := by grind }
  | handle =>
    exact { hv with
      one_thread := by grind [hv.one_thread]
      alone := fun _ => hv.alone (by grind)
      null_eq := by grind [hv.null_eq]
      needed := by grind
      loggedIn_eq := by grind }
  | delete =>
    exact { hv with
      one_thread := by grind [hv.one_thread]
      alone := fun _ => hv.alone (by grind)
      null_eq := by grind [hv.null_eq]
      gone_eq := by grind [hv.gone_eq]
      needed := by grind
      loggedIn_eq := by grind [hv.loggedIn_eq] }
  | exit =>
    exact { hv with
      null_eq := by grind [hv.null_eq]
      returned := fun _ => hv.returned (by grind)
      joined := by grind }

/-- Whoever stores `NULL` is the last one that has to do with the object. -/
theorem Nulled.nobody {n' : Place → ℕ} (hv : v.Ok) (ha : 0 < v.n a)
    (hnull : a = .aliveNull ∨ a = .logoutNull) (h : Nulled v.n a n') :
    creating { v with n := n' } + failing { v with n := n' } + leaving { v with n := n' } +
      n' .logoutWork + completing { v with n := n' } = 0 := by
  obtain ⟨-, -, -, hrest⟩ := h
  unfold creating failing leaving completing
  simp (disch := decide) only [hrest, fire, List.count_nil, Nat.add_zero]
  rcases hnull with rfl | rfl
  · have halone := hv.alone (by grind)
    grind [hv.one_thread]
  · have hleave := hv.leave
    have halone := hv.alone
    grind [hv.one_logout]

theorem Nulled.ok {n' : Place → ℕ} (hv : v.Ok) (ha : 0 < v.n a)
    (hnull : a = .aliveNull ∨ a = .logoutNull) (h : Nulled v.n a n') :
    Ok { v with n := n', null := 1, handlers := 0, thread := 0, ended := 0, gone := 0 } := by
  have hnobody := h.nobody hv ha hnull
  obtain ⟨hwork, hinvoke, hexit, hrest⟩ := h
  have htest : n' .logoutTest = v.n .logoutTest := by grind [fire]
  have hcheck : n' .loginCheck = v.n .loginCheck := by grind [fire]
  have hlogout : n' .logoutWork = v.n .logoutWork := by grind [fire]
  exact {
    thread_eq := by grind
    logoutThread_eq := by grind [hv.logoutThread_eq]
    handlers_le := by grind
    one_caller := by grind [hv.one_caller]
    one_logout := by grind
    one_thread := by grind
    alone := by grind
    leave := by grind
    start := by grind
    null_eq := by grind
    gone_eq := by grind
    handled := by grind
    unhandled := by grind
    needed := by grind
    loggedIn_eq := by grind [hv.loggedIn_eq, hv.null_eq]
    stopped := by grind
    returned := by grind
    joined := by grind }

theorem Move.ok (hv : v.Ok) (ha : 0 < v.n a) (h : Move v a v') : v'.Ok := by
  cases h with
  | caller h => exact h.ok hv ha
  | logout h => exact h.ok hv ha
  | login h => exact h.ok hv ha
  | alive h => exact h.ok hv ha
  | null hnull h => exact h.ok hv ha hnull
  | within a h => exact hv.congr (go_self ha h)
  | elsewhere h => exact hv.congr (go_other h)

/-- The caller begins a `Logout`. -/
theorem Ok.issue (hv : v.Ok) (hcaller : v.n .logoutTest + v.leaving = 0) {n' : Place → ℕ}
    (hn : n' = fun p => v.n p + if p = .logoutTest then 1 else 0) : Ok { v with n := n' } := by
  subst hn
  cases hv
  simp only [leaving, completing, creating, working, failing, removed, ending] at *
  constructor <;> simp only [leaving, completing, creating, working, failing, removed, ending,
    reduceCtorEq, ↓reduceIte, Nat.add_zero] <;> first | assumption | omega

theorem Ok.live (hv : v.Ok) (ha : 0 < v.n a) (huse : a.uses = true) : v.null = 0 ∧ v.gone = 0 := by
  obtain ⟨hle, hnull⟩ := hv.null_eq
  have hgone := hv.gone_eq
  have hone := hv.one_logout
  have hthread := hv.one_thread
  have halone := hv.alone
  have hleave := hv.leave
  unfold leaving completing creating working failing at *
  cases a <;> first | cases huse; done | grind

/-- Whoever is about to store `NULL` has destroyed the object, whose thread is over. -/
theorem Ok.nulling (hv : v.Ok) (h : 0 < v.n .aliveNull ∨ 0 < v.n .logoutNull) :
    v.null = 0 ∧ v.gone = 1 ∧ v.n .aliveWork = 0 ∧ (0 < v.n .aliveInvoke → v.handlers = 0) := by
  have hnull : v.null = 0 := by grind [hv.null_eq]
  have hgone := hv.gone_eq hnull
  rcases h with h | h
  · have halone := hv.alone (by grind)
    have hthread := hv.one_thread
    exact ⟨hnull, by grind, by grind, by grind⟩
  · have hstopped := hv.stopped (by omega)
    have hhandled := hv.handled (by grind)
    have halone := mt hv.alone (by grind)
    have hone := hv.one_logout
    exact ⟨hnull, by grind, by grind [hv.thread_eq], fun _ => hhandled⟩

end Counts

end Auth

end DreamDota
