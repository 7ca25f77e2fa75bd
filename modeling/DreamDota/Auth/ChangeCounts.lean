import DreamDota.Lib.Threads
import Mathlib.Tactic.Common

/-!
# Changes as tokens

What matters for the changes of the inject method: how many threads are at each place, and a few
numbers. A Boolean is 0 or 1, and so is a method, where 1 is `INJECT_METHOD_AUTO`.

`Ok` is kept by every move. `handlers` and the token at `check` and `decide` are the changes that
wait; the thread that they wait for has been told to stop, or will be.
-/

namespace DreamDota

open Threads

/-- The places of `Change`, of `DoChange` with the `Run` in it, of the search thread and of its
completion. -/
inductive Place
  | test
  | add
  | signal
  | storeWaiting
  | storeNow
  | decide
  | run
  | mark
  | start
  | assign
  | action
  | begin
  | work
  | clearThread
  | clearRunning
  | invoke
  | handle
  | check
  | other
  deriving DecidableEq

/-- `target` is the method that was stored last, `current` the one that was assigned last and
`asked` the one of the last change. -/
structure Counts where
  n : Place → ℕ
  handlers : ℕ
  thread : ℕ
  running : ℕ
  term : ℕ
  target : ℕ
  current : ℕ
  asked : ℕ
  changes : ℕ
  doChanges : ℕ

namespace Counts

variable (v : Counts)

/-- A thread goes from `a` to `bs`. -/
def go (a : Place) (bs : List Place) : Counts := { v with n := fire v.n a bs }

/-- The changes that have not stored their method. -/
def storing : ℕ := v.n .test + v.n .add + v.n .signal + v.n .storeWaiting + v.n .storeNow

/-- The changes of which the `DoChange` is still to come, without those that store. -/
def pending : ℕ := v.handlers + v.n .check + v.n .decide

/-- The thread is about to start. -/
def toRun : ℕ := v.n .run + v.n .mark

structure Ok : Prop where
  bits : v.term ≤ 1 ∧ v.target ≤ 1 ∧ v.asked ≤ 1
  thread_eq : v.thread = v.n .begin + v.n .work + v.n .clearThread
  running_eq : v.running =
    v.n .start + v.n .begin + v.n .work + v.n .clearThread + v.n .clearRunning
  one_thread : v.running + v.n .invoke ≤ 1
  one_storing : v.storing ≤ 1
  account : v.changes = v.doChanges + v.pending + v.n .test + v.n .add + v.n .storeNow
  -- a thread that ends finds a handler, and the handlers of the last one are done
  ending : 0 < v.n .clearThread + v.n .clearRunning + v.n .invoke ∨ (0 < v.n .work ∧ v.term = 1) →
    0 < v.handlers
  signal : 0 < v.n .signal → 0 < v.running → 0 < v.handlers
  quiet : 0 < v.running + v.n .invoke → v.n .handle = 0 ∧ v.n .check = 0
  copied : v.running + v.n .invoke = 0 → v.handlers = v.n .handle
  adding : 0 < v.n .add → 0 < v.running + v.n .invoke
  -- a handler that waits for a thread waits for one that will end
  signalled : 0 < v.n .start + v.n .begin ∨ (0 < v.n .work ∧ v.term = 0) → 0 < v.handlers →
    0 < v.n .signal
  -- the last method is stored, and somebody will read what is stored
  stored : v.storing = 0 → 0 < v.changes → v.target = v.asked
  waiting : 0 < v.n .signal + v.n .storeWaiting → 0 < v.pending ∨ v.target = v.asked
  assigned : v.current = v.target ∨ 0 < v.n .assign + v.toRun + v.n .start + v.pending
  toStart : v.target = 1 → v.running = 0 →
    0 < v.pending + v.toRun ∨ 0 < v.n .test + v.n .storeNow ∨ v.changes = 0
  started : 0 < v.running → v.handlers = 0 → v.n .add = 0 →
    (0 < v.n .storeWaiting + v.n .storeNow → v.asked = 1) ∧
      (v.n .storeWaiting + v.n .storeNow = 0 → v.target = 1)

attribute [local grind =] go storing pending toRun

/-- What a move does to the number at a place. -/
@[grind =] theorem go_n (a : Place) (bs : List Place) (p : Place) :
    (v.go a bs).n p = v.n p - (if p = a then 1 else 0) + bs.count p := rfl

variable {v}

namespace Ok

/-! ## The caller

A move keeps every clause that speaks neither of its places nor of the numbers that it changes. The
other clauses are listed, with the ones that they follow from. -/

theorem issue (hv : v.Ok) {a : ℕ} (ha : a ≤ 1) (h : v.storing = 0) {n : Place → ℕ}
    (hn : n = fun p => v.n p + if p = .test then 1 else 0) :
    Ok { v with n := n, asked := a, changes := v.changes + 1 } := by
  subst hn
  exact { hv with
    bits := by grind [hv.bits]
    one_storing := by grind
    account := by grind [hv.account]
    stored := by grind
    waiting := by grind
    toStart := by grind
    started := by grind [hv.started] }

theorem test_running (hv : v.Ok) (h : 0 < v.n .test) (hr : v.running = 1) :
    Ok (v.go .test [.add]) :=
  { hv with
    one_storing := by grind [hv.one_storing]
    account := by grind [hv.account]
    adding := by grind
    stored := by grind
    toStart := by grind
    started := by grind }

theorem test_idle (hv : v.Ok) (h : 0 < v.n .test) (hr : v.running = 0) :
    Ok (v.go .test [.storeNow]) :=
  { hv with
    one_storing := by grind [hv.one_storing]
    account := by grind [hv.account]
    stored := by grind
    toStart := by grind
    started := by grind }

theorem add (hv : v.Ok) (h : 0 < v.n .add) :
    Ok { v.go .add [.signal] with handlers := v.handlers + 1 } :=
  { hv with
    one_storing := by grind [hv.one_storing]
    account := by grind [hv.account]
    ending := by grind
    signal := by grind
    copied := by grind [hv.adding h]
    adding := fun _ => hv.adding h
    signalled := by grind
    stored := by grind
    waiting := by grind
    assigned := by grind
    toStart := by grind
    started := by grind }

theorem signal' (hv : v.Ok) (h : 0 < v.n .signal) (hg : v.n .start + v.n .begin = 0) :
    Ok { v.go .signal [.storeWaiting] with term := 1 } :=
  { hv with
    bits := by grind [hv.bits]
    one_storing := by grind [hv.one_storing]
    ending := by
      rintro (hend | ⟨hwork, -⟩)
      · exact hv.ending (.inl hend)
      · exact hv.signal h (by grind [hv.running_eq])
    signal := fun _ => hv.signal h
    signalled := by grind
    stored := by grind
    waiting := fun _ => hv.waiting (by omega)
    started := fun hr hh _ => absurd hh (Nat.pos_iff_ne_zero.mp (hv.signal h hr)) }

theorem storeWaiting (hv : v.Ok) (h : 0 < v.n .storeWaiting) :
    Ok { v.go .storeWaiting [] with target := v.asked } :=
  { hv with
    bits := by grind [hv.bits]
    one_storing := by grind [hv.one_storing]
    stored := by grind
    waiting := by grind
    assigned := by
      rcases hv.waiting (by omega) with hpending | heq
      · exact .inr (by grind)
      · exact heq ▸ hv.assigned
    toStart := by
      intro ht hr
      rcases hv.waiting (by omega) with hpending | heq
      · exact .inl (by grind)
      · exact hv.toStart (heq.trans ht) hr
    started := by
      intro hr hh ha
      have hasked := (hv.started hr hh ha).1 (by omega)
      exact ⟨fun _ => hasked, fun _ => hasked⟩ }

theorem storeNow (hv : v.Ok) (h : 0 < v.n .storeNow) :
    Ok { v.go .storeNow [.decide] with target := v.asked } :=
  { hv with
    bits := by grind [hv.bits]
    one_storing := by grind [hv.one_storing]
    account := by grind [hv.account]
    stored := by grind
    waiting := by grind
    assigned := by grind
    toStart := by grind
    started := by
      intro hr hh ha
      have hasked := (hv.started hr hh ha).1 (by omega)
      exact ⟨fun _ => hasked, fun _ => hasked⟩ }

/-! ## `DoChange` -/

theorem decide_auto (hv : v.Ok) (h : 0 < v.n .decide)
    (hg : 0 < v.n .signal + v.n .storeWaiting → v.target = v.asked ∨ 2 ≤ v.pending) :
    Ok { v.go .decide [.run] with doChanges := v.doChanges + 1 } :=
  { hv with
    account := by grind [hv.account]
    waiting := by grind
    assigned := by grind
    toStart := by grind }

theorem decide_passive (hv : v.Ok) (h : 0 < v.n .decide) (ht : v.target = 0)
    (hg : 0 < v.n .signal + v.n .storeWaiting → v.target = v.asked ∨ 2 ≤ v.pending) :
    Ok { v.go .decide [.assign] with doChanges := v.doChanges + 1 } :=
  { hv with
    account := by grind [hv.account]
    waiting := by grind
    assigned := by grind
    toStart := by grind }

theorem run_started (hv : v.Ok) (ht : v.thread = 1) : Ok (v.go .run [.assign]) :=
  { hv with
    assigned := by grind
    toStart := by grind [hv.thread_eq, hv.running_eq] }

theorem run_stopped (hv : v.Ok) : Ok (v.go .run [.mark]) :=
  { hv with
    assigned := by grind
    toStart := by grind }

theorem mark (hv : v.Ok) (hidle : v.running = 0) (hnone : v.handlers + v.n .check = 0)
    (hadd : v.n .add + v.n .signal = 0)
    (hasked : 0 < v.n .storeWaiting + v.n .storeNow → v.asked = 1)
    (htarget : v.n .storeWaiting + v.n .storeNow = 0 → v.target = 1) :
    Ok { v.go .mark [.start] with running := 1 } := by
  -- a thread that completes would have a handler to call
  have hinvoke : v.n .invoke = 0 := by
    have hending := mt hv.ending (by omega)
    omega
  have hcopied := hv.copied (by omega)
  exact { hv with
    running_eq := by grind [hv.running_eq]
    one_thread := by grind
    signal := by grind
    quiet := by grind
    copied := by grind
    adding := by grind
    signalled := by grind
    assigned := by grind
    toStart := by grind
    started := by grind }

theorem start (hv : v.Ok) (h : 0 < v.n .start) :
    Ok { v.go .start [.assign, .begin] with thread := 1 } :=
  { hv with
    thread_eq := by grind [hv.running_eq, hv.one_thread]
    running_eq := by grind [hv.running_eq]
    signalled := fun _ => hv.signalled (.inl (by omega))
    assigned := by grind }

theorem assign (hv : v.Ok) : Ok { v.go .assign [.action] with current := v.target } :=
  { hv with
    assigned := by grind }

theorem action (hv : v.Ok) : Ok (v.go .action []) :=
  { hv with }

/-! ## The search thread -/

theorem begin (hv : v.Ok) (h : 0 < v.n .begin) :
    Ok { v.go .begin [.work] with term := 0 } :=
  { hv with
    bits := by grind [hv.bits]
    thread_eq := by grind [hv.thread_eq]
    running_eq := by grind [hv.running_eq]
    ending := by grind [hv.running_eq, hv.one_thread]
    signalled := fun _ => hv.signalled (.inl (by omega)) }

theorem work (hv : v.Ok) (h : 0 < v.n .work) (ht : v.term = 1) :
    Ok (v.go .work [.clearThread]) :=
  { hv with
    thread_eq := by grind [hv.thread_eq]
    running_eq := by grind [hv.running_eq]
    ending := fun _ => hv.ending (.inr ⟨h, ht⟩)
    signalled := fun hbegun => hv.signalled (.inl (by grind)) }

theorem clearThread (hv : v.Ok) (h : 0 < v.n .clearThread) :
    Ok { v.go .clearThread [.clearRunning] with thread := 0 } :=
  { hv with
    thread_eq := by grind [hv.running_eq, hv.one_thread]
    running_eq := by grind [hv.running_eq]
    ending := fun _ => hv.ending (.inl (by omega)) }

theorem clearRunning (hv : v.Ok) (h : 0 < v.n .clearRunning) :
    Ok { v.go .clearRunning [.invoke] with running := 0 } :=
  { hv with
    running_eq := by grind [hv.running_eq, hv.one_thread]
    one_thread := by grind [hv.running_eq, hv.one_thread]
    ending := fun _ => hv.ending (.inl (by omega))
    signal := by grind
    quiet := fun _ => hv.quiet (by grind [hv.running_eq])
    copied := by grind
    adding := by grind
    toStart := by grind [hv.ending (.inl (by omega))]
    started := by grind }

theorem invoke (hv : v.Ok) (h : 0 < v.n .invoke) (hadd : v.n .add = 0) :
    Ok (v.go .invoke (List.replicate v.handlers .handle)) := by
  have hquiet := hv.quiet (by omega)
  have hending := hv.ending (.inl (by omega))
  exact { hv with
    thread_eq := by grind [hv.thread_eq]
    running_eq := by grind [hv.running_eq]
    one_thread := by grind [hv.one_thread]
    one_storing := by grind [hv.one_storing]
    account := by grind [hv.account]
    ending := fun _ => hending
    signal := fun _ _ => hending
    quiet := by grind [hv.one_thread]
    copied := by grind
    adding := by grind
    signalled := fun _ _ => by grind [hv.signalled (by grind) hending]
    stored := by grind [hv.stored]
    waiting := by grind [hv.waiting]
    assigned := by grind [hv.assigned]
    toStart := by grind [hv.toStart]
    started := by grind }

theorem handle (hv : v.Ok) (h : 0 < v.n .handle) :
    Ok { v.go .handle [.check] with handlers := v.handlers - 1 } := by
  have hended : v.running + v.n .invoke = 0 := by
    by_contra hne
    have hquiet := hv.quiet (by omega)
    omega
  have hcopied := hv.copied hended
  exact { hv with
    account := by grind [hv.account]
    ending := by grind [hv.running_eq]
    signal := by grind
    quiet := by grind
    copied := by grind
    signalled := by grind [hv.running_eq]
    waiting := by grind
    assigned := by grind
    toStart := by grind
    started := by grind }

theorem check (hv : v.Ok) (h : 0 < v.n .check) (hr : v.running = 0) :
    Ok (v.go .check [.decide]) :=
  { hv with
    account := by grind [hv.account]
    quiet := by grind [hv.quiet]
    waiting := by grind
    assigned := by grind
    toStart := by grind }

/-! ## The outcome -/

/-- When nobody is anywhere but in a loop that has not been told to stop. -/
theorem doChanges_eq (hv : v.Ok) (hzero : ∀ p, p ≠ .work → v.n p = 0)
    (hterm : 0 < v.n .work → v.term = 0) : v.doChanges = v.changes := by
  have hhandlers : v.handlers = 0 := by
    have hsignal := hzero .signal (by decide)
    by_cases hwork : 0 < v.n .work
    · have hsignalled := hv.signalled (.inr ⟨hwork, hterm hwork⟩)
      omega
    · have hrunning := hv.running_eq
      rw [hzero .start (by decide), hzero .begin (by decide), hzero .clearThread (by decide),
        hzero .clearRunning (by decide)] at hrunning
      have hinvoke := hzero .invoke (by decide)
      rw [hv.copied (by omega), hzero .handle (by decide)]
  have haccount := hv.account
  unfold pending at haccount
  rw [hhandlers, hzero .check (by decide), hzero .decide (by decide), hzero .test (by decide),
    hzero .add (by decide), hzero .storeNow (by decide)] at haccount
  exact haccount.symm

/-- When all changes have had their `DoChange`, the last one has taken effect. -/
theorem completed (hv : v.Ok) (hstoring : v.storing = 0) (hdone : v.doChanges = v.changes)
    (hpos : 0 < v.changes) (hrun : v.n .run = 0) (hmark : v.n .mark = 0) (hstart : v.n .start = 0)
    (hassign : v.n .assign = 0) :
    v.current = v.asked ∧ v.running = v.asked ∧ v.n .begin + v.n .work = v.asked := by
  have haccount := hv.account
  have hpending : v.pending = 0 := by omega
  have htarget := hv.stored hstoring hpos
  have hcurrent := hv.assigned
  have hending := hv.ending
  have hrunning := hv.running_eq
  have hstopped := hv.toStart
  have hstarted := hv.started
  have hone := hv.one_thread
  have hbits := hv.bits
  unfold toRun at hcurrent hstopped
  unfold storing at hstoring
  unfold pending at hpending hcurrent hstopped
  refine ⟨?_, ?_, ?_⟩
  · omega
  · grind
  · grind

end Ok

end Counts

end DreamDota
