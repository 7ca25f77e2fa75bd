import DreamDota.Lib.Session
import Mathlib.Algebra.GroupWithZero.Nat
import Mathlib.Logic.Function.Basic

/-!
# The lock of an HTTP object

`DownloadFile`, `SimpleRequest` and `Request` acquire the mutex of the object when they begin. Any
threads call them, and the handlers of the progress may call them again while a transfer runs: the
mutex can be acquired by its owner any number of times.

`lockOk_iff`: all calls are balanced if and only if no `DownloadFile` returns that could not open
its file.

Only what the functions do with the mutex, the file and the transfer is kept. How these end is part
of the call.
-/

namespace DreamDota

namespace Http

inductive RequestCompleteCodeEnum where
  | success
  | errorNet
  | errorIo
  | canceled
  deriving DecidableEq

inductive CurlCode where
  | ok
  | abortedByCallback
  | failed
  deriving DecidableEq

inductive Op where
  | lock
  | openFile
  | perform
  | closeFile
  | unlock
  deriving DecidableEq

/-- What a function does, and its result. -/
structure Code where
  ops : List Op
  result : RequestCompleteCodeEnum

/-- `HTTP::DownloadFile`. -/
def downloadFile (opened : Bool) (code : CurlCode) : Code :=
  if !opened then ⟨[.lock, .openFile], .errorIo⟩
  else
    ⟨[.lock, .openFile, .perform, .closeFile, .unlock],
      if code = .ok then .success
      else if code = .abortedByCallback then .canceled
      else .errorNet⟩

/-- `HTTP::SimpleRequest`. -/
def simpleRequest (code : CurlCode) : Code :=
  ⟨[.lock, .perform, .unlock], if code = .ok then .success else .errorNet⟩

/-- `HTTP::Request`. -/
def request (code : CurlCode) : Code :=
  ⟨[.lock, .perform, .unlock], if code = .ok then .success else .errorNet⟩

/-- A call, with how the opening of its file and its transfer end. -/
inductive Call where
  | downloadFile (opened : Bool) (code : CurlCode)
  | simpleRequest (code : CurlCode)
  | request (code : CurlCode)
  deriving DecidableEq

def Call.code : Call → Code
  | .downloadFile opened code => Http.downloadFile opened code
  | .simpleRequest code => Http.simpleRequest code
  | .request code => Http.request code

/-- A call in progress: what it has still to do, and how often it has acquired and released the
mutex. -/
structure Frame where
  call : Call
  rest : List Op
  acquired : ℕ
  released : ℕ
  deriving DecidableEq

def Frame.new (call : Call) : Frame := ⟨call, call.code.ops, 0, 0⟩

variable {τ : Type*} [DecidableEq τ]

/-- A mutex is free, or its owner has acquired it `n + 1` times. -/
abbrev Mutex (τ : Type*) := Option (τ × ℕ)

namespace Mutex

/-- `WaitForSingleObject`, if the thread need not wait. -/
def acquire (m : Mutex τ) (t : τ) : Option (Mutex τ) :=
  match m with
  | none => some (some (t, 0))
  | some (owner, n) => if owner = t then some (some (t, n + 1)) else none

/-- `ReleaseMutex`, if the thread is the owner. -/
def release (m : Mutex τ) (t : τ) : Option (Mutex τ) :=
  match m with
  | none => none
  | some (owner, n) =>
    if owner = t then some (if n = 0 then none else some (t, n - 1)) else none

/-- How often the thread holds the mutex. -/
def held (m : Mutex τ) (t : τ) : ℕ :=
  match m with
  | none => 0
  | some (owner, n) => if owner = t then n + 1 else 0

end Mutex

/-- The calls in progress of each thread, the innermost first. `ended` is history: the calls that
have returned, with their results. -/
structure LockState (τ : Type*) where
  mutex : Mutex τ
  frames : τ → List Frame
  ended : List (Frame × RequestCompleteCodeEnum)

def LockState.new : LockState τ := ⟨none, fun _ => [], []⟩

namespace LockState

variable (s : LockState τ) (t : τ)

def setFrames (fs : List Frame) : LockState τ := { s with frames := Function.update s.frames t fs }

/-- The innermost call goes on. -/
def goOn (f : Frame) (fs : List Frame) : LockState τ :=
  match f.rest with
  | [] => { s.setFrames t fs with ended := s.ended ++ [(f, f.call.code.result)] }
  | .lock :: rest =>
    match s.mutex.acquire t with
    | some m =>
      { s with mutex := m }.setFrames t ({ f with rest := rest, acquired := f.acquired + 1 } :: fs)
    | none => s
  | .unlock :: rest =>
    match s.mutex.release t with
    | some m =>
      { s with mutex := m }.setFrames t ({ f with rest := rest, released := f.released + 1 } :: fs)
    | none => s.setFrames t ({ f with rest := rest } :: fs)
  | _ :: rest => s.setFrames t ({ f with rest := rest } :: fs)

end LockState

inductive LockEvent (τ : Type*) where
  | call (t : τ) (call : Call)
  | step (t : τ)

/-- A thread begins a call when it has none in progress, or from a handler of the progress. -/
def lockEvent (s : LockState τ) : LockEvent τ → LockState τ
  | .call t call =>
    if ∀ f ∈ (s.frames t).head?, f.rest.head? = some .perform then
      s.setFrames t (.new call :: s.frames t)
    else s
  | .step t =>
    match s.frames t with
    | [] => s
    | f :: fs => s.goOn t f fs

/-- Every call that has returned has released the mutex as often as it has acquired it. The mutex is
free when no call is in progress, and a thread can proceed when no other has a call in progress. -/
structure LockOk (s : LockState τ) : Prop where
  balanced : ∀ r ∈ s.ended, r.1.released = r.1.acquired
  free : (∀ t, s.frames t = []) → s.mutex = none
  proceeds : ∀ t, (∀ t', t' ≠ t → s.frames t' = []) → (s.mutex.acquire t).isSome

/-- The file of a `DownloadFile` that returns was opened. -/
def Opened (s : LockState τ) : LockEvent τ → Prop
  | .call _ _ => True
  | .step t => ∀ f ∈ (s.frames t).head?, f.rest = [] → ∀ code, f.call ≠ .downloadFile false code

/-! ## One call -/

/-- What a call has done is what it has not to do any more. -/
structure Frame.Valid (f : Frame) : Prop where
  suffix : f.rest <:+ f.call.code.ops
  acquired_eq : f.acquired + f.rest.count .lock = 1
  released_eq : f.released + f.rest.count .unlock = f.call.code.ops.count .unlock

/-- How often a call holds the mutex. -/
def Frame.holds (f : Frame) : ℕ := f.acquired - f.released

variable {f : Frame} {op : Op} {rest : List Op} {call : Call}

theorem ops_cases (call : Call) :
    (call.code.ops = [.lock, .openFile] ∧ ∃ code, call = .downloadFile false code) ∨
      call.code.ops = [.lock, .openFile, .perform, .closeFile, .unlock] ∨
      call.code.ops = [.lock, .perform, .unlock] := by
  cases call with
  | downloadFile opened code =>
    cases opened
    · exact .inl ⟨rfl, code, rfl⟩
    · exact .inr (.inl rfl)
  | simpleRequest | request => exact .inr (.inr rfl)

theorem count_lock (call : Call) : call.code.ops.count .lock = 1 := by
  rcases ops_cases call with ⟨h, -⟩ | h | h <;> rw [h] <;> rfl

/-- The mutex is acquired first. -/
theorem eq_of_lock (h : .lock :: rest <:+ call.code.ops) : .lock :: rest = call.code.ops := by
  rcases ops_cases call with ⟨hops, -⟩ | hops | hops <;> rw [hops] at h ⊢ <;>
    simpa [List.suffix_cons_iff] using h

/-- The mutex is released last. -/
theorem eq_nil_of_unlock (h : .unlock :: rest <:+ call.code.ops) : rest = [] := by
  rcases ops_cases call with ⟨hops, -⟩ | hops | hops <;> rw [hops] at h <;>
    simp [List.suffix_cons_iff] at h
  · exact h
  · exact h

theorem count_unlock (hopened : ∀ code, call ≠ .downloadFile false code) :
    call.code.ops.count .unlock = 1 := by
  rcases ops_cases call with ⟨-, code, hcall⟩ | h | h
  · exact absurd hcall (hopened code)
  · rw [h]
    rfl
  · rw [h]
    rfl

theorem Frame.valid_new (call : Call) : (Frame.new call).Valid where
  suffix := List.suffix_rfl
  acquired_eq := (Nat.zero_add _).trans (count_lock call)
  released_eq := Nat.zero_add _

theorem Frame.Valid.tail (h : f.Valid) (hrest : f.rest = op :: rest) : rest <:+ f.call.code.ops :=
  (List.suffix_cons op rest).trans (hrest ▸ h.suffix)

/-- The call acquires the mutex. -/
theorem Frame.Valid.lock (h : f.Valid) (hrest : f.rest = .lock :: rest) :
    f.acquired = 0 ∧ f.released = 0 ∧
      Frame.Valid { f with rest := rest, acquired := f.acquired + 1 } := by
  have hacquired := h.acquired_eq
  have hreleased := h.released_eq
  rw [hrest, List.count_cons_self] at hacquired
  have hall : f.rest = f.call.code.ops := by
    rw [hrest]
    exact eq_of_lock (hrest ▸ h.suffix)
  rw [hall] at hreleased
  refine ⟨by omega, by omega, h.tail hrest, ?_, ?_⟩
  · show f.acquired + 1 + rest.count .lock = 1
    omega
  · show f.released + rest.count .unlock = _
    rw [← hall, hrest, List.count_cons_of_ne (by decide), Nat.add_comm]
    omega

/-- The call releases the mutex. -/
theorem Frame.Valid.unlock (h : f.Valid) (hrest : f.rest = .unlock :: rest) :
    f.acquired = 1 ∧ f.released = 0 ∧
      Frame.Valid { f with rest := rest, released := f.released + 1 } := by
  have hacquired := h.acquired_eq
  have hreleased := h.released_eq
  obtain rfl := eq_nil_of_unlock (hrest ▸ h.suffix)
  have hone : f.call.code.ops.count .unlock ≤ 1 := by
    rcases ops_cases f.call with ⟨hops, -⟩ | hops | hops <;> rw [hops] <;> decide
  rw [hrest, List.count_cons_of_ne (by decide), List.count_nil] at hacquired
  rw [hrest, List.count_cons_self, List.count_nil] at hreleased
  exact ⟨by omega, by omega, h.tail hrest, hacquired, hreleased⟩

/-- The call does something else. -/
theorem Frame.Valid.other (h : f.Valid) (hrest : f.rest = op :: rest) (hlock : op ≠ .lock)
    (hunlock : op ≠ .unlock) : Frame.Valid { f with rest := rest } where
  suffix := h.tail hrest
  acquired_eq := by
    have hacquired := h.acquired_eq
    rwa [hrest, List.count_cons_of_ne hlock] at hacquired
  released_eq := by
    have hreleased := h.released_eq
    rwa [hrest, List.count_cons_of_ne hunlock] at hreleased

/-- The call returns. -/
theorem Frame.Valid.ret (h : f.Valid) (hrest : f.rest = []) :
    f.acquired = 1 ∧ f.released = f.call.code.ops.count .unlock := by
  have hacquired := h.acquired_eq
  have hreleased := h.released_eq
  rw [hrest, List.count_nil] at hacquired hreleased
  exact ⟨hacquired, hreleased⟩

/-! ## The threads -/

namespace Mutex

variable {m m' : Mutex τ} {t t' : τ}

theorem held_some (owner : τ) (n : ℕ) (t : τ) :
    held (some (owner, n)) t = if owner = t then n + 1 else 0 := rfl

theorem held_none (t : τ) : held none t = 0 := rfl

theorem held_acquire (h : m.acquire t = some m') (t' : τ) :
    m'.held t' = m.held t' + if t = t' then 1 else 0 := by
  cases m with
  | none =>
    obtain rfl := Option.some.inj h
    exact (Nat.zero_add _).symm
  | some p =>
    obtain ⟨rfl, h⟩ := Option.ite_none_right_eq_some.mp h
    obtain rfl := Option.some.inj h
    rw [held_some, held_some]
    split_ifs <;> rfl

theorem release_of_held (h : 0 < m.held t) :
    ∃ m', m.release t = some m' ∧ ∀ t', m'.held t' = m.held t' - if t = t' then 1 else 0 := by
  cases m with
  | none => exact absurd h (Nat.lt_irrefl 0)
  | some p =>
    obtain ⟨owner, n⟩ := p
    have howner : owner = t := by
      by_contra hne
      exact absurd h (by rw [held_some, if_neg hne]; exact Nat.lt_irrefl 0)
    subst howner
    refine ⟨_, if_pos rfl, fun t' => ?_⟩
    cases n with
    | zero =>
      rw [if_pos rfl, held_none, held_some]
      split_ifs <;> rfl
    | succ n =>
      rw [if_neg (Nat.succ_ne_zero n), held_some, held_some]
      split_ifs <;> rfl

/-- A thread need not wait for itself. -/
theorem acquire_isSome (h : ∀ t', t' ≠ t → m.held t' = 0) : (m.acquire t).isSome := by
  cases m with
  | none => rfl
  | some p =>
    obtain ⟨owner, n⟩ := p
    by_cases howner : owner = t
    · rw [acquire, if_pos howner]
      rfl
    · have hzero := h owner howner
      rw [held_some, if_pos rfl] at hzero
      cases hzero

theorem eq_none (h : ∀ t, m.held t = 0) : m = none := by
  cases m with
  | none => rfl
  | some p =>
    have hzero := h p.1
    rw [held_some, if_pos rfl] at hzero
    cases hzero

end Mutex

/-- How often the calls in progress of a thread hold the mutex. -/
def holds (fs : List Frame) : ℕ := (fs.map Frame.holds).sum

theorem holds_cons (f : Frame) (fs : List Frame) : holds (f :: fs) = f.holds + holds fs := by
  rw [holds, List.map_cons, List.sum_cons, ← holds]

namespace LockState

variable {s : LockState τ} {t : τ} {m : Mutex τ} {fs : List Frame}

structure Inv (s : LockState τ) : Prop where
  valid : ∀ t, ∀ f ∈ s.frames t, f.Valid
  held_eq : ∀ t, s.mutex.held t = holds (s.frames t)
  ended : ∀ r ∈ s.ended, r.1.released = r.1.acquired

theorem frames_setFrames (s : LockState τ) (t t' : τ) (fs : List Frame) :
    (s.setFrames t fs).frames t' = if t' = t then fs else s.frames t' :=
  Function.update_apply s.frames t fs t'

theorem Inv.lockOk (h : Inv s) : LockOk s where
  balanced := h.ended
  free := fun hnone => Mutex.eq_none fun t => by
    rw [h.held_eq, hnone]
    rfl
  proceeds := fun t hnone => Mutex.acquire_isSome fun t' ht' => by
    rw [h.held_eq, hnone t' ht']
    rfl

/-- One thread goes on. -/
theorem Inv.setFrames (h : Inv s) (hvalid : ∀ f ∈ fs, f.Valid) (hheld : m.held t = holds fs)
    (hothers : ∀ t', t ≠ t' → m.held t' = s.mutex.held t') :
    Inv ({ s with mutex := m }.setFrames t fs) where
  valid := by
    intro t' f hf
    rw [frames_setFrames] at hf
    split_ifs at hf with heq
    · exact hvalid f hf
    · exact h.valid t' f hf
  held_eq := by
    intro t'
    rw [frames_setFrames]
    split_ifs with heq
    · rw [heq]
      exact hheld
    · exact (hothers t' (Ne.symm heq)).trans (h.held_eq t')
  ended := h.ended

theorem Inv.begin (h : Inv s) (call : Call) : Inv (s.setFrames t (.new call :: s.frames t)) := by
  refine h.setFrames (m := s.mutex) (fun f hf => ?_) ?_ fun _ _ => rfl
  · rcases List.mem_cons.mp hf with rfl | hf
    · exact Frame.valid_new call
    · exact h.valid t f hf
  · rw [holds_cons, h.held_eq]
    exact (Nat.zero_add _).symm

/-- The innermost call goes on, and does not return unbalanced. -/
theorem Inv.goOn (h : Inv s) (hframes : s.frames t = f :: fs)
    (hopened : f.rest = [] → ∀ code, f.call ≠ .downloadFile false code) :
    Inv (s.goOn t f fs) := by
  have hf : f.Valid := h.valid t f (hframes ▸ List.mem_cons_self)
  have hfs : ∀ g ∈ fs, g.Valid := fun g hg => h.valid t g (hframes ▸ List.mem_cons_of_mem f hg)
  have hheld := h.held_eq t
  rw [hframes, holds_cons] at hheld
  have hcons : ∀ g : Frame, g.Valid → ∀ g' ∈ g :: fs, g'.Valid := by
    intro g hg g' hg'
    rcases List.mem_cons.mp hg' with rfl | hg'
    · exact hg
    · exact hfs g' hg'
  rcases hrest : f.rest with _ | ⟨op, rest⟩
  · obtain ⟨hacquired, hreleased⟩ := hf.ret hrest
    rw [count_unlock (hopened hrest)] at hreleased
    have hinv : Inv (s.setFrames t fs) := by
      refine h.setFrames (m := s.mutex) hfs ?_ fun _ _ => rfl
      rw [hheld, Frame.holds, hacquired, hreleased, Nat.sub_self, Nat.zero_add]
    unfold LockState.goOn
    rw [hrest]
    refine ⟨hinv.valid, hinv.held_eq, fun r hr => ?_⟩
    rcases List.mem_append.mp hr with hr | hr
    · exact h.ended r hr
    · rw [List.mem_singleton.mp hr, hacquired, hreleased]
  · have hother : op ≠ .lock → op ≠ .unlock →
        Inv (s.setFrames t ({ f with rest := rest } :: fs)) := fun hlock hunlock =>
      h.setFrames (m := s.mutex) (hcons _ (hf.other hrest hlock hunlock))
        (hheld.trans (holds_cons _ _).symm) fun _ _ => rfl
    unfold LockState.goOn
    rw [hrest]
    cases op with
    | lock =>
      obtain ⟨hacquired, hreleased, hvalid⟩ := hf.lock hrest
      cases hm : s.mutex.acquire t with
      | none => exact h
      | some m =>
        refine h.setFrames (hcons _ hvalid) ?_ fun t' ht' => ?_
        · have hnew : Frame.holds { f with rest := rest, acquired := f.acquired + 1 } = 1 := by
            show f.acquired + 1 - f.released = 1
            omega
          have hold : f.holds = 0 := by
            unfold Frame.holds
            omega
          rw [Mutex.held_acquire hm, if_pos rfl, hheld, holds_cons, hnew, hold]
          omega
        · rw [Mutex.held_acquire hm, if_neg ht', Nat.add_zero]
    | unlock =>
      obtain ⟨hacquired, hreleased, hvalid⟩ := hf.unlock hrest
      have hnew : Frame.holds { f with rest := rest, released := f.released + 1 } = 0 := by
        show f.acquired - (f.released + 1) = 0
        omega
      have hold : f.holds = 1 := by
        unfold Frame.holds
        omega
      obtain ⟨m, hm, hheld'⟩ := Mutex.release_of_held (m := s.mutex) (t := t) (by omega)
      simp only [hm]
      refine h.setFrames (hcons _ hvalid) ?_ fun t' ht' => ?_
      · rw [hheld', if_pos rfl, hheld, holds_cons, hnew, hold]
        omega
      · rw [hheld', if_neg ht', Nat.sub_zero]
    | openFile => exact hother (by decide) (by decide)
    | perform => exact hother (by decide) (by decide)
    | closeFile => exact hother (by decide) (by decide)

theorem inv_new : Inv (.new : LockState τ) :=
  ⟨fun _ => List.forall_mem_nil _, fun _ => rfl, List.forall_mem_nil _⟩

theorem Inv.event {e : LockEvent τ} (h : Inv s) (he : Opened s e) : Inv (lockEvent s e) := by
  cases e with
  | call t call =>
    simp only [lockEvent]
    split_ifs
    · exact h.begin call
    · exact h
  | step t =>
    simp only [lockEvent]
    split
    · exact h
    · rename_i f fs hframes
      exact h.goOn hframes (he f (hframes ▸ rfl))

/-- A `DownloadFile` that could not open its file returns with the mutex. -/
theorem not_lockOk {e : LockEvent τ} (h : Inv s) (he : ¬ Opened s e) : ¬ LockOk (lockEvent s e) := by
  cases e with
  | call t call => exact absurd trivial he
  | step t =>
    unfold Opened at he
    push Not at he
    obtain ⟨f, hf, hrest, code, hcall⟩ := he
    obtain ⟨fs, hframes⟩ := List.head?_eq_some_iff.mp hf
    obtain ⟨hacquired, hreleased⟩ := (h.valid t f (hframes ▸ List.mem_cons_self)).ret hrest
    intro hok
    have hbalanced := hok.balanced (f, f.call.code.result) (by
      simp only [lockEvent, hframes, LockState.goOn, hrest]
      exact List.mem_append_right _ (List.mem_singleton_self _))
    have hzero : f.released = 0 := by
      rw [hreleased, hcall]
      rfl
    have hone : f.released = f.acquired := hbalanced
    omega

end LockState

/-- All calls are balanced, and the mutex is free between them, if and only if no `DownloadFile`
returns that could not open its file. -/
theorem lockOk_iff (es : List (LockEvent τ)) :
    Session.Always lockEvent .new es LockOk ↔ Session.Steps lockEvent .new es Opened :=
  Session.always_iff_steps (I := LockState.Inv)
    (fun _ _ _ hs _ he => ⟨hs.event he, (hs.event he).lockOk⟩)
    (fun _ _ _ hs _ hok => by
      by_contra he
      exact LockState.not_lockOk hs he hok)
    LockState.inv_new LockState.inv_new.lockOk

/-- A thread cannot open the file of its download. -/
theorem lock_kept : ¬ ∀ es : List (LockEvent Bool), Session.Always lockEvent .new es LockOk := by
  intro h
  have hok := (h [.call false (.downloadFile false .ok), .step false, .step false, .step false]).last
  exact absurd (hok.balanced (⟨.downloadFile false .ok, [], 1, 0⟩, .errorIo) (by decide)) (by decide)

end Http

end DreamDota
