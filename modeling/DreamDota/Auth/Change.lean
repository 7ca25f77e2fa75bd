import DreamDota.Auth.ChangeCounts
import DreamDota.Auth.GameModule
import Mathlib.Data.Fintype.Basic

/-!
# When a change of the inject method takes effect

`Change` tells the search thread to stop before it stores the method, and every completion decides
for itself whether the thread still runs. So a completion can read the method of an earlier change,
or find the thread that the completion before it has started. `changesOk_of_orderly`: when no step
does that, each change leads to one `DoChange` and the last one takes effect.

1. `counts`: the threads as tokens.
2. `Orderly`: the steps after which the changes still come out right.
3. `OfChanges.exec`, `ok_exec`: what these steps keep.
4. `changesOk_of_orderly`: what holds in every state, when a change has completed, and at rest.
-/

namespace DreamDota

open Threads

instance : Fintype InjectMethodEnum where
  elems := {.auto, .passive}
  complete m := by cases m <;> decide

def InjectMethodEnum.code : InjectMethodEnum → ℕ
  | .auto => 1
  | .passive => 0

theorem InjectMethodEnum.code_le (m : InjectMethodEnum) : m.code ≤ 1 := by
  cases m <;> decide

theorem InjectMethodEnum.code_inj {m m' : InjectMethodEnum} (h : m.code = m'.code) : m = m' := by
  cases m <;> cases m' <;> first | rfl | cases h

namespace GameModule

/-! ## Tokens -/

/-- Where a thread is. The points of `Start`, of `Stop` and of the pipe thread are elsewhere. -/
def place : Point → Place
  | .changeTest _ => .test
  | .changeAdd _ => .add
  | .changeSignal _ => .signal
  | .changeStore _ true => .storeWaiting
  | .changeStore _ false => .storeNow
  | .doChange => .decide
  | .assignMethod => .assign
  | .invokeAction => .action
  | .run .search .assignMethod => .run
  | .markRunning .search .assignMethod => .mark
  | .startThread .search .assignMethod => .start
  | .beginWork .search => .begin
  | .work .search => .work
  | .clearThread .search => .clearThread
  | .clearRunning .search => .clearRunning
  | .invokeComplete .search => .invoke
  | .handle .search .onThreadEndForCleanup => .handle
  | .cleanupTest => .check
  | _ => .other

/-- The method of the change that is at the point. -/
def methodOf : Point → Option InjectMethodEnum
  | .changeTest m => some m
  | .changeAdd m => some m
  | .changeSignal m => some m
  | .changeStore m _ => some m
  | _ => none

/-- The point at a place, for a change to `m`. -/
def pointAt (m : InjectMethodEnum) : Place → Point
  | .test => .changeTest m
  | .add => .changeAdd m
  | .signal => .changeSignal m
  | .storeWaiting => .changeStore m true
  | .storeNow => .changeStore m false
  | .decide => .doChange
  | .assign => .assignMethod
  | .action => .invokeAction
  | .run => .run .search .assignMethod
  | .mark => .markRunning .search .assignMethod
  | .start => .startThread .search .assignMethod
  | .begin => .beginWork .search
  | .work => .work .search
  | .clearThread => .clearThread .search
  | .clearRunning => .clearRunning .search
  | .invoke => .invokeComplete .search
  | .handle => .handle .search .onThreadEndForCleanup
  | .check => .cleanupTest
  | .other => .setStarted

theorem place_pointAt (m : InjectMethodEnum) (p : Place) : place (pointAt m p) = p := by
  cases p <;> rfl

theorem eq_pointAt {i : Point} (hi : place i ≠ .other) : ∃ m, i = pointAt m (place i) := by
  cases i with
  | changeTest m | changeAdd m | changeSignal m => exact ⟨m, rfl⟩
  | changeStore m needWait => cases needWait <;> exact ⟨m, rfl⟩
  | run id k | markRunning id k | startThread id k =>
    cases id <;> cases k <;> first | exact ⟨.auto, rfl⟩ | exact absurd rfl hi
  | beginWork id | work id | clearThread id | clearRunning id | invokeComplete id =>
    cases id <;> first | exact ⟨.auto, rfl⟩ | exact absurd rfl hi
  | handle id h => cases id <;> cases h <;> first | exact ⟨.auto, rfl⟩ | exact absurd rfl hi
  | doChange | assignMethod | invokeAction | cleanupTest => exact ⟨.auto, rfl⟩
  | addStartHandler | startChangeComplete | setStarted | stopTest | stopAdd | stopSignal | doStop
  | moduleCleanupTest => exact absurd rfl hi

def countsOf (w : GameModule) (n : Place → ℕ) : Counts where
  n := n
  handlers := (w.threads .search).onThreadComplete.length
  thread := (w.threads .search).thread.toNat
  running := (w.threads .search).running.toNat
  term := (w.threads .search).term.toNat
  target := w.toInjectMethod.code
  current := w.injectMethod.code
  asked := (w.changes.headD .auto).code
  changes := w.changes.length
  doChanges := w.doChanges

def counts (c : Config GameModule Point) : Counts := countsOf c.shared (c.tokens place)

variable {w : GameModule} {c c' : Config GameModule Point} {i : Point} {n : Place → ℕ}
  {e : Effect GameModule Point}

theorem counts_executed (h : Executed c i e c') :
    counts c' = countsOf e.shared
      (fire (c.tokens place) (place i) ((e.next ++ e.started.flatten).map place)) := by
  unfold counts
  rw [h.shared, h.tokens place]

/-! ## The condition -/

/-- The completions and handlers that are still to decide about a `DoChange`. -/
def waiting (c : Config GameModule Point) : ℕ :=
  (c.shared.threads .search).onThreadComplete.length + c.points.count .cleanupTest

/-- The method that the last change has stored or is about to store. -/
def Aims (c : Config GameModule Point) (m : InjectMethodEnum) : Prop :=
  (∀ m' needWait, .changeStore m' needWait ∈ c.points → m' = m) ∧
    ((∀ m' needWait, .changeStore m' needWait ∉ c.points) → c.shared.toInjectMethod = m)

/-- The steps after which the changes still come out right. -/
def Orderly (c : Config GameModule Point) : Point → Prop
  -- the handlers are not copied while a change that found the thread running adds its own
  | .invokeComplete .search => ∀ m, .changeAdd m ∉ c.points
  -- the last `DoChange` does not read the method before the change has stored it
  | .doChange => ∀ m, .changeSignal m ∈ c.points ∨ .changeStore m true ∈ c.points →
      c.shared.toInjectMethod = m ∨ 2 ≤ waiting c + c.points.count .doChange
  -- the thread is started once, for the last change, and when no other change waits
  | .markRunning .search _ => c.shared.isRunning .search = false ∧ waiting c = 0 ∧
      (∀ m, .changeAdd m ∉ c.points ∧ .changeSignal m ∉ c.points) ∧ Aims c .auto
  -- the thread is not told to stop before it begins its work
  | .changeSignal _ =>
      .beginWork .search ∉ c.points ∧ .startThread .search .assignMethod ∉ c.points
  | _ => True

instance (c : Config GameModule Point) (m : InjectMethodEnum) : Decidable (Aims c m) :=
  inferInstanceAs (Decidable (_ ∧ _))

instance (c : Config GameModule Point) : DecidablePred (Orderly c) := fun i => by
  unfold Orderly
  split <;> infer_instance

/-! ## The threads of `Change` -/

/-- All points belong to changes, and only the caller changes the method. -/
structure OfChanges (c : Config GameModule Point) : Prop where
  points : ∀ i ∈ c.points, place i ≠ .other
  method : ∀ i ∈ c.points, ∀ m ∈ methodOf i, c.shared.changes.head? = some m
  pool : ∀ i ∈ c.pool.flatten, methodOf i = none
  handlers : ∀ h ∈ (c.shared.threads .search).onThreadComplete, h = .onThreadEndForCleanup
  actions : c.shared.onActionComplete = []

/-- What a point of a change leads to. -/
structure Leads (w : GameModule) (i : Point) (e : Effect GameModule Point) : Prop where
  next : ∀ j ∈ e.next, place j ≠ .other ∧ ∀ m ∈ methodOf j, methodOf i = some m
  started : ∀ code ∈ e.started, code = [.beginWork .search]
  changes : e.shared.changes = w.changes
  handlers : ∀ h ∈ (e.shared.threads .search).onThreadComplete, h = .onThreadEndForCleanup
  actions : e.shared.onActionComplete = []

/-- A point that starts no thread. -/
theorem Leads.goto {w' : GameModule} {next : List Point}
    (hnext : ∀ j ∈ next, place j ≠ .other ∧ ∀ m ∈ methodOf j, methodOf i = some m)
    (hchanges : w'.changes = w.changes)
    (hhandlers : ∀ h ∈ (w'.threads .search).onThreadComplete, h = .onThreadEndForCleanup)
    (hactions : w'.onActionComplete = []) : Leads w i (.goto w' next) where
  next := hnext
  started := by
    intro code hcode
    cases hcode
  changes := hchanges
  handlers := hhandlers
  actions := hactions

theorem leads (hi : place i ≠ .other) (he : exec i w = some e) (hactions : w.onActionComplete = [])
    (hhandlers : ∀ h ∈ (w.threads .search).onThreadComplete, h = .onThreadEndForCleanup) :
    Leads w i e := by
  cases i with
  | changeTest m =>
    obtain rfl := Option.some.inj he
    refine .goto ?_ rfl hhandlers hactions
    split_ifs <;> simp [place, methodOf]
  | changeAdd m =>
    obtain rfl := Option.some.inj he
    refine .goto ?_ rfl ?_ hactions
    · simp [place, methodOf]
    · simpa [mapThread, setThread, WorkerThread.addHandler, Delegate.add, or_imp, forall_and]
        using hhandlers
  | changeSignal m =>
    obtain rfl := Option.some.inj he
    exact .goto (by simp [place, methodOf]) rfl hhandlers hactions
  | changeStore m needWait =>
    obtain rfl := Option.some.inj he
    refine .goto ?_ rfl hhandlers hactions
    split_ifs <;> simp [place, methodOf]
  | doChange =>
    obtain rfl := Option.some.inj he
    refine .goto ?_ rfl hhandlers hactions
    split_ifs <;> simp [place, methodOf]
  | assignMethod =>
    obtain rfl := Option.some.inj he
    exact .goto (by simp [place, methodOf]) rfl hhandlers hactions
  | invokeAction =>
    obtain rfl := Option.some.inj he
    exact .goto (by simp [hactions]) rfl hhandlers hactions
  | run id k =>
    cases id <;> cases k <;> try exact absurd rfl hi
    obtain rfl := Option.some.inj he
    refine .goto ?_ rfl hhandlers hactions
    split_ifs <;> simp [place, methodOf, AfterRun.point]
  | markRunning id k =>
    cases id <;> cases k <;> try exact absurd rfl hi
    obtain rfl := Option.some.inj he
    exact .goto (by simp [place, methodOf]) rfl hhandlers hactions
  | startThread id k =>
    cases id <;> cases k <;> try exact absurd rfl hi
    obtain rfl := Option.some.inj he
    exact ⟨by simp [place, methodOf, AfterRun.point], by simp, rfl, hhandlers, hactions⟩
  | beginWork id =>
    cases id <;> try exact absurd rfl hi
    obtain rfl := Option.some.inj he
    exact .goto (by simp [place, methodOf]) rfl hhandlers hactions
  | work id =>
    cases id <;> try exact absurd rfl hi
    obtain ⟨-, he⟩ := Option.ite_none_right_eq_some.mp he
    obtain rfl := Option.some.inj he
    exact .goto (by simp [place, methodOf]) rfl hhandlers hactions
  | clearThread id =>
    cases id <;> try exact absurd rfl hi
    obtain rfl := Option.some.inj he
    exact .goto (by simp [place, methodOf]) rfl hhandlers hactions
  | clearRunning id =>
    cases id <;> try exact absurd rfl hi
    obtain rfl := Option.some.inj he
    exact .goto (by simp [place, methodOf]) rfl hhandlers hactions
  | invokeComplete id =>
    cases id <;> try exact absurd rfl hi
    obtain rfl := Option.some.inj he
    have hnext : ∀ j ∈ (w.threads .search).onThreadComplete.map (Point.handle .search),
        j = .handle .search .onThreadEndForCleanup := by
      intro j hj
      obtain ⟨h, hh, rfl⟩ := List.mem_map.mp hj
      rw [hhandlers h hh]
    refine .goto (fun j hj => ?_) rfl hhandlers hactions
    rw [hnext j hj]
    simp [place, methodOf]
  | handle id h =>
    cases id <;> cases h <;> try exact absurd rfl hi
    obtain rfl := Option.some.inj he
    refine .goto (by simp [place, methodOf]) rfl ?_ hactions
    intro h hh
    exact hhandlers h (List.mem_of_mem_erase hh)
  | cleanupTest =>
    obtain rfl := Option.some.inj he
    refine .goto ?_ rfl hhandlers hactions
    split_ifs <;> simp [place, methodOf]
  | addStartHandler | startChangeComplete | setStarted | stopTest | stopAdd | stopSignal | doStop
  | moduleCleanupTest => exact absurd rfl hi

/-- Every step of a change is a step of a change. -/
theorem OfChanges.exec (h : OfChanges c) (he : GameModule.exec i c.shared = some e)
    (hex : Executed c i e c') : OfChanges c' := by
  have hl : Leads c.shared i e := leads (h.points i hex.mem) he h.actions h.handlers
  have hstarted : ∀ j ∈ e.started.flatten, j = .beginWork .search := by
    intro j hj
    obtain ⟨code, hcode, hj⟩ := List.mem_flatten.mp hj
    rw [hl.started code hcode] at hj
    exact List.mem_singleton.mp hj
  constructor
  · intro j hj
    obtain hj | hj | hj := hex.of_mem hj
    · exact h.points j hj
    · exact (hl.next j hj).1
    · rw [hstarted j hj]
      decide
  · rw [hex.shared, hl.changes]
    intro j hj m hm
    obtain hj | hj | hj := hex.of_mem hj
    · exact h.method j hj m hm
    · exact h.method i hex.mem m ((hl.next j hj).2 m hm)
    · rw [hstarted j hj] at hm
      cases hm
  · intro j hj
    obtain hj | ⟨hi, hj⟩ | hj := hex.of_mem_pool hj
    · exact h.pool j hj
    · -- a thread of the pool changes no method
      have hnone := h.pool i hi
      by_contra hne
      obtain ⟨m, hm⟩ := Option.ne_none_iff_exists'.mp hne
      rw [(hl.next j hj).2 m hm] at hnone
      cases hnone
    · rw [hstarted j hj]
      rfl
  · rw [hex.shared]
    exact hl.handlers
  · rw [hex.shared]
    exact hl.actions

/-- The caller begins another change. -/
theorem OfChanges.issue (h : OfChanges c) (m : InjectMethodEnum) :
    OfChanges ⟨c.shared.enterChange m, [.changeTest m], c.pool⟩ where
  points := by
    intro i hi
    rcases List.mem_append.mp hi with hi | hi
    · rw [List.mem_singleton.mp hi]
      simp [place]
    · exact h.points i (List.mem_append_right _ hi)
  method := by
    intro i hi m' hm
    rcases List.mem_append.mp hi with hi | hi
    · rw [List.mem_singleton.mp hi] at hm
      exact hm
    · rw [h.pool i hi] at hm
      cases hm
  pool := h.pool
  handlers := h.handlers
  actions := h.actions

/-! ## What the steps keep -/

theorem asked_eq (h : OfChanges c) {m : InjectMethodEnum} (hi : i ∈ c.points)
    (hm : methodOf i = some m) : (counts c).asked = m.code := by
  show (c.shared.changes.headD .auto).code = m.code
  rw [List.headD_eq_head?_getD, h.method i hi m hm]
  rfl

theorem tokens_pos_iff {p : Place} (hp : p ≠ .other) :
    0 < c.tokens place p ↔ ∃ m, pointAt m p ∈ c.points := by
  rw [tokens_pos]
  constructor
  · rintro ⟨i, hi, rfl⟩
    obtain ⟨m, hm⟩ := eq_pointAt hp
    exact ⟨m, hm ▸ hi⟩
  · rintro ⟨m, hm⟩
    exact ⟨_, hm, place_pointAt m p⟩

theorem tokens_eq_zero_iff {p : Place} (hp : p ≠ .other) :
    c.tokens place p = 0 ↔ ∀ m, pointAt m p ∉ c.points := by
  rw [← not_exists, ← tokens_pos_iff hp, Nat.pos_iff_ne_zero, not_not]

/-- The tokens at a place that has one point only. -/
theorem tokens_eq_count {p : Place} (hp : ∀ m, pointAt m p = i) (hother : p ≠ .other) :
    c.tokens place p = c.points.count i := by
  unfold Config.tokens List.count
  congr
  funext j
  rw [beq_eq_decide]
  refine decide_eq_decide.mpr ⟨?_, ?_⟩
  · rintro rfl
    obtain ⟨m, hm⟩ := eq_pointAt hother
    exact hm.trans (hp m)
  · rintro rfl
    rw [← hp .auto, place_pointAt]

theorem waiting_eq (c : Config GameModule Point) :
    waiting c = (counts c).handlers + (counts c).n .check := by
  have hcheck : c.tokens place .check = c.points.count .cleanupTest :=
    tokens_eq_count (fun _ => rfl) (by decide)
  show _ = _ + c.tokens place .check
  rw [hcheck]
  rfl

theorem pending_eq (c : Config GameModule Point) :
    (counts c).pending = waiting c + c.points.count .doChange := by
  have hdecide : c.tokens place .decide = c.points.count .doChange :=
    tokens_eq_count (fun _ => rfl) (by decide)
  rw [waiting_eq, ← hdecide]
  rfl

/-- Who reads the method for a `DoChange` reads the last one, or is followed by another. -/
theorem target_of_orderly (h : OfChanges c) (hq : Orderly c .doChange)
    (hstore : 0 < (counts c).n .signal + (counts c).n .storeWaiting) :
    (counts c).target = (counts c).asked ∨ 2 ≤ (counts c).pending := by
  have hm : ∃ m i, i ∈ c.points ∧ methodOf i = some m ∧
      (i = .changeSignal m ∨ i = .changeStore m true) := by
    by_cases hsignal : 0 < (counts c).n .signal
    · obtain ⟨m, hm⟩ := (tokens_pos_iff (by decide)).mp hsignal
      exact ⟨m, _, hm, rfl, .inl rfl⟩
    · have hwait : 0 < (counts c).n .storeWaiting := by omega
      obtain ⟨m, hm⟩ := (tokens_pos_iff (by decide)).mp hwait
      exact ⟨m, _, hm, rfl, .inr rfl⟩
  obtain ⟨m, i, hi, hmethod, hcase⟩ := hm
  have hread : c.shared.toInjectMethod = m ∨ 2 ≤ waiting c + c.points.count .doChange := by
    refine hq m ?_
    rcases hcase with rfl | rfl
    · exact .inl hi
    · exact .inr hi
  rw [pending_eq, asked_eq h hi hmethod]
  exact hread.imp_left (congrArg InjectMethodEnum.code)

/-- The thread starts for the last change. -/
theorem Aims.code_eq (h : OfChanges c) {m : InjectMethodEnum} (ha : Aims c m) :
    (0 < (counts c).n .storeWaiting + (counts c).n .storeNow → (counts c).asked = m.code) ∧
      ((counts c).n .storeWaiting + (counts c).n .storeNow = 0 → (counts c).target = m.code) := by
  constructor
  · intro hpos
    have hm : ∃ m' needWait, .changeStore m' needWait ∈ c.points := by
      by_cases hwait : 0 < (counts c).n .storeWaiting
      · obtain ⟨m', hm'⟩ := (tokens_pos_iff (by decide)).mp hwait
        exact ⟨m', true, hm'⟩
      · have hnow : 0 < (counts c).n .storeNow := by omega
        obtain ⟨m', hm'⟩ := (tokens_pos_iff (by decide)).mp hnow
        exact ⟨m', false, hm'⟩
    obtain ⟨m', needWait, hm'⟩ := hm
    rw [asked_eq h hm' rfl, ha.1 m' needWait hm']
  · intro hzero
    obtain ⟨hwait, hnow⟩ := Nat.add_eq_zero_iff.mp hzero
    refine congrArg InjectMethodEnum.code (ha.2 fun m' needWait hm' => ?_)
    cases needWait with
    | true => exact (tokens_eq_zero_iff (by decide)).mp hwait m' hm'
    | false => exact (tokens_eq_zero_iff (by decide)).mp hnow m' hm'

theorem countsOf_addHandler (w : GameModule) (h : CompleteHandler) (n : Place → ℕ) :
    countsOf (w.mapThread .search (·.addHandler h)) n =
      { countsOf w n with handlers := (countsOf w n).handlers + 1 } := by
  simp [countsOf, mapThread, setThread, WorkerThread.addHandler, Delegate.add]

theorem countsOf_removeHandler {h : CompleteHandler}
    (hh : h ∈ (w.threads .search).onThreadComplete) (n : Place → ℕ) :
    countsOf (w.mapThread .search (·.removeHandler h)) n =
      { countsOf w n with handlers := (countsOf w n).handlers - 1 } := by
  simp [countsOf, mapThread, setThread, WorkerThread.removeHandler, Delegate.remove,
    List.length_erase_of_mem hh]

/-- The copies of the handlers. -/
theorem map_place_handle (h : OfChanges c) :
    ((c.shared.threads .search).onThreadComplete.map (Point.handle .search) ++ []).map place =
      List.replicate (counts c).handlers .handle := by
  rw [List.append_nil, List.map_map]
  refine List.eq_replicate_iff.mpr ⟨List.length_map _, fun p hp => ?_⟩
  obtain ⟨h', hh, rfl⟩ := List.mem_map.mp hp
  rw [h.handlers h' hh]
  rfl

/-- A copied handler is still registered. -/
theorem mem_handlers (h : OfChanges c) (hok : (counts c).Ok) (hpos : 0 < (counts c).n .handle) :
    .onThreadEndForCleanup ∈ (c.shared.threads .search).onThreadComplete := by
  have hended : (counts c).running + (counts c).n .invoke = 0 := by
    by_contra hne
    have hnone := (hok.quiet (Nat.pos_of_ne_zero hne)).1
    omega
  have hlen : 0 < (c.shared.threads .search).onThreadComplete.length := by
    have hcopied : (c.shared.threads .search).onThreadComplete.length = (counts c).n .handle :=
      hok.copied hended
    omega
  obtain ⟨h', hh⟩ := List.exists_mem_of_length_pos hlen
  exact h.handlers h' hh ▸ hh

theorem ok_exec (h : OfChanges c) (hok : (counts c).Ok) (hq : Orderly c i)
    (he : GameModule.exec i c.shared = some e) (hex : Executed c i e c') : (counts c').Ok := by
  have hpos : 0 < (counts c).n (place i) := hex.tokens_pos place
  have hi := h.points i hex.mem
  rw [counts_executed hex]
  cases i with
  | changeTest m =>
    obtain rfl := Option.some.inj he
    by_cases hr : c.shared.isRunning .search
    · rw [if_pos hr]
      exact hok.test_running hpos (congrArg Bool.toNat hr)
    · rw [if_neg hr]
      exact hok.test_idle hpos (congrArg Bool.toNat (Bool.eq_false_iff.mpr hr))
  | changeAdd m =>
    obtain rfl := Option.some.inj he
    rw [Effect.goto, countsOf_addHandler]
    exact hok.add hpos
  | changeSignal m =>
    obtain rfl := Option.some.inj he
    have hbegin : (counts c).n .begin = 0 := (tokens_eq_zero_iff (by decide)).mpr fun _ => hq.1
    have hstart : (counts c).n .start = 0 :=
      (tokens_eq_zero_iff (by decide)).mpr fun _ => hq.2
    exact hok.signal' hpos (by omega)
  | changeStore m needWait =>
    obtain rfl := Option.some.inj he
    have hasked : m.code = (counts c).asked := (asked_eq h hex.mem rfl).symm
    cases needWait with
    | true =>
      have := hok.storeWaiting hpos
      rw [← hasked] at this
      exact this
    | false =>
      have := hok.storeNow hpos
      rw [← hasked] at this
      exact this
  | doChange =>
    obtain rfl := Option.some.inj he
    have hread := target_of_orderly h hq
    by_cases hm : c.shared.toInjectMethod = .auto
    · rw [if_pos hm]
      exact hok.decide_auto hpos hread
    · rw [if_neg hm]
      have hpassive : c.shared.toInjectMethod = .passive := by
        cases hto : c.shared.toInjectMethod with
        | auto => exact absurd hto hm
        | passive => rfl
      exact hok.decide_passive hpos (congrArg InjectMethodEnum.code hpassive) hread
  | assignMethod =>
    obtain rfl := Option.some.inj he
    exact hok.assign
  | invokeAction =>
    obtain rfl := Option.some.inj he
    rw [h.actions]
    exact hok.action
  | run id k =>
    cases id <;> cases k <;> try exact absurd rfl hi
    obtain rfl := Option.some.inj he
    by_cases ht : (c.shared.threads .search).thread
    · rw [if_pos ht]
      exact hok.run_started (congrArg Bool.toNat ht)
    · rw [if_neg ht]
      exact hok.run_stopped
  | markRunning id k =>
    cases id <;> cases k <;> try exact absurd rfl hi
    obtain rfl := Option.some.inj he
    obtain ⟨hidle, hnone, hchange, haims⟩ := hq
    have hadd : (counts c).n .add = 0 :=
      (tokens_eq_zero_iff (by decide)).mpr fun m => (hchange m).1
    have hsignal : (counts c).n .signal = 0 :=
      (tokens_eq_zero_iff (by decide)).mpr fun m => (hchange m).2
    rw [waiting_eq] at hnone
    exact hok.mark (congrArg Bool.toNat hidle) hnone (by omega) (haims.code_eq h).1
      (haims.code_eq h).2
  | startThread id k =>
    cases id <;> cases k <;> try exact absurd rfl hi
    obtain rfl := Option.some.inj he
    exact hok.start hpos
  | beginWork id =>
    cases id <;> try exact absurd rfl hi
    obtain rfl := Option.some.inj he
    exact hok.begin hpos
  | work id =>
    cases id <;> try exact absurd rfl hi
    obtain ⟨hterm, he⟩ := Option.ite_none_right_eq_some.mp he
    obtain rfl := Option.some.inj he
    exact hok.work hpos (congrArg Bool.toNat hterm)
  | clearThread id =>
    cases id <;> try exact absurd rfl hi
    obtain rfl := Option.some.inj he
    exact hok.clearThread hpos
  | clearRunning id =>
    cases id <;> try exact absurd rfl hi
    obtain rfl := Option.some.inj he
    exact hok.clearRunning hpos
  | invokeComplete id =>
    cases id <;> try exact absurd rfl hi
    obtain rfl := Option.some.inj he
    have hadd : (counts c).n .add = 0 := (tokens_eq_zero_iff (by decide)).mpr hq
    have := hok.invoke hpos hadd
    rw [← map_place_handle h] at this
    exact this
  | handle id h' =>
    cases id <;> cases h' <;> try exact absurd rfl hi
    obtain rfl := Option.some.inj he
    rw [Effect.goto, countsOf_removeHandler (mem_handlers h hok hpos)]
    exact hok.handle hpos
  | cleanupTest =>
    obtain rfl := Option.some.inj he
    have hidle : c.shared.isRunning .search = false := by
      refine Bool.toNat_eq_zero.mp ?_
      by_contra hne
      have hcheck := (hok.quiet (Nat.add_pos_left (Nat.pos_of_ne_zero hne) _)).2
      exact absurd hcheck (Nat.pos_iff_ne_zero.mp hpos)
    rw [hidle]
    exact hok.check hpos (congrArg Bool.toNat hidle)
  | addStartHandler | startChangeComplete | setStarted | stopTest | stopAdd | stopSignal | doStop
  | moduleCleanupTest => exact absurd rfl hi

/-- The caller is between two changes. -/
theorem storing_eq_zero (h : OfChanges c) (hcaller : c.caller = []) : (counts c).storing = 0 := by
  have hnone : ∀ p, (∀ m, methodOf (pointAt m p) = some m) → p ≠ .other →
      (counts c).n p = 0 := by
    intro p hp hother
    refine (tokens_eq_zero_iff hother).mpr fun m hm => ?_
    rw [Config.points, hcaller, List.nil_append] at hm
    exact absurd ((hp m).symm.trans (h.pool _ hm)) (Option.some_ne_none m)
  unfold Counts.storing
  rw [hnone .test (fun _ => rfl) (by decide), hnone .add (fun _ => rfl) (by decide),
    hnone .signal (fun _ => rfl) (by decide), hnone .storeWaiting (fun _ => rfl) (by decide),
    hnone .storeNow (fun _ => rfl) (by decide)]

theorem ok_issue (h : OfChanges c) (hok : (counts c).Ok) (hcaller : c.caller = [])
    (m : InjectMethodEnum) :
    (counts ⟨c.shared.enterChange m, [.changeTest m], c.pool⟩).Ok := by
  refine hok.issue m.code_le (storing_eq_zero h hcaller) ?_
  funext p
  show ([Point.changeTest m] ++ c.pool.flatten).countP _ =
    (c.caller ++ c.pool.flatten).countP _ + _
  rw [hcaller, List.nil_append, List.countP_append, List.countP_singleton, Nat.add_comm]
  congr 1
  cases p <;> rfl

structure ChangeInv (c : Config GameModule Point) : Prop where
  tails : HandlerTails c
  ofChanges : OfChanges c
  ok : (counts c).Ok

theorem changeInv_initial (profile : ℤ) : ChangeInv (initial profile) := by
  refine ⟨?_, ?_, ?_⟩
  · simp [HandlerTails, initial]
  · constructor <;> simp [initial, init, Config.points, WorkerThread.new]
  · constructor <;> simp [counts, countsOf, initial, init, Config.tokens, Config.points,
      WorkerThread.new, InjectMethodEnum.code, Counts.storing, Counts.pending]

theorem ChangeInv.step (c : Config GameModule Point) (a : Act InjectMethodEnum)
    (h : ChangeInv c) (hq : ∀ i ∈ c.pointOf a, Orderly c i) :
    ChangeInv (step changeProgram c a) := by
  refine step_guarded (Q := Orderly) ?_ ?_ c a h hq
  · intro c m w code h hcaller hissue
    obtain ⟨rfl, rfl⟩ := Prod.mk.inj (Option.some.inj hissue)
    exact ⟨h.tails.issue _ _, h.ofChanges.issue m, ok_issue h.ofChanges h.ok hcaller m⟩
  · intro c i e c' h hq he hex
    exact ⟨h.tails.exec he hex, h.ofChanges.exec he hex, ok_exec h.ofChanges h.ok hq he hex⟩

/-! ## The changes -/

/-- The points between the call of `DoChange` and its assignment to `InjectMethod`. -/
def inDoChange : Point → Bool
  | .doChange | .assignMethod => true
  | .run _ .assignMethod | .markRunning _ .assignMethod | .startThread _ .assignMethod => true
  | _ => false

/-- Every change has had its `DoChange`. -/
def Completed (c : Config GameModule Point) : Prop :=
  c.caller = [] ∧ c.shared.doChanges = c.shared.changes.length ∧ ∀ i ∈ c.points, inDoChange i = false

instance (c : Config GameModule Point) : Decidable (Completed c) :=
  inferInstanceAs (Decidable (_ ∧ _ ∧ _))

/-- The threads in `ThreadSearch::Work`. -/
def searching (c : Config GameModule Point) : ℕ :=
  c.points.count (.beginWork .search) + c.points.count (.work .search)

/-- No change leads to two calls of `DoChange`; at rest each has led to one; and when the last one
has completed, its method is the current one, and the search thread runs accordingly. -/
structure ChangesOk (c : Config GameModule Point) : Prop where
  doChanges_le : c.shared.doChanges ≤ c.shared.changes.length
  atRest : AtRest changeProgram c → c.shared.doChanges = c.shared.changes.length
  completed : Completed c → ∀ m ∈ c.shared.changes.head?, c.shared.getCurrentMethod = m ∧
    (c.shared.isRunning .search = true ↔ m = .auto) ∧ searching c = if m = .auto then 1 else 0

theorem place_of_isHandler (hi : place i ≠ .other) (h : isHandler i = true) :
    place i = .handle := by
  cases i with
  | handle id h' => cases id <;> cases h' <;> first | rfl | exact absurd rfl hi
  | startChangeComplete => exact absurd rfl hi
  | _ => cases h

theorem ChangeInv.atRest (h : ChangeInv c) (hrest : AtRest changeProgram c) :
    c.shared.doChanges = c.shared.changes.length := by
  have hpoints : ∀ i ∈ c.points, 0 < (counts c).n .work ∧ (counts c).term = 0 ∧
      (place i = .work ∨ place i = .handle) := by
    intro i hi
    obtain ⟨id, hwork, hterm, hi'⟩ := h.tails.atRest rfl hrest i hi
    cases id with
    | search =>
      refine ⟨tokens_pos.mpr ⟨_, hwork, rfl⟩, congrArg Bool.toNat hterm, ?_⟩
      rcases hi' with rfl | hi'
      · exact .inl rfl
      · exact .inr (place_of_isHandler (h.ofChanges.points i hi) hi')
    | pipe => exact absurd rfl (h.ofChanges.points _ hwork)
  refine h.ok.doChanges_eq ?_ ?_
  · intro p hp
    refine tokens_eq_zero.mpr fun i hi heq => ?_
    obtain ⟨hwork, -, hplace⟩ := hpoints i hi
    rcases hplace with hplace | hplace
    · exact hp (heq.symm.trans hplace)
    · -- no handler is copied while the thread lives
      have hhandle : 0 < (counts c).n .handle := tokens_pos.mpr ⟨i, hi, hplace⟩
      have hrunning := h.ok.running_eq
      have hquiet := h.ok.quiet (by omega)
      omega
  · intro hwork
    obtain ⟨i, hi, -⟩ := tokens_pos.mp hwork
    exact (hpoints i hi).2.1

theorem ChangeInv.completed (h : ChangeInv c) (hc : Completed c) {m : InjectMethodEnum}
    (hm : c.shared.changes.head? = some m) :
    c.shared.getCurrentMethod = m ∧ (c.shared.isRunning .search = true ↔ m = .auto) ∧
      searching c = if m = .auto then 1 else 0 := by
  obtain ⟨hcaller, hdone, hdo⟩ := hc
  have hzero : ∀ p, (∀ m, inDoChange (pointAt m p) = true) → p ≠ .other →
      (counts c).n p = 0 := by
    intro p hp hother
    refine (tokens_eq_zero_iff hother).mpr fun m hmem => ?_
    exact absurd (hdo _ hmem) (by rw [hp m]; decide)
  have hasked : (counts c).asked = m.code := by
    show (c.shared.changes.headD .auto).code = m.code
    rw [List.headD_eq_head?_getD, hm]
    rfl
  have hpos : 0 < (counts c).changes := by
    refine List.length_pos_iff.mpr fun hnil => ?_
    rw [hnil] at hm
    cases hm
  obtain ⟨hcurrent, hrunning, hsearching⟩ :=
    h.ok.completed (storing_eq_zero h.ofChanges hcaller) hdone hpos
    (hzero .run (fun _ => rfl) (by decide)) (hzero .mark (fun _ => rfl) (by decide))
    (hzero .start (fun _ => rfl) (by decide)) (hzero .assign (fun _ => rfl) (by decide))
  rw [hasked] at hcurrent hrunning hsearching
  have hcount : searching c = m.code := by
    unfold searching
    rw [← tokens_eq_count (p := .begin) (fun _ => rfl) (by decide),
      ← tokens_eq_count (p := .work) (fun _ => rfl) (by decide)]
    exact hsearching
  refine ⟨InjectMethodEnum.code_inj hcurrent, ?_, ?_⟩
  · cases m with
    | auto => exact ⟨fun _ => rfl, fun _ => Bool.toNat_eq_one.mp hrunning⟩
    | passive =>
      have hstopped : c.shared.isRunning .search = false := Bool.toNat_eq_zero.mp hrunning
      rw [hstopped]
      decide
  · rw [hcount]
    cases m <;> rfl

theorem ChangeInv.changesOk (h : ChangeInv c) : ChangesOk c where
  doChanges_le := by
    have haccount : c.shared.changes.length = _ := h.ok.account
    have hle : (counts c).doChanges = c.shared.doChanges := rfl
    omega
  atRest := h.atRest
  completed := fun hc _ hm => h.completed hc hm

/-- In every run whose steps all meet the condition, the changes come out right in every state. -/
theorem changesOk_of_orderly (profile : ℤ) (acts : List (Act InjectMethodEnum))
    (h : Guarded changeProgram Orderly (initial profile) acts) :
    ChangesOk (Threads.run changeProgram (initial profile) acts) :=
  (h.run ChangeInv.step (changeInv_initial profile)).changesOk

/-- A change to `INJECT_METHOD_AUTO`, and one to `INJECT_METHOD_PASSIVE` that finds the search
thread running. The caller makes `n` steps of it before the search thread ends, and the rest
afterwards. -/
def twoChanges (n : ℕ) : List (Act InjectMethodEnum) :=
  [Act.issue InjectMethodEnum.auto] ++ List.replicate 8 Act.caller ++
    [Act.worker 0, Act.issue InjectMethodEnum.passive] ++ List.replicate n Act.caller ++
    List.replicate 13 (Act.worker 0) ++ List.replicate 4 Act.caller

/-- The method is stored before the search thread ends. -/
theorem changesOk_stored :
    ChangesOk (Threads.run changeProgram (initial 0) (twoChanges 4)) :=
  changesOk_of_orderly 0 (twoChanges 4) (by decide)

/-- The completion reads the method of the change before: both changes have had their `DoChange`,
and the method is the one of the first. -/
theorem stale_method :
    ¬ ∀ profile acts, ChangesOk (Threads.run changeProgram (initial profile) acts) := by
  intro h
  have hok := (h 0 (twoChanges 3)).completed (by decide) .passive (by decide)
  exact absurd hok.1 (by decide)

end GameModule

end DreamDota
