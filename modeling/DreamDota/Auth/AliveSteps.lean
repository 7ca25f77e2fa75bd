import DreamDota.Auth.AliveMoves
import DreamDota.Auth.KeepAlive

/-!
# Steps as moves of tokens

Where the threads are when `AliveThread` points to an object, and what the steps do to the tokens
that leave `AliveThread` and the objects as they are.

1. `Code`, `Code.exec`: every thread executes its own code, with the handlers that were put there.
2. `place`, `counts`: the threads as tokens.
3. `Step`: what such a step keeps, and that it moves the tokens. One lemma for each point.
-/

namespace DreamDota

open Threads

namespace Auth

variable {io : AuthIo} {w : AuthState} {c c' : Config AuthState Point} {i : Point}
  {e : Effect AuthState Point}

/-! ## Who is where -/

/-- The handler of the completion of a thread. -/
def handlerOf : WorkerId → CompleteHandler
  | .login => .onLoginThreadComplete
  | .logout => .onLogoutThreadComplete
  | .alive _ => .onAliveThreadComplete

/-- The keep-alive thread that the point calls a method of. -/
def objectOf : Point → Option ℕ
  | .run (.alive n) | .startThread (.alive n) | .waitThread n | .join n | .waitEnd n => some n
  | _ => none

/-- The keep-alive thread that has not copied its handlers. -/
def procOf : Point → Option ℕ
  | .work (.alive n) | .aliveRequest n | .clearThread (.alive n) | .invokeComplete (.alive n) =>
    some n
  | _ => none

/-- Every thread executes its own handlers, and the login thread destroys nothing. -/
def Fits : Point → Prop
  | .handle id h => h = handlerOf id
  | .deleteAlive id | .nullAlive id => id ≠ .login
  | _ => True

/-- The handlers are where `Init` and the login thread put them. -/
structure Wired (w : AuthState) : Prop where
  login : ∀ h ∈ (w.threads .login).onThreadComplete, h = handlerOf .login
  logout : (w.threads .logout).onThreadComplete = [handlerOf .logout]
  alive : ∀ n, ∀ h ∈ (w.threads (.alive n)).onThreadComplete, h = handlerOf (.alive n)

theorem Wired.handlers (hw : Wired w) (id : WorkerId) :
    ∀ h ∈ (w.threads id).onThreadComplete, h = handlerOf id := by
  cases id with
  | login => exact hw.login
  | logout =>
    rw [hw.logout]
    exact fun h hh => List.mem_singleton.mp hh
  | alive n => exact hw.alive n

theorem onThreadComplete_mapThread (w : AuthState) (id id' : WorkerId)
    (f : WorkerThread CompleteHandler → WorkerThread CompleteHandler) :
    ((w.mapThread id f).threads id').onThreadComplete =
      if id' = id then (f (w.threads id)).onThreadComplete
      else (w.threads id').onThreadComplete := by
  unfold AuthState.mapThread
  simp only [Function.update_apply]
  split_ifs <;> rfl

/-- A change of a thread that keeps its handlers. -/
theorem Wired.mapThread (hw : Wired w) (id : WorkerId)
    {f : WorkerThread CompleteHandler → WorkerThread CompleteHandler}
    (hf : ∀ t, (f t).onThreadComplete = t.onThreadComplete) : Wired (w.mapThread id f) := by
  have hsame : ∀ id', ((w.mapThread id f).threads id').onThreadComplete =
      (w.threads id').onThreadComplete := by
    intro id'
    rw [onThreadComplete_mapThread]
    split_ifs with h
    · rw [hf, h]
    · rfl
  constructor
  · rw [hsame]
    exact hw.login
  · rw [hsame]
    exact hw.logout
  · intro n
    rw [hsame]
    exact hw.alive n

/-- A change of the handlers of a keep-alive thread. -/
theorem Wired.mapAlive (hw : Wired w) (n : ℕ)
    {f : WorkerThread CompleteHandler → WorkerThread CompleteHandler}
    (hf : ∀ t, ∀ h ∈ (f t).onThreadComplete,
      h ∈ t.onThreadComplete ∨ h = .onAliveThreadComplete) :
    Wired (w.mapThread (.alive n) f) := by
  constructor
  · rw [onThreadComplete_mapThread, if_neg (by simp)]
    exact hw.login
  · rw [onThreadComplete_mapThread, if_neg (by simp)]
    exact hw.logout
  · intro n' h hh
    rw [onThreadComplete_mapThread] at hh
    split_ifs at hh with heq
    · rcases hf _ h hh with hh | rfl
      · exact hw.alive n h hh
      · rfl
    · exact hw.alive n' h hh

/-- What a point leads to: its thread goes on, and only `Run` starts another. -/
structure Leads (w : AuthState) (i : Point) (e : Effect AuthState Point) : Prop where
  next : ∀ j ∈ e.next, owner j = owner i ∧ Fits j
  started : ∀ code ∈ e.started, ∃ id, i = .startThread id ∧ code = [.work id]
  wired : Wired e.shared

theorem Leads.goto {w' : AuthState} {next : List Point}
    (hnext : ∀ j ∈ next, owner j = owner i ∧ Fits j) (hw : Wired w') :
    Leads w i (.goto w' next) where
  next := hnext
  started := List.forall_mem_nil _
  wired := hw

/-- The thread goes to one point. -/
theorem Leads.one {w' : AuthState} {j : Point} (ho : owner j = owner i) (hf : Fits j)
    (hw : Wired w') : Leads w i (.goto w' [j]) :=
  .goto (fun _ hj => List.mem_singleton.mp hj ▸ ⟨ho, hf⟩) hw

theorem Leads.none {w' : AuthState} (hw : Wired w') : Leads w i (.goto w' []) :=
  .goto (List.forall_mem_nil _) hw

theorem Leads.ite {p : Prop} [Decidable p] {e' : Effect AuthState Point} (h : p → Leads w i e)
    (h' : ¬ p → Leads w i e') : Leads w i (if p then e else e') := by
  split_ifs with hp
  · exact h hp
  · exact h' hp

theorem Leads.withAlive {f : ℕ → Effect AuthState Point} (hw : Wired w)
    (h : ∀ n, Leads w i (f n)) : Leads w i (withAlive w f) := by
  unfold Auth.withAlive
  cases w.aliveThread with
  | none => exact .none ⟨hw.login, hw.logout, hw.alive⟩
  | some n => exact .ite (fun _ => h n) fun _ => .none ⟨hw.login, hw.logout, hw.alive⟩

theorem Leads.withObject (hw : Wired w) (id : WorkerId) (h : Leads w i e) :
    Leads w i (withObject w id e) := by
  cases id with
  | alive n => exact .ite (fun _ => h) fun _ => .none ⟨hw.login, hw.logout, hw.alive⟩
  | login | logout => exact h

theorem owner_run (id : WorkerId) : owner (.startThread id) = owner (.run id) := by
  cases id <;> rfl

theorem leads (hw : Wired w) (hi : Fits i) (he : execPoint io w i = some e) : Leads w i e := by
  have hsame : ∀ {w' : AuthState}, w'.threads = w.threads → Wired w' := by
    intro w' h
    constructor <;> rw [h]
    exacts [hw.login, hw.logout, hw.alive]
  cases i with
  | loginTest | loginCheck | logoutTest =>
    obtain rfl := Option.some.inj he
    refine .goto ?_ hw
    split_ifs <;> simp [owner, Fits]
  | logoutRemove =>
    obtain rfl := Option.some.inj he
    refine .withAlive hw fun n => .one rfl trivial (hw.mapAlive n fun t h hh => .inl ?_)
    exact List.mem_of_mem_erase hh
  | logoutSignal =>
    obtain rfl := Option.some.inj he
    exact .withAlive hw fun n => .one rfl trivial (hsame rfl)
  | run id =>
    obtain rfl := Option.some.inj he
    refine .withObject hw id (.goto ?_ hw)
    split_ifs <;> simp [owner_run, Fits]
  | startThread id =>
    obtain rfl := Option.some.inj he
    refine .withObject hw id ⟨List.forall_mem_nil _, fun code hcode => ?_, ?_⟩
    · exact ⟨id, rfl, List.mem_singleton.mp hcode⟩
    · have hset : Wired (w.mapThread id fun t => (t.setRunning true).setThread true) :=
        hw.mapThread id fun _ => rfl
      exact hset
  | work id =>
    obtain rfl := Option.some.inj he
    cases id with
    | login | logout => exact .one rfl trivial (hsame rfl)
    | alive n =>
      refine .goto ?_ hw
      split_ifs <;> simp [owner, Fits]
  | aliveRequest n =>
    obtain rfl := Option.some.inj he
    refine .ite (fun _ => .one rfl trivial (hsame rfl)) fun _ => .goto ?_ (hsame rfl)
    split_ifs <;> simp [owner, Fits]
  | clearThread id =>
    obtain rfl := Option.some.inj he
    exact .one rfl trivial (hw.mapThread id fun _ => rfl)
  | invokeComplete id =>
    obtain rfl := Option.some.inj he
    refine .goto (fun j hj => ?_) hw
    rcases List.mem_append.mp hj with hj | hj
    · obtain ⟨h, hh, rfl⟩ := List.mem_map.mp hj
      exact ⟨rfl, hw.handlers id h hh⟩
    · rw [List.mem_singleton.mp hj]
      exact ⟨rfl, trivial⟩
  | exit id =>
    cases id <;>
    · obtain rfl := Option.some.inj he
      exact .none (hsame rfl)
  | handle id h =>
    obtain rfl := Option.some.inj he
    obtain rfl : h = handlerOf id := hi
    cases id <;> exact .one rfl (by simp [Fits]) (hsame rfl)
  | newAlive =>
    obtain rfl := Option.some.inj he
    exact .one rfl trivial (hsame rfl)
  | addAlive =>
    obtain rfl := Option.some.inj he
    refine .withAlive hw fun n => .one rfl trivial (hw.mapAlive n fun t h hh => ?_)
    exact (List.mem_append.mp hh).imp_right List.mem_singleton.mp
  | runAlive =>
    obtain rfl := Option.some.inj he
    exact .withAlive hw fun n => .one rfl trivial hw
  | waitAlive =>
    obtain rfl := Option.some.inj he
    refine .withAlive hw fun n => .goto ?_ hw
    split_ifs <;> simp [owner, Fits]
  | waitThread n =>
    obtain rfl := Option.some.inj he
    refine .withObject hw _ (.goto ?_ hw)
    split_ifs <;> simp [owner, Fits]
  | join n =>
    obtain ⟨-, he⟩ := Option.ite_none_right_eq_some.mp he
    obtain rfl := Option.some.inj he
    exact .one rfl trivial hw
  | waitEnd n =>
    obtain rfl := Option.some.inj he
    refine .withObject hw _ (.ite (fun _ => ?_) fun _ => .one rfl (by simp [Fits]) hw)
    have hclear := hw.mapThread (.alive n) (f := (·.setThread false)) fun _ => rfl
    exact .one rfl (by simp [Fits]) ⟨hclear.login, hclear.logout, hclear.alive⟩
  | deleteAlive id =>
    obtain rfl := Option.some.inj he
    unfold execDelete
    cases w.aliveThread <;> exact .one rfl hi (hsame rfl)
  | nullAlive id =>
    obtain rfl := Option.some.inj he
    exact .none (hsame rfl)

/-- Every thread of the pool executes its own code, and the caller executes the rest. -/
structure Code (c : Config AuthState Point) : Prop where
  wired : Wired c.shared
  fits : ∀ i ∈ c.points, Fits i
  caller : ∀ i ∈ c.caller, owner i = none
  pool : ∀ code ∈ c.pool, ∃ id, ∀ i ∈ code, owner i = some id

theorem Code.exec (h : Code c) (he : execPoint io c.shared i = some e) (hex : Executed c i e c') :
    Code c' := by
  have hl : Leads c.shared i e := leads h.wired (h.fits i hex.mem) he
  constructor
  · rw [hex.shared]
    exact hl.wired
  · intro j hj
    obtain hj | hj | hj := hex.of_mem hj
    · exact h.fits j hj
    · exact (hl.next j hj).2
    · obtain ⟨code, hcode, hj⟩ := List.mem_flatten.mp hj
      obtain ⟨id, -, rfl⟩ := hl.started code hcode
      rw [List.mem_singleton.mp hj]
      trivial
  · intro j hj
    obtain hj | ⟨hi, hj⟩ := hex.of_mem_caller hj
    · exact h.caller j hj
    · rw [(hl.next j hj).1]
      exact h.caller i hi
  · refine hex.codes h.pool (fun rest ⟨id, hid⟩ => ⟨id, fun j hj => ?_⟩) fun code hcode => ?_
    · rcases List.mem_append.mp hj with hj | hj
      · rw [(hl.next j hj).1]
        exact hid i List.mem_cons_self
      · exact hid j (List.mem_cons_of_mem _ hj)
    · obtain ⟨id, -, rfl⟩ := hl.started code hcode
      exact ⟨id, fun j hj => List.mem_singleton.mp hj ▸ rfl⟩

theorem Code.issue (h : Code c) (hi : owner i = none) (hfits : Fits i) :
    Code ⟨c.shared, [i], c.pool⟩ where
  wired := h.wired
  fits := by
    intro j hj
    rcases List.mem_append.mp hj with hj | hj
    · exact List.mem_singleton.mp hj ▸ hfits
    · exact h.fits j (List.mem_append_right _ hj)
  caller := fun j hj => List.mem_singleton.mp hj ▸ hi
  pool := h.pool

/-! ## Tokens -/

/-- Where a thread is, when `AliveThread` points to `cur`. -/
def place (cur : Option ℕ) : Point → Place
  | .logoutTest => .logoutTest
  | .logoutRemove => .logoutRemove
  | .logoutSignal | .run .logout => .logoutSignal
  | .startThread .logout => .logoutStart
  | .work .logout | .clearThread .logout => .logoutWork
  | .invokeComplete .logout | .handle .logout _ => .logoutHandle
  | .waitAlive | .waitThread _ => .logoutWait
  | .join _ => .logoutJoin
  | .waitEnd _ | .deleteAlive .logout => .logoutDelete
  | .nullAlive .logout => .logoutNull
  | .loginCheck | .newAlive => .loginCheck
  | .addAlive => .addAlive
  | .runAlive | .run (.alive _) | .startThread (.alive _) => .runAlive
  | .work (.alive n) | .aliveRequest n | .clearThread (.alive n) =>
    if cur = some n then .aliveWork else .other
  | .invokeComplete (.alive n) => if cur = some n then .aliveInvoke else .other
  | .exit (.alive n) => if cur = some n then .aliveExit else .other
  | .handle (.alive _) _ => .aliveHandle
  | .deleteAlive (.alive _) => .aliveDelete
  | .nullAlive (.alive _) => .aliveNull
  | .loginTest | .run .login | .startThread .login | .work .login | .clearThread .login
  | .invokeComplete .login | .exit .login | .exit .logout | .handle .login _
  | .deleteAlive .login | .nullAlive .login => .other

def countsOf (w : AuthState) (n : Place → ℕ) : Counts where
  n := n
  null := w.aliveThread.isNone.toNat
  loggedIn := w.loggedIn.toNat
  logoutThread := (w.threads .logout).thread.toNat
  handlers := w.aliveThread.elim 0 fun k => (w.threads (.alive k)).onThreadComplete.length
  thread := w.aliveThread.elim 0 fun k => (w.threads (.alive k)).thread.toNat
  ended := w.aliveThread.elim 0 fun k => (w.ended k).toNat
  gone := w.aliveThread.elim 0 w.destroyed

def counts (c : Config AuthState Point) : Counts :=
  countsOf c.shared (c.tokens (place c.shared.aliveThread))

/-! ## Steps that leave `AliveThread` as it is -/

theorem threads_mapThread (w : AuthState) (id id' : WorkerId)
    (f : WorkerThread CompleteHandler → WorkerThread CompleteHandler) :
    (w.mapThread id f).threads id' = if id' = id then f (w.threads id) else w.threads id' := by
  unfold AuthState.mapThread
  simp only [Function.update_apply]

/-- What such a step leaves as it is. -/
structure Frame (w w' : AuthState) : Prop where
  aliveThread : w'.aliveThread = w.aliveThread
  created : w'.created = w.created
  destroyed : w'.destroyed = w.destroyed
  killed : w'.killed = w.killed
  faults : w'.faults = w.faults
  handlers : ∀ n, w.aliveThread ≠ some n →
    (w'.threads (.alive n)).onThreadComplete = (w.threads (.alive n)).onThreadComplete
  fresh : ∀ n, w.created ≤ n →
    w'.threads (.alive n) = w.threads (.alive n) ∧ w'.ended n = w.ended n

theorem Frame.vars (w : AuthState) (loggedIn result : Bool) (term : ℕ → Bool)
    (failedCount : ℕ → ℕ) (logins requests : ℕ) :
    Frame w { w with
      loggedIn := loggedIn
      result := result
      term := term
      failedCount := failedCount
      logins := logins
      requests := requests } :=
  ⟨rfl, rfl, rfl, rfl, rfl, fun _ _ => rfl, fun _ _ => ⟨rfl, rfl⟩⟩

theorem Frame.mapThread {id : WorkerId}
    {f : WorkerThread CompleteHandler → WorkerThread CompleteHandler}
    (hid : ∀ k, id = .alive k → k < w.created)
    (hf : (∀ t, (f t).onThreadComplete = t.onThreadComplete) ∨
      ∀ k, id = .alive k → w.aliveThread = some k) : Frame w (w.mapThread id f) := by
  refine ⟨rfl, rfl, rfl, rfl, rfl, fun n hn => ?_, fun n hn => ⟨?_, rfl⟩⟩
  · rw [threads_mapThread]
    split_ifs with heq
    · rcases hf with hf | hf
      · rw [hf, heq]
      · exact absurd (hf n heq.symm) hn
    · rfl
  · rw [threads_mapThread, if_neg fun heq => ?_]
    exact absurd (hid n heq.symm) (Nat.not_lt.mpr hn)

/-- The step keeps what is known of the objects, and moves the tokens. -/
structure Step (w : AuthState) (n : Place → ℕ) (i : Point) (e : Effect AuthState Point) : Prop where
  frame : Frame w e.shared
  object : ∀ j ∈ e.next, ∀ k ∈ objectOf j, w.aliveThread = some k
  proc : ∀ j ∈ e.next, ∀ k ∈ procOf j, procOf i = some k
  move : Counts.Move (countsOf w n) (place w.aliveThread i)
    (countsOf e.shared (fire n (place w.aliveThread i)
      ((e.next ++ e.started.flatten).map (place w.aliveThread))))

variable {n : Place → ℕ}

theorem Step.goto {w' : AuthState} {next : List Point} {bs : List Place} (hframe : Frame w w')
    (hobject : ∀ j ∈ next, ∀ k ∈ objectOf j, w.aliveThread = some k)
    (hproc : ∀ j ∈ next, ∀ k ∈ procOf j, procOf i = some k)
    (hplace : next.map (place w.aliveThread) = bs)
    (hmove : Counts.Move (countsOf w n) (place w.aliveThread i)
      (countsOf w' (fire n (place w.aliveThread i) bs))) : Step w n i (.goto w' next) := by
  refine ⟨hframe, hobject, hproc, ?_⟩
  show Counts.Move _ _ (countsOf w' (fire n _ ((next ++ [].flatten).map _)))
  rw [List.flatten_nil, List.append_nil, hplace]
  exact hmove

/-- The thread goes to a point that has no object. -/
theorem Step.one {w' : AuthState} {j : Point} {b : Place} (hframe : Frame w w')
    (hobject : objectOf j = none) (hproc : procOf j = none)
    (hplace : place w.aliveThread j = b)
    (hmove : Counts.Move (countsOf w n) (place w.aliveThread i)
      (countsOf w' (fire n (place w.aliveThread i) [b]))) : Step w n i (.goto w' [j]) := by
  refine .goto hframe (fun j' hj k hk => ?_) (fun j' hj k hk => ?_) ?_ hmove
  · rw [List.mem_singleton.mp hj, hobject] at hk
    cases hk
  · rw [List.mem_singleton.mp hj, hproc] at hk
    cases hk
  · rw [List.map_singleton, hplace]

/-- The thread has come to its end. -/
theorem Step.stop {w' : AuthState} (hframe : Frame w w')
    (hmove : Counts.Move (countsOf w n) (place w.aliveThread i)
      (countsOf w' (fire n (place w.aliveThread i) []))) : Step w n i (.goto w' []) :=
  .goto hframe nofun nofun rfl hmove

theorem Step.start {w' : AuthState} {id : WorkerId} {b : Place} (hframe : Frame w w')
    (hplace : place w.aliveThread (.work id) = b)
    (hmove : Counts.Move (countsOf w n) (place w.aliveThread i)
      (countsOf w' (fire n (place w.aliveThread i) [b]))) :
    Step w n i ⟨w', [], [[.work id]]⟩ := by
  refine ⟨hframe, nofun, nofun, ?_⟩
  show Counts.Move _ _ (countsOf w' (fire n _ [place w.aliveThread (.work id)]))
  rw [hplace]
  exact hmove

theorem Step.ite {p : Prop} [Decidable p] {e' : Effect AuthState Point} (h : p → Step w n i e)
    (h' : ¬ p → Step w n i e') : Step w n i (if p then e else e') := by
  split_ifs with hp
  · exact h hp
  · exact h' hp

theorem Frame.refl (w : AuthState) : Frame w w :=
  ⟨rfl, rfl, rfl, rfl, rfl, fun _ _ => rfl, fun _ _ => ⟨rfl, rfl⟩⟩

theorem countsOf_mapLogin (w : AuthState) (n : Place → ℕ)
    (f : WorkerThread CompleteHandler → WorkerThread CompleteHandler) :
    countsOf (w.mapThread .login f) n = countsOf w n := by
  unfold countsOf
  simp only [threads_mapThread, reduceCtorEq, ↓reduceIte]
  rfl

theorem countsOf_mapLogout (w : AuthState) (n : Place → ℕ)
    (f : WorkerThread CompleteHandler → WorkerThread CompleteHandler) :
    countsOf (w.mapThread .logout f) n =
      { countsOf w n with logoutThread := (f (w.threads .logout)).thread.toNat } := by
  unfold countsOf
  simp only [threads_mapThread, reduceCtorEq, ↓reduceIte]
  rfl

theorem countsOf_mapAlive {k : ℕ} (hk : w.aliveThread = some k) (n : Place → ℕ)
    (f : WorkerThread CompleteHandler → WorkerThread CompleteHandler) :
    countsOf (w.mapThread (.alive k) f) n =
      { countsOf w n with
        handlers := (f (w.threads (.alive k))).onThreadComplete.length
        thread := (f (w.threads (.alive k))).thread.toNat } := by
  have hk' : (w.mapThread (.alive k) f).aliveThread = some k := hk
  unfold countsOf
  rw [hk', hk]
  simp only [threads_mapThread, reduceCtorEq, ↓reduceIte, Option.elim_some]
  rfl

theorem countsOf_handlers {k : ℕ} (hk : w.aliveThread = some k) (n : Place → ℕ) :
    (countsOf w n).handlers = (w.threads (.alive k)).onThreadComplete.length := by
  unfold countsOf
  rw [hk]
  rfl

theorem countsOf_thread {k : ℕ} (hk : w.aliveThread = some k) (n : Place → ℕ) :
    (countsOf w n).thread = (w.threads (.alive k)).thread.toNat := by
  unfold countsOf
  rw [hk]
  rfl

/-- A change of the handlers. -/
theorem countsOf_setHandlers {k : ℕ} (hk : w.aliveThread = some k) (n : Place → ℕ)
    {f : WorkerThread CompleteHandler → WorkerThread CompleteHandler}
    (hf : ∀ t, (f t).thread = t.thread) :
    countsOf (w.mapThread (.alive k) f) n = { countsOf w n with
      handlers := (f (w.threads (.alive k))).onThreadComplete.length } := by
  rw [countsOf_mapAlive hk, hf, ← countsOf_thread hk n]

/-- A change of the handle. -/
theorem countsOf_setThread {k : ℕ} (hk : w.aliveThread = some k) (n : Place → ℕ)
    {f : WorkerThread CompleteHandler → WorkerThread CompleteHandler}
    (hf : ∀ t, (f t).onThreadComplete = t.onThreadComplete) :
    countsOf (w.mapThread (.alive k) f) n = { countsOf w n with
      thread := (f (w.threads (.alive k))).thread.toNat } := by
  rw [countsOf_mapAlive hk, hf, ← countsOf_handlers hk n]

theorem countsOf_mapAlive_of_ne {k : ℕ} (hk : w.aliveThread ≠ some k) (n : Place → ℕ)
    (f : WorkerThread CompleteHandler → WorkerThread CompleteHandler) :
    countsOf (w.mapThread (.alive k) f) n = countsOf w n := by
  unfold countsOf
  cases hcur : w.aliveThread with
  | none =>
    have hcur' : (w.mapThread (.alive k) f).aliveThread = none := hcur
    rw [hcur']
    simp only [threads_mapThread, reduceCtorEq, ↓reduceIte, Option.elim_none]
    rfl
  | some m =>
    have hcur' : (w.mapThread (.alive k) f).aliveThread = some m := hcur
    have hne : m ≠ k := fun heq => hk (heq ▸ hcur)
    rw [hcur']
    simp only [threads_mapThread, reduceCtorEq, ↓reduceIte, Option.elim_some, WorkerId.alive.injEq,
      hne]
    rfl

/-- What is known when a thread is at the point. -/
structure Situation (w : AuthState) (n : Place → ℕ) (i : Point) : Prop where
  ok : (countsOf w n).Ok
  pos : 0 < n (place w.aliveThread i)
  wired : Wired w
  fits : Fits i
  object : ∀ k ∈ objectOf i, w.aliveThread = some k
  stale : ∀ k ∈ procOf i, w.aliveThread ≠ some k →
    (w.threads (.alive k)).onThreadComplete = []
  owned : ∀ k, owner i = some (.alive k) → k < w.created
  current : ∀ k ∈ w.aliveThread, k < w.created

/-- The uses find `AliveThread`, and its object is live. -/
theorem Situation.live (h : Situation w n i) (huse : (place w.aliveThread i).uses = true) :
    ∃ k, w.aliveThread = some k ∧ w.destroyed k = 0 := by
  obtain ⟨hnull, hgone⟩ := h.ok.live h.pos huse
  cases hcur : w.aliveThread with
  | none =>
    have hone : (countsOf w n).null = 1 := by
      unfold countsOf
      rw [hcur]
      rfl
    omega
  | some k =>
    refine ⟨k, rfl, ?_⟩
    have hgone' : (countsOf w n).gone = w.destroyed k := by
      unfold countsOf
      rw [hcur]
      rfl
    rw [← hgone', hgone]

theorem withAlive_eq {k : ℕ} {f : ℕ → Effect AuthState Point} (hk : w.aliveThread = some k)
    (hlive : w.destroyed k = 0) : withAlive w f = f k := by
  unfold withAlive
  rw [hk]
  exact if_pos hlive

theorem withObject_eq {id : WorkerId} (h : ∀ k, id = .alive k → w.destroyed k = 0) :
    withObject w id e = e := by
  cases id with
  | alive k => exact if_pos (h k rfl)
  | login | logout => rfl

/-! ### `Login` and `Logout` -/

theorem step_loginTest (w : AuthState) (n : Place → ℕ) :
    Step w n .loginTest (.goto w (if w.loggedIn then [] else [.run .login])) := by
  refine .goto (.refl w) ?_ ?_ rfl (.elsewhere ?_) <;> split_ifs <;> simp [objectOf, procOf, place]

theorem step_logoutTest (hq : w.loggedIn = true → (countsOf w n).n .loginCheck = 0 ∧
      (countsOf w n).creating = 0 ∧ (countsOf w n).failing = 0 ∧ (countsOf w n).completing = 0) :
    Step w n .logoutTest (.goto w (if w.loggedIn then [.logoutRemove] else [])) := by
  split_ifs with hloggedIn
  · obtain ⟨hcheck, hcreate, hfail, hcomplete⟩ := hq hloggedIn
    refine .one (.refl w) rfl rfl rfl (.caller (.enter ?_ hcheck hcreate hfail hcomplete))
    show 0 < w.loggedIn.toNat
    rw [hloggedIn]
    exact Nat.one_pos
  · exact .stop (.refl w) (.caller .leave)

theorem length_removeHandler {t : WorkerThread CompleteHandler}
    (h : ∀ x ∈ t.onThreadComplete, x = .onAliveThreadComplete) :
    (t.removeHandler .onAliveThreadComplete).onThreadComplete.length =
      t.onThreadComplete.length - 1 := by
  show (t.onThreadComplete.erase .onAliveThreadComplete).length = _
  cases hlist : t.onThreadComplete with
  | nil => rfl
  | cons x l =>
    obtain rfl := h x (hlist ▸ List.mem_cons_self)
    rw [List.erase_cons_head]
    rfl

theorem step_logoutRemove (h : Situation w n .logoutRemove)
    (he : execPoint io w .logoutRemove = some e) : Step w n .logoutRemove e := by
  obtain ⟨k, hk, hlive⟩ := h.live rfl
  obtain rfl := Option.some.inj he
  rw [withAlive_eq hk hlive]
  refine .one (.mapThread ?_ (.inr ?_)) rfl rfl rfl ?_
  · rintro _ ⟨⟩
    exact h.current k hk
  · rintro _ ⟨⟩
    exact hk
  · rw [countsOf_setHandlers (f := (·.removeHandler .onAliveThreadComplete)) hk _ fun _ => rfl,
      length_removeHandler (h.wired.alive k), ← countsOf_handlers hk n]
    exact .caller .remove

theorem step_logoutSignal (h : Situation w n .logoutSignal)
    (he : execPoint io w .logoutSignal = some e) : Step w n .logoutSignal e := by
  obtain ⟨k, hk, hlive⟩ := h.live rfl
  obtain rfl := Option.some.inj he
  rw [withAlive_eq hk hlive]
  exact .one (.vars ..) rfl rfl rfl (.within _ nofun)

/-- `Run` of the threads that `Init` creates. -/
theorem step_run {id : WorkerId} (hid : id = .login ∨ id = .logout)
    (he : execPoint io w (.run id) = some e) : Step w n (.run id) e := by
  obtain rfl := Option.some.inj he
  rw [withObject_eq (by rintro k rfl; simp at hid)]
  rcases hid with rfl | rfl
  · refine .goto (.refl w) ?_ ?_ rfl (.elsewhere ?_) <;> split_ifs <;>
      simp [objectOf, procOf, place]
  · split_ifs with hthread
    · refine .stop (.refl w) (.caller (.started ?_))
      show (w.threads .logout).thread.toNat = 1
      rw [hthread]
      rfl
    · refine .one (.refl w) rfl rfl rfl (.caller (.run ?_))
      show (w.threads .logout).thread.toNat = 0
      rw [Bool.eq_false_iff.mpr hthread]
      rfl

theorem step_startThread {id : WorkerId} (hid : id = .login ∨ id = .logout)
    (he : execPoint io w (.startThread id) = some e) : Step w n (.startThread id) e := by
  obtain rfl := Option.some.inj he
  rw [withObject_eq (by rintro k rfl; simp at hid)]
  refine .start (.mapThread (by rintro k rfl; simp at hid) (.inl fun _ => rfl)) rfl ?_
  rcases hid with rfl | rfl
  · rw [countsOf_mapLogin]
    exact .elsewhere (by simp [place])
  · rw [countsOf_mapLogout]
    exact .caller .start

/-- The handlers are called. -/
theorem step_invoke {id : WorkerId} {bs : List Place}
    (he : execPoint io w (.invokeComplete id) = some e)
    (hplace : ((w.threads id).onThreadComplete.map (Point.handle id) ++ [Point.exit id]).map
      (place w.aliveThread) = bs)
    (hmove : Counts.Move (countsOf w n) (place w.aliveThread (.invokeComplete id))
      (countsOf w (fire n (place w.aliveThread (.invokeComplete id)) bs))) :
    Step w n (.invokeComplete id) e := by
  obtain rfl := Option.some.inj he
  have hmem : ∀ j ∈ (w.threads id).onThreadComplete.map (Point.handle id) ++ [.exit id],
      objectOf j = none ∧ procOf j = none := by
    intro j hj
    rcases List.mem_append.mp hj with hj | hj
    · obtain ⟨h, -, rfl⟩ := List.mem_map.mp hj
      exact ⟨rfl, rfl⟩
    · rw [List.mem_singleton.mp hj]
      exact ⟨rfl, rfl⟩
  refine .goto (.refl w) (fun j hj k hk => ?_) (fun j hj k hk => ?_) hplace hmove
  · rw [(hmem j hj).1] at hk
    cases hk
  · rw [(hmem j hj).2] at hk
    cases hk

/-! ### The logout thread -/

theorem step_workLogout (he : execPoint io w (.work .logout) = some e) :
    Step w n (.work .logout) e := by
  obtain rfl := Option.some.inj he
  exact .one (.refl w) rfl rfl rfl (.within _ nofun)

theorem step_clearLogout (hq : (countsOf w n).leaving = 0)
    (he : execPoint io w (.clearThread .logout) = some e) :
    Step w n (.clearThread .logout) e := by
  obtain rfl := Option.some.inj he
  refine .one (.mapThread nofun (.inl fun _ => rfl)) rfl rfl rfl ?_
  rw [countsOf_mapLogout]
  exact .logout (.clearThread hq)

theorem step_invokeLogout (h : Situation w n (.invokeComplete .logout))
    (he : execPoint io w (.invokeComplete .logout) = some e) :
    Step w n (.invokeComplete .logout) e := by
  have hplace : ((w.threads .logout).onThreadComplete.map (Point.handle .logout) ++
      [Point.exit .logout]).map (place w.aliveThread) = [.logoutHandle, .other] := by
    rw [h.wired.logout]
    rfl
  exact step_invoke he hplace (.within _ (by simp))

theorem step_handleLogout
    (he : execPoint io w (.handle .logout .onLogoutThreadComplete) = some e) :
    Step w n (.handle .logout .onLogoutThreadComplete) e := by
  obtain rfl := Option.some.inj he
  exact .one (.vars ..) rfl rfl rfl (.logout .handle)

theorem step_waitAlive (h : Situation w n .waitAlive) (he : execPoint io w .waitAlive = some e) :
    Step w n .waitAlive e := by
  obtain ⟨k, hk, hlive⟩ := h.live rfl
  obtain rfl := Option.some.inj he
  rw [withAlive_eq hk hlive]
  have hobject : ∀ j ∈ [if (w.threads (.alive k)).thread then Point.waitThread k else .waitEnd k],
      ∀ m ∈ objectOf j, w.aliveThread = some m := by
    split_ifs <;> simp [objectOf, hk]
  have hproc : ∀ j ∈ [if (w.threads (.alive k)).thread then Point.waitThread k else .waitEnd k],
      ∀ m ∈ procOf j, procOf .waitAlive = some m := by
    split_ifs <;> simp [procOf]
  split_ifs at hobject hproc ⊢ with hthread
  · exact .goto (.refl w) hobject hproc rfl (.within _ nofun)
  · refine .goto (.refl w) hobject hproc rfl (.logout (.noWait ?_))
    rw [countsOf_thread hk, Bool.eq_false_iff.mpr hthread]
    rfl

theorem step_waitThread {m : ℕ} (h : Situation w n (.waitThread m))
    (he : execPoint io w (.waitThread m) = some e) : Step w n (.waitThread m) e := by
  obtain ⟨k, hk, hlive⟩ := h.live rfl
  obtain rfl : m = k := Option.some.inj ((h.object m rfl).symm.trans hk)
  obtain rfl := Option.some.inj he
  rw [withObject_eq (by rintro _ ⟨⟩; exact hlive)]
  have hobject : ∀ j ∈ [if (w.threads (.alive m)).thread then Point.join m else .waitEnd m],
      ∀ m' ∈ objectOf j, w.aliveThread = some m' := by
    split_ifs <;> simp [objectOf, hk]
  have hproc : ∀ j ∈ [if (w.threads (.alive m)).thread then Point.join m else .waitEnd m],
      ∀ m' ∈ procOf j, procOf (.waitThread m) = some m' := by
    split_ifs <;> simp [procOf]
  split_ifs at hobject hproc ⊢ with hthread
  · refine .goto (.refl w) hobject hproc rfl (.logout (.wait ?_))
    rw [countsOf_thread hk, hthread]
    rfl
  · refine .goto (.refl w) hobject hproc rfl (.logout (.noWait ?_))
    rw [countsOf_thread hk, Bool.eq_false_iff.mpr hthread]
    rfl

theorem step_join {m : ℕ} (h : Situation w n (.join m)) (he : execPoint io w (.join m) = some e) :
    Step w n (.join m) e := by
  have hm := h.object m rfl
  obtain ⟨hended, he⟩ := Option.ite_none_right_eq_some.mp he
  obtain rfl := Option.some.inj he
  refine .goto (.refl w) (by simp [objectOf, hm]) (by simp [procOf]) rfl (.logout (.join ?_))
  unfold countsOf
  rw [hm]
  show (w.ended m).toNat = 1
  rw [hended]
  rfl

/-- The thread has left `Work`, and is not terminated. -/
theorem step_waitEnd {m : ℕ} (h : Situation w n (.waitEnd m))
    (he : execPoint io w (.waitEnd m) = some e) : Step w n (.waitEnd m) e := by
  obtain ⟨k, hk, hlive⟩ := h.live rfl
  obtain rfl : m = k := Option.some.inj ((h.object m rfl).symm.trans hk)
  obtain rfl := Option.some.inj he
  have hthread : (w.threads (.alive m)).thread = false := by
    have hzero := h.ok.stopped (Nat.lt_of_lt_of_le h.pos (Nat.le_add_right _ _))
    rw [countsOf_thread hk] at hzero
    cases hb : (w.threads (.alive m)).thread with
    | false => rfl
    | true =>
      rw [hb] at hzero
      cases hzero
  rw [withObject_eq (by rintro _ ⟨⟩; exact hlive), hthread]
  exact .one (.refl w) rfl rfl rfl (.within _ nofun)

/-! ### The login thread -/

theorem step_workLogin (he : execPoint io w (.work .login) = some e) :
    Step w n (.work .login) e := by
  obtain rfl := Option.some.inj he
  exact .one (.vars ..) rfl rfl rfl (.elsewhere (by simp [place]))

theorem step_clearLogin (he : execPoint io w (.clearThread .login) = some e) :
    Step w n (.clearThread .login) e := by
  obtain rfl := Option.some.inj he
  refine .one (.mapThread nofun (.inl fun _ => rfl)) rfl rfl rfl ?_
  rw [countsOf_mapLogin]
  exact .elsewhere (by simp [place])

theorem step_invokeLogin (he : execPoint io w (.invokeComplete .login) = some e) :
    Step w n (.invokeComplete .login) e := by
  refine step_invoke he rfl (.elsewhere fun p hp => ?_)
  obtain ⟨j, hj, rfl⟩ := List.mem_map.mp hp
  rcases List.mem_append.mp hj with hj | hj
  · obtain ⟨h, -, rfl⟩ := List.mem_map.mp hj
    rfl
  · rw [List.mem_singleton.mp hj]
    rfl

theorem step_handleLogin (he : execPoint io w (.handle .login .onLoginThreadComplete) = some e) :
    Step w n (.handle .login .onLoginThreadComplete) e := by
  obtain rfl := Option.some.inj he
  exact .one (.vars ..) rfl rfl rfl (.login (.handle _))

theorem step_loginCheck (he : execPoint io w .loginCheck = some e) : Step w n .loginCheck e := by
  obtain rfl := Option.some.inj he
  split_ifs with hloggedIn
  · exact .one (.refl w) rfl rfl rfl (.within _ nofun)
  · refine .stop (.refl w) (.login (.failed ?_))
    show w.loggedIn.toNat = 0
    rw [Bool.eq_false_iff.mpr hloggedIn]
    rfl

theorem step_addAlive (h : Situation w n .addAlive) (he : execPoint io w .addAlive = some e) :
    Step w n .addAlive e := by
  obtain ⟨k, hk, hlive⟩ := h.live rfl
  obtain rfl := Option.some.inj he
  rw [withAlive_eq hk hlive]
  refine .one (.mapThread ?_ (.inr ?_)) rfl rfl rfl ?_
  · rintro _ ⟨⟩
    exact h.current k hk
  · rintro _ ⟨⟩
    exact hk
  · have hlength :
        ((w.threads (.alive k)).addHandler .onAliveThreadComplete).onThreadComplete.length =
          (w.threads (.alive k)).onThreadComplete.length + 1 := List.length_append
    rw [countsOf_setHandlers (f := (·.addHandler .onAliveThreadComplete)) hk _ fun _ => rfl,
      hlength, ← countsOf_handlers hk n]
    exact .login .add

theorem step_runAlive (h : Situation w n .runAlive) (he : execPoint io w .runAlive = some e) :
    Step w n .runAlive e := by
  obtain ⟨k, hk, hlive⟩ := h.live rfl
  obtain rfl := Option.some.inj he
  rw [withAlive_eq hk hlive]
  exact .goto (.refl w) (by simp [objectOf, hk]) (by simp [procOf]) rfl (.within _ nofun)

theorem step_runObject {m : ℕ} (h : Situation w n (.run (.alive m)))
    (he : execPoint io w (.run (.alive m)) = some e) : Step w n (.run (.alive m)) e := by
  obtain ⟨k, hk, hlive⟩ := h.live rfl
  obtain rfl : m = k := Option.some.inj ((h.object m rfl).symm.trans hk)
  obtain rfl := Option.some.inj he
  rw [withObject_eq (by rintro _ ⟨⟩; exact hlive)]
  split_ifs with hthread
  · refine .stop (.refl w) (.login (.started ?_))
    rw [countsOf_thread hk, hthread]
    rfl
  · exact .goto (.refl w) (by simp [objectOf, hk]) (by simp [procOf]) rfl (.within _ nofun)

theorem step_startObject {m : ℕ} (h : Situation w n (.startThread (.alive m)))
    (he : execPoint io w (.startThread (.alive m)) = some e) :
    Step w n (.startThread (.alive m)) e := by
  obtain ⟨k, hk, hlive⟩ := h.live rfl
  obtain rfl : m = k := Option.some.inj ((h.object m rfl).symm.trans hk)
  obtain rfl := Option.some.inj he
  rw [withObject_eq (by rintro _ ⟨⟩; exact hlive)]
  refine .start (.mapThread ?_ (.inl fun _ => rfl)) (if_pos hk) ?_
  · rintro _ ⟨⟩
    exact h.current m hk
  · rw [countsOf_setThread (f := fun t => (t.setRunning true).setThread true) hk _ fun _ => rfl]
    exact .login .start

/-! ### The keep-alive thread -/

/-- The thread of an object that `AliveThread` does not point to any more. -/
theorem Step.away {w' : AuthState} {next : List Point} (hframe : Frame w w')
    (hobject : ∀ j ∈ next, ∀ k ∈ objectOf j, w.aliveThread = some k)
    (hproc : ∀ j ∈ next, ∀ k ∈ procOf j, procOf i = some k)
    (hi : place w.aliveThread i = .other) (hplace : ∀ j ∈ next, place w.aliveThread j = .other)
    (hcounts : ∀ m, countsOf w' m = countsOf w m) : Step w n i (.goto w' next) := by
  refine .goto hframe hobject hproc rfl ?_
  rw [hcounts, hi]
  refine .elsewhere fun p hp => ?_
  obtain ⟨j, hj, rfl⟩ := List.mem_map.mp hp
  exact hplace j hj

/-- Between the places where the thread works. -/
theorem Step.proc_goto {w' : AuthState} {m : ℕ} {j : Point} (hframe : Frame w w')
    (hi : procOf i = some m) (hobject : objectOf j = none) (hproc : procOf j = some m)
    (hj : place w.aliveThread j = place w.aliveThread i)
    (hcounts : ∀ m, countsOf w' m = countsOf w m) : Step w n i (.goto w' [j]) := by
  refine .goto hframe ?_ ?_ rfl ?_
  · intro j' hj' k hk
    rw [List.mem_singleton.mp hj', hobject] at hk
    cases hk
  · intro j' hj' k hk
    rw [List.mem_singleton.mp hj'] at hk
    exact hi.trans (hproc.symm.trans hk)
  · rw [hcounts, List.map_singleton, hj]
    exact .within _ nofun

theorem step_workObject {m : ℕ} (he : execPoint io w (.work (.alive m)) = some e) :
    Step w n (.work (.alive m)) e := by
  obtain rfl := Option.some.inj he
  show Step w n _ (.goto w [if w.term m then .clearThread (.alive m) else .aliveRequest m])
  split_ifs <;> exact .proc_goto (.refl w) rfl rfl rfl rfl fun _ => rfl

theorem step_aliveRequest {m : ℕ} (he : execPoint io w (.aliveRequest m) = some e) :
    Step w n (.aliveRequest m) e := by
  obtain rfl := Option.some.inj he
  unfold execRequest
  refine .ite (fun _ => ?_) fun _ => ?_
  · exact .proc_goto (.vars ..) rfl rfl rfl rfl fun _ => rfl
  · split_ifs <;> exact .proc_goto (.vars ..) rfl rfl rfl rfl fun _ => rfl

theorem step_clearObject {m : ℕ} (h : Situation w n (.clearThread (.alive m)))
    (he : execPoint io w (.clearThread (.alive m)) = some e) :
    Step w n (.clearThread (.alive m)) e := by
  obtain rfl := Option.some.inj he
  have hframe : Frame w (w.mapThread (.alive m) fun t => (t.setThread false).setRunning false) := by
    refine .mapThread ?_ (.inl fun _ => rfl)
    rintro _ ⟨⟩
    exact h.owned m rfl
  have hproc : ∀ j ∈ [Point.invokeComplete (.alive m)], ∀ k ∈ procOf j,
      procOf (.clearThread (.alive m)) = some k := by
    simp [procOf]
  by_cases hk : w.aliveThread = some m
  · refine .goto hframe (by simp [objectOf]) hproc rfl ?_
    have hi : place w.aliveThread (.clearThread (.alive m)) = .aliveWork := if_pos hk
    have hj : place w.aliveThread (.invokeComplete (.alive m)) = .aliveInvoke := if_pos hk
    rw [List.map_singleton, hi, hj,
      countsOf_setThread (f := fun t => (t.setThread false).setRunning false) hk _ fun _ => rfl]
    exact .alive .clearThread
  · exact .away hframe (by simp [objectOf]) hproc (if_neg hk) (by simp [place, hk])
      fun _ => countsOf_mapAlive_of_ne hk _ _

theorem step_invokeObject {m : ℕ} (h : Situation w n (.invokeComplete (.alive m)))
    (hq : (w.threads (.alive m)).onThreadComplete ≠ [] → (countsOf w n).n .logoutRemove = 0)
    (he : execPoint io w (.invokeComplete (.alive m)) = some e) :
    Step w n (.invokeComplete (.alive m)) e := by
  refine step_invoke he rfl ?_
  by_cases hk : w.aliveThread = some m
  · have hi : place w.aliveThread (.invokeComplete (.alive m)) = .aliveInvoke := if_pos hk
    have hexit : place w.aliveThread (.exit (.alive m)) = .aliveExit := if_pos hk
    have hplace : ((w.threads (.alive m)).onThreadComplete.map (Point.handle (.alive m)) ++
        [Point.exit (.alive m)]).map (place w.aliveThread) =
          List.replicate (countsOf w n).handlers .aliveHandle ++ [.aliveExit] := by
      rw [List.map_append, List.map_map, List.map_singleton, hexit, countsOf_handlers hk,
        ← List.map_const]
      rfl
    rw [hplace, hi]
    refine .alive (.invoke fun hpos => hq fun hnil => ?_)
    rw [countsOf_handlers hk, hnil] at hpos
    exact absurd hpos (Nat.lt_irrefl 0)
  · have hi : place w.aliveThread (.invokeComplete (.alive m)) = .other := if_neg hk
    rw [h.stale m rfl hk, hi]
    refine .elsewhere ?_
    simp [place, hk]

theorem step_exitObject {m : ℕ} (h : Situation w n (.exit (.alive m)))
    (he : execPoint io w (.exit (.alive m)) = some e) : Step w n (.exit (.alive m)) e := by
  obtain rfl := Option.some.inj he
  have hlt := h.owned m rfl
  have hframe : Frame w { w with ended := Function.update w.ended m true } := by
    refine ⟨rfl, rfl, rfl, rfl, rfl, fun _ _ => rfl, fun k hk => ⟨rfl, ?_⟩⟩
    exact Function.update_of_ne (by omega) ..
  refine .stop hframe ?_
  by_cases hk : w.aliveThread = some m
  · have hi : place w.aliveThread (.exit (.alive m)) = .aliveExit := if_pos hk
    have hcounts : ∀ n', countsOf { w with ended := Function.update w.ended m true } n' =
        { countsOf w n' with ended := 1 } := by
      intro n'
      unfold countsOf
      simp only [hk, Option.elim_some, Function.update_self]
      rfl
    rw [hi, hcounts]
    exact .alive .exit
  · have hi : place w.aliveThread (.exit (.alive m)) = .other := if_neg hk
    have hcounts : ∀ n', countsOf { w with ended := Function.update w.ended m true } n' =
        countsOf w n' := by
      intro n'
      unfold countsOf
      cases hcur : w.aliveThread with
      | none => rfl
      | some k =>
        have hne : k ≠ m := fun heq => hk (heq ▸ hcur)
        simp only [Option.elim_some, Function.update_of_ne hne]
    rw [hi, hcounts]
    exact .elsewhere nofun

theorem step_exit {id : WorkerId} (hid : id = .login ∨ id = .logout)
    (he : execPoint io w (.exit id) = some e) : Step w n (.exit id) e := by
  rcases hid with rfl | rfl
  all_goals
    obtain rfl := Option.some.inj he
    exact .stop (.refl w) (.elsewhere nofun)

theorem step_handleObject {m : ℕ}
    (he : execPoint io w (.handle (.alive m) .onAliveThreadComplete) = some e) :
    Step w n (.handle (.alive m) .onAliveThreadComplete) e := by
  obtain rfl := Option.some.inj he
  exact .one (.vars ..) rfl rfl rfl (.alive .handle)

end Auth

end DreamDota
