import DreamDota.Auth.AliveObjects

/-!
# The lifetime of the keep-alive thread

`Logout` tests whether somebody is logged in, and uses `AliveThread` later. In between a completion
can destroy the object, and a second login or logout can find what the first one has left half
done. `aliveOk_apart`: when no step does that, the uses find a live object, each object is destroyed
once, and there is one at a time.

1. `Apart`: the steps after which the objects still come out right.
2. `Inv.exec`, `Inv.issue`: what these steps keep.
3. `aliveOk_apart`: what holds in every state, and at rest.
-/

namespace DreamDota

open Threads

namespace Auth

variable {io : AuthIo} {w : AuthState} {n : Place → ℕ} {c c' : Config AuthState Point} {i : Point}
  {e : Effect AuthState Point}

/-! ## Steps that keep apart -/

/-- The thread is in a completion that creates or destroys the object, or is about to. -/
def completes : Point → Bool
  | .loginCheck | .newAlive | .addAlive | .runAlive | .run (.alive _) | .startThread (.alive _) =>
    true
  | .handle (.alive _) _ | .deleteAlive _ | .nullAlive _ => true
  | .invokeComplete .logout | .handle .logout _ => true
  | .waitAlive | .waitThread _ | .join _ | .waitEnd _ => true
  | _ => false

/-- The caller is in `Logout` and has found itself logged in. -/
def leaves : Point → Bool
  | .logoutRemove | .logoutSignal | .run .logout | .startThread .logout => true
  | _ => false

/-- `Logout` does not find itself logged in during a completion, the logout thread does not come to
its end and the keep-alive thread does not copy its handler during a `Logout`, and the login thread
finds `AliveThread` to be `NULL`. -/
def Apart (c : Config AuthState Point) : Point → Prop
  | .logoutTest => c.shared.loggedIn = true → ∀ j ∈ c.points, completes j = false
  | .clearThread .logout => ∀ j ∈ c.points, leaves j = false
  | .newAlive => c.shared.aliveThread = none
  | .invokeComplete (.alive n) =>
    (c.shared.threads (.alive n)).onThreadComplete ≠ [] → .logoutRemove ∉ c.points
  | _ => True

instance (c : Config AuthState Point) : DecidablePred (Apart c)
  | .logoutTest => inferInstanceAs (Decidable (_ → _))
  | .clearThread .logout => inferInstanceAs (Decidable (∀ j ∈ _, _))
  | .newAlive => inferInstanceAs (Decidable (_ = _))
  | .invokeComplete (.alive _) => inferInstanceAs (Decidable (_ → _))
  | .clearThread .login | .clearThread (.alive _) | .invokeComplete .login
  | .invokeComplete .logout => isTrue trivial
  | .loginTest | .logoutRemove | .logoutSignal | .run _ | .startThread _ | .work _
  | .aliveRequest _ | .exit _ | .handle _ _ | .loginCheck | .addAlive | .runAlive | .waitAlive
  | .waitThread _ | .join _ | .waitEnd _ | .deleteAlive _ | .nullAlive _ => isTrue trivial

theorem completes_of_place {cur : Option ℕ} (h : place cur i ∈ [Place.loginCheck, .addAlive,
    .runAlive, .aliveHandle, .aliveDelete, .aliveNull, .logoutHandle, .logoutWait, .logoutJoin,
    .logoutDelete, .logoutNull]) : completes i = true := by
  cases i with
  | work id | clearThread id | invokeComplete id | exit id =>
    cases id with
    | alive m => by_cases hm : cur = some m <;> simp [place, hm] at h
    | login => simp [place] at h
    | logout => first | rfl | simp [place] at h
  | aliveRequest m => by_cases hm : cur = some m <;> simp [place, hm] at h
  | run id | startThread id | deleteAlive id | nullAlive id =>
    cases id <;> first | rfl | simp [place] at h
  | handle id x => cases id <;> first | rfl | simp [place] at h
  | _ => first | rfl | simp [place] at h

theorem leaves_of_place {cur : Option ℕ} (h : place cur i ∈ [Place.logoutRemove, .logoutSignal,
    .logoutStart]) : leaves i = true := by
  cases i with
  | work id | clearThread id | invokeComplete id | exit id =>
    cases id with
    | alive m => by_cases hm : cur = some m <;> simp [place, hm] at h
    | login | logout => simp [place] at h
  | aliveRequest m => by_cases hm : cur = some m <;> simp [place, hm] at h
  | run id | startThread id | deleteAlive id | nullAlive id =>
    cases id <;> first | rfl | simp [place] at h
  | handle id x => cases id <;> simp [place] at h
  | _ => first | rfl | simp [place] at h

theorem eq_logoutRemove {cur : Option ℕ} (h : place cur i = .logoutRemove) :
    i = .logoutRemove := by
  cases i with
  | work id | clearThread id | invokeComplete id | exit id =>
    cases id with
    | alive m => by_cases hm : cur = some m <;> simp [place, hm] at h
    | login | logout => cases h
  | aliveRequest m => by_cases hm : cur = some m <;> simp [place, hm] at h
  | run id | startThread id | deleteAlive id | nullAlive id => cases id <;> cases h
  | handle id x => cases id <;> cases h
  | _ => first | rfl | cases h

theorem Apart.logoutTest (h : Apart c .logoutTest) (hloggedIn : c.shared.loggedIn = true) :
    (counts c).n .loginCheck = 0 ∧ (counts c).creating = 0 ∧ (counts c).failing = 0 ∧
      (counts c).completing = 0 := by
  have hzero : ∀ p ∈ [Place.loginCheck, .addAlive, .runAlive, .aliveHandle, .aliveDelete,
      .aliveNull, .logoutHandle, .logoutWait, .logoutJoin, .logoutDelete, .logoutNull],
      (counts c).n p = 0 := by
    refine fun p hp => tokens_eq_zero.mpr fun j hj heq => ?_
    have hcompletes := completes_of_place (heq ▸ hp)
    rw [h hloggedIn j hj] at hcompletes
    cases hcompletes
  unfold Counts.creating Counts.failing Counts.completing
  simp only [List.forall_mem_cons] at hzero
  omega

theorem Apart.clearThread (h : Apart c (.clearThread .logout)) : (counts c).leaving = 0 := by
  have hzero : ∀ p ∈ [Place.logoutRemove, .logoutSignal, .logoutStart], (counts c).n p = 0 := by
    refine fun p hp => tokens_eq_zero.mpr fun j hj heq => ?_
    have hleaves := leaves_of_place (heq ▸ hp)
    rw [h j hj] at hleaves
    cases hleaves
  unfold Counts.leaving
  simp only [List.forall_mem_cons] at hzero
  omega

theorem Apart.invokeComplete {m : ℕ} (h : Apart c (.invokeComplete (.alive m)))
    (hhandlers : (c.shared.threads (.alive m)).onThreadComplete ≠ []) :
    (counts c).n .logoutRemove = 0 :=
  tokens_eq_zero.mpr fun _ hj heq => h hhandlers (eq_logoutRemove heq ▸ hj)

/-- What the steps do that leave `AliveThread` as it is. -/
theorem Inv.step_of_apart (h : Inv c) (hq : Apart c i) (hi : i ∈ c.points)
    (hnew : i ≠ .newAlive) (hdelete : ∀ id, i ≠ .deleteAlive id) (hnull : ∀ id, i ≠ .nullAlive id)
    (he : execPoint io c.shared i = some e) :
    Step c.shared (c.tokens (place c.shared.aliveThread)) i e := by
  have hs := h.situation hi
  cases i with
  | loginTest => exact Option.some.inj he ▸ step_loginTest ..
  | logoutTest => exact Option.some.inj he ▸ step_logoutTest hq.logoutTest
  | logoutRemove => exact step_logoutRemove hs he
  | logoutSignal => exact step_logoutSignal hs he
  | run id =>
    cases id with
    | login => exact step_run (.inl rfl) he
    | logout => exact step_run (.inr rfl) he
    | alive m => exact step_runObject hs he
  | startThread id =>
    cases id with
    | login => exact step_startThread (.inl rfl) he
    | logout => exact step_startThread (.inr rfl) he
    | alive m => exact step_startObject hs he
  | work id =>
    cases id with
    | login => exact step_workLogin he
    | logout => exact step_workLogout he
    | alive m => exact step_workObject he
  | aliveRequest m => exact step_aliveRequest he
  | clearThread id =>
    cases id with
    | login => exact step_clearLogin he
    | logout => exact step_clearLogout hq.clearThread he
    | alive m => exact step_clearObject hs he
  | invokeComplete id =>
    cases id with
    | login => exact step_invokeLogin he
    | logout => exact step_invokeLogout hs he
    | alive m => exact step_invokeObject hs hq.invokeComplete he
  | exit id =>
    cases id with
    | login => exact step_exit (.inl rfl) he
    | logout => exact step_exit (.inr rfl) he
    | alive m => exact step_exitObject hs he
  | handle id x =>
    obtain rfl : x = handlerOf id := hs.fits
    cases id with
    | login => exact step_handleLogin he
    | logout => exact step_handleLogout he
    | alive m => exact step_handleObject he
  | loginCheck => exact step_loginCheck he
  | newAlive => exact absurd rfl hnew
  | addAlive => exact step_addAlive hs he
  | runAlive => exact step_runAlive hs he
  | waitAlive => exact step_waitAlive hs he
  | waitThread m => exact step_waitThread hs he
  | join m => exact step_join hs he
  | waitEnd m => exact step_waitEnd hs he
  | deleteAlive id => exact absurd rfl (hdelete id)
  | nullAlive id => exact absurd rfl (hnull id)

theorem exec_eq (h : Objects c) (i : Point) : exec io i c.shared = execPoint io c.shared i := by
  unfold exec
  refine if_neg ?_
  unfold isKilled
  split
  · rw [h.killed]
    exact Bool.false_ne_true
  · exact Bool.false_ne_true

theorem Inv.exec (h : Inv c) (hq : Apart c i) (he : Auth.exec io i c.shared = some e)
    (hex : Executed c i e c') : Inv c' := by
  rw [exec_eq h.objects] at he
  cases hi : i with
  | newAlive =>
    subst hi
    exact h.newAlive hq he hex
  | deleteAlive id =>
    subst hi
    exact h.deleteAlive he hex
  | nullAlive id =>
    subst hi
    exact h.nullAlive he hex
  | _ =>
    refine h.of_step (h.step_of_apart hq hex.mem ?_ ?_ ?_ he) he hex <;> simp [hi]

/-- Only the caller is in `Logout`. -/
theorem owner_of_place {cur : Option ℕ} (h : place cur i ∈ [Place.logoutTest, .logoutRemove,
    .logoutSignal, .logoutStart]) : owner i = none := by
  cases i with
  | work id | clearThread id | invokeComplete id | exit id =>
    cases id with
    | alive m => by_cases hm : cur = some m <;> simp [place, hm] at h
    | login | logout => simp [place] at h
  | aliveRequest m => by_cases hm : cur = some m <;> simp [place, hm] at h
  | run id | startThread id | deleteAlive id | nullAlive id =>
    cases id <;> first | rfl | simp [place] at h
  | handle id x => cases id <;> simp [place] at h
  | _ => first | rfl | simp [place] at h

theorem Code.not_leaving (h : Code c) (hcaller : c.caller = []) :
    (counts c).n .logoutTest + (counts c).leaving = 0 := by
  have hpool : ∀ j ∈ c.points, owner j ≠ none := by
    intro j hj hnone
    unfold Config.points at hj
    rw [hcaller, List.nil_append] at hj
    obtain ⟨code, hcode, hj⟩ := List.mem_flatten.mp hj
    obtain ⟨id, hid⟩ := h.pool code hcode
    cases hnone.symm.trans (hid j hj)
  have hzero : ∀ p ∈ [Place.logoutTest, .logoutRemove, .logoutSignal, .logoutStart],
      (counts c).n p = 0 := fun p hp =>
    tokens_eq_zero.mpr fun j hj heq => hpool j hj (owner_of_place (heq ▸ hp))
  unfold Counts.leaving
  simp only [List.forall_mem_cons] at hzero
  omega

theorem Objects.issue (h : Objects c) (hcaller : c.caller = [])
    (hi : i = .loginTest ∨ i = .logoutTest) : Objects ⟨c.shared, [i], c.pool⟩ := by
  have hpoints : ∀ j ∈ Config.points ⟨c.shared, [i], c.pool⟩, j = i ∨ j ∈ c.points := by
    unfold Config.points
    rw [hcaller]
    exact fun j hj => List.mem_cons.mp hj
  have hnone : objectOf i = none ∧ procOf i = none ∧ workOf i = none ∧ owner i = none := by
    rcases hi with rfl | rfl <;> exact ⟨rfl, rfl, rfl, rfl⟩
  obtain ⟨hobject, hproc, hwork, howner⟩ := hnone
  refine ⟨fun j hj m hm => ?_, fun j hj m hm => ?_, fun j hj m hm => ?_, fun j hj m hm => ?_,
    h.current, h.fresh, h.old, h.killed, h.faults⟩ <;> obtain rfl | hj := hpoints j hj
  · cases hobject.symm.trans hm
  · exact h.object j hj m hm
  · cases hwork.symm.trans hm
  · exact h.work j hj m hm
  · cases hproc.symm.trans hm
  · exact h.stale j hj m hm
  · cases howner.symm.trans hm
  · exact h.owned j hj m hm

/-- The caller begins. -/
theorem Inv.issue (h : Inv c) (hcaller : c.caller = []) (hi : i = .loginTest ∨ i = .logoutTest) :
    Inv ⟨c.shared, [i], c.pool⟩ := by
  refine ⟨?_, ?_, h.objects.issue hcaller hi⟩
  · rcases hi with rfl | rfl <;> exact h.code.issue rfl trivial
  · rcases hi with rfl | rfl
    · refine h.ok.congr ⟨_, rfl, fun p hp => ?_⟩
      exact (tokens_issue _ hcaller _ .loginTest p).trans (if_neg hp ▸ rfl)
    · exact h.ok.issue (h.code.not_leaving hcaller)
        (funext (tokens_issue _ hcaller _ .logoutTest))

theorem inv_initial : Inv initial where
  code := ⟨⟨fun _ h => List.mem_singleton.mp h, rfl, nofun⟩, nofun, nofun, nofun⟩
  ok := by
    have hn : ∀ p, (counts initial).n p = 0 := fun _ => rfl
    have hcounts : (counts initial).null = 1 ∧ (counts initial).loggedIn = 0 ∧
        (counts initial).logoutThread = 0 ∧ (counts initial).handlers = 0 ∧
        (counts initial).thread = 0 ∧ (counts initial).ended = 0 := ⟨rfl, rfl, rfl, rfl, rfl, rfl⟩
    constructor <;> simp only [hn, hcounts, Counts.leaving, Counts.completing, Counts.creating,
      Counts.working, Counts.failing, Counts.removed, Counts.ending] <;> decide
  objects :=
    ⟨nofun, nofun, nofun, nofun, nofun, fun _ _ => ⟨rfl, rfl, rfl⟩, nofun, fun _ => rfl, rfl⟩

theorem Inv.step (c : Config AuthState Point) (a : Act Command) (h : Inv c)
    (hq : ∀ i ∈ c.pointOf a, Apart c i) : Inv (Threads.step (program io) c a) := by
  refine step_guarded (fun c cmd w code h hcaller hcmd => ?_)
    (fun c i e c' h hq he hex => h.exec hq he hex) c a h hq
  cases cmd <;> obtain ⟨rfl, rfl⟩ := Prod.mk.inj (Option.some.inj hcmd)
  · exact h.issue hcaller (.inl rfl)
  · exact h.issue hcaller (.inr rfl)

theorem inv_run {acts : List (Act Command)}
    (hacts : Guarded (program io) Apart initial acts) :
    Inv (Threads.run (program io) initial acts) :=
  hacts.run Inv.step inv_initial

/-! ## The lifetime of the objects -/

/-- The uses find a live object; each object is destroyed once, at the latest when all threads have
come to rest; at most one of them is live, and at most one thread is in `Work`. -/
structure AliveOk (io : AuthIo) (c : Config AuthState Point) : Prop where
  uses : c.shared.faults = 0
  atMostOnce : ∀ n < c.shared.created, c.shared.destroyed n ≤ 1
  one : ∀ m < c.shared.created, ∀ n < c.shared.created,
    c.shared.IsLive m → c.shared.IsLive n → m = n
  works : c.points.countP (fun i => (workOf i).isSome) ≤ 1
  once : AtRest (program io) c → ∀ n < c.shared.created, c.shared.destroyed n = 1

/-- An object that is not pointed to was destroyed. -/
theorem Objects.current_of_live (h : Objects c) {k : ℕ} (hk : k < c.shared.created)
    (hlive : c.shared.IsLive k) : c.shared.aliveThread = some k := by
  by_contra hne
  cases hlive.symm.trans (h.old k hk hne)

theorem Inv.atMostOnce (h : Inv c) {k : ℕ} (hk : k < c.shared.created) :
    c.shared.destroyed k ≤ 1 := by
  by_cases hcur : c.shared.aliveThread = some k
  · have hgone : (counts c).gone = c.shared.destroyed k := by
      unfold counts countsOf
      rw [hcur]
      rfl
    have hnull : (counts c).null = 0 := by
      unfold counts countsOf
      rw [hcur]
      rfl
    have hgone_eq := h.ok.gone_eq hnull
    have hthread := h.ok.one_thread
    have hone := h.ok.one_logout
    have halone := h.ok.alone
    unfold Counts.failing at hthread halone
    unfold Counts.completing at hone halone
    omega
  · exact Nat.le_of_eq (h.objects.old k hk hcur)

theorem Inv.works (h : Inv c) : c.points.countP (fun i => (workOf i).isSome) ≤ 1 := by
  have hle : c.points.countP (fun i => (workOf i).isSome) ≤ (counts c).n .aliveWork := by
    refine List.countP_mono_left fun i hi hsome => ?_
    obtain ⟨k, hk⟩ := Option.isSome_iff_exists.mp hsome
    rw [h.objects.work i hi k hk]
    exact decide_eq_true (place_of_workOf hk)
  have hthread := h.ok.one_thread
  unfold Counts.working at hthread
  omega

theorem owner_of_alive {cur : Option ℕ} (h : place cur i ∈ [Place.aliveWork, .aliveInvoke,
    .aliveExit]) : ∃ k, owner i = some (.alive k) := by
  cases i with
  | work id | clearThread id | invokeComplete id | exit id =>
    cases id with
    | alive m => exact ⟨m, rfl⟩
    | login | logout => simp [place] at h
  | aliveRequest m => exact ⟨m, rfl⟩
  | run id | startThread id | deleteAlive id | nullAlive id => cases id <;> simp [place] at h
  | handle id x => cases id <;> simp [place] at h
  | _ => simp [place] at h

/-- Only the wait for the keep-alive thread blocks. -/
theorem join_of_blocked (h : execPoint io w i = none) : ∃ k, i = .join k ∧ w.ended k = false := by
  cases i with
  | join k =>
    refine ⟨k, rfl, ?_⟩
    by_contra hended
    have hsome : execPoint io w (.join k) = some (.goto w [.waitEnd k]) :=
      if_pos (Bool.of_not_eq_false hended)
    cases hsome.symm.trans h
  | exit id => cases id <;> cases h
  | _ => cases h

/-- When the threads have come to rest, nothing is left to be executed: a wait would be for a thread
that has not ended, and that can move. -/
theorem Inv.points_eq_nil (h : Inv c) (hrest : AtRest (program io) c) : c.points = [] := by
  obtain ⟨hcaller, hpool⟩ := hrest
  have hhead : ∀ code ∈ c.pool, ∀ i ∈ code.head?,
      ∃ k, i = .join k ∧ c.shared.ended k = false := by
    intro code hcode i hi
    have hnone : Auth.exec io i c.shared = none := hpool code hcode i hi
    rw [exec_eq h.objects] at hnone
    exact join_of_blocked hnone
  -- no thread of a keep-alive object
  have halive : ∀ p ∈ [Place.aliveWork, .aliveInvoke, .aliveExit], (counts c).n p = 0 := by
    refine fun p hp => tokens_eq_zero.mpr fun j hj heq => ?_
    obtain ⟨k, hk⟩ := owner_of_alive (heq ▸ hp)
    unfold Config.points at hj
    rw [hcaller, List.nil_append] at hj
    obtain ⟨code, hcode, hj⟩ := List.mem_flatten.mp hj
    obtain ⟨id, hid⟩ := h.code.pool code hcode
    obtain ⟨i, rest, rfl⟩ := List.exists_cons_of_ne_nil (List.ne_nil_of_mem hj)
    obtain ⟨m, rfl, -⟩ := hhead _ hcode i rfl
    cases (hid (.join m) List.mem_cons_self).trans ((hid j hj).symm.trans hk)
  have hcode : ∀ code ∈ c.pool, code = [] := by
    intro code hcode
    cases code with
    | nil => rfl
    | cons i rest =>
      obtain ⟨k, rfl, hended⟩ := hhead _ hcode i rfl
      have hi : Point.join k ∈ c.points :=
        List.mem_append_right _ (List.mem_flatten.mpr ⟨_, hcode, List.mem_cons_self⟩)
      have hk := h.objects.object _ hi k rfl
      have hjoined := h.ok.joined (tokens_pos.mpr ⟨_, hi, rfl⟩)
      have hzero : (counts c).ended = 0 := by
        unfold counts countsOf
        rw [hk]
        exact congrArg Bool.toNat hended
      simp only [List.forall_mem_cons] at halive
      unfold Counts.working at hjoined
      omega
  unfold Config.points
  rw [hcaller, List.nil_append, List.flatten_eq_nil_iff]
  exact hcode

theorem Inv.once (h : Inv c) (hrest : AtRest (program io) c) {k : ℕ} (hk : k < c.shared.created) :
    c.shared.destroyed k = 1 := by
  have hpoints := h.points_eq_nil hrest
  have hn : ∀ p, (counts c).n p = 0 := by
    refine fun p => tokens_eq_zero.mpr fun j hj => ?_
    rw [hpoints] at hj
    cases hj
  have hnone : c.shared.aliveThread = none := by
    by_contra hne
    have hnull : (counts c).null = 0 := by
      unfold counts countsOf
      rw [Option.isNone_eq_false_iff.mpr (Option.isSome_iff_ne_none.mpr hne)]
      rfl
    have hneeded := h.ok.needed hnull
    simp only [Counts.creating, Counts.working, Counts.failing, Counts.removed, Counts.completing,
      hn] at hneeded
    exact absurd hneeded (Nat.lt_irrefl 0)
  refine h.objects.old k hk ?_
  rw [hnone]
  exact (Option.some_ne_none k).symm

theorem aliveOk_apart (io : AuthIo) (acts : List (Act Command))
    (hacts : Guarded (program io) Apart initial acts) :
    AliveOk io (Threads.run (program io) initial acts) := by
  have h : Inv (Threads.run (program io) initial acts) := inv_run hacts
  refine ⟨h.objects.faults, fun n => h.atMostOnce, fun m hm n hn hlive hlive' => ?_, h.works,
    fun hrest n => h.once hrest⟩
  have hcur := h.objects.current_of_live hm hlive
  exact Option.some.inj (hcur.symm.trans (h.objects.current_of_live hn hlive'))

/-- The user logs in, a request succeeds, the user logs out, and the logout thread waits for the
keep-alive thread. -/
def loginLogout : List (Act Command) :=
  [Act.issue Command.login] ++ List.replicate 3 Act.caller ++ List.replicate 11 (Act.worker 0) ++
    List.replicate 2 (Act.worker 1) ++ [Act.issue Command.logout] ++ List.replicate 5 Act.caller ++
    List.replicate 6 (Act.worker 2) ++ List.replicate 4 (Act.worker 1) ++
    List.replicate 5 (Act.worker 2)

theorem aliveOk_loginLogout :
    Guarded (program ⟨fun _ => true, fun _ => true⟩) Apart initial loginLogout ∧
      AliveOk ⟨fun _ => true, fun _ => true⟩
        (Threads.run (program ⟨fun _ => true, fun _ => true⟩) initial loginLogout) :=
  ⟨by decide, aliveOk_apart _ loginLogout (by decide)⟩

/-- Three requests fail, and the keep-alive thread destroys its object between the test and the
first use in `Logout`. -/
def failedLogout : List (Act Command) :=
  [Act.issue Command.login] ++ List.replicate 3 Act.caller ++ List.replicate 11 (Act.worker 0) ++
    List.replicate 8 (Act.worker 1) ++ [Act.issue Command.logout, Act.caller] ++
    List.replicate 3 (Act.worker 1) ++ [Act.caller]

theorem not_aliveOk : ¬ ∀ (io : AuthIo) (acts : List (Act Command)),
    AliveOk io (Threads.run (program io) initial acts) := fun h =>
  absurd (h ⟨fun _ => true, fun _ => false⟩ failedLogout).uses (by decide)

end Auth

end DreamDota
