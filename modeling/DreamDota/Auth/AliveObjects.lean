import DreamDota.Auth.AliveSteps

/-!
# The objects of the keep-alive threads

`Objects`: who may still use which object, and how often each was destroyed. With `Code` and the
tokens this is `Inv`, the invariant of the steps that keep apart.

1. `Inv.of_step`: the steps that leave `AliveThread` as it is.
2. `Inv.deleteAlive`, `Inv.newAlive`, `Inv.nullAlive`: the steps that destroy, create and forget an
   object.
-/

namespace DreamDota

open Threads

namespace Auth

variable {io : AuthIo} {w : AuthState} {n : Place → ℕ} {c c' : Config AuthState Point} {i : Point}
  {e : Effect AuthState Point}

/-! ## The objects -/

/-- The keep-alive thread that has not set `thread_` to `NULL`. -/
def workOf : Point → Option ℕ
  | .work (.alive n) | .aliveRequest n | .clearThread (.alive n) => some n
  | _ => none

/-- `object`, `work` and `stale`: methods are called on the object of `AliveThread`, and the threads
of the other objects have left `Work` and find no handlers. `old`: each of the others was destroyed
once. -/
structure Objects (c : Config AuthState Point) : Prop where
  object : ∀ i ∈ c.points, ∀ n ∈ objectOf i, c.shared.aliveThread = some n
  work : ∀ i ∈ c.points, ∀ n ∈ workOf i, c.shared.aliveThread = some n
  stale : ∀ i ∈ c.points, ∀ n ∈ procOf i, c.shared.aliveThread ≠ some n →
    (c.shared.threads (.alive n)).onThreadComplete = []
  owned : ∀ i ∈ c.points, ∀ n, owner i = some (.alive n) → n < c.shared.created
  current : ∀ n ∈ c.shared.aliveThread, n < c.shared.created
  fresh : ∀ n, c.shared.created ≤ n → c.shared.threads (.alive n) = .new ∧
    c.shared.ended n = false ∧ c.shared.destroyed n = 0
  old : ∀ n < c.shared.created, c.shared.aliveThread ≠ some n → c.shared.destroyed n = 1
  killed : ∀ n, c.shared.killed n = false
  faults : c.shared.faults = 0

structure Inv (c : Config AuthState Point) : Prop where
  code : Code c
  ok : (counts c).Ok
  objects : Objects c

theorem Inv.situation (h : Inv c) (hi : i ∈ c.points) :
    Situation c.shared (c.tokens (place c.shared.aliveThread)) i where
  ok := h.ok
  pos := tokens_pos.mpr ⟨i, hi, rfl⟩
  wired := h.code.wired
  fits := h.code.fits i hi
  object := h.objects.object i hi
  stale := h.objects.stale i hi
  owned := h.objects.owned i hi
  current := h.objects.current

theorem workOf_of_procOf {k : ℕ} (h : procOf i = some k) :
    workOf i = some k ∨ i = .invokeComplete (.alive k) := by
  cases i with
  | aliveRequest m => exact .inl h
  | work id | clearThread id =>
    cases id with
    | alive m => exact .inl h
    | login | logout => cases h
  | invokeComplete id =>
    cases id with
    | alive m =>
      obtain rfl := Option.some.inj h
      exact .inr rfl
    | login | logout => cases h
  | _ => cases h

theorem procOf_of_workOf {k : ℕ} (h : workOf i = some k) : procOf i = some k := by
  cases i with
  | aliveRequest m => exact h
  | work id | clearThread id =>
    cases id with
    | alive m => exact h
    | login | logout => cases h
  | _ => cases h

/-- A thread in `Work` comes from `Work`. -/
theorem workOf_next (hs : Step w n i e) (he : execPoint io w i = some e) {j : Point}
    (hj : j ∈ e.next) {k : ℕ} (hk : workOf j = some k) : workOf i = some k := by
  have hproc := procOf_of_workOf hk
  rcases workOf_of_procOf (hs.proc j hj k hproc) with h | rfl
  · exact h
  · obtain rfl := Option.some.inj he
    rcases List.mem_append.mp hj with hj | hj
    · obtain ⟨x, -, rfl⟩ := List.mem_map.mp hj
      cases hk
    · rw [List.mem_singleton.mp hj] at hk
      cases hk

/-- A step that leaves `AliveThread` as it is. -/
theorem Objects.of_step (h : Objects c) (hw : Code c)
    (hs : Step c.shared (c.tokens (place c.shared.aliveThread)) i e)
    (he : execPoint io c.shared i = some e) (hex : Executed c i e c') : Objects c' := by
  have hl : Leads c.shared i e := leads hw.wired (hw.fits i hex.mem) he
  have hi := hex.mem
  have hcur : c'.shared.aliveThread = c.shared.aliveThread := by
    rw [hex.shared, hs.frame.aliveThread]
  have hcreated : c'.shared.created = c.shared.created := by rw [hex.shared, hs.frame.created]
  -- a thread that is started is that of the object of `AliveThread`
  have hstarted : ∀ j ∈ e.started.flatten, ∃ id, j = .work id ∧
      ∀ k, id = .alive k → c.shared.aliveThread = some k := by
    intro j hj
    obtain ⟨code, hcode, hj⟩ := List.mem_flatten.mp hj
    obtain ⟨id, rfl, rfl⟩ := hl.started code hcode
    refine ⟨id, List.mem_singleton.mp hj, ?_⟩
    rintro k rfl
    exact h.object _ hi k rfl
  refine ⟨?_, ?_, ?_, ?_, ?_, ?_, ?_, ?_, ?_⟩
  · intro j hj k hk
    rw [hcur]
    rcases hex.of_mem hj with hj | hj | hj
    · exact h.object j hj k hk
    · exact hs.object j hj k hk
    · obtain ⟨id, rfl, -⟩ := hstarted j hj
      cases hk
  · intro j hj k hk
    rw [hcur]
    rcases hex.of_mem hj with hj | hj | hj
    · exact h.work j hj k hk
    · exact h.work i hi k (workOf_next hs he hj hk)
    · obtain ⟨id, rfl, hid⟩ := hstarted j hj
      cases id with
      | alive m =>
        obtain rfl := Option.some.inj hk
        exact hid m rfl
      | login | logout => cases hk
  · intro j hj k hk hne
    rw [hcur] at hne
    rw [hex.shared, hs.frame.handlers k hne]
    rcases hex.of_mem hj with hj | hj | hj
    · exact h.stale j hj k hk hne
    · exact h.stale i hi k (hs.proc j hj k hk) hne
    · obtain ⟨id, rfl, hid⟩ := hstarted j hj
      cases id with
      | alive m =>
        obtain rfl := Option.some.inj hk
        exact absurd (hid m rfl) hne
      | login | logout => cases hk
  · intro j hj k hk
    rw [hcreated]
    rcases hex.of_mem hj with hj | hj | hj
    · exact h.owned j hj k hk
    · rw [(hl.next j hj).1] at hk
      exact h.owned i hi k hk
    · obtain ⟨id, rfl, hid⟩ := hstarted j hj
      obtain rfl := Option.some.inj hk
      exact h.current k (hid k rfl)
  · intro k hk
    rw [hcreated]
    exact h.current k (hcur ▸ hk)
  · intro k hk
    rw [hcreated] at hk
    obtain ⟨hthreads, hended⟩ := hs.frame.fresh k hk
    rw [hex.shared, hthreads, hended, hs.frame.destroyed]
    exact h.fresh k hk
  · intro k hk hne
    rw [hcreated] at hk
    rw [hcur] at hne
    rw [hex.shared, hs.frame.destroyed]
    exact h.old k hk hne
  · intro k
    rw [hex.shared, hs.frame.killed]
    exact h.killed k
  · rw [hex.shared, hs.frame.faults]
    exact h.faults

theorem Inv.of_step (h : Inv c) (hs : Step c.shared (c.tokens (place c.shared.aliveThread)) i e)
    (he : execPoint io c.shared i = some e) (hex : Executed c i e c') : Inv c' where
  code := h.code.exec he hex
  objects := h.objects.of_step h.code hs he hex
  ok := by
    unfold counts
    rw [hex.shared, hs.frame.aliveThread, hex.tokens]
    exact hs.move.ok h.ok (hex.tokens_pos _)

/-! ## Steps that create, destroy and forget an object -/

/-- What is said of the points when one thread goes on to one point. -/
theorem points_goto {w' : AuthState} {next : List Point} (hex : Executed c i (.goto w' next) c')
    {j : Point} (hj : j ∈ c'.points) : j ∈ c.points ∨ j ∈ next := by
  rcases hex.of_mem hj with hj | hj | hj
  · exact .inl hj
  · exact .inr hj
  · cases hj

theorem tokens_goto {w' : AuthState} {next : List Point} (hex : Executed c i (.goto w' next) c')
    (cur : Option ℕ) : c'.tokens (place cur) =
      fire (c.tokens (place cur)) (place cur i) (next.map (place cur)) := by
  rw [hex.tokens]
  show fire _ _ ((next ++ [].flatten).map _) = _
  rw [List.flatten_nil, List.append_nil]

/-- The object is live. -/
theorem execDelete_eq {k : ℕ} (hk : w.aliveThread = some k) (hlive : w.destroyed k = 0)
    (id : WorkerId) : execDelete w id =
      .goto { w with destroyed := Function.update w.destroyed k (w.destroyed k + 1) }
        [.nullAlive id] := by
  have hfaults : (if w.IsLive k then w.faults else w.faults + 1) = w.faults := if_pos hlive
  unfold execDelete
  split
  · rename_i m hm
    obtain rfl := Option.some.inj (hk.symm.trans hm)
    rw [hfaults]
  · rename_i hm
    cases hk.symm.trans hm

theorem countsOf_destroy {k : ℕ} (hk : w.aliveThread = some k) (n : Place → ℕ) :
    countsOf { w with destroyed := Function.update w.destroyed k (w.destroyed k + 1) } n =
      { countsOf w n with gone := (countsOf w n).gone + 1 } := by
  unfold countsOf
  simp only [hk, Option.elim_some, Function.update_self]

/-- What a step that goes on to one point without objects says of the points. -/
theorem Objects.of_points (h : Objects c) {w' : AuthState} {next : List Point}
    (hex : Executed c i (.goto w' next) c')
    (hnext : ∀ j ∈ next, objectOf j = none ∧ procOf j = none ∧ owner j = owner i)
    (hcreated : c.shared.created ≤ w'.created) :
    (∀ j ∈ c'.points, ∀ n ∈ objectOf j, c.shared.aliveThread = some n) ∧
    (∀ j ∈ c'.points, ∀ n ∈ workOf j, c.shared.aliveThread = some n) ∧
    (∀ j ∈ c'.points, ∀ n ∈ procOf j, c.shared.aliveThread ≠ some n →
      (c.shared.threads (.alive n)).onThreadComplete = []) ∧
    ∀ j ∈ c'.points, ∀ n, owner j = some (.alive n) → n < w'.created := by
  refine ⟨fun j hj m hm => ?_, fun j hj m hm => ?_, fun j hj m hm => ?_, fun j hj m hm => ?_⟩
  · rcases points_goto hex hj with hj | hj
    · exact h.object j hj m hm
    · rw [(hnext j hj).1] at hm
      cases hm
  · rcases points_goto hex hj with hj | hj
    · exact h.work j hj m hm
    · have hproc := procOf_of_workOf hm
      rw [(hnext j hj).2.1] at hproc
      cases hproc
  · rcases points_goto hex hj with hj | hj
    · exact h.stale j hj m hm
    · rw [(hnext j hj).2.1] at hm
      cases hm
  · rcases points_goto hex hj with hj | hj
    · exact Nat.lt_of_lt_of_le (h.owned j hj m hm) hcreated
    · rw [(hnext j hj).2.2] at hm
      exact Nat.lt_of_lt_of_le (h.owned i hex.mem m hm) hcreated

theorem Inv.deleteAlive (h : Inv c) {id : WorkerId}
    (he : execPoint io c.shared (.deleteAlive id) = some e)
    (hex : Executed c (.deleteAlive id) e c') : Inv c' := by
  have hi := hex.mem
  have hid : id ≠ .login := h.code.fits _ hi
  have huse : (place c.shared.aliveThread (.deleteAlive id)).uses = true := by
    cases id with
    | login => exact absurd rfl hid
    | logout | alive m => rfl
  obtain ⟨k, hk, hlive⟩ := (h.situation hi).live huse
  have hlt := h.objects.current k hk
  have hcode := h.code.exec he hex
  obtain rfl := Option.some.inj he
  rw [execDelete_eq hk hlive] at hex
  refine ⟨hcode, ?_, ?_⟩
  · unfold counts
    rw [hex.shared]
    show Counts.Ok (countsOf { c.shared with destroyed := _ }
      (c'.tokens (place c.shared.aliveThread)))
    rw [countsOf_destroy hk, tokens_goto hex]
    have hmove : Counts.Move (counts c) (place c.shared.aliveThread (.deleteAlive id))
        { countsOf c.shared (fire (c.tokens (place c.shared.aliveThread))
            (place c.shared.aliveThread (.deleteAlive id))
            ([.nullAlive id].map (place c.shared.aliveThread))) with
          gone := (counts c).gone + 1 } := by
      cases id with
      | login => exact absurd rfl hid
      | logout => exact .logout .delete
      | alive m => exact .alive .delete
    exact hmove.ok h.ok (hex.tokens_pos _)
  · have hshared := hex.shared
    obtain ⟨hobject, hwork, hstale, howned⟩ := h.objects.of_points hex
      (fun j hj => List.mem_singleton.mp hj ▸ ⟨rfl, rfl, rfl⟩) (Nat.le_refl _)
    constructor <;> rw [hshared]
    · exact hobject
    · exact hwork
    · exact hstale
    · exact howned
    · exact h.objects.current
    · intro m hm
      obtain ⟨hthreads, hended, hzero⟩ := h.objects.fresh m hm
      have hne : m ≠ k := fun heq => absurd (heq ▸ hm) (Nat.not_le.mpr hlt)
      exact ⟨hthreads, hended, (Function.update_of_ne hne ..).trans hzero⟩
    · intro m hm hne
      have hmk : m ≠ k := fun heq => hne (heq ▸ hk)
      exact (Function.update_of_ne hmk ..).trans (h.objects.old m hm hne)
    · exact h.objects.killed
    · exact h.objects.faults

/-- The places of the points do not depend on an object that nobody has heard of. -/
theorem place_congr {cur cur' : Option ℕ} (h : ∀ n, owner i = some (.alive n) →
    (cur = some n ↔ cur' = some n)) : place cur i = place cur' i := by
  cases i with
  | work id | clearThread id | invokeComplete id | exit id =>
    cases id with
    | alive m =>
      unfold place
      simp only [h m rfl]
    | login | logout => rfl
  | aliveRequest m =>
    unfold place
    simp only [h m rfl]
  | run id | startThread id | deleteAlive id | nullAlive id => cases id <;> rfl
  | handle id x => cases id <;> rfl
  | _ => rfl

theorem tokens_congr {cur cur' : Option ℕ} (h : ∀ i ∈ c.points, place cur i = place cur' i) :
    c.tokens (place cur) = c.tokens (place cur') := by
  funext p
  unfold Config.tokens
  refine List.countP_congr fun i hi => ?_
  rw [h i hi]

theorem Inv.newAlive (h : Inv c) (hnone : c.shared.aliveThread = none)
    (he : execPoint io c.shared .newAlive = some e) (hex : Executed c .newAlive e c') : Inv c' := by
  have hi := hex.mem
  refine ⟨h.code.exec he hex, ?_, ?_⟩
  · obtain rfl := Option.some.inj he
    have hfresh := h.objects.fresh _ (Nat.le_refl _)
    have htokens : c'.tokens (place (some c.shared.created)) = c'.tokens (place none) := by
      refine tokens_congr fun j hj => place_congr fun n hn => ?_
      rcases points_goto hex hj with hj | hj
      · have hlt := h.objects.owned j hj n hn
        refine iff_of_false (fun heq => ?_) nofun
        exact absurd (Option.some.inj heq) (Nat.ne_of_gt hlt)
      · rw [List.mem_singleton.mp hj] at hn
        cases hn
    have hcounts : ∀ n : Place → ℕ, countsOf { c.shared with
        aliveThread := some c.shared.created, created := c.shared.created + 1 } n =
        { countsOf c.shared n with
          null := 0
          handlers := 0
          thread := 0
          ended := 0
          gone := 0 } := by
      intro n
      unfold countsOf
      simp only [Option.elim_some, hfresh]
      rfl
    unfold counts
    rw [hex.shared]
    show Counts.Ok (countsOf { c.shared with aliveThread := _, created := _ }
      (c'.tokens (place (some c.shared.created))))
    rw [hcounts, htokens, tokens_goto hex]
    have hok := h.ok
    have hpos := hex.tokens_pos (place none)
    unfold counts at hok
    rw [hnone] at hok
    refine Counts.Move.ok (a := .loginCheck) hok hpos (.login (.new ?_))
    show c.shared.aliveThread.isNone.toNat = 1
    rw [hnone]
    rfl
  · obtain rfl := Option.some.inj he
    have hshared := hex.shared
    obtain ⟨hobject, hwork, hstale, howned⟩ := h.objects.of_points hex
      (fun j hj => List.mem_singleton.mp hj ▸ ⟨rfl, rfl, rfl⟩) (Nat.le_succ _)
    rw [hnone] at hobject hwork hstale
    have hold := h.objects.old
    rw [hnone] at hold
    constructor <;> rw [hshared]
    · exact fun j hj m hm => nomatch hobject j hj m hm
    · exact fun j hj m hm => nomatch hwork j hj m hm
    · exact fun j hj m hm _ => hstale j hj m hm nofun
    · exact howned
    · rintro m ⟨⟩
      exact Nat.lt_succ_self _
    · exact fun m hm => h.objects.fresh m (Nat.le_of_succ_le hm)
    · intro m hm hne
      have hmk : m ≠ c.shared.created := fun heq => hne (heq ▸ rfl)
      exact hold m (Nat.lt_of_le_of_ne (Nat.le_of_lt_succ hm) hmk) nofun
    · exact h.objects.killed
    · exact h.objects.faults

/-- Where an object is used. -/
theorem place_of_objectOf (cur : Option ℕ) {k : ℕ} (h : objectOf i = some k) :
    place cur i = .runAlive ∨ place cur i = .logoutWait ∨ place cur i = .logoutJoin ∨
      place cur i = .logoutDelete := by
  cases i with
  | run id | startThread id =>
    cases id with
    | alive m => exact .inl rfl
    | login | logout => cases h
  | waitThread m => exact .inr (.inl rfl)
  | join m => exact .inr (.inr (.inl rfl))
  | waitEnd m => exact .inr (.inr (.inr rfl))
  | _ => cases h

/-- The thread of the object works. -/
theorem place_of_procOf {k : ℕ} (h : procOf i = some k) :
    place (some k) i = .aliveWork ∨ place (some k) i = .aliveInvoke := by
  cases i with
  | aliveRequest m =>
    obtain rfl := Option.some.inj h
    exact .inl (if_pos rfl)
  | work id | clearThread id =>
    cases id with
    | alive m =>
      obtain rfl := Option.some.inj h
      exact .inl (if_pos rfl)
    | login | logout => cases h
  | invokeComplete id =>
    cases id with
    | alive m =>
      obtain rfl := Option.some.inj h
      exact .inr (if_pos rfl)
    | login | logout => cases h
  | _ => cases h

theorem place_of_workOf {k : ℕ} (h : workOf i = some k) : place (some k) i = .aliveWork := by
  cases i with
  | aliveRequest m =>
    obtain rfl := Option.some.inj h
    exact if_pos rfl
  | work id | clearThread id =>
    cases id with
    | alive m =>
      obtain rfl := Option.some.inj h
      exact if_pos rfl
    | login | logout => cases h
  | _ => cases h

/-- When nothing is pointed to, no keep-alive thread counts, and the other points are where they
were. -/
theorem place_none (cur : Option ℕ) (i : Point) :
    place none i = place cur i ∨
      (place none i = .other ∧ (place cur i = .aliveWork ∨ place cur i = .aliveInvoke ∨
        place cur i = .aliveExit)) := by
  cases i with
  | work id | clearThread id | invokeComplete id | exit id =>
    cases id with
    | alive m => by_cases hm : cur = some m <;> simp [place, hm]
    | login | logout => exact .inl rfl
  | aliveRequest m => by_cases hm : cur = some m <;> simp [place, hm]
  | run id | startThread id | deleteAlive id | nullAlive id => cases id <;> exact .inl rfl
  | handle id x => cases id <;> exact .inl rfl
  | _ => exact .inl rfl

theorem place_none_ne (i : Point) :
    place none i ≠ .aliveWork ∧ place none i ≠ .aliveInvoke ∧ place none i ≠ .aliveExit := by
  cases i with
  | work id | clearThread id | invokeComplete id | exit id => cases id <;> simp [place]
  | aliveRequest m => simp [place]
  | run id | startThread id | deleteAlive id | nullAlive id => cases id <;> simp [place]
  | handle id x => cases id <;> simp [place]
  | _ => simp [place]

theorem nulled {w' : AuthState} {id : WorkerId} (cur : Option ℕ)
    (hex : Executed c (.nullAlive id) (.goto w' []) c') :
    Counts.Nulled (c.tokens (place cur)) (place cur (.nullAlive id)) (c'.tokens (place none)) := by
  constructor
  · exact tokens_eq_zero.mpr fun j _ => (place_none_ne j).1
  · exact tokens_eq_zero.mpr fun j _ => (place_none_ne j).2.1
  · exact tokens_eq_zero.mpr fun j _ => (place_none_ne j).2.2
  · intro p hwork hinvoke hexit hother
    have hplace : place none (.nullAlive id) = place cur (.nullAlive id) := by cases id <;> rfl
    have hsame : c.tokens (place none) p = c.tokens (place cur) p := by
      unfold Config.tokens
      refine List.countP_congr fun j _ => ?_
      simp only [decide_eq_true_eq]
      rcases place_none cur j with heq | ⟨hnone, hcur⟩
      · rw [heq]
      · rw [hnone]
        refine iff_of_false (fun heq => hother heq.symm) fun heq => ?_
        rcases hcur with hcur | hcur | hcur
        · exact hwork (heq.symm.trans hcur)
        · exact hinvoke (heq.symm.trans hcur)
        · exact hexit (heq.symm.trans hcur)
    rw [tokens_goto hex, hplace]
    unfold fire
    rw [hsame]
    rfl

/-- What is known when `AliveThread` is set to `NULL`. -/
structure Gone (w : AuthState) (n : Place → ℕ) (k : ℕ) : Prop where
  current : w.aliveThread = some k
  destroyed : w.destroyed k = 1
  work : n .aliveWork = 0
  stale : 0 < n .aliveInvoke → (w.threads (.alive k)).onThreadComplete = []

theorem Situation.gone {id : WorkerId} (h : Situation w n (.nullAlive id)) :
    ∃ k, Gone w n k := by
  have hid : id ≠ .login := h.fits
  have hplace : 0 < n .aliveNull ∨ 0 < n .logoutNull := by
    have hpos := h.pos
    cases id with
    | login => exact absurd rfl hid
    | logout => exact .inr hpos
    | alive m => exact .inl hpos
  obtain ⟨hzero, hdestroyed, hwork, hstale⟩ := h.ok.nulling hplace
  cases hk : w.aliveThread with
  | none =>
    unfold countsOf at hzero
    rw [hk] at hzero
    cases hzero
  | some k =>
    refine ⟨k, hk, ?_, hwork, fun hinvoke => ?_⟩
    · unfold countsOf at hdestroyed
      rw [hk] at hdestroyed
      exact hdestroyed
    · have hhandlers := hstale hinvoke
      rw [countsOf_handlers hk] at hhandlers
      exact List.length_eq_zero_iff.mp hhandlers

theorem Inv.nullAlive (h : Inv c) {id : WorkerId}
    (he : execPoint io c.shared (.nullAlive id) = some e)
    (hex : Executed c (.nullAlive id) e c') : Inv c' := by
  have hi := hex.mem
  have hid : id ≠ .login := h.code.fits _ hi
  obtain ⟨k, hgone⟩ := (h.situation hi).gone
  have hcode := h.code.exec he hex
  obtain rfl := Option.some.inj he
  have hshared := hex.shared
  have hok : (counts c').Ok := by
    have hnull : place c.shared.aliveThread (.nullAlive id) = .aliveNull ∨
        place c.shared.aliveThread (.nullAlive id) = .logoutNull := by
      cases id with
      | login => exact absurd rfl hid
      | logout => exact .inr rfl
      | alive m => exact .inl rfl
    have hmove := Counts.Move.null (v := counts c) hnull (nulled _ hex)
    unfold counts
    rw [hshared]
    exact hmove.ok h.ok (hex.tokens_pos _)
  refine ⟨hcode, hok, ?_⟩
  obtain ⟨hobject, hwork, hstale, howned⟩ := h.objects.of_points hex
    (List.forall_mem_nil _) (Nat.le_refl _)
  -- afterwards nobody uses an object
  have hfree : ∀ j ∈ c'.points, objectOf j = none := by
    intro j hj
    by_contra hne
    obtain ⟨m, hm⟩ := Option.ne_none_iff_exists'.mp hne
    have hpos : 0 < (counts c').n (place c'.shared.aliveThread j) := tokens_pos.mpr ⟨j, hj, rfl⟩
    have hone : (counts c').null = 1 := by
      unfold counts
      rw [hshared]
      rfl
    have hempty := hok.null_eq.2 hone
    unfold Counts.creating Counts.completing at hempty
    rcases place_of_objectOf c'.shared.aliveThread hm with hp | hp | hp | hp <;>
      rw [hp] at hpos <;> omega
  have hcurrent : ∀ j ∈ c'.points, ∀ {p : Place}, place (some k) j = p →
      0 < c.tokens (place c.shared.aliveThread) p := by
    intro j hj p hp
    rw [hgone.current]
    rcases points_goto hex hj with hj | hj
    · exact tokens_pos.mpr ⟨j, hj, hp⟩
    · cases hj
  have hworks : ∀ j ∈ c'.points, place (some k) j ≠ .aliveWork := fun j hj hp =>
    absurd (hcurrent j hj hp) (by rw [hgone.work]; exact Nat.lt_irrefl 0)
  constructor <;> rw [hshared]
  · intro j hj m hm
    rw [hfree j hj] at hm
    cases hm
  · intro j hj m hm
    obtain rfl := Option.some.inj (hgone.current.symm.trans (hwork j hj m hm))
    exact absurd (place_of_workOf hm) (hworks j hj)
  · intro j hj m hm _
    by_cases hmk : m = k
    · subst hmk
      rcases place_of_procOf hm with hp | hp
      · exact absurd hp (hworks j hj)
      · exact hgone.stale (hcurrent j hj hp)
    · exact hstale j hj m hm fun heq => hmk (Option.some.inj (heq.symm.trans hgone.current))
  · exact howned
  · exact nofun
  · exact h.objects.fresh
  · intro m hm _
    by_cases hmk : m = k
    · exact hmk ▸ hgone.destroyed
    · exact h.objects.old m hm fun heq => hmk (Option.some.inj (heq.symm.trans hgone.current))
  · exact h.objects.killed
  · exact h.objects.faults

end Auth

end DreamDota
