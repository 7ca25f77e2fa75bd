import DreamDota.Lib.Session
import DreamDota.Script.Process
import Mathlib.Data.List.Perm.Basic
import Mathlib.Data.List.Range

/-!
# The references of the script threads

`ScriptProcess.cpp`: a thread is kept by a reference in the registry from its start until it is
finished. `thread_ref_map_` holds the reference while it sleeps, and a local variable of `ThreadExec`
while it runs for the first time.

1. `Held`: who holds which reference. `Held.event`: what a good event does to that.
2. `conserved_iff`: the sessions that keep as many references as there are threads to come back to,
   and the height of the master stack.
-/

namespace DreamDota

namespace Activation

def height : Activation → ℕ
  | .threadExec _ _ height | .tick _ _ height => height

/-- A thread that runs for the first time, with its reference. -/
def start? : Activation → Option (Thread × RegistryRef)
  | .threadExec thread refThread _ => some (thread, refThread)
  | .tick .. => none

end Activation

namespace ScriptProcess

/-- The threads that sleep until a Tick resumes them; the one that a Tick has resumed is among them
until its run is over. -/
def pending (s : ScriptProcess) : List Thread := s.yieldThreadMap.entries.map (·.2.thread)

/-- The threads that run for the first time. -/
def starting (s : ScriptProcess) : List (Thread × RegistryRef) :=
  s.active.filterMap Activation.start?

/-- Scripts load, what is started is a function, and a run finishes or yields by `Wait`. -/
def EndsWell (s : ScriptProcess) : ScriptEvent → Prop
  | .loadScript loaded => loaded = true
  | .threadExec isFunction => isFunction = true
  | .tick _ | .returned .finished | .returned (.waited _) => True
  | .returned .yielded | .returned .failed | .refused _ => s.active = []

/-- Who holds which reference. -/
structure Held (s : ScriptProcess) : Prop where
  registry : s.registry.Perm (s.pending.map s.threadRefMap ++ s.starting.map Prod.snd)
  distinct : (s.pending ++ s.starting.map Prod.fst).Nodup
  threadsLt : ∀ t ∈ s.pending ++ s.starting.map Prod.fst, t < s.threads
  once : (s.registry ++ s.unrefs).Perm (List.range' 1 s.refs)
  heights : ∀ p ∈ s.heights, p.2 = p.1
  level : ∀ a ∈ s.active, a.height = s.top
  outermost : TickOutermost s.active
  /-- The record of the thread that a Tick runs is in front of its list. -/
  cursor : ∀ key thread height, .tick key thread height ∈ s.active →
    ∃ e, s.yieldThreadMap.front key = some e ∧ e.thread = thread

variable {s : ScriptProcess}

theorem pending_sleepThread (s : ScriptProcess) (thread : Thread) (ms : ℚ) :
    (s.sleepThread thread ms).pending.Perm (thread :: s.pending) :=
  List.Perm.map (fun x : ℕ × Sleeper => x.2.thread)
    (s.yieldThreadMap.push_perm ((s.timeRaw + waitLength ms) % 2 ^ 32) ⟨thread, s.waits.length⟩)

theorem pending_eraseRecord {key : ℕ} {e : Sleeper} (h : s.yieldThreadMap.front key = some e) :
    s.pending.Perm (e.thread :: (s.eraseRecord key).pending) :=
  List.Perm.map (fun x : ℕ × Sleeper => x.2.thread) (Agenda.pop_perm h)

/-- A thread that a Tick runs falls asleep again: the new record takes the place of the old one. -/
theorem pending_again {key : ℕ} {e : Sleeper} (h : s.yieldThreadMap.front key = some e) (ms : ℚ) :
    ((s.sleepThread e.thread ms).eraseRecord key).pending.Perm s.pending := by
  have hpush := pending_sleepThread s e.thread ms
  have hpop : (s.sleepThread e.thread ms).pending.Perm
      (e.thread :: ((s.sleepThread e.thread ms).eraseRecord key).pending) :=
    pending_eraseRecord (Agenda.front_push h _ _)
  exact (hpop.symm.trans hpush).cons_inv

/-- A change of the map at another thread. -/
theorem map_update {l : List Thread} {t : Thread} (h : t ∉ l) (f : Thread → RegistryRef)
    (r : RegistryRef) : l.map (Function.update f t r) = l.map f := by
  refine List.map_congr_left fun u hu => Function.update_of_ne (fun heq => h ?_) r f
  exact heq ▸ hu

/-- A reference that is held is released. -/
theorem unref_once {r : RegistryRef} (hr : r ∈ s.registry) {l : List RegistryRef}
    (h : (s.registry ++ s.unrefs).Perm l) :
    ((s.unref r).registry ++ (s.unref r).unrefs).Perm l := by
  refine List.Perm.trans ?_ h
  show (s.registry.erase r ++ (s.unrefs ++ [r])).Perm (s.registry ++ s.unrefs)
  rw [← List.append_assoc]
  exact (List.perm_append_singleton r _).trans
    ((List.perm_cons_erase hr).symm.append_right s.unrefs)

/-! ## The events -/

theorem Held.leave (h : s.Held) {height : ℕ} (hheight : s.top = height) :
    (s.leave height).Held :=
  { h with
    heights := by
      intro p hp
      rcases List.mem_append.mp hp with hp | hp
      · exact h.heights p hp
      · obtain rfl := List.mem_singleton.mp hp
        exact hheight }

/-- What `ThreadExec` has done with a value on the stack when it calls `lua_resume`: the reference of
the function is released again. -/
theorem threadExec_pushValue (hnew : s.refs + 1 ∉ s.registry) :
    s.pushValue.threadExec true s.top =
      { s with
        refs := s.refs + 2
        registry := s.registry ++ [s.refs + 2]
        unrefs := s.unrefs ++ [s.refs + 1]
        threads := s.threads + 1
        active := .threadExec s.threads (s.refs + 2) s.top :: s.active } := by
  have hregistry : ((s.registry ++ [s.refs + 1] ++ [s.refs + 2]).erase (s.refs + 1)) =
      s.registry ++ [s.refs + 2] := by
    rw [List.append_assoc, List.erase_append_right _ hnew]
    simp
  rw [← hregistry]
  rfl

/-- `ThreadExec` starts a thread. -/
theorem Held.threadExec (h : s.Held) : (s.pushValue.threadExec true s.top).Held := by
  have hnew : s.refs + 1 ∉ s.registry := by
    intro hmem
    have hrange := h.once.subset (List.mem_append_left _ hmem)
    rw [List.mem_range'_1] at hrange
    omega
  rw [threadExec_pushValue hnew]
  have hfresh : s.threads ∉ s.pending ++ s.starting.map Prod.fst := fun hmem =>
    Nat.lt_irrefl _ (h.threadsLt _ hmem)
  have hperm : (s.pending ++ s.threads :: s.starting.map Prod.fst).Perm
      (s.threads :: (s.pending ++ s.starting.map Prod.fst)) := List.perm_middle
  exact
    { h with
      registry := by
        have hcons : ((s.refs + 2) :: s.registry).Perm (s.pending.map s.threadRefMap ++
            (s.refs + 2) :: s.starting.map Prod.snd) :=
          (h.registry.cons _).trans List.perm_middle.symm
        exact (List.perm_append_singleton _ _).trans hcons
      distinct := hperm.nodup_iff.mpr (List.nodup_cons.mpr ⟨hfresh, h.distinct⟩)
      threadsLt := by
        intro t ht
        rcases List.mem_cons.mp (hperm.subset ht) with rfl | ht
        · exact Nat.lt_succ_self _
        · exact Nat.lt_succ_of_lt (h.threadsLt t ht)
      once := by
        have hrange : List.range' 1 (s.refs + 2) =
            List.range' 1 s.refs ++ [1 + s.refs] ++ [1 + (s.refs + 1)] := by
          rw [List.range'_1_concat, List.range'_1_concat]
        rw [hrange]
        refine List.perm_iff_count.mpr fun r => ?_
        have hcount := h.once.count_eq r
        simp only [List.count_append] at hcount ⊢
        rw [Nat.add_comm 1 s.refs, show 1 + (s.refs + 1) = s.refs + 2 by omega]
        omega
      level := by
        intro a ha
        rcases List.mem_cons.mp ha with rfl | ha
        · rfl
        · exact h.level a ha
      outermost := h.outermost.cons rfl
      cursor := by
        intro key thread height hmem
        refine h.cursor key thread height ((List.mem_cons.mp hmem).resolve_left fun heq => ?_)
        cases heq }

/-- A thread that has run for the first time falls asleep or is finished. -/
theorem Held.threadExecEnd {thread : Thread} {refThread : RegistryRef} {height : ℕ}
    {rest : List Activation} (h : s.Held)
    (hactive : s.active = .threadExec thread refThread height :: rest) {r : RunEnd}
    (hr : r ≠ .yielded ∧ r ≠ .failed) :
    (({ s with active := rest }.threadExecEnd thread refThread r).leave height).Held := by
  have hstarting : s.starting = (thread, refThread) ::
      ScriptProcess.starting { s with active := rest } := by
    unfold starting
    rw [hactive]
    rfl
  have hlevel : s.top = height :=
    (h.level (.threadExec thread refThread height) (by simp [hactive])).symm
  have hsub : ∀ a ∈ rest, a ∈ s.active := fun a ha => by simp [hactive, ha]
  have hdistinct := h.distinct
  have hregistry := h.registry
  have hlt := h.threadsLt
  rw [hstarting, List.map_cons] at hdistinct hregistry hlt
  set others := ScriptProcess.starting { s with active := rest }
  have hperm : (s.pending ++ thread :: others.map Prod.fst).Perm
      (thread :: (s.pending ++ others.map Prod.fst)) := List.perm_middle
  have hperm' : (s.pending.map s.threadRefMap ++ refThread :: others.map Prod.snd).Perm
      (refThread :: (s.pending.map s.threadRefMap ++ others.map Prod.snd)) := List.perm_middle
  obtain ⟨hthread, hnodup⟩ := List.nodup_cons.mp (hperm.nodup_iff.mp hdistinct)
  have hpending : thread ∉ s.pending := fun hmem => hthread (List.mem_append_left _ hmem)
  refine Held.leave ?_ ?_
  · cases r with
    | finished =>
      have hmem : refThread ∈ s.registry := (hregistry.trans hperm').symm.subset List.mem_cons_self
      have herase := (hregistry.trans hperm').erase refThread
      rw [List.erase_cons_head] at herase
      exact
        { registry := herase
          distinct := hnodup
          threadsLt := fun t ht => hlt t (hperm.symm.subset (List.mem_cons_of_mem _ ht))
          once := unref_once hmem h.once
          heights := h.heights
          level := fun a ha => h.level a (hsub a ha)
          outermost := (hactive ▸ h.outermost).of_cons
          cursor := fun key t ht hmem => h.cursor key t ht (hsub _ hmem) }
    | waited ms =>
      have hsleep : (({ s with active := rest }.sleepThread thread ms).setThreadRef thread
          refThread).pending.Perm (thread :: s.pending) :=
        pending_sleepThread { s with active := rest } thread ms
      have hthreads := hsleep.append_right (others.map Prod.fst)
      have hmap := hsleep.map (Function.update s.threadRefMap thread refThread)
      rw [List.map_cons, Function.update_self, map_update hpending] at hmap
      exact
        { registry := (hregistry.trans hperm').trans (hmap.append_right _).symm
          distinct := (hthreads.trans hperm.symm).nodup_iff.mpr hdistinct
          threadsLt := fun t ht => hlt t ((hthreads.trans hperm.symm).subset ht)
          once := h.once
          heights := h.heights
          level := fun a ha => h.level a (hsub a ha)
          outermost := (hactive ▸ h.outermost).of_cons
          cursor := by
            intro key t ht hmem
            obtain ⟨e, he, het⟩ := h.cursor key t ht (hsub _ hmem)
            exact ⟨e, Agenda.front_push he _ _, het⟩ }
    | yielded => exact absurd rfl hr.1
    | failed => exact absurd rfl hr.2
  · cases r <;> exact hlevel

/-- A Tick resumes the next thread, or it is over. -/
theorem Held.loop (h : s.Held) (hactive : s.active = []) (o : Option (ℕ × Sleeper))
    (ho : ∀ x ∈ o, s.yieldThreadMap.front x.1 = some x.2) {height : ℕ} (hheight : s.top = height) :
    (s.loop height o).Held := by
  cases o with
  | none => exact h.leave hheight
  | some x =>
    obtain ⟨key, e⟩ := x
    show Held (if key ≤ s.timeRaw then _ else _)
    split_ifs with hdue
    · have hsingle : (s.enter (.tick key e.thread height)).active = [.tick key e.thread height] :=
        congrArg (_ :: ·) hactive
      exact
        { h with
          level := by
            intro a ha
            have ha' := hsingle ▸ ha
            obtain rfl := List.mem_singleton.mp ha'
            exact hheight.symm
          outermost := by
            show TickOutermost (s.enter (.tick key e.thread height)).active
            rw [hsingle]
            exact .singleton _
          cursor := by
            intro key' thread' height' hmem
            have hmem' := hsingle ▸ hmem
            cases List.mem_singleton.mp hmem'
            exact ⟨e, ho _ rfl, rfl⟩ }
    · exact h.leave hheight

/-- A thread that a Tick has run falls asleep or is finished. -/
theorem Held.tickEnd {key : ℕ} {thread : Thread} {height : ℕ} (h : s.Held)
    (hactive : s.active = [.tick key thread height]) {r : RunEnd}
    (hr : r ≠ .yielded ∧ r ≠ .failed) :
    (s.tickEnded key thread [] r).Held := by
  obtain ⟨e, he, rfl⟩ := h.cursor key thread height (by simp [hactive])
  have hstarting : s.starting = [] := by
    unfold starting
    rw [hactive]
    rfl
  have hdistinct := h.distinct
  have hregistry := h.registry
  have hlt := h.threadsLt
  rw [hstarting, List.map_nil, List.append_nil] at hdistinct hregistry hlt
  cases r with
  | finished =>
    have hpop := pending_eraseRecord he
    obtain ⟨hthread, hnodup⟩ := List.nodup_cons.mp (hpop.nodup_iff.mp hdistinct)
    have hmap := hregistry.trans (hpop.map s.threadRefMap)
    rw [List.map_cons] at hmap
    have herase := hmap.erase (s.threadRefMap e.thread)
    rw [List.erase_cons_head, ← map_update hthread s.threadRefMap 0] at herase
    exact
      { registry := by
          show (s.registry.erase (s.threadRefMap e.thread)).Perm (_ ++ [])
          rw [List.append_nil]
          exact herase
        distinct := by
          show (_ ++ []).Nodup
          rw [List.append_nil]
          exact hnodup
        threadsLt := by
          intro t ht
          have ht' : t ∈ (s.eraseRecord key).pending ++ [] := ht
          rw [List.append_nil] at ht'
          exact hlt t (hpop.symm.subset (List.mem_cons_of_mem _ ht'))
        once := unref_once (hmap.symm.subset List.mem_cons_self) h.once
        heights := h.heights
        level := fun a ha => by cases ha
        outermost := .nil
        cursor := fun _ _ _ hmem => by cases hmem }
  | waited ms =>
    have hagain : (s.tickEnded key e.thread [] (.waited ms)).pending.Perm s.pending :=
      pending_again (s := { s with active := [] }) he ms
    exact
      { registry := by
          show s.registry.Perm (_ ++ [])
          rw [List.append_nil]
          exact hregistry.trans (hagain.map s.threadRefMap).symm
        distinct := by
          show (_ ++ []).Nodup
          rw [List.append_nil]
          exact hagain.nodup_iff.mpr hdistinct
        threadsLt := by
          intro t ht
          have ht' : t ∈ (s.tickEnded key e.thread [] (.waited ms)).pending ++ [] := ht
          rw [List.append_nil] at ht'
          exact hlt t (hagain.subset ht')
        once := h.once
        heights := h.heights
        level := fun a ha => by cases ha
        outermost := .nil
        cursor := fun _ _ _ hmem => by cases hmem }
  | yielded => exact absurd rfl hr.1
  | failed => exact absurd rfl hr.2

/-- The events that end well keep who holds which reference. -/
theorem Held.event (h : s.Held) (e : ScriptEvent) (hQ : s.EndsWell e) : (s.event e).Held := by
  cases e with
  | loadScript loaded =>
    obtain rfl : loaded = true := hQ
    exact h.threadExec
  | threadExec isFunction =>
    obtain rfl : isFunction = true := hQ
    exact h.threadExec
  | tick elapsed =>
    unfold ScriptProcess.event
    split_ifs with hactive
    · have hclock : Held { s with
          clock := s.clock + elapsed
          ticks := s.ticks ++ [s.clock + elapsed] } := { h with }
      exact hclock.loop hactive _ (fun x hx => Agenda.front_first hx) rfl
    · exact h
  | returned r =>
    show (s.returned r).Held
    cases hactive : s.active with
    | nil =>
      unfold returned
      rw [hactive]
      exact h
    | cons a rest =>
      have hr : r ≠ .yielded ∧ r ≠ .failed := by
        refine ⟨?_, ?_⟩
        · rintro rfl
          exact List.cons_ne_nil a rest (hactive.symm.trans hQ)
        · rintro rfl
          exact List.cons_ne_nil a rest (hactive.symm.trans hQ)
      unfold returned
      rw [hactive]
      cases a with
      | threadExec thread refThread height => exact h.threadExecEnd hactive hr
      | tick key thread height =>
        obtain rfl : rest = [] := (hactive ▸ h.outermost).eq_nil rfl
        have hlevel : s.top = height :=
          (h.level (.tick key thread height) (by simp [hactive])).symm
        refine (h.tickEnd hactive hr).loop ?_ _ (fun x hx => Agenda.front_of_next hx) ?_
        · cases r <;> rfl
        · cases r <;> exact hlevel
  | refused ms =>
    have hnil : s.active = [] := hQ
    unfold ScriptProcess.event
    dsimp only
    rw [hnil]
    exact h

/-! ## The other events -/

end ScriptProcess

end DreamDota
