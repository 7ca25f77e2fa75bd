import Mathlib.Data.Finset.Insert

/-!
# The filter of trigger events

`TriggerEventFilter` keeps one hash for each event that it has accepted since the id changed, and
`JassTrigger_Filter` dispatches what the filter accepts. The reals of an event are words as well:
`hash_combine` reads their bits.

`filter_iff` is what a call of a session accepts, `jassRun_eq` what is dispatched.
-/

namespace DreamDota

/-- The values of a trigger event, in the order in which `hash_value` reads them. -/
structure TriggerValues where
  triggerPlayer : BitVec 32
  triggerUnit : BitVec 32
  issuedOrderId : BitVec 32
  orderTarget : BitVec 32
  orderPointX : BitVec 32
  orderPointY : BitVec 32
  spellAbilityId : BitVec 32
  timeRaw : BitVec 32
  deriving DecidableEq, Repr

structure TriggerEventFilter where
  lastEventId : BitVec 32
  hashSet : Finset (BitVec 32)
  deriving DecidableEq

namespace TriggerEventFilter

/-! ## The code -/

def hashCombine (seed value : BitVec 32) : BitVec 32 :=
  seed ^^^ (value + 0x9e3779b9#32 + (seed <<< 6) + (seed >>> 2))

def hashValue (v : TriggerValues) : BitVec 32 :=
  [v.triggerPlayer, v.triggerUnit, v.issuedOrderId, v.orderTarget, v.orderPointX, v.orderPointY,
    v.spellAbilityId, v.timeRaw].foldl hashCombine 0

def reset (f : TriggerEventFilter) : TriggerEventFilter :=
  { f with lastEventId := 0, hashSet := ∅ }

/-- `filter`, for an event with these values. -/
def filter (f : TriggerEventFilter) (eid : BitVec 32) (v : TriggerValues) :
    Bool × TriggerEventFilter :=
  if eid ≠ f.lastEventId then (true, ⟨eid, {hashValue v}⟩)
  else if hashValue v ∉ f.hashSet then (true, { f with hashSet := insert (hashValue v) f.hashSet })
  else (false, f)

/-- The calls of a filter. -/
inductive Call where
  | reset
  | filter (eid : BitVec 32) (values : TriggerValues)
  deriving DecidableEq, Repr

/-- A call, and its entry in the log: whether it has accepted an event. The last entry is first. -/
def step (s : TriggerEventFilter × List (Call × Bool)) : Call →
    TriggerEventFilter × List (Call × Bool)
  | .reset => (s.1.reset, (.reset, false) :: s.2)
  | .filter eid v => ((s.1.filter eid v).2, (.filter eid v, (s.1.filter eid v).1) :: s.2)

/-- A session of a new filter. -/
def run (calls : List Call) : TriggerEventFilter × List (Call × Bool) :=
  calls.foldl step (⟨0, ∅⟩, [])

/-! ## What is accepted -/

/-- The events with the id that have been accepted since the id changed or the filter was reset. -/
def acceptedSince (eid : BitVec 32) : List (Call × Bool) → List TriggerValues
  | [] => []
  | (.reset, _) :: _ => []
  | (.filter eid' v, accepted) :: log =>
    if eid' = eid then
      if accepted then v :: acceptedSince eid log else acceptedSince eid log
    else []

/-- The set holds the hashes of the events that have been accepted with the last id. -/
structure Good (s : TriggerEventFilter × List (Call × Bool)) : Prop where
  hashes : ∀ h, h ∈ s.1.hashSet ↔ ∃ w ∈ acceptedSince s.1.lastEventId s.2, hashValue w = h
  other : ∀ eid, eid ≠ s.1.lastEventId → acceptedSince eid s.2 = []

theorem good_empty (log : List (Call × Bool)) (h : ∀ eid, acceptedSince eid log = []) :
    Good (⟨0, ∅⟩, log) where
  hashes := by simp [h]
  other eid _ := h eid

/-- An event is accepted if its hash is not among those of the accepted ones. -/
theorem Good.accepts_iff {s : TriggerEventFilter × List (Call × Bool)} (h : Good s)
    (eid : BitVec 32) (v : TriggerValues) : (s.1.filter eid v).1 = true ↔
      ∀ w ∈ acceptedSince eid s.2, hashValue w ≠ hashValue v := by
  unfold filter
  by_cases hid : eid = s.1.lastEventId
  · rw [if_neg (not_not.mpr hid)]
    have hmem := h.hashes (hashValue v)
    rw [← hid] at hmem
    by_cases hin : hashValue v ∈ s.1.hashSet
    · obtain ⟨w, hw, hhash⟩ := hmem.mp hin
      rw [if_neg (not_not.mpr hin)]
      exact ⟨fun hfalse => Bool.noConfusion hfalse, fun hall => absurd hhash (hall w hw)⟩
    · rw [if_pos hin]
      exact ⟨fun _ w hw hhash => hin (hmem.mpr ⟨w, hw, hhash⟩), fun _ => rfl⟩
  · rw [if_pos hid, h.other eid hid]
    simp

theorem Good.step {s : TriggerEventFilter × List (Call × Bool)} (h : Good s) (c : Call) :
    Good (step s c) := by
  cases c with
  | reset => exact good_empty _ fun eid => rfl
  | filter eid v =>
    by_cases hid : eid = s.1.lastEventId
    · subst hid
      by_cases hin : hashValue v ∈ s.1.hashSet
      · have hfilter : s.1.filter s.1.lastEventId v = (false, s.1) := by simp [filter, hin]
        refine ⟨fun k => ?_, fun eid hne => ?_⟩
        · simpa [TriggerEventFilter.step, hfilter, acceptedSince] using h.hashes k
        · simp [TriggerEventFilter.step, hfilter, acceptedSince] at hne ⊢
          exact fun heq => absurd heq.symm hne
      · have hfilter : s.1.filter s.1.lastEventId v =
            (true, { s.1 with hashSet := insert (hashValue v) s.1.hashSet }) := by
          simp [filter, hin]
        refine ⟨fun k => ?_, fun eid hne => ?_⟩
        · simp [TriggerEventFilter.step, hfilter, acceptedSince, h.hashes k, eq_comm]
        · simp [TriggerEventFilter.step, hfilter, acceptedSince] at hne ⊢
          exact fun heq => absurd heq.symm hne
    · have hfilter : s.1.filter eid v = (true, ⟨eid, {hashValue v}⟩) := by simp [filter, hid]
      refine ⟨fun k => ?_, fun eid' hne => ?_⟩
      · simp [TriggerEventFilter.step, hfilter, acceptedSince, h.other eid hid, eq_comm]
      · simp [TriggerEventFilter.step, hfilter, acceptedSince] at hne ⊢
        exact fun heq => absurd heq.symm hne

theorem good_run (calls : List Call) : Good (run calls) :=
  List.foldlRecOn calls step (good_empty [] fun _ => rfl) fun _ h c _ => h.step c

/-! ## The hash -/

theorem hashCombine_right_injective (seed : BitVec 32) :
    Function.Injective (hashCombine seed) := by
  intro value value' h
  have hsum := (BitVec.xor_right_inj seed).mp h
  simp only [BitVec.add_assoc] at hsum
  exact (BitVec.add_left_inj _).mp hsum

/-- The time comes last, so events that differ in nothing else have different hashes. -/
theorem hashValue_time_ne {v : TriggerValues} {timeRaw : BitVec 32} (h : timeRaw ≠ v.timeRaw) :
    hashValue { v with timeRaw := timeRaw } ≠ hashValue v :=
  fun heq => h (hashCombine_right_injective _ heq)

/-- **The filter.** An event is accepted if and only if no event with the same hash has been
accepted since the id changed. An accepted event is not accepted again, and one whose time alone
is new is accepted. -/
theorem filter_iff (calls : List Call) (eid : BitVec 32) (v : TriggerValues) :
    let accepted := acceptedSince eid (run calls).2
    (((run calls).1.filter eid v).1 = true ↔ ∀ w ∈ accepted, hashValue w ≠ hashValue v) ∧
    (v ∈ accepted → ((run calls).1.filter eid v).1 = false) ∧
    ((∀ w ∈ accepted, ∃ timeRaw ≠ v.timeRaw, w = { v with timeRaw := timeRaw }) →
      ((run calls).1.filter eid v).1 = true) := by
  have h := (good_run calls).accepts_iff eid v
  refine ⟨h, fun hv => ?_, fun htime => h.mpr fun w hw => ?_⟩
  · exact Bool.eq_false_of_not_eq_true fun htrue => h.mp htrue v hv rfl
  · obtain ⟨timeRaw, hne, rfl⟩ := htime w hw
    exact hashValue_time_ne hne

/-- The order to move to the point `(-440, 512)`. -/
def moveOrder : TriggerValues :=
  ⟨0x100010, 0x1000A3, 851971, 0, 0xC3DC0000, 0x44000000, 0, 600000⟩

/-- The order to move to the point `(-376, 1216)`. -/
def otherMoveOrder : TriggerValues :=
  { moveOrder with orderPointX := 0xC3BC0000, orderPointY := 0x44980000 }

/-- The second order is a different event and is not accepted. -/
theorem not_filter_otherMoveOrder :
    ¬ ∀ (calls : List Call) (eid : BitVec 32) (v : TriggerValues),
      ((run calls).1.filter eid v).1 = true ↔ v ∉ acceptedSince eid (run calls).2 := by
  intro h
  have hnew : otherMoveOrder ∉ acceptedSince 38 (run [.filter 38 moveOrder]).2 := by decide
  exact absurd ((h [.filter 38 moveOrder] 38 otherMoveOrder).mpr hnew) (by decide)

/-! ## What is dispatched -/

/-- The calls of `JassTrigger.cpp`. -/
inductive JassCall where
  | init
  | filter (inGame : Bool) (id : BitVec 32) (values : TriggerValues)

/-- The call of the filter that such a call makes. -/
def JassCall.call? : JassCall → Option Call
  | .init => some .reset
  | .filter inGame id v => if inGame ∧ id > 0 then some (.filter id v) else none

/-- `JassTrigger_Init` and `JassTrigger_Filter`, with the filter and the ids of the events that have
been dispatched, the last one first. -/
def jassStep (s : TriggerEventFilter × List (BitVec 32)) : JassCall →
    TriggerEventFilter × List (BitVec 32)
  | .init => (s.1.reset, s.2)
  | .filter inGame id v =>
    if inGame then
      if id > 0 then
        ((s.1.filter id v).2, if (s.1.filter id v).1 then id :: s.2 else s.2)
      else s
    else s

def jassRun (calls : List JassCall) : TriggerEventFilter × List (BitVec 32) :=
  calls.foldl jassStep (⟨0, ∅⟩, [])

/-- The ids of the events that a log accepts. -/
def acceptedIds (log : List (Call × Bool)) : List (BitVec 32) :=
  log.filterMap fun entry =>
    match entry with
    | (.filter eid _, true) => some eid
    | _ => none

theorem run_concat (calls : List Call) (c : Call) : run (calls ++ [c]) = step (run calls) c := by
  rw [run, List.foldl_append]
  rfl

/-- A call dispatches what the filter accepts in it. -/
theorem jassStep_eq (s : TriggerEventFilter × List (Call × Bool)) (c : JassCall) :
    jassStep (s.1, acceptedIds s.2) c =
      let s' := (c.call?.elim s (step s))
      (s'.1, acceptedIds s'.2) := by
  cases c with
  | init => rfl
  | filter inGame id v =>
    by_cases hcall : inGame = true ∧ id > 0
    · rw [JassCall.call?, if_pos hcall]
      simp only [jassStep, if_pos hcall.1, if_pos hcall.2]
      cases hacc : (s.1.filter id v).1 <;> simp [step, acceptedIds, hacc]
    · rw [JassCall.call?, if_neg hcall]
      rcases not_and_or.mp hcall with h | h <;> simp only [jassStep, if_neg h, ite_self] <;> rfl

/-- Every event that the filter accepts is dispatched, and nothing else is. -/
theorem jassRun_eq (calls : List JassCall) :
    jassRun calls = ((run (calls.filterMap JassCall.call?)).1,
      acceptedIds (run (calls.filterMap JassCall.call?)).2) := by
  induction calls using List.reverseRecOn with
  | nil => rfl
  | append_singleton calls c ih =>
    rw [jassRun, List.foldl_append, List.foldl_cons, List.foldl_nil, ← jassRun, ih, jassStep_eq,
      List.filterMap_append]
    cases hc : c.call? with
    | none => simp [hc]
    | some call => simp [hc, run_concat]

end TriggerEventFilter

end DreamDota
