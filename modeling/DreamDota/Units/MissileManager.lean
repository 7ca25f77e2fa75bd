import DreamDota.Lib.Session
import Mathlib.Data.List.Nodup

/-!
# The missiles at a unit

`MissileManager.cpp`: `MissileMap` holds the missiles that are in the air, and
`MissileManager_TargetUnitMissileFetch` returns the missiles at a unit one by one. The list it goes
through is static, as are the iterator and the flag that an enumeration has begun.

A `MissileInfo` is named by the map node that holds it. An iterator is given by the nodes that it has
still to come to; `last` is history.

1. `runOk_iff`: the states from which a run of fetches returns the missiles at the unit.
2. `event_good`, `Ready.event`: what the events keep.
3. `fetchesOk_iff`: the sessions in which every run does.
-/

namespace DreamDota.MissileManager

/-! ## The code -/

/-- `Unit::WeaponTypeEnum`. -/
inductive WeaponType where
  | none
  | normal
  | missile
  | artillery
  | instant
  | missileSplash
  | missileBounce
  | missileLine
  | artilleryLine
  deriving DecidableEq, Repr

/-- An object of the game, by its address; 0 is the null pointer. -/
abbrev Address := ℕ

/-- A node of `MissileMap` with its `MissileInfo`. -/
structure Missile where
  node : ℕ
  object : Address
  type : WeaponType
  deriving DecidableEq, Repr

/-- `'+w3u'`. -/
def unitAgentType : BitVec 32 := 0x2B773375

/-- An agent of the game. -/
structure Agent where
  address : Address
  typeId : BitVec 32
  deriving DecidableEq, Repr

structure State where
  /-- In the order of the objects. -/
  missileMap : List Missile
  nodes : ℕ
  /-- What `ObjectFromHashOffset` finds for the target of a missile. -/
  target : Address → Option Address
  unitMissileInfoList : List ℕ
  /-- The nodes from `Iter` to the end of the list. -/
  iter : List ℕ
  /-- The entry at `Iter` has been cleared. -/
  cleared : Bool
  inited : Bool
  /-- History: the unit of the last event, if that was a fetch that returned a missile. -/
  last : Option Address

/-- What a fetch does. -/
inductive Fetched where
  | null
  | info (node : ℕ)
  /-- It reads an iterator of a cleared list. -/
  | fault
  deriving DecidableEq, Repr

namespace State

def init (target : Address → Option Address) : State where
  missileMap := []
  nodes := 0
  target := target
  unitMissileInfoList := []
  iter := []
  cleared := false
  inited := false
  last := none

/-- `UnitMissileInfoList.clear()`. The end of the list stays where it is. -/
def clearList (s : State) : State :=
  { s with unitMissileInfoList := [], cleared := s.cleared || !s.iter.isEmpty }

def cleanup (s : State) : State := { s with missileMap := [] }.clearList

/-- `MissileMap[object]` with its new value. -/
def setMissile (node : ℕ) (object : Address) (type : WeaponType) : List Missile → List Missile
  | [] => [⟨node, object, type⟩]
  | m :: missiles =>
    if object < m.object then ⟨node, object, type⟩ :: m :: missiles
    else if object = m.object then { m with type := type } :: missiles
    else m :: setMissile node object type missiles

/-- `MissileManager_AddMissile`, where `agent` is what is found for the hash. -/
def addMissile (s : State) (type : WeaponType) (object : Address) (agent : Option Agent) : State :=
  if agent.any (fun agent => agent.typeId == unitAgentType) then
    { s with missileMap := setMissile s.nodes object type s.missileMap, nodes := s.nodes + 1 }
  else s

/-- `MissileManager_RemoveMissile`. -/
def removeMissile (s : State) (object : Address) : State :=
  { s with missileMap := s.missileMap.filter fun m => m.object ≠ object }

/-- The loop of a fetch: the missiles that stay in the map, and the nodes of those at the unit. -/
def collect (target : Address → Option Address) (unit : Address) :
    List Missile → List Missile × List ℕ
  | [] => ([], [])
  | m :: missiles =>
    match target m.object with
    | none => collect target unit missiles
    | some agent =>
      if agent = unit then
        (m :: (collect target unit missiles).1, m.node :: (collect target unit missiles).2)
      else (m :: (collect target unit missiles).1, (collect target unit missiles).2)

/-- The first call. -/
def begin (s : State) (unit : Address) : State :=
  let r := collect s.target unit s.missileMap
  { s.clearList with missileMap := r.1, unitMissileInfoList := r.2 }

/-- What a call does when the enumeration has begun. -/
def next (s : State) : Fetched × State :=
  match s.iter with
  | [] => (.null, { s with inited := false })
  | node :: iter => if s.cleared then (.fault, s) else (.info node, { s with iter := iter })

/-- `MissileManager_TargetUnitMissileFetch`. -/
def fetch (s : State) (unit : Address) : Fetched × State :=
  if unit = 0 then (.null, s)
  else if s.inited then s.next
  else
    let s := s.begin unit
    if s.unitMissileInfoList.length > 0 then
      { s with inited := true, iter := s.unitMissileInfoList, cleared := false }.next
    else (.null, s)

end State

inductive Event where
  | addMissile (type : WeaponType) (object : Address) (agent : Option Agent)
  | removeMissile (object : Address)
  | cleanup
  /-- The game changes the targets of missiles. -/
  | target (target : Address → Option Address)
  | fetch (unit : Address)

/-- The unit of an event, if that is a fetch with this result. -/
def lastUnit (unit : Address) : Fetched → Option Address
  | .info _ => some unit
  | _ => none

def event (s : State) : Event → State
  | .addMissile type object agent => { s.addMissile type object agent with last := none }
  | .removeMissile object => { s.removeMissile object with last := none }
  | .cleanup => { s.cleanup with last := none }
  | .target target => { s with target := target, last := none }
  | .fetch unit => { (s.fetch unit).2 with last := lastUnit unit (s.fetch unit).1 }

/-! ## The law -/

/-- The map holds the node. -/
def State.Alive (s : State) (node : ℕ) : Prop := ∃ m ∈ s.missileMap, m.node = node

/-- The node is one of a missile at the unit. -/
def State.Targets (s : State) (unit : Address) (node : ℕ) : Prop :=
  ∃ m ∈ s.missileMap, m.node = node ∧ s.target m.object = some unit

/-- A fetch reads no iterator of a cleared list and returns no node that has been removed. -/
def FetchSafe (s : State) (unit : Address) : Prop :=
  (s.fetch unit).1 ≠ .fault ∧ ∀ node, (s.fetch unit).1 = .info node → (s.fetch unit).2.Alive node

/-- A run of fetches for a unit up to the first null pointer, with the nodes that it returns. All
its fetches are safe. -/
inductive FetchRun (unit : Address) : State → List ℕ → Prop where
  | null {s : State} : (s.fetch unit).1 = .null → FetchRun unit s []
  | info {s : State} {node : ℕ} {nodes : List ℕ} : (s.fetch unit).1 = .info node →
    (s.fetch unit).2.Alive node → FetchRun unit (event s (.fetch unit)) nodes →
    FetchRun unit s (node :: nodes)

/-- The run from a state ends, and it returns the missiles at the unit, each once. -/
def RunOk (s : State) (unit : Address) : Prop :=
  ∃ nodes, FetchRun unit s nodes ∧ nodes.Nodup ∧ ∀ node, node ∈ nodes ↔ s.Targets unit node

/-- The law of an event: every fetch is safe, and the run that begins with it returns the missiles
at its unit. -/
def EventOk (s : State) : Event → Prop
  | .fetch unit => FetchSafe s unit ∧ (unit ≠ 0 → s.last ≠ some unit → RunOk s unit)
  | _ => True

/-- The law, over all fetches and all runs of a session. -/
def FetchesOk (target : Address → Option Address) (events : List Event) : Prop :=
  Session.Steps event (State.init target) events EventOk

/-- A run that begins finds no enumeration unfinished, or one of a list that has not been cleared
with just the missiles at the unit left. -/
def Finished (s : State) : Event → Prop
  | .fetch unit => unit ≠ 0 → s.last ≠ some unit → s.inited = true →
    s.cleared = false ∧ ∀ node, node ∈ s.iter ↔ s.Targets unit node
  | _ => True

namespace State

/-! ## The map -/

theorem collect_eq (target : Address → Option Address) (unit : Address) (missiles : List Missile) :
    collect target unit missiles =
      (missiles.filter fun m => (target m.object).isSome,
        (missiles.filter fun m => target m.object = some unit).map Missile.node) := by
  induction missiles with
  | nil => rfl
  | cons m missiles ih =>
    rw [collect, ih]
    cases htarget : target m.object with
    | none => simp [htarget]
    | some agent => by_cases hagent : agent = unit <;> simp [htarget, hagent]

theorem mem_setMissile {node : ℕ} {object : Address} {type : WeaponType} {missiles : List Missile}
    {n : ℕ} (h : n ∈ (setMissile node object type missiles).map Missile.node) :
    n = node ∨ n ∈ missiles.map Missile.node := by
  induction missiles with
  | nil => exact .inl (List.mem_singleton.mp h)
  | cons m missiles ih =>
    unfold setMissile at h
    split_ifs at h
    · exact List.mem_cons.mp h
    · exact .inr h
    · rw [List.map_cons, List.mem_cons] at h ⊢
      rcases h with h | h
      · exact .inr (.inl h)
      · exact (ih h).imp_right .inr

/-- A new node, or the type at an old one. -/
theorem nodup_setMissile {node : ℕ} (object : Address) (type : WeaponType)
    {missiles : List Missile} (h : (missiles.map Missile.node).Nodup)
    (hnew : node ∉ missiles.map Missile.node) :
    ((setMissile node object type missiles).map Missile.node).Nodup := by
  induction missiles with
  | nil => exact List.nodup_singleton _
  | cons m missiles ih =>
    rw [List.map_cons, List.mem_cons, not_or] at hnew
    obtain ⟨hm, hmissiles⟩ := List.nodup_cons.mp h
    unfold setMissile
    split_ifs
    · exact List.nodup_cons.mpr ⟨by simpa using hnew, h⟩
    · exact h
    · refine List.nodup_cons.mpr ⟨fun hin => ?_, ih hmissiles hnew.2⟩
      rcases mem_setMissile hin with heq | hin
      · exact hnew.1 heq.symm
      · exact hm hin

/-! ## The invariant -/

/-- The nodes of the map differ, and those left in an enumeration. The end of a list is not
cleared. -/
structure Good (s : State) : Prop where
  nodup : (s.missileMap.map Missile.node).Nodup
  bound : ∀ node ∈ s.missileMap.map Missile.node, node < s.nodes
  iter : s.iter.Nodup
  cleared : s.cleared = true → s.iter ≠ []

theorem good_init (target : Address → Option Address) : (init target).Good where
  nodup := List.nodup_nil
  bound _ h := absurd h List.not_mem_nil
  iter := List.nodup_nil
  cleared h := Bool.noConfusion h

variable {s : State}

theorem Good.filter (h : s.Good) (p : Missile → Bool) :
    ({ s with missileMap := s.missileMap.filter p } : State).Good where
  nodup := h.nodup.sublist ((List.filter_sublist).map _)
  bound node hnode := h.bound node (((List.filter_sublist).map _).subset hnode)
  iter := h.iter
  cleared := h.cleared

theorem Good.clearList (h : s.Good) : s.clearList.Good where
  nodup := h.nodup
  bound := h.bound
  iter := h.iter
  cleared hc := by
    rcases (Bool.or_eq_true _ _).mp hc with hc | hc
    · exact h.cleared hc
    · intro (hnil : s.iter = [])
      simp [hnil] at hc

theorem Good.begin (h : s.Good) (unit : Address) : (s.begin unit).Good := by
  rw [State.begin, collect_eq]
  have hfilter := h.clearList.filter fun m => (s.target m.object).isSome
  exact ⟨hfilter.nodup, hfilter.bound, hfilter.iter, hfilter.cleared⟩

theorem Good.next (h : s.Good) : s.next.2.Good := by
  unfold State.next
  split
  next => exact ⟨h.nodup, h.bound, h.iter, h.cleared⟩
  next node iter hiter =>
    split_ifs with hc
    · exact h
    · exact ⟨h.nodup, h.bound, (List.nodup_cons.mp (hiter ▸ h.iter)).2, fun hc' => absurd hc' hc⟩

/-- The enumeration that a first call begins. -/
def opened (s : State) (unit : Address) : State :=
  { s.begin unit with
    inited := true, iter := (s.begin unit).unitMissileInfoList, cleared := false }

theorem Good.opened (h : s.Good) (unit : Address) : (s.opened unit).Good where
  nodup := (h.begin unit).nodup
  bound := (h.begin unit).bound
  iter := by
    show ((collect s.target unit s.missileMap).2).Nodup
    rw [collect_eq]
    exact h.nodup.sublist ((List.filter_sublist).map _)
  cleared hc := Bool.noConfusion hc

theorem fetch_null (s : State) : s.fetch 0 = (.null, s) := if_pos rfl

theorem fetch_inited {unit : Address} (hunit : unit ≠ 0) (h : s.inited = true) :
    s.fetch unit = s.next := by rw [State.fetch, if_neg hunit, if_pos h]

/-- The first call of an enumeration. -/
theorem fetch_not_inited {unit : Address} (hunit : unit ≠ 0) (h : s.inited = false) :
    s.fetch unit = if (s.opened unit).iter.length > 0 then (s.opened unit).next
      else (.null, s.begin unit) := by
  rw [State.fetch, if_neg hunit, if_neg (by rw [h]; exact Bool.false_ne_true)]
  rfl

theorem Good.fetch (h : s.Good) (unit : Address) : (s.fetch unit).2.Good := by
  by_cases hunit : unit = 0
  · rw [hunit, fetch_null]
    exact h
  · cases hinited : s.inited with
    | true =>
      rw [fetch_inited hunit hinited]
      exact h.next
    | false =>
      rw [fetch_not_inited hunit hinited]
      split_ifs
      · exact (h.opened unit).next
      · exact h.begin unit

theorem Good.last (h : s.Good) (last : Option Address) :
    ({ s with last := last } : State).Good := ⟨h.nodup, h.bound, h.iter, h.cleared⟩

end State

/-- What every event keeps. -/
theorem event_good {s : State} (h : s.Good) (e : Event) : (event s e).Good := by
  cases e with
  | addMissile type object agent =>
    refine State.Good.last ?_ none
    unfold State.addMissile
    split_ifs
    · refine ⟨State.nodup_setMissile object type h.nodup fun hin => ?_, fun node hnode => ?_,
        h.iter, h.cleared⟩
      · exact Nat.lt_irrefl _ (h.bound _ hin)
      · rcases State.mem_setMissile hnode with rfl | hnode
        · exact Nat.lt_succ_self _
        · exact Nat.lt_succ_of_lt (h.bound node hnode)
    · exact h
  | removeMissile object => exact (h.filter _).last none
  | cleanup =>
    have hclear := h.clearList
    exact ⟨List.nodup_nil, fun _ hin => absurd hin List.not_mem_nil, hclear.iter, hclear.cleared⟩
  | target target => exact ⟨h.nodup, h.bound, h.iter, h.cleared⟩
  | fetch unit => exact (h.fetch unit).last _

/-! ## Runs -/

section Runs

variable {s : State} {unit : Address}

/-- The state after a call that returns a missile. -/
def advanced (s : State) (unit : Address) (iter : List ℕ) : State :=
  { s with iter := iter, last := some unit }

/-- A call in an enumeration returns the next missile, if its list has not been cleared. -/
theorem fetch_cons (hunit : unit ≠ 0) (hinited : s.inited = true) {node : ℕ} {iter : List ℕ}
    (hiter : s.iter = node :: iter) (hcleared : s.cleared = false) :
    (s.fetch unit).1 = .info node ∧ event s (.fetch unit) = advanced s unit iter := by
  have hnext : s.next = (.info node, { s with iter := iter }) := by
    simp [State.next, hiter, hcleared]
  refine ⟨by rw [State.fetch_inited hunit hinited, hnext], ?_⟩
  rw [event, State.fetch_inited hunit hinited, hnext]
  rfl

theorem fetch_nil (hunit : unit ≠ 0) (hinited : s.inited = true) (hiter : s.iter = []) :
    (s.fetch unit).1 = .null := by
  rw [State.fetch_inited hunit hinited, State.next, hiter]

theorem fetch_cleared (hunit : unit ≠ 0) (hinited : s.inited = true) {node : ℕ} {iter : List ℕ}
    (hiter : s.iter = node :: iter) (hcleared : s.cleared = true) :
    (s.fetch unit).1 = .fault := by
  rw [State.fetch_inited hunit hinited, State.next, hiter]
  simp [hcleared]

/-- At the end of the list a run is over. -/
theorem fetchRun_nil (hunit : unit ≠ 0) (hinited : s.inited = true) (hiter : s.iter = [])
    {nodes : List ℕ} : FetchRun unit s nodes ↔ nodes = [] := by
  constructor
  · rintro (hnull | ⟨hinfo, -, -⟩)
    · rfl
    · rw [fetch_nil hunit hinited hiter] at hinfo
      cases hinfo
  · rintro rfl
    exact .null (fetch_nil hunit hinited hiter)

/-- A cleared list is not entered. -/
theorem not_fetchRun_cleared (hunit : unit ≠ 0) (hinited : s.inited = true) {node : ℕ}
    {iter : List ℕ} (hiter : s.iter = node :: iter) (hcleared : s.cleared = true)
    {nodes : List ℕ} : ¬ FetchRun unit s nodes := by
  have hfault := fetch_cleared hunit hinited hiter hcleared
  rintro (hnull | ⟨hinfo, -, -⟩)
  · rw [hfault] at hnull
    cases hnull
  · rw [hfault] at hinfo
    cases hinfo

/-- A run returns the next node, which has not been removed, and goes on behind it. -/
theorem fetchRun_cons (hunit : unit ≠ 0) (hinited : s.inited = true) {node : ℕ} {iter : List ℕ}
    (hiter : s.iter = node :: iter) (hcleared : s.cleared = false) {nodes : List ℕ} :
    FetchRun unit s nodes ↔
      ∃ rest, nodes = node :: rest ∧ s.Alive node ∧ FetchRun unit (advanced s unit iter) rest := by
  obtain ⟨hinfo, hevent⟩ := fetch_cons hunit hinited hiter hcleared
  have halive : (s.fetch unit).2.Alive node ↔ s.Alive node := by
    rw [State.fetch_inited hunit hinited, State.next, hiter]
    simp [hcleared, State.Alive]
  constructor
  · rintro (hnull | ⟨hinfo', hnode, hrun⟩)
    · rw [hinfo] at hnull
      cases hnull
    · rw [hinfo] at hinfo'
      cases hinfo'
      rw [hevent] at hrun
      exact ⟨_, rfl, halive.mp hnode, hrun⟩
  · rintro ⟨rest, rfl, hnode, hrun⟩
    refine .info hinfo (halive.mpr hnode) ?_
    rw [hevent]
    exact hrun

/-- **A run in an enumeration.** It returns what is left, if the list has not been cleared and
nothing that is left has been removed. -/
theorem fetchRun_iff (hunit : unit ≠ 0) (hinited : s.inited = true)
    (hend : s.cleared = true → s.iter ≠ []) {nodes : List ℕ} : FetchRun unit s nodes ↔
      nodes = s.iter ∧ s.cleared = false ∧ ∀ node ∈ s.iter, s.Alive node := by
  induction hiter : s.iter generalizing s nodes with
  | nil =>
    have hcleared : s.cleared = false := (Bool.not_eq_true _).mp fun h => hend h hiter
    rw [fetchRun_nil hunit hinited hiter]
    exact ⟨fun h => ⟨h, hcleared, fun _ h => absurd h List.not_mem_nil⟩, fun h => h.1⟩
  | cons node iter ih =>
    cases hcleared : s.cleared with
    | true => exact iff_of_false (not_fetchRun_cleared hunit hinited hiter hcleared) (by simp)
    | false =>
      have hrest : ∀ nodes, FetchRun unit (advanced s unit iter) nodes ↔ nodes = iter ∧
          s.cleared = false ∧ ∀ node ∈ iter, s.Alive node := fun nodes =>
        ih (s := advanced s unit iter) hinited
          (fun h => by rw [advanced, hcleared] at h; cases h) rfl
      rw [fetchRun_cons hunit hinited hiter hcleared, List.forall_mem_cons]
      constructor
      · rintro ⟨rest, rfl, hnode, hrun⟩
        obtain ⟨rfl, -, hall⟩ := (hrest rest).mp hrun
        exact ⟨rfl, rfl, hnode, hall⟩
      · rintro ⟨rfl, -, hnode, hall⟩
        exact ⟨iter, rfl, hnode, (hrest iter).mpr ⟨rfl, hcleared, hall⟩⟩

/-- The missiles at the unit are those of the enumeration that a first call begins. -/
theorem mem_opened {node : ℕ} : node ∈ (s.opened unit).iter ↔ s.Targets unit node := by
  show node ∈ (State.collect s.target unit s.missileMap).2 ↔ _
  rw [State.collect_eq]
  simp only [List.mem_map, List.mem_filter, decide_eq_true_eq, State.Targets]
  exact exists_congr fun m => by tauto

theorem alive_opened {node : ℕ} (h : s.Targets unit node) : (s.opened unit).Alive node := by
  obtain ⟨m, hm, rfl, htarget⟩ := h
  refine ⟨m, ?_, rfl⟩
  show m ∈ (State.collect s.target unit s.missileMap).1
  rw [State.collect_eq]
  exact List.mem_filter.mpr ⟨hm, by simp [htarget]⟩

/-- The first call of an enumeration that has missiles. -/
theorem fetch_opened (hunit : unit ≠ 0) (hinited : s.inited = false)
    (hlen : (s.opened unit).iter.length > 0) : s.fetch unit = (s.opened unit).fetch unit := by
  rw [State.fetch_not_inited hunit hinited, if_pos hlen, State.fetch_inited hunit rfl]

/-- A run depends on its first call only. -/
theorem FetchRun.congr {s' : State} {nodes : List ℕ} (h : s.fetch unit = s'.fetch unit)
    (hrun : FetchRun unit s' nodes) : FetchRun unit s nodes := by
  have hevent : event s (.fetch unit) = event s' (.fetch unit) := by rw [event, event, h]
  cases hrun with
  | null hnull => exact .null (h ▸ hnull)
  | info hinfo hnode hrest => exact .info (h ▸ hinfo) (h ▸ hnode) (hevent ▸ hrest)

/-- A run that begins an enumeration. -/
theorem runOk_opened (hunit : unit ≠ 0) (hinited : s.inited = false) (h : s.Good) :
    RunOk s unit := by
  refine ⟨(s.opened unit).iter, ?_, (h.opened unit).iter, fun node => mem_opened⟩
  by_cases hlen : (s.opened unit).iter.length > 0
  · refine FetchRun.congr (fetch_opened hunit hinited hlen) ?_
    refine (fetchRun_iff hunit rfl fun h => Bool.noConfusion h).mpr ⟨rfl, rfl, fun node hnode => ?_⟩
    exact alive_opened (mem_opened.mp hnode)
  · rw [List.eq_nil_of_length_eq_zero (Nat.eq_zero_of_not_pos hlen)]
    exact .null (by rw [State.fetch_not_inited hunit hinited, if_neg hlen])

/-- The states from which a run returns the missiles at the unit. -/
theorem runOk_iff (hunit : unit ≠ 0) (h : s.Good) : RunOk s unit ↔
    (s.inited = true → s.cleared = false ∧ ∀ node, node ∈ s.iter ↔ s.Targets unit node) := by
  cases hinited : s.inited with
  | false => exact ⟨fun _ hfalse => Bool.noConfusion hfalse, fun _ => runOk_opened hunit hinited h⟩
  | true =>
    constructor
    · rintro ⟨nodes, hrun, -, hmem⟩ -
      obtain ⟨rfl, hcleared, -⟩ := (fetchRun_iff hunit hinited h.cleared).mp hrun
      exact ⟨hcleared, hmem⟩
    · intro hleft
      obtain ⟨hcleared, hmem⟩ := hleft rfl
      refine ⟨s.iter, (fetchRun_iff hunit hinited h.cleared).mpr ⟨rfl, hcleared, ?_⟩, h.iter, hmem⟩
      intro node hnode
      obtain ⟨m, hm, heq, -⟩ := (hmem node).mp hnode
      exact ⟨m, hm, heq⟩

/-- The first call of a run that ends is safe. -/
theorem RunOk.safe (h : RunOk s unit) : FetchSafe s unit := by
  obtain ⟨nodes, hrun, -⟩ := h
  cases hrun with
  | null hnull => simp [FetchSafe, hnull]
  | info hinfo hnode hrest =>
    refine ⟨by simp [hinfo], fun node heq => ?_⟩
    rw [hinfo] at heq
    cases heq
    exact hnode

end Runs

/-! ## Sessions -/

/-- In the middle of a run, the list has not been cleared, and what is left has not been removed. -/
def Ready (s : State) : Prop :=
  ∀ unit, s.last = some unit → unit ≠ 0 ∧ s.inited = true ∧ s.cleared = false ∧
    ∀ node ∈ s.iter, s.Alive node

theorem ready_init (target : Address → Option Address) : Ready (State.init target) :=
  fun _ h => by cases h

/-- A fetch in the middle of a run. -/
theorem Ready.safe {s : State} (h : Ready s) {unit : Address} (hlast : s.last = some unit) :
    FetchSafe s unit := by
  obtain ⟨hunit, hinited, hcleared, halive⟩ := h unit hlast
  have hnext := State.fetch_inited hunit hinited
  cases hiter : s.iter with
  | nil => simp [FetchSafe, fetch_nil hunit hinited hiter]
  | cons node iter =>
    have hvalue : s.next = (.info node, { s with iter := iter }) := by
      simp [State.next, hiter, hcleared]
    rw [FetchSafe, hnext, hvalue]
    refine ⟨by simp, fun node' heq => ?_⟩
    cases heq
    exact halive node (hiter ▸ List.mem_cons_self)

/-- A fetch in an enumeration that has not been disturbed. -/
theorem ready_fetch {s : State} {unit : Address} (hunit : unit ≠ 0) (hinited : s.inited = true)
    (hcleared : s.cleared = false) (halive : ∀ node ∈ s.iter, s.Alive node) :
    Ready (event s (.fetch unit)) := by
  cases hiter : s.iter with
  | nil =>
    intro unit' hlast
    rw [event, fetch_nil hunit hinited hiter] at hlast
    cases hlast
  | cons node iter =>
    rw [(fetch_cons hunit hinited hiter hcleared).2]
    intro unit' hlast
    cases hlast
    exact ⟨hunit, hinited, hcleared,
      fun n hn => halive n (hiter ▸ List.mem_cons_of_mem _ hn)⟩

/-- A run that begins where no enumeration is unfinished is not disturbed until an event comes that
is no fetch for its unit. -/
theorem Ready.event {s : State} (h : Ready s) {e : Event} (hfin : Finished s e) :
    Ready (event s e) := by
  cases e with
  | fetch unit =>
    by_cases hunit : unit = 0
    · intro unit' hlast
      rw [MissileManager.event, hunit, State.fetch_null] at hlast
      cases hlast
    · cases hinited : s.inited with
      | true =>
        by_cases hlast : s.last = some unit
        · obtain ⟨-, -, hcleared, halive⟩ := h unit hlast
          exact ready_fetch hunit hinited hcleared halive
        · obtain ⟨hcleared, hmem⟩ := hfin hunit hlast hinited
          refine ready_fetch hunit hinited hcleared fun node hnode => ?_
          obtain ⟨m, hm, heq, -⟩ := (hmem node).mp hnode
          exact ⟨m, hm, heq⟩
      | false =>
        by_cases hlen : (s.opened unit).iter.length > 0
        · have hevent : MissileManager.event s (.fetch unit) =
              MissileManager.event (s.opened unit) (.fetch unit) := by
            rw [MissileManager.event, MissileManager.event, fetch_opened hunit hinited hlen]
          rw [hevent]
          exact ready_fetch hunit rfl rfl fun node hnode => alive_opened (mem_opened.mp hnode)
        · intro unit' hlast
          rw [MissileManager.event, State.fetch_not_inited hunit hinited, if_neg hlen] at hlast
          cases hlast
  | _ => exact fun _ hlast => by cases hlast

/-- A run that is to return the missiles at its unit. -/
theorem EventOk.finished {s : State} (hgood : s.Good) {e : Event} (h : EventOk s e) :
    Finished s e := by
  cases e with
  | fetch unit => exact fun hunit hlast => (runOk_iff hunit hgood).mp (h.2 hunit hlast)
  | _ => exact h

/-- The law of an event, where the run before has not been disturbed. -/
theorem Finished.eventOk {s : State} (hgood : s.Good) (hready : Ready s) {e : Event}
    (h : Finished s e) : EventOk s e := by
  cases e with
  | fetch unit =>
    refine ⟨?_, fun hunit hlast => (runOk_iff hunit hgood).mpr (h hunit hlast)⟩
    by_cases hunit : unit = 0
    · simp [FetchSafe, hunit, State.fetch_null]
    · by_cases hlast : s.last = some unit
      · exact hready.safe hlast
      · exact ((runOk_iff hunit hgood).mpr (h hunit hlast)).safe
  | _ => exact h

/-- **The enumeration of missiles.** In a session, every fetch is safe and every run of fetches
returns the missiles at its unit if and only if no run begins while an enumeration is unfinished,
other than one with just these missiles left. -/
theorem fetchesOk_iff (target : Address → Option Address) (events : List Event) :
    FetchesOk target events ↔ Session.Steps event (State.init target) events Finished := by
  have hgood : Session.Always event (State.init target) events State.Good :=
    Session.Always.of_step (fun s e _ h => event_good h e) (State.good_init target)
  constructor
  · intro h pre e hp
    exact (h pre e hp).finished (hgood pre ((List.prefix_append pre [e]).trans hp))
  · intro h pre e hp
    have hready : Session.Always event (State.init target) events Ready :=
      Session.Always.of_steps (fun s e _ hs hfin => hs.event hfin) (ready_init target) h
    have hpre := (List.prefix_append pre [e]).trans hp
    exact (h pre e hp).eventOk (hgood pre hpre) (hready pre hpre)

/-- The missile 10 flies to the unit 100, every other one to the unit 200. -/
def twoTargets (object : Address) : Option Address := some (if object = 10 then 100 else 200)

def aUnit (address : Address) : Option Agent := some ⟨address, unitAgentType⟩

/-- An enumeration that was not completed hides the missile at another unit. -/
def abandoned : List Event :=
  [.addMissile .missile 10 (aUnit 100), .addMissile .missile 20 (aUnit 200), .fetch 100,
    .fetch 200]

/-- The manager is cleaned up in an enumeration. -/
def cleanedUp : List Event :=
  [.addMissile .missile 20 (aUnit 200), .addMissile .missile 30 (aUnit 200), .fetch 200, .cleanup,
    .fetch 200]

theorem not_fetchesOk_unfinished :
    ¬ FetchesOk twoTargets abandoned ∧ ¬ FetchesOk twoTargets cleanedUp := by
  constructor
  · intro h
    have hlast := h (abandoned.take 3) (.fetch 200) List.prefix_rfl
    obtain ⟨nodes, hrun, -, hmem⟩ := hlast.2 (by decide) (by decide)
    have hnull : (((abandoned.take 3).foldl event (State.init twoTargets)).fetch 200).1 = .null := rfl
    have hnode : 1 ∈ nodes := (hmem 1).mpr ⟨⟨1, 20, .missile⟩, by decide, rfl, rfl⟩
    rcases hrun with - | ⟨hinfo, -, -⟩
    · exact absurd hnode List.not_mem_nil
    · rw [hnull] at hinfo
      cases hinfo
  · intro h
    exact (h (cleanedUp.take 4) (.fetch 200) List.prefix_rfl).1.1 rfl

end DreamDota.MissileManager
