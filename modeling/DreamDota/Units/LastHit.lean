import DreamDota.Packet.Payload

/-!
# The last-hit mode

`LastHit.cpp`: a press of the hotkey puts the selected units into the mode, where their flag
`lasthitActive` is set and they are members of `LastHitUnits`; its release takes them out. A timer
gives orders to the members, and takes out a member that is not selected any more.

What the handlers ask the game is part of the events. The prediction of the damage is left out: it
only decides the `Mission` of a unit. The priorities of the units do not change. The units live as
long as the game. `log` is history.

1. `Consistent`: the flags and the group agree. Every handler keeps it but the timer where it takes
   out a member.
2. `lastHitOk_iff`: the sessions in which the timer finds all members selected.
-/

namespace DreamDota

open SearchTree

namespace LastHit

def actionSmart : ℕ := 0xD0003

def actionStop : ℕ := 0xD0004

def actionAttack : ℕ := 0xD000F

def actionAttackground : ℕ := 0xD0010

/-- `POINT_NONE`. -/
def pointNone : Coord × Coord := (0, 0)

/-- An order to give again when the mode ends. No item is used then. -/
structure Action where
  actionId : ℕ
  actionType : ActionType
  actionFlag : ℕ
  targetPoint : Coord × Coord
  targetUnit : Option UnitHandle
  deriving DecidableEq

/-- The arguments of `sendAction` for it. -/
def Action.args (a : Action) : ActionArgs where
  actionId := a.actionId
  actionType := a.actionType
  actionFlag := a.actionFlag
  usingItem := none
  targetX := a.targetPoint.1
  targetY := a.targetPoint.2
  targetUnit := a.targetUnit
  targetItem := none

inductive Strategy where
  | error
  | dontMind
  | enemyOnly
  | allyOnly
  deriving DecidableEq

/-- What the timer decides for a member that has no target. -/
inductive Mission where
  | normalAttack (target : UnitHandle)
  | safeDelayAttack (target : UnitHandle)
  | standStillAndCool
  | keepStanding

/-- What the timer asks the game. -/
structure TimerView where
  unitIsValid : UnitHandle → Bool
  mission : UnitHandle → Mission
  position : UnitHandle → Coord × Coord
  /-- The point 50 units ahead. -/
  ahead : UnitHandle → Coord × Coord

/-- What happened to a unit. -/
inductive Trace where
  | entered (unit : UnitHandle)
  | endProc (unit : UnitHandle)
  deriving DecidableEq

structure State where
  lastHitUnits : UnitGroup
  lasthitActive : UnitHandle → Bool
  lasthitCurrentTarget : UnitHandle → Option UnitHandle
  unitLastActionMap : UnitHandle → Option Action
  enabled : Bool
  enableHit : Bool
  enableDeny : Bool
  hotkey : ℕ
  editingHotkey : Bool
  /-- The selection of the local player. -/
  selected : List UnitHandle
  /-- The units that the local player controls. -/
  controllable : UnitHandle → Bool
  /-- The orders given, each with `flagReduceAPM`. -/
  sent : List (UnitHandle × ActionArgs × Bool)
  /-- What happened to the units, the last first. -/
  log : List Trace

/-- The settings, the selection and the control that a game begins with. -/
structure Settings where
  game : SelectionPriorities
  enabled : Bool
  enableHit : Bool
  enableDeny : Bool
  hotkey : ℕ
  selected : List UnitHandle
  controllable : UnitHandle → Bool

def init (c : Settings) : State where
  lastHitUnits := UnitGroup.new c.game
  lasthitActive := fun _ => false
  lasthitCurrentTarget := fun _ => none
  unitLastActionMap := fun _ => none
  enabled := c.enabled
  enableHit := c.enableHit
  enableDeny := c.enableDeny
  hotkey := c.hotkey
  editingHotkey := false
  selected := c.selected
  controllable := c.controllable
  sent := []
  log := []

/-- A key comes with what `currentOrder`, `currentTargetPoint` and `currentTargetUnit` answer for the
units whose order is smart. -/
inductive LastHitEvent where
  | keyDown (code : ℕ) (smart : UnitHandle → Option ((Coord × Coord) × Option UnitHandle))
  | keyUp (code : ℕ) (smart : UnitHandle → Option ((Coord × Coord) × Option UnitHandle))
  | selectionChange (units : List UnitHandle)
  | controlChange (controllable : UnitHandle → Bool)
  | timerExpire (view : TimerView)
  /-- The timer of `SafeDelayAttack`. -/
  | attackWaited (attacker target : UnitHandle) (position : Coord × Coord)
  | unitDeath (killer dead : Option UnitHandle)
  | attackReleased (attacker acquiredTarget : Option UnitHandle)
  | actionSent (byProgramm : Bool) (action : Action)
  | editHotkey
  | options (enabled enableHit enableDeny : Bool)

namespace State

variable (B : Balancing UnitHandle) (s : State)

def lastHitStrategy : Strategy :=
  match s.enableHit, s.enableDeny with
  | true, true => .dontMind
  | true, false => .enemyOnly
  | false, true => .allyOnly
  | false, false => .error

/-- `GroupUnitsOfPlayerSelected(PlayerLocal(), false)`. -/
def groupUnitsOfPlayerSelected : UnitGroup :=
  s.selected.foldl (fun g u => g.add B (some u)) (UnitGroup.new s.lastHitUnits.game)

def isSelectedLocal (u : UnitHandle) : Bool := (s.groupUnitsOfPlayerSelected B).has (some u)

def sendAction (u : UnitHandle) (args : ActionArgs) (flagReduceAPM : Bool) : State :=
  { s with sent := s.sent ++ [(u, args, flagReduceAPM)] }

def normalAttack (attacker target : UnitHandle) (position : Coord × Coord) : State :=
  s.sendAction attacker
    ⟨actionAttack, .target, 0, none, position.1, position.2, some target, none⟩ true

def safeDelayAttack (attacker : UnitHandle) (position : Coord × Coord) : State :=
  s.sendAction attacker ⟨actionSmart, .target, 0, none, position.1, position.2, none, none⟩ true

def standStillAndCool (attacker : UnitHandle) (ahead : Coord × Coord) : State :=
  s.sendAction attacker
    ⟨actionAttackground, .targetPoint, 0, none, ahead.1, ahead.2, none, none⟩ true

/-- `LastHitUnits.add`. -/
def addLastHitUnit (u : UnitHandle) : State :=
  { s with
    lastHitUnits := s.lastHitUnits.add B (some u)
    log := if s.lastHitUnits.has (some u) then s.log else .entered u :: s.log }

/-- `LastHitUnits.remove`. -/
def removeLastHitUnit (u : UnitHandle) : State :=
  { s with lastHitUnits := s.lastHitUnits.remove B (some u) }

def lastHitUnitInitProc (smart : UnitHandle → Option ((Coord × Coord) × Option UnitHandle))
    (u : UnitHandle) : State :=
  match smart u with
  | some (point, target) =>
    { s with
      unitLastActionMap :=
        Function.update s.unitLastActionMap u (some ⟨actionSmart, .target, 0, point, target⟩) }
  | none => s

def lastHitUnitEndProc (u : UnitHandle) : State :=
  let s := { s with log := .endProc u :: s.log }
  match s.unitLastActionMap u with
  | some action =>
    { s.sendAction u action.args false with
      unitLastActionMap := Function.update s.unitLastActionMap u none }
  | none =>
    s.sendAction u
      ⟨actionStop, .targetNone, 0, none, pointNone.1, pointNone.2, none, none⟩ true

/-! ## The handlers -/

def setActive (u : UnitHandle) (active : Bool) : State :=
  { s with lasthitActive := Function.update s.lasthitActive u active }

/-- What `SetLastHitActivate` does for one unit. -/
def switchUnit (active : Bool) (smart : UnitHandle → Option ((Coord × Coord) × Option UnitHandle))
    (s : State) (u : UnitHandle) : State :=
  if s.controllable u && s.lasthitActive u != active then
    if active then ((s.setActive u active).addLastHitUnit B u).lastHitUnitInitProc smart u
    else ((s.setActive u active).removeLastHitUnit B u).lastHitUnitEndProc u
  else s

def setLastHitActivate (active : Bool) (code : ℕ)
    (smart : UnitHandle → Option ((Coord × Coord) × Option UnitHandle)) : State :=
  if s.enabled && code == s.hotkey then
    (s.groupUnitsOfPlayerSelected B).members.foldl (switchUnit B active smart) s
  else s

/-- `DetectHotkey` comes before `SetLastHitActivate` and discards the event if it uses it. -/
def keyDown (code : ℕ) (smart : UnitHandle → Option ((Coord × Coord) × Option UnitHandle)) :
    State :=
  if s.editingHotkey then { s with hotkey := code, editingHotkey := false }
  else s.setLastHitActivate B true code smart

def startMission (view : TimerView) (u : UnitHandle) : State :=
  match view.mission u with
  | .normalAttack target =>
    ({ s with lasthitCurrentTarget := Function.update s.lasthitCurrentTarget u (some target) }
      ).normalAttack u target (view.position target)
  | .safeDelayAttack target =>
    ({ s with lasthitCurrentTarget := Function.update s.lasthitCurrentTarget u (some target) }
      ).safeDelayAttack u (view.position u)
  | .standStillAndCool => s.standStillAndCool u (view.ahead u)
  | .keepStanding => s

/-- What the timer does for a selected member. -/
def attend (view : TimerView) (u : UnitHandle) : State :=
  match s.lasthitCurrentTarget u with
  | some target =>
    if view.unitIsValid target then s
    else
      ({ s with lasthitCurrentTarget := Function.update s.lasthitCurrentTarget u none }
        ).startMission view u
  | none => s.startMission view u

/-- The loop of `onTimerExpire`, which ends at a member that is not selected. -/
def timerLoop (view : TimerView) : List UnitHandle → State → State
  | [], s => s
  | u :: units, s =>
    if s.isSelectedLocal B u then timerLoop view units (s.attend view u)
    else (s.removeLastHitUnit B u).lastHitUnitEndProc u

def onTimerExpire (view : TimerView) : State :=
  if s.lastHitStrategy = .error then s else timerLoop B view s.lastHitUnits.members s

def onUnitDeath (killer dead : Option UnitHandle) : State :=
  match killer, dead with
  | some _, some dead =>
    { s with
      lasthitCurrentTarget := fun u =>
        if u ∈ s.lastHitUnits.members ∧ s.lasthitCurrentTarget u = some dead then none
        else s.lasthitCurrentTarget u }
  | _, _ => s

def onAttackReleased (attacker acquiredTarget : Option UnitHandle) : State :=
  match attacker, acquiredTarget with
  | some attacker, some _ =>
    { s with lasthitCurrentTarget := Function.update s.lasthitCurrentTarget attacker none }
  | _, _ => s

def onActionSent (byProgramm : Bool) (action : Action) : State :=
  if byProgramm then s
  else
    { s with
      unitLastActionMap := (s.groupUnitsOfPlayerSelected B).members.foldl
        (fun m u => if s.lastHitUnits.has (some u) then Function.update m u (some action) else m)
        s.unitLastActionMap }

def event (s : State) : LastHitEvent → State
  | .keyDown code smart => s.keyDown B code smart
  | .keyUp code smart => s.setLastHitActivate B false code smart
  | .selectionChange units => { s with selected := units }
  | .controlChange controllable => { s with controllable := controllable }
  | .timerExpire view => s.onTimerExpire B view
  | .attackWaited attacker target position => s.normalAttack attacker target position
  | .unitDeath killer dead => s.onUnitDeath killer dead
  | .attackReleased attacker acquiredTarget => s.onAttackReleased attacker acquiredTarget
  | .actionSent byProgramm action => s.onActionSent B byProgramm action
  | .editHotkey => { s with editingHotkey := true }
  | .options enabled enableHit enableDeny =>
    { s with enabled := enabled, enableHit := enableHit, enableDeny := enableDeny }

/-! ## The law -/

/-- How often `LastHitUnitEndProc` has run for the unit since it entered. -/
def endProcs (u : UnitHandle) : ℕ := (s.log.takeWhile (· ≠ .entered u)).count (.endProc u)

/-- What the claims about the mode say of a state between handlers. -/
structure Ok : Prop where
  active : ∀ u, s.lasthitActive u = true ↔ s.lastHitUnits.has (some u) = true
  ended : ∀ u, .entered u ∈ s.log → s.lastHitUnits.has (some u) = false → s.endProcs u = 1
  again : ∀ code smart u, s.enabled = true → s.editingHotkey = false → code = s.hotkey →
    u ∈ s.selected → s.controllable u = true →
    (s.event B (.keyDown code smart)).lastHitUnits.has (some u) = true

/-- The event is not a timer that finds a member that is not selected. -/
def Guard (s : State) (e : LastHitEvent) : Prop :=
  ∀ view, e = .timerExpire view → s.lastHitStrategy ≠ .error →
    ∀ u ∈ s.lastHitUnits.members, u ∈ s.selected

/-- What the handlers keep as long as the timer takes no member out. -/
structure Consistent : Prop where
  sorted : s.lastHitUnits.Sorted
  active : ∀ u, s.lasthitActive u = true ↔ u ∈ s.lastHitUnits.members
  inside : ∀ u ∈ s.lastHitUnits.members, s.endProcs u = 0
  ended : ∀ u, .entered u ∈ s.log → u ∉ s.lastHitUnits.members → s.endProcs u = 1

/-! ## What the handlers do -/

variable {B s} {s' : State} {u v : UnitHandle} {active : Bool} {view : TimerView}
  {smart : UnitHandle → Option ((Coord × Coord) × Option UnitHandle)}

/-- A handler that touches neither the flags nor the group. -/
structure Same (s s' : State) : Prop where
  units : s'.lastHitUnits = s.lastHitUnits
  active : s'.lasthitActive = s.lasthitActive
  log : s'.log = s.log
  selected : s'.selected = s.selected

theorem Same.trans {s'' : State} (h : Same s s') (h' : Same s' s'') : Same s s'' :=
  ⟨h'.units.trans h.units, h'.active.trans h.active, h'.log.trans h.log,
    h'.selected.trans h.selected⟩

theorem consistent_init (c : Settings) : Consistent (init c) where
  sorted := UnitGroup.sorted_new c.game
  active := fun _ => iff_of_false Bool.false_ne_true List.not_mem_nil
  inside := List.forall_mem_nil _
  ended := fun _ h => absurd h List.not_mem_nil

/-- Only the group, the flags and the history matter. -/
theorem Consistent.congr (h : Consistent s) (hu : s'.lastHitUnits = s.lastHitUnits)
    (ha : s'.lasthitActive = s.lasthitActive) (hl : s'.log = s.log) : Consistent s' := by
  obtain ⟨h1, h2, h3, h4⟩ := h
  constructor
  · rwa [hu]
  · rwa [hu, ha]
  · rw [hu]
    intro u hm
    rw [endProcs, hl]
    exact h3 u hm
  · rw [hu, hl]
    intro u hm hn
    rw [endProcs, hl]
    exact h4 u hm hn

theorem same_startMission : Same s (s.startMission view u) := by
  unfold startMission
  split <;> exact ⟨rfl, rfl, rfl, rfl⟩

theorem same_attend : Same s (s.attend view u) := by
  unfold attend
  split
  · split_ifs
    · exact ⟨rfl, rfl, rfl, rfl⟩
    · refine Same.trans ?_ same_startMission
      exact ⟨rfl, rfl, rfl, rfl⟩
  · exact same_startMission

theorem sorted_foldl_add {g : UnitGroup} (h : g.Sorted) (units : List UnitHandle) :
    (units.foldl (fun g u => g.add B (some u)) g).Sorted ∧
      ∀ u, u ∈ (units.foldl (fun g u => g.add B (some u)) g).members ↔ u ∈ units ∨ u ∈ g.members := by
  induction units generalizing g with
  | nil => exact ⟨h, fun u => by simp⟩
  | cons w units ih =>
    obtain ⟨hs, hm⟩ := ih (h.add (B := B) (some w))
    refine ⟨hs, fun u => ?_⟩
    rw [List.foldl_cons, hm u, h.mem_add, List.mem_cons]
    tauto

theorem mem_groupUnitsOfPlayerSelected :
    u ∈ (s.groupUnitsOfPlayerSelected B).members ↔ u ∈ s.selected := by
  rw [groupUnitsOfPlayerSelected, (sorted_foldl_add (UnitGroup.sorted_new _) _).2 u]
  exact or_iff_left List.not_mem_nil

theorem isSelectedLocal_iff : s.isSelectedLocal B u = true ↔ u ∈ s.selected := by
  have hs : (s.groupUnitsOfPlayerSelected B).Sorted :=
    (sorted_foldl_add (UnitGroup.sorted_new _) _).1
  rw [isSelectedLocal, hs.has_iff, mem_groupUnitsOfPlayerSelected]

theorem endProcs_entered (hl : s'.log = .entered u :: s.log) :
    s'.endProcs v = if v = u then 0 else s.endProcs v := by
  unfold endProcs
  rw [hl]
  by_cases hv : v = u
  · subst hv
    rw [List.takeWhile_cons_of_neg (by simp), if_pos rfl, List.count_nil]
  · rw [List.takeWhile_cons_of_pos (by simp [Ne.symm hv]), if_neg hv,
      List.count_cons_of_ne (by simp)]

theorem endProcs_endProc (hl : s'.log = .endProc u :: s.log) :
    s'.endProcs v = if v = u then s.endProcs v + 1 else s.endProcs v := by
  unfold endProcs
  rw [hl, List.takeWhile_cons_of_pos (by simp)]
  by_cases hv : v = u
  · subst hv
    rw [if_pos rfl, List.count_cons_self]
  · rw [if_neg hv, List.count_cons_of_ne (by simp [Ne.symm hv])]

/-- A unit enters the mode. -/
theorem Consistent.enter (h : Consistent s) (hu : u ∉ s.lastHitUnits.members)
    (hunits : s'.lastHitUnits = s.lastHitUnits.add B (some u))
    (hactive : s'.lasthitActive = Function.update s.lasthitActive u true)
    (hlog : s'.log = .entered u :: s.log) : Consistent s' := by
  have hmem : ∀ v, v ∈ s'.lastHitUnits.members ↔ v = u ∨ v ∈ s.lastHitUnits.members := by
    intro v
    rw [hunits, h.sorted.mem_add]
  refine ⟨by rw [hunits]; exact h.sorted.add _, fun v => ?_, fun v hv => ?_, fun v he hv => ?_⟩
  · rw [hmem, hactive]
    by_cases hvu : v = u
    · subst hvu
      simp
    · rw [Function.update_of_ne hvu, h.active v]
      exact (or_iff_right hvu).symm
  · rw [endProcs_entered hlog]
    by_cases hvu : v = u
    · exact if_pos hvu
    · rw [if_neg hvu]
      exact h.inside v (((hmem v).mp hv).resolve_left hvu)
  · rw [hmem, not_or] at hv
    rw [hlog, List.mem_cons] at he
    rw [endProcs_entered hlog, if_neg hv.1]
    refine h.ended v (he.resolve_left fun heq => hv.1 ?_) hv.2
    exact Trace.entered.inj heq

/-- A unit leaves the mode. -/
theorem Consistent.leave (h : Consistent s) (hu : u ∈ s.lastHitUnits.members)
    (hunits : s'.lastHitUnits = s.lastHitUnits.remove B (some u))
    (hactive : s'.lasthitActive = Function.update s.lasthitActive u false)
    (hlog : s'.log = .endProc u :: s.log) : Consistent s' := by
  have hmem : ∀ v, v ∈ s'.lastHitUnits.members ↔ v ≠ u ∧ v ∈ s.lastHitUnits.members := by
    intro v
    rw [hunits, h.sorted.mem_remove]
  refine ⟨by rw [hunits]; exact h.sorted.remove _, fun v => ?_, fun v hv => ?_, fun v he hv => ?_⟩
  · rw [hmem, hactive]
    by_cases hvu : v = u
    · subst hvu
      simp
    · rw [Function.update_of_ne hvu, h.active v]
      exact (and_iff_right hvu).symm
  · obtain ⟨hvu, hin⟩ := (hmem v).mp hv
    rw [endProcs_endProc hlog, if_neg hvu]
    exact h.inside v hin
  · rw [hlog, List.mem_cons] at he
    have hentered : .entered v ∈ s.log := he.resolve_left fun heq => by cases heq
    rw [endProcs_endProc hlog]
    by_cases hvu : v = u
    · subst hvu
      rw [if_pos rfl, h.inside v hu]
    · rw [if_neg hvu]
      exact h.ended v hentered fun hin => hv ((hmem v).mpr ⟨hvu, hin⟩)

theorem same_lastHitUnitInitProc
    (smart : UnitHandle → Option ((Coord × Coord) × Option UnitHandle)) (u : UnitHandle)
    (s : State) : Same s (s.lastHitUnitInitProc smart u) := by
  unfold lastHitUnitInitProc
  split <;> exact ⟨rfl, rfl, rfl, rfl⟩

theorem lastHitUnitEndProc_spec (s : State) (u : UnitHandle) :
    (s.lastHitUnitEndProc u).lastHitUnits = s.lastHitUnits ∧
      (s.lastHitUnitEndProc u).lasthitActive = s.lasthitActive ∧
      (s.lastHitUnitEndProc u).log = .endProc u :: s.log := by
  unfold lastHitUnitEndProc
  dsimp only
  split <;> exact ⟨rfl, rfl, rfl⟩

/-- What a key does for one unit. -/
theorem Consistent.switchUnit (h : Consistent s) : Consistent (switchUnit B active smart s u) := by
  unfold State.switchUnit
  by_cases hc : s.controllable u && s.lasthitActive u != active
  · rw [if_pos hc]
    obtain ⟨-, hne⟩ := (Bool.and_eq_true_iff).mp hc
    have hflag : s.lasthitActive u ≠ active := bne_iff_ne.mp hne
    cases active with
    | true =>
      have hnot : u ∉ s.lastHitUnits.members := fun hin => hflag ((h.active u).mpr hin)
      have hhas : ¬ s.lastHitUnits.has (some u) = true := fun hin => hnot (h.sorted.has_iff.mp hin)
      have hinit := same_lastHitUnitInitProc smart u
        ((s.setActive u true).addLastHitUnit B u)
      exact h.enter hnot hinit.units hinit.active (hinit.log.trans (if_neg hhas))
    | false =>
      have hin : u ∈ s.lastHitUnits.members := by
        rw [← h.active u]
        exact Bool.eq_true_of_not_eq_false hflag
      obtain ⟨hunits, hactive, hlog⟩ :=
        lastHitUnitEndProc_spec ((s.setActive u false).removeLastHitUnit B u) u
      exact h.leave hin hunits hactive hlog
  · rwa [if_neg hc]

theorem controllable_switchUnit :
    (switchUnit B active smart s u).controllable = s.controllable := by
  unfold switchUnit
  split_ifs
  · unfold lastHitUnitInitProc
    split <;> rfl
  · unfold lastHitUnitEndProc
    dsimp only
    split <;> rfl
  · rfl

/-- A press keeps the members, and makes its unit one if the player controls it. -/
theorem mem_switchUnit (h : Consistent s)
    (hv : v ∈ s.lastHitUnits.members ∨ (v = u ∧ s.controllable v = true)) :
    v ∈ (switchUnit B true smart s u).lastHitUnits.members := by
  unfold switchUnit
  by_cases hc : s.controllable u && s.lasthitActive u != true
  · have hinit := same_lastHitUnitInitProc smart u
      ((s.setActive u true).addLastHitUnit B u)
    rw [if_pos hc, if_pos rfl, hinit.units]
    exact h.sorted.mem_add.mpr (hv.symm.imp_left And.left)
  · rw [if_neg hc]
    rcases hv with hv | ⟨rfl, hcontrol⟩
    · exact hv
    · rw [hcontrol, Bool.true_and, bne_iff_ne, not_not] at hc
      exact (h.active v).mp hc

/-- What a key does for all selected units. -/
theorem Consistent.foldl_switchUnit (h : Consistent s) (units : List UnitHandle) :
    Consistent (units.foldl (State.switchUnit B active smart) s) := by
  induction units generalizing s with
  | nil => exact h
  | cons u units ih => exact ih h.switchUnit

theorem mem_foldl_switchUnit (h : Consistent s) (units : List UnitHandle)
    (hv : v ∈ s.lastHitUnits.members ∨ (v ∈ units ∧ s.controllable v = true)) :
    v ∈ (units.foldl (switchUnit B true smart) s).lastHitUnits.members := by
  induction units generalizing s with
  | nil => exact hv.resolve_right fun hn => List.not_mem_nil hn.1
  | cons u units ih =>
    refine ih h.switchUnit ?_
    rw [controllable_switchUnit]
    rcases hv with hv | ⟨hv, hc⟩
    · exact .inl (mem_switchUnit h (.inl hv))
    · rcases List.mem_cons.mp hv with rfl | hv
      · exact .inl (mem_switchUnit h (.inr ⟨rfl, hc⟩))
      · exact .inr ⟨hv, hc⟩

theorem Consistent.setLastHitActivate {code : ℕ} (h : Consistent s) :
    Consistent (s.setLastHitActivate B active code smart) := by
  unfold State.setLastHitActivate
  split_ifs
  · exact h.foldl_switchUnit _
  · exact h

/-- Where the flags and the group agree, a press puts the selected units into the mode. -/
theorem Consistent.ok (h : Consistent s) : s.Ok B where
  active := fun u => by rw [h.active u, h.sorted.has_iff]
  ended := by
    intro u he hn
    refine h.ended u he fun hin => ?_
    rw [h.sorted.has_iff.mpr hin] at hn
    cases hn
  again := by
    intro code smart u henabled hedit hcode hu hcontrol
    have hpress : s.event B (.keyDown code smart) =
        (s.groupUnitsOfPlayerSelected B).members.foldl (State.switchUnit B true smart) s := by
      rw [event, keyDown, hedit, if_neg Bool.false_ne_true, State.setLastHitActivate, henabled, hcode,
        beq_self_eq_true, Bool.and_self, if_pos rfl]
    rw [hpress, (h.foldl_switchUnit _).sorted.has_iff]
    exact mem_foldl_switchUnit h _ (.inr ⟨mem_groupUnitsOfPlayerSelected.mpr hu, hcontrol⟩)

/-! ## The timer -/

/-- While all members are selected, the timer takes none out. -/
theorem same_timerLoop {units : List UnitHandle} (h : ∀ u ∈ units, u ∈ s.selected) :
    Same s (timerLoop B view units s) := by
  induction units generalizing s with
  | nil => exact ⟨rfl, rfl, rfl, rfl⟩
  | cons u units ih =>
    obtain ⟨hu, hunits⟩ := List.forall_mem_cons.mp h
    have hattend : Same s (s.attend view u) := same_attend
    rw [timerLoop, if_pos (isSelectedLocal_iff.mpr hu)]
    refine hattend.trans (ih ?_)
    rwa [hattend.selected]

/-- The first member that is not selected is taken out, and keeps its flag. -/
theorem timerLoop_removes {units : List UnitHandle} (h : ∃ u ∈ units, u ∉ s.selected) :
    ∃ u ∈ units, (timerLoop B view units s).lastHitUnits = s.lastHitUnits.remove B (some u) ∧
      (timerLoop B view units s).lasthitActive = s.lasthitActive := by
  induction units generalizing s with
  | nil =>
    obtain ⟨u, hu, -⟩ := h
    cases hu
  | cons w units ih =>
    by_cases hw : w ∈ s.selected
    · have hattend : Same s (s.attend view w) := same_attend
      have hrest : ∃ u ∈ units, u ∉ (s.attend view w).selected := by
        obtain ⟨u, hu, hn⟩ := h
        rw [hattend.selected]
        refine ⟨u, (List.mem_cons.mp hu).resolve_left ?_, hn⟩
        rintro rfl
        exact hn hw
      obtain ⟨u, hu, hunits, hactive⟩ := ih hrest
      rw [timerLoop, if_pos (isSelectedLocal_iff.mpr hw), hunits, hactive, hattend.units,
        hattend.active]
      exact ⟨u, List.mem_cons_of_mem _ hu, rfl, rfl⟩
    · have hn : ¬ s.isSelectedLocal B w = true := fun hs => hw (isSelectedLocal_iff.mp hs)
      obtain ⟨hunits, hactive, -⟩ :=
        lastHitUnitEndProc_spec (s.removeLastHitUnit B w) w
      rw [timerLoop, if_neg hn, hunits, hactive]
      exact ⟨w, List.mem_cons_self, rfl, rfl⟩

theorem Consistent.event {e : LastHitEvent} (h : Consistent s) (hg : s.Guard e) :
    Consistent (s.event B e) := by
  cases e with
  | keyDown code smart =>
    rw [State.event, keyDown]
    split_ifs
    · exact h.congr rfl rfl rfl
    · exact h.setLastHitActivate
  | keyUp code smart => exact h.setLastHitActivate
  | timerExpire view =>
    rw [State.event, onTimerExpire]
    split_ifs with herror
    · exact h
    · have hsame : Same s (timerLoop B view s.lastHitUnits.members s) :=
        same_timerLoop (hg view rfl herror)
      exact h.congr hsame.units hsame.active hsame.log
  | unitDeath killer dead =>
    show Consistent (s.onUnitDeath killer dead)
    unfold onUnitDeath
    split
    · exact h.congr rfl rfl rfl
    · exact h
  | attackReleased attacker acquiredTarget =>
    show Consistent (s.onAttackReleased attacker acquiredTarget)
    unfold onAttackReleased
    split
    · exact h.congr rfl rfl rfl
    · exact h
  | actionSent byProgramm action =>
    rw [State.event, onActionSent]
    split_ifs
    · exact h
    · exact h.congr rfl rfl rfl
  | _ => exact h.congr rfl rfl rfl

/-- A timer that takes a member out leaves a flag without a member. -/
theorem guard_of_ok {e : LastHitEvent} (h : Consistent s) (hok : (s.event B e).Ok B) :
    s.Guard e := by
  rintro view rfl herror
  by_contra hn
  simp only [not_forall] at hn
  obtain ⟨w, hw, hout⟩ := hn
  obtain ⟨u, hu, hunits, hactive⟩ := @timerLoop_removes B s view _ ⟨w, hw, hout⟩
  have hflag := hok.active u
  rw [State.event, onTimerExpire, if_neg herror, hunits, hactive, (h.sorted.remove _).has_iff,
    h.sorted.mem_remove] at hflag
  exact (hflag.mp ((h.active u).mpr hu)).1 rfl

end State

open State

/-- **The last-hit mode.** In a session the flags agree with the group, the end procedure runs once
for every unit that leaves, and a press puts the selected units into the mode, if and only if the
timer finds all members selected whenever it looks after them. -/
theorem lastHitOk_iff (B : Balancing UnitHandle) (c : Settings) (events : List LastHitEvent) :
    Session.Always (event B) (init c) events (Ok B) ↔
      Session.Steps (event B) (init c) events Guard :=
  Session.always_iff_steps (I := Consistent)
    (fun _ _ _ hI _ hQ => ⟨hI.event hQ, (hI.event hQ).ok⟩)
    (fun _ _ _ hI _ hok => guard_of_ok hI hok) (consistent_init c) (consistent_init c).ok

/-! ## A session in which a member is deselected -/

/-- No member has anything to do. -/
def idleView : TimerView where
  unitIsValid := fun _ => true
  mission := fun _ => .keepStanding
  position := fun _ => pointNone
  ahead := fun _ => pointNone

/-- The player controls unit 1 and has selected it, and the hotkey is 192. -/
def oneSelected : Settings where
  game := fun _ => none
  enabled := true
  enableHit := true
  enableDeny := true
  hotkey := 192
  selected := [1]
  controllable := fun u => u == 1

/-- The unit enters and is deselected, the timer takes it out, and after the release of the key it is
selected again and the key pressed once more. -/
def deselectSession : List LastHitEvent :=
  [.keyDown 192 fun _ => none, .selectionChange [], .timerExpire idleView, .keyUp 192 fun _ => none,
    .selectionChange [1], .keyDown 192 fun _ => none, .keyUp 192 fun _ => none]

/-- The unit that the timer takes out keeps its flag. The next press does not let it in, and the
release after it runs the end procedure a second time. -/
theorem member_deselected :
    ¬ Session.Always (event unbalanced) (init oneSelected) deselectSession (Ok unbalanced) ∧
      ((deselectSession.take 6).foldl (event unbalanced)
        (init oneSelected)).lastHitUnits.members = [] ∧
      (deselectSession.foldl (event unbalanced) (init oneSelected)).log =
        [.endProc 1, .endProc 1, .entered 1] := by
  refine ⟨fun h => ?_, by decide +kernel, by decide +kernel⟩
  have hflag : ((deselectSession.take 3).foldl (event unbalanced)
      (init oneSelected)).lasthitActive 1 = true := by decide +kernel
  have hout : ((deselectSession.take 3).foldl (event unbalanced)
      (init oneSelected)).lastHitUnits.has (some 1) = false := by decide +kernel
  have hactive := ((h _ (List.take_prefix 3 _)).active 1).mp hflag
  rw [hout] at hactive
  cases hactive

end LastHit

end DreamDota
