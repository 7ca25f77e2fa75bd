import DreamDota.Lib.KeyedSet
import DreamDota.Lib.Session
import DreamDota.Timer.Model
import Mathlib.Data.BitVec

/-!
# Enemy alerts

`EnemyAlert.cpp`: `AlertPoint` raises an alert at a point unless there is one in `LastAlertPoints`
nearby; a timer of its own takes the point out again. The set is ordered by `hashValue`, and it is
static: a game begins with what the game before left in it.

`game`, `raised` and `expired` are history: they are written and never read.

1. `alertPoint`, `AlertEvent`: the code, and what happens in a session of games.
2. `AlertsOk`: an alert is suppressed by the alerts whose timers run, and by no others.
3. `alertsOk_iff`: the sessions in which this holds.
-/

namespace DreamDota.EnemyAlert

/-! ## Points -/

/-- The coordinates are `float`s. -/
structure Point where
  x : BitVec 32
  y : BitVec 32
  deriving DecidableEq, Repr

/-- `HashCombine`. -/
def hashCombine (seed value : BitVec 32) : BitVec 32 :=
  seed ^^^ (value + 0x9e3779b9 + (seed <<< 6) + (seed >>> 2))

def Point.hashValue (p : Point) : BitVec 32 := hashCombine (hashCombine 0 p.x) p.y

/-- What `operator<` compares. -/
def Point.hashKey (p : Point) : ℕ := p.hashValue.toNat

/-- The arithmetic of `float`. -/
structure FloatOps where
  distanceTo : Point → Point → BitVec 32
  less : BitVec 32 → BitVec 32 → Bool

/-! ## The code -/

/-- `PlayerRace`. -/
inductive Race
  | human
  | orc
  | undead
  | nightelf
  | other
  deriving DecidableEq, Repr

/-- The end of the names of the sounds. -/
def Race.sound : Race → Option String
  | .human => some "Human"
  | .orc => some "Orc"
  | .undead => some "Undead"
  | .nightelf => some "NightElf"
  | .other => none

def underAttackSoundLink (race : Race) (useTownAlert useAllyAlert : Bool) : Option String :=
  race.sound.map fun name =>
    match useTownAlert, useAllyAlert with
    | false, false => "UnderAttack" ++ name
    | false, true => "AllyUnderAttack" ++ name
    | true, false => "TownAttack" ++ name
    | true, true => "AllyTownUnderAttack" ++ name

/-- What an alert does. -/
inductive AlertCall
  | pingMinimapEx (p : Point) (duration red green blue : ℕ) (extraEffects : Bool)
  | setCameraQuickPosition (p : Point)
  | soundPlay (link : Option String)
  deriving DecidableEq, Repr

/-- An alert that was raised. -/
structure Alert where
  timer : TimerId
  game : ℕ
  point : Point
  deriving DecidableEq, Repr

/-- The static variables, and the timers with the callback `AlertPointClear` in the queues of
`Timer.cpp`, each with the point that is its data. -/
structure Alerts where
  lastAlertPoints : KeyedSet Point.hashKey
  notifyDelay : BitVec 32
  notifyRange : BitVec 32
  timers : List (TimerId × Point)
  nextTimer : TimerId
  inGame : Bool
  calls : List AlertCall
  game : ℕ
  raised : List Alert
  expired : List TimerId

/-- `GameDataProfileGetFloat` gives the delay and the range at the start of a game. A timer expires
in `Timer_Update`, and the end of a game is `Timer_Cleanup`. -/
inductive AlertEvent
  | init (notifyDelay notifyRange : BitVec 32)
  | alertPoint (p : Point) (race : Race) (useTownAlert useAllyAlert : Bool)
  | expire (tm : TimerId)
  | cleanup
  deriving DecidableEq, Repr

namespace Alerts

/-- Before the first game. -/
def start : Alerts := ⟨∅, 0, 0, [], 0, false, [], 0, [], []⟩

variable (ops : FloatOps)

/-- The loop over `LastAlertPoints`. -/
def suppressed (s : Alerts) (p : Point) : Bool :=
  s.lastAlertPoints.toList.any fun q => ops.less (ops.distanceTo q p) s.notifyRange

/-- `AlertPoint`. -/
def alertPoint (s : Alerts) (p : Point) (race : Race) (useTownAlert useAllyAlert : Bool) :
    Alerts :=
  if s.suppressed ops p then s
  else
    { s with
      calls := s.calls ++ [.pingMinimapEx p 3 255 0 0 false, .setCameraQuickPosition p,
        .soundPlay (underAttackSoundLink race useTownAlert useAllyAlert)]
      lastAlertPoints := s.lastAlertPoints.insert p
      timers := s.timers ++ [(s.nextTimer, p)]
      nextTimer := s.nextTimer + 1
      raised := s.raised ++ [⟨s.nextTimer, s.game, p⟩] }

/-- `AlertPointClear`. -/
def alertPointClear (s : Alerts) (p : Point) : Alerts :=
  { s with lastAlertPoints := s.lastAlertPoints.erase p }

/-- A timer expires: it is not periodic and disposes of itself. -/
def expire (s : Alerts) (tm : TimerId) : Alerts :=
  match s.timers.find? (·.1 = tm) with
  | none => s
  | some (_, p) =>
    { s.alertPointClear p with
      timers := s.timers.filter (·.1 ≠ tm)
      expired := s.expired ++ [tm] }

/-- `Init`. -/
def init (s : Alerts) (notifyDelay notifyRange : BitVec 32) : Alerts :=
  { s with
    notifyDelay := notifyDelay
    notifyRange := notifyRange
    inGame := true
    game := s.game + 1 }

/-- `Timer_Cleanup`. -/
def cleanup (s : Alerts) : Alerts := { s with timers := [], inGame := false }

/-- `Init` is called once in a game, and timers are updated only in a game. -/
def event (s : Alerts) : AlertEvent → Alerts
  | .init notifyDelay notifyRange => if s.inGame then s else s.init notifyDelay notifyRange
  | .alertPoint p race useTownAlert useAllyAlert =>
    if s.inGame then s.alertPoint ops p race useTownAlert useAllyAlert else s
  | .expire tm => if s.inGame then s.expire tm else s
  | .cleanup => s.cleanup

/-! ## The claim on a state -/

/-- The alerts of the game whose timers have not expired. -/
def live (s : Alerts) : List Alert :=
  s.raised.filter fun a => a.game = s.game ∧ a.timer ∉ s.expired

/-- An alert at a point is suppressed if and only if one within the range is live, and
`LastAlertPoints` consists of the points of the live alerts, one for each. -/
structure AlertsOk (s : Alerts) : Prop where
  suppressed_iff : ∀ p, s.suppressed ops p = true ↔
    ∃ a ∈ s.live, ops.less (ops.distanceTo a.point p) s.notifyRange = true
  points : s.lastAlertPoints.toList.Perm (s.live.map Alert.point)

/-- A game begins with no points of the games before, and no alert is raised at a point whose hash
is that of a point in the set. -/
def Clear (s : Alerts) : AlertEvent → Prop
  | .init .. => s.inGame = false → s.lastAlertPoints.toList = []
  | .alertPoint p .. => s.inGame = true → s.suppressed ops p = false →
    ∀ q ∈ s.lastAlertPoints, q.hashValue ≠ p.hashValue
  | .expire _ => True
  | .cleanup => True

variable {ops : FloatOps} {s : Alerts}

/-! ## The live alerts -/

theorem suppressed_of_points (h : s.lastAlertPoints.toList.Perm (s.live.map Alert.point))
    (p : Point) : s.suppressed ops p = true ↔
      ∃ a ∈ s.live, ops.less (ops.distanceTo a.point p) s.notifyRange = true := by
  unfold suppressed
  rw [h.any_eq, List.any_map, List.any_eq_true]
  rfl

/-- The points of the set are enough. -/
theorem AlertsOk.of_points (h : s.lastAlertPoints.toList.Perm (s.live.map Alert.point)) :
    AlertsOk ops s := ⟨suppressed_of_points h, h⟩

/-- Timers are new, and in a game the pending ones are those of the live alerts. -/
structure Inv (s : Alerts) : Prop where
  raised_lt : ∀ a ∈ s.raised, a.timer < s.nextTimer
  expired_lt : ∀ tm ∈ s.expired, tm < s.nextTimer
  nodup : (s.raised.map Alert.timer).Nodup
  game_le : ∀ a ∈ s.raised, a.game ≤ s.game
  timers : s.inGame = true → s.timers = s.live.map fun a => (a.timer, a.point)
  timers_idle : s.inGame = false → s.timers = []

theorem inv_start : Inv start where
  raised_lt := nofun
  expired_lt := nofun
  nodup := .nil
  game_le := nofun
  timers := nofun
  timers_idle _ := rfl

theorem live_init (h : Inv s) (notifyDelay notifyRange : BitVec 32) :
    (s.init notifyDelay notifyRange).live = [] := by
  refine List.filter_eq_nil_iff.mpr fun a ha hlive => ?_
  have hle := h.game_le a ha
  have hgame : a.game = s.game + 1 := (of_decide_eq_true hlive).1
  omega

/-- `AlertPoint` when nothing is nearby. -/
theorem live_alertPoint (h : Inv s) {p : Point} (hnear : s.suppressed ops p = false) (race : Race)
    (useTownAlert useAllyAlert : Bool) :
    (s.alertPoint ops p race useTownAlert useAllyAlert).live =
      s.live ++ [⟨s.nextTimer, s.game, p⟩] := by
  have hnew : s.nextTimer ∉ s.expired := fun hmem => Nat.lt_irrefl _ (h.expired_lt _ hmem)
  unfold live alertPoint
  simp [hnear, hnew]

theorem mem_live {a : Alert} :
    a ∈ s.live ↔ a ∈ s.raised ∧ a.game = s.game ∧ a.timer ∉ s.expired := by
  unfold live
  rw [List.mem_filter, decide_eq_true_iff]

theorem find?_timers (htimers : s.timers = s.live.map fun a => (a.timer, a.point)) {tm : TimerId}
    {e : TimerId × Point} (hfind : s.timers.find? (·.1 = tm) = some e) :
    ∃ a ∈ s.live, a.timer = tm ∧ e = (tm, a.point) := by
  have hmem := List.mem_of_find?_eq_some hfind
  have htm := of_decide_eq_true
    (List.find?_some (p := fun e : TimerId × Point => decide (e.1 = tm)) hfind)
  rw [htimers] at hmem
  obtain ⟨a, ha, rfl⟩ := List.mem_map.mp hmem
  exact ⟨a, ha, htm, by rw [← htm]⟩

/-- A timer that is not pending does not expire. -/
theorem expire_cases (s : Alerts) (tm : TimerId) :
    s.timers.find? (·.1 = tm) = none ∧ s.expire tm = s ∨
    ∃ e, s.timers.find? (·.1 = tm) = some e ∧ s.expire tm =
      { s.alertPointClear e.2 with
        timers := s.timers.filter (·.1 ≠ tm), expired := s.expired ++ [tm] } := by
  unfold expire
  cases hfind : s.timers.find? (·.1 = tm) with
  | none => exact .inl ⟨rfl, rfl⟩
  | some e => exact .inr ⟨e, rfl, rfl⟩

/-- The alert of a timer that expires is live no more. -/
theorem live_expire {p : Point} {tm : TimerId} (timers : List (TimerId × Point)) :
    ({ s.alertPointClear p with timers := timers, expired := s.expired ++ [tm] } : Alerts).live =
      s.live.filter fun a => a.timer ≠ tm := by
  unfold live
  rw [List.filter_filter]
  refine List.filter_congr fun a _ => ?_
  show decide (a.game = s.game ∧ a.timer ∉ s.expired ++ [tm]) = _
  rw [← Bool.decide_and, decide_eq_decide, List.mem_append, List.mem_singleton]
  tauto

/-! ## The events -/

theorem alertPoint_of_suppressed {p : Point} (hnear : s.suppressed ops p = true) (race : Race)
    (useTownAlert useAllyAlert : Bool) :
    s.alertPoint ops p race useTownAlert useAllyAlert = s := if_pos hnear

theorem alertPoint_of_not_suppressed {p : Point} (hnear : s.suppressed ops p = false) (race : Race)
    (useTownAlert useAllyAlert : Bool) :
    s.alertPoint ops p race useTownAlert useAllyAlert =
      { s with
        calls := s.calls ++ [.pingMinimapEx p 3 255 0 0 false, .setCameraQuickPosition p,
          .soundPlay (underAttackSoundLink race useTownAlert useAllyAlert)]
        lastAlertPoints := s.lastAlertPoints.insert p
        timers := s.timers ++ [(s.nextTimer, p)]
        nextTimer := s.nextTimer + 1
        raised := s.raised ++ [⟨s.nextTimer, s.game, p⟩] } :=
  if_neg (by rw [hnear]; decide)

theorem Inv.alertPoint (h : Inv s) (hgame : s.inGame = true) (p : Point) (race : Race)
    (useTownAlert useAllyAlert : Bool) :
    Inv (s.alertPoint ops p race useTownAlert useAllyAlert) := by
  cases hnear : s.suppressed ops p with
  | true => rwa [alertPoint_of_suppressed hnear]
  | false =>
    have hlive := live_alertPoint h hnear race useTownAlert useAllyAlert
    rw [alertPoint_of_not_suppressed hnear] at hlive ⊢
    refine ⟨fun a ha => ?_, fun tm htm => Nat.lt_succ_of_lt (h.expired_lt tm htm), ?_,
      fun a ha => ?_, fun _ => ?_, fun hidle => ?_⟩
    · rcases List.mem_append.mp ha with ha | ha
      · exact Nat.lt_succ_of_lt (h.raised_lt a ha)
      · rw [List.mem_singleton.mp ha]
        exact Nat.lt_succ_self _
    · show ((s.raised ++ [_]).map Alert.timer).Nodup
      rw [List.map_append, List.map_singleton, ← List.concat_eq_append, List.nodup_concat]
      refine ⟨fun hmem => ?_, h.nodup⟩
      obtain ⟨a, ha, heq⟩ := List.mem_map.mp hmem
      exact absurd heq (h.raised_lt a ha).ne
    · rcases List.mem_append.mp ha with ha | ha
      · exact h.game_le a ha
      · rw [List.mem_singleton.mp ha]
    · rw [hlive, List.map_append]
      exact congrArg (· ++ [(s.nextTimer, p)]) (h.timers hgame)
    · exact absurd (hgame.symm.trans hidle) (by decide)

theorem Inv.expire (h : Inv s) (hgame : s.inGame = true) (tm : TimerId) : Inv (s.expire tm) := by
  rcases expire_cases s tm with ⟨-, heq⟩ | ⟨e, hfind, heq⟩
  · rwa [heq]
  · obtain ⟨a, ha, rfl, -⟩ := find?_timers (h.timers hgame) hfind
    rw [heq]
    refine ⟨h.raised_lt, fun tm htm => ?_, h.nodup, h.game_le, fun _ => ?_, fun hidle => ?_⟩
    · rcases List.mem_append.mp htm with htm | htm
      · exact h.expired_lt tm htm
      · rw [List.mem_singleton.mp htm]
        exact h.raised_lt a (mem_live.mp ha).1
    · rw [live_expire]
      show s.timers.filter _ = _
      rw [h.timers hgame, List.filter_map]
      rfl
    · exact absurd (hgame.symm.trans hidle) (by decide)

theorem Inv.init (h : Inv s) (hidle : s.inGame = false) (notifyDelay notifyRange : BitVec 32) :
    Inv (s.init notifyDelay notifyRange) where
  raised_lt := h.raised_lt
  expired_lt := h.expired_lt
  nodup := h.nodup
  game_le a ha := Nat.le_succ_of_le (h.game_le a ha)
  timers _ := by
    rw [live_init h]
    exact h.timers_idle hidle
  timers_idle := nofun

theorem Inv.event (h : Inv s) (e : AlertEvent) : Inv (s.event ops e) := by
  cases e with
  | init notifyDelay notifyRange =>
    cases hgame : s.inGame with
    | true => rwa [show s.event ops (.init notifyDelay notifyRange) = s from if_pos hgame]
    | false =>
      rw [show s.event ops (.init notifyDelay notifyRange) = s.init notifyDelay notifyRange from
        if_neg (by rw [hgame]; decide)]
      exact h.init hgame notifyDelay notifyRange
  | alertPoint p race useTownAlert useAllyAlert =>
    rw [Alerts.event]
    split_ifs with hgame
    · exact h.alertPoint hgame p race useTownAlert useAllyAlert
    · exact h
  | expire tm =>
    rw [Alerts.event]
    split_ifs with hgame
    · exact h.expire hgame tm
    · exact h
  | cleanup => exact ⟨h.raised_lt, h.expired_lt, h.nodup, h.game_le, nofun, fun _ => rfl⟩

/-! ## The points -/

theorem hashKey_inj {p q : Point} : p.hashKey = q.hashKey ↔ p.hashValue = q.hashValue :=
  BitVec.toNat_inj

/-- A point comes in for every alert exactly when its hash is new. -/
theorem points_alertPoint (h : Inv s) (hok : AlertsOk ops s) {p : Point}
    (hnear : s.suppressed ops p = false) (race : Race) (useTownAlert useAllyAlert : Bool) :
    AlertsOk ops (s.alertPoint ops p race useTownAlert useAllyAlert) ↔
      ∀ q ∈ s.lastAlertPoints, q.hashValue ≠ p.hashValue := by
  have hlive := live_alertPoint h hnear race useTownAlert useAllyAlert
  have hset : (s.alertPoint ops p race useTownAlert useAllyAlert).lastAlertPoints =
      s.lastAlertPoints.insert p := by rw [alertPoint_of_not_suppressed hnear]
  constructor
  · intro hok' q hq hkey
    have hlen := hok'.points.length_eq
    rw [hset, hlive, KeyedSet.insert_of_key hq (hashKey_inj.mpr hkey), List.map_append,
      List.length_append, ← hok.points.length_eq] at hlen
    exact absurd hlen (Nat.ne_of_lt (Nat.lt_succ_self _))
  · intro hfresh
    refine AlertsOk.of_points ?_
    rw [hset, hlive, List.map_append, List.map_singleton]
    have hkey : ∀ q ∈ s.lastAlertPoints, q.hashKey ≠ p.hashKey :=
      fun q hq heq => hfresh q hq (hashKey_inj.mp heq)
    calc (s.lastAlertPoints.insert p).toList.Perm (p :: s.lastAlertPoints.toList) :=
          KeyedSet.insert_perm hkey
      _ |>.Perm (p :: s.live.map Alert.point) := hok.points.cons p
      _ |>.Perm (s.live.map Alert.point ++ [p]) := (List.perm_append_singleton p _).symm

/-- The timer of an alert takes out its point and no other. -/
theorem points_expire (h : Inv s) (hgame : s.inGame = true) (hok : AlertsOk ops s) (tm : TimerId) :
    AlertsOk ops (s.expire tm) := by
  rcases expire_cases s tm with ⟨-, heq⟩ | ⟨e, hfind, heq⟩
  · rwa [heq]
  · obtain ⟨a, ha, rfl, rfl⟩ := find?_timers (h.timers hgame) hfind
    rw [heq]
    refine AlertsOk.of_points ?_
    rw [live_expire]
    have hkeys : (s.live.map fun b => b.point.hashKey).Nodup := by
      have hnodup := (hok.points.map Point.hashKey).nodup_iff.mp s.lastAlertPoints.nodup_map_key
      rwa [List.map_map] at hnodup
    have htimers : ∀ b ∈ s.live, b.timer = a.timer → b = a := fun b hb =>
      List.inj_on_of_nodup_map h.nodup (mem_live.mp hb).1 (mem_live.mp ha).1
    have hpoints : ∀ b ∈ s.live, b.point.hashKey = a.point.hashKey → b = a := fun b hb =>
      List.inj_on_of_nodup_map hkeys hb ha
    have hfilter : s.live.filter (fun b => b.timer ≠ a.timer) =
        s.live.filter fun b => b.point.hashKey ≠ a.point.hashKey := by
      refine List.filter_congr fun b hb => ?_
      rw [decide_eq_decide, not_iff_not]
      constructor
      · exact fun heq => congrArg (·.point.hashKey) (htimers b hb heq)
      · exact fun heq => congrArg Alert.timer (hpoints b hb heq)
    rw [hfilter]
    have hperm := hok.points.filter fun q => q.hashKey ≠ a.point.hashKey
    rwa [List.filter_map] at hperm

theorem points_init (h : Inv s) (notifyDelay notifyRange : BitVec 32) :
    AlertsOk ops (s.init notifyDelay notifyRange) ↔ s.lastAlertPoints.toList = [] := by
  have hlive := live_init h notifyDelay notifyRange
  constructor
  · intro hok
    have hpoints := hok.points
    rw [hlive] at hpoints
    exact hpoints.eq_nil
  · intro hnil
    refine AlertsOk.of_points ?_
    rw [hlive]
    exact List.Perm.of_eq hnil

/-! ## Sessions of games -/

theorem alertsOk_event (h : Inv s) (hok : s.inGame = true → AlertsOk ops s) {e : AlertEvent}
    (hclear : s.Clear ops e) (hgame : (s.event ops e).inGame = true) :
    AlertsOk ops (s.event ops e) := by
  cases e with
  | init notifyDelay notifyRange =>
    rw [event] at hgame ⊢
    split_ifs with hs
    · exact hok hs
    · exact (points_init h _ _).mpr (hclear (Bool.eq_false_of_not_eq_true hs))
  | alertPoint p race useTownAlert useAllyAlert =>
    rw [event] at hgame ⊢
    split_ifs at hgame ⊢ with hs
    · cases hnear : s.suppressed ops p with
      | true =>
        rw [alertPoint_of_suppressed hnear]
        exact hok hs
      | false => exact (points_alertPoint h (hok hs) hnear _ _ _).mpr (hclear hs hnear)
    · exact absurd hgame hs
  | expire tm =>
    rw [event] at hgame ⊢
    split_ifs at hgame ⊢ with hs
    · exact points_expire h hs (hok hs) tm
    · exact absurd hgame hs
  | cleanup => exact absurd hgame Bool.false_ne_true

/-- Where the property holds before and after it, an event met the guard. -/
theorem clear_of_alertsOk (h : Inv s) (hok : s.inGame = true → AlertsOk ops s) {e : AlertEvent}
    (hok' : (s.event ops e).inGame = true → AlertsOk ops (s.event ops e)) : s.Clear ops e := by
  cases e with
  | init notifyDelay notifyRange =>
    intro hs
    rw [event, if_neg (by rw [hs]; decide)] at hok'
    exact (points_init h _ _).mp (hok' rfl)
  | alertPoint p race useTownAlert useAllyAlert =>
    intro hs hnear
    rw [event, if_pos hs] at hok'
    refine (points_alertPoint h (hok hs) hnear race useTownAlert useAllyAlert).mp (hok' ?_)
    rw [alertPoint_of_not_suppressed hnear]
    exact hs
  | expire => trivial
  | cleanup => trivial

/-- The alerts are limited as intended, in all games of a session, exactly when no game begins with
points of an earlier one and no alert is raised at a point with the hash of another one. -/
theorem alertsOk_iff (ops : FloatOps) (events : List AlertEvent) :
    Session.Always (event ops) start events (fun s => s.inGame = true → AlertsOk ops s) ↔
      Session.Steps (event ops) start events (Clear ops) :=
  Session.always_iff_steps (I := Inv)
    (fun _ e _ h hok hclear => ⟨h.event e, alertsOk_event h hok hclear⟩)
    (fun _ _ _ h hok hok' => clear_of_alertsOk h hok hok') inv_start nofun

/-- Distances on a line, in whole units. -/
def lineOps : FloatOps where
  distanceTo p q := if p.x ≤ q.x then q.x - p.x else p.x - q.x
  less a b := a < b

/-- The alert of the first game suppresses that of the second one, in which none was raised. -/
theorem not_alertsOk_second_game :
    ¬ Session.Always (event lineOps) start
      [.init 30 1000, .alertPoint ⟨0, 0⟩ .human false false, .cleanup, .init 30 1000]
      fun s => s.inGame = true → AlertsOk lineOps s := by
  intro h
  have hok := (h.last rfl).suppressed_iff ⟨0, 0⟩
  revert hok
  decide

end Alerts

end DreamDota.EnemyAlert
