import DreamDota.Lib.TreeMap
import Mathlib.Data.Nat.Cast.Defs

/-!
# Latency

`Latency.cpp` keeps the last latency samples of a game, with the distribution of their negatives. The
numbers are of any type with the operations that the code uses: nothing in this module depends on
their laws.
-/

namespace DreamDota

namespace Latency

open SearchTree

/-- `LatencyHistoryInfo`. -/
structure LatencyHistoryInfo (α : Type) where
  timeGame : α
  latency : α
  deriving DecidableEq, Repr

/-- The static variables, with `TimeFloat` of `GameTime.cpp`. -/
@[ext] structure State (α : Type) where
  time : α
  latency : List (LatencyHistoryInfo α)
  lastAverage : α
  negDist : BinaryTree (α × α)
  lastUpdateTime : α
  currentUpdated : α

/-- `LATENCY_QUEUE_MAX_COUNT`. -/
def queueMaxCount : ℕ := 15

section Model

variable {α : Type} [Zero α] [One α] [NatCast α] [Add α] [Sub α] [Neg α] [Div α] [LT α]
  [DecidableLT α]

/-- `LATENCY_QUEUE_MAX_AGE`. -/
def queueMaxAge : α := 10

/-- `LATENCY_DEFAULT`. -/
def latencyDefault : α := 1 / 10

/-- `LATENCY_UPDATE_COOLDOWN`. -/
def updateCooldown : α := 1 / 100

/-- `DistributionLess`. -/
def DistributionLess (lhs rhs : α) : Prop := lhs < rhs - 1 / 100000

instance : DecidableRel (DistributionLess (α := α)) := fun lhs rhs =>
  inferInstanceAs (Decidable (lhs < rhs - 1 / 100000))

def LatencyHistoryInfo.age (time : α) (info : LatencyHistoryInfo α) : α :=
  if 0 < time - info.timeGame then time - info.timeGame else 0

/-! ## Time -/

def gameTimeReset (s : State α) : State α := { s with time := 0 }

/-- The value of `TimeFloat` for a time in milliseconds. -/
def timeFloat (time : BitVec 32) : α := (time.toNat : α) / ((1000 : ℕ) : α)

def gameTimeUpdate (s : State α) (time : BitVec 32) : State α := { s with time := timeFloat time }

/-! ## Updates -/

-- How `std::map` arranges the distribution.
variable (B : Balancing (α × α))

/-- `LatencyCalcNegDist`: the distribution for a history. -/
def negDistOf (latency : List (LatencyHistoryInfo α)) : BinaryTree (α × α) :=
  if latency.length ≠ 0 then
    let chance := 1 / (latency.length : α)
    (latency.map fun info => -info.latency).foldl (alter DistributionLess B 0 (· + chance)) .nil
  else alter DistributionLess B 0 (fun _ => 1) .nil (-latencyDefault)

def calcNegDist (s : State α) : State α := { s with negDist := negDistOf B s.latency }

/-- The loop that pops from a queue that is too long. -/
def popFront (i : ℕ) : List (LatencyHistoryInfo α) → List (LatencyHistoryInfo α)
  | [] => []
  | info :: queue =>
    if i < (info :: queue).length - queueMaxCount then popFront (i + 1) queue else info :: queue

/-- `Latency_Refresh`. -/
def refresh (s : State α) : State α :=
  let queue := if queueMaxCount < s.latency.length then popFront 0 s.latency else s.latency
  calcNegDist B
    { s with latency := queue.dropWhile fun info => decide (queueMaxAge < info.age s.time) }

/-- `Latency_Update`. -/
def update (s : State α) (value : α) : State α :=
  let s := { s with currentUpdated := value }
  if updateCooldown < s.time - s.lastUpdateTime then
    let s := refresh B { s with latency := s.latency ++ [⟨s.time, value⟩] }
    { s with lastUpdateTime := s.time }
  else s

/-! ## Results -/

/-- `LatencyGetAverage`. -/
def getAverage (s : State α) : α × State α :=
  if s.latency.length ≠ 0 then
    let average := (s.latency.map (·.latency)).foldl (· + ·) 0 / (s.latency.length : α)
    (average, { s with lastAverage := average })
  else (s.lastAverage, s)

/-- `LatencyGetMax`. -/
def getMax (s : State α) : α :=
  match s.latency with
  | [] => latencyDefault
  | first :: _ => s.latency.foldl (fun rv info => if rv < info.latency then info.latency else rv)
      first.latency

/-- `LatencyGetMin`. -/
def getMin (s : State α) : α :=
  match s.latency with
  | [] => latencyDefault
  | first :: _ => s.latency.foldl (fun rv info => if info.latency < rv then info.latency else rv)
      first.latency

/-! ## Games -/

/-- `Latency_Init`. -/
def init (s : State α) : State α := { s with lastAverage := latencyDefault }

/-- `Latency_Cleanup`. -/
def cleanup (s : State α) : State α := { s with currentUpdated := 0, latency := [] }

/-- A game begins after another one. -/
def newGame (s : State α) : State α := init (gameTimeReset (cleanup s))

/-- The state when the program starts. -/
def start : State α where
  time := 0
  latency := []
  lastAverage := 0
  negDist := .nil
  lastUpdateTime := 0
  currentUpdated := 0

/-- What can happen. -/
inductive Call (α : Type) where
  | gameTimeReset
  | gameTimeUpdate (time : BitVec 32)
  | update (value : α)
  | getAverage
  | init
  | cleanup

def call (s : State α) : Call α → State α
  | .gameTimeReset => gameTimeReset s
  | .gameTimeUpdate time => gameTimeUpdate s time
  | .update value => update B s value
  | .getAverage => (getAverage s).2
  | .init => init s
  | .cleanup => cleanup s

/-- The time goes on, and there is a new sample. -/
def sample (s : State α) (u : BitVec 32 × α) : State α := update B (gameTimeUpdate s u.1) u.2

/-- The sample passes the test of the cooldown. -/
def Accepts (s : State α) (u : BitVec 32 × α) : Prop :=
  updateCooldown < timeFloat u.1 - s.lastUpdateTime

instance (s : State α) (u : BitVec 32 × α) : Decidable (Accepts s u) :=
  inferInstanceAs (Decidable (_ < _))

theorem sample_of_accepts {s : State α} {u : BitVec 32 × α} (h : Accepts s u) :
    sample B s u =
      let s' := refresh B { s with
        time := timeFloat u.1, currentUpdated := u.2,
        latency := s.latency ++ [⟨timeFloat u.1, u.2⟩] }
      { s' with lastUpdateTime := s'.time } := if_pos h

theorem sample_of_not_accepts {s : State α} {u : BitVec 32 × α} (h : ¬ Accepts s u) :
    sample B s u = { s with time := timeFloat u.1, currentUpdated := u.2 } := if_neg h

end Model

end Latency

end DreamDota
