import DreamDota.Lib.Session
import Mathlib.Algebra.Order.Field.Basic
import Mathlib.Data.List.Basic
import Mathlib.Data.List.TakeWhile
import Mathlib.Data.Rat.Lemmas
import Mathlib.Tactic.NormNum

/-!
# Actions per minute

`APM.cpp` counts the actions of every player, and keeps the times of the last ones. A selection
counts unless it follows another selection at once. Whether the last action was a selection is one
flag for all players, so what is counted of a player depends on the others: `independent_iff` says
when it does not.

1. `record`: all times that count for a player, without the cleaning, and `Tracks`: what the state
   has of them. `tracks_run` is the invariant.
2. `Tracks.total`, `Tracks.recent`: the results by the record.
3. `record_eq`: two runs with the same events of a player have the same record.
-/

namespace DreamDota

namespace Apm

/-- What is used of the arithmetic of times. Differences are monotone, also when they are rounded. -/
class Clock (α : Type) extends LinearOrder α, Zero α, One α, NatCast α, Sub α, Div α where
  sub_mono : ∀ a b c : α, a ≤ b → a - c ≤ b - c
  sub_anti : ∀ a b c : α, b ≤ c → a - c ≤ a - b
  near_le : (1 : α) / 1000 ≤ 3

section Model

variable {α : Type} [Clock α]

/-- `APM_LATEST_TIME`. -/
def latestTime : α := 3

/-- The time that a selection must keep from the action before it. -/
def near : α := 1 / 1000

/-- The static variables. A player that is not in a map has the default value. -/
structure State (α : Type) where
  actionCountTotal : ℤ → BitVec 32
  latestActionTimeSig : ℤ → List α
  timeBegin : α
  timeBeginInited : Bool
  lastActionWasSelection : Bool

/-- `APMCleanLatest`. -/
def cleanLatest (time : α) (s : State α) : State α :=
  { s with latestActionTimeSig := fun p =>
      if 0 ≤ p ∧ p < 16 then
        (s.latestActionTimeSig p).dropWhile fun x => decide (latestTime < time - x)
      else s.latestActionTimeSig p }

/-- The actions that count whatever was before them. -/
def Counts (actionId : ℤ) : Prop :=
  actionId ∈ [0x10, 0x11, 0x12, 0x13, 0x14, 0x17, 0x18, 0x1C, 0x1D, 0x1E, 0x61, 0x66, 0x67]

instance (actionId : ℤ) : Decidable (Counts actionId) := inferInstanceAs (Decidable (_ ∈ _))

/-- A selection. -/
def IsSelection (actionId : ℤ) : Prop := actionId = 0x16

instance (actionId : ℤ) : Decidable (IsSelection actionId) := inferInstanceAs (Decidable (_ = _))

/-- The first action starts the time. -/
def beginTime (time : α) (s : State α) : State α :=
  if s.timeBeginInited then s else { s with timeBegin := time, timeBeginInited := true }

/-- An action is counted. -/
def addAction (time : α) (playerId : ℤ) (s : State α) : State α :=
  cleanLatest time { s with
    actionCountTotal :=
      Function.update s.actionCountTotal playerId (s.actionCountTotal playerId + 1)
    latestActionTimeSig := Function.update s.latestActionTimeSig playerId
      (s.latestActionTimeSig playerId ++ [time]) }

/-- `lastActionTime`. -/
def lastActionTime (s : State α) (playerId : ℤ) : α :=
  (s.latestActionTimeSig playerId).getLastD s.timeBegin

/-- `APMUpdateAction`, where `Time()` is `time`. -/
def updateAction (time : α) (playerId actionId : ℤ) (s : State α) : State α :=
  let s := beginTime time s
  if Counts actionId then addAction time playerId { s with lastActionWasSelection := false }
  else if IsSelection actionId then
    if !s.lastActionWasSelection || near < time - lastActionTime s playerId then
      addAction time playerId { s with lastActionWasSelection := true }
    else s
  else { s with lastActionWasSelection := false }

/-- `APM_Init`. -/
def init (s : State α) : State α := { s with timeBegin := 0, timeBeginInited := false }

/-- `APM_Cleanup`. -/
def cleanup (s : State α) : State α :=
  { s with
    lastActionWasSelection := false
    actionCountTotal := fun _ => 0
    latestActionTimeSig := fun _ => [] }

/-- The state when the program starts. -/
def start : State α where
  actionCountTotal _ := 0
  latestActionTimeSig _ := []
  timeBegin := 0
  timeBeginInited := false
  lastActionWasSelection := false

/-- A game begins. -/
def newGame (s : State α) : State α := init (cleanup s)

structure Event (α : Type) where
  playerId : ℤ
  actionId : ℤ
  time : α
  deriving DecidableEq, Repr

def event (s : State α) (e : Event α) : State α := updateAction e.time e.playerId e.actionId s

/-- The recorded times within the last `APM_LATEST_TIME`. -/
def recent (s : State α) (p : ℤ) (time : α) : List α :=
  (s.latestActionTimeSig p).filter fun x => decide (time - x ≤ latestTime)

/-! ## The record of a player -/

/-- All times that count for a player, and whether the last action of any player was a selection. -/
structure Record (α : Type) where
  times : List α
  selection : Bool

/-- The record after one more action. `first` is the time of the first action of all. -/
def record (p : ℤ) (first : α) (r : Record α) (e : Event α) : Record α where
  times :=
    if e.playerId = p ∧ (Counts e.actionId ∨
        IsSelection e.actionId ∧ (r.selection = false ∨ near < e.time - r.times.getLastD first)) then
      r.times ++ [e.time]
    else r.times
  selection := decide (IsSelection e.actionId)

def recordOf (p : ℤ) (first : α) (es : List (Event α)) : Record α :=
  es.foldl (record p first) ⟨[], false⟩

/-- What the state has of the record of `p`, after the actions `es`: only times that are too old are
missing. -/
structure Tracks (p : ℤ) (first : α) (es : List (Event α)) (s : State α) (r : Record α) : Prop where
  inited : es ≠ [] → s.timeBeginInited = true
  begin_eq : s.timeBeginInited = true → s.timeBegin = first
  selection : s.lastActionWasSelection = r.selection
  total : s.actionCountTotal p = BitVec.ofNat 32 r.times.length
  after : ∀ x ∈ r.times, first ≤ x
  kept : ∃ gone, r.times = gone ++ s.latestActionTimeSig p ∧
    ∀ x ∈ gone, ∀ t, (∀ e ∈ es, e.time ≤ t) → latestTime < t - x

section Tracks

variable {p : ℤ} {first time : α} {es : List (Event α)} {s : State α} {r : Record α} {e : Event α}

theorem sub_lt_of_le {x t : α} (h : time ≤ t) (hlt : latestTime < time - x) :
    latestTime < t - x := hlt.trans_le (Clock.sub_mono _ _ _ h)

/-- What is cleaned is too old. -/
theorem Tracks.cleanLatest (h : Tracks p first es s r) (htime : ∃ e ∈ es, e.time = time) :
    Tracks p first es (cleanLatest time s) r := by
  obtain ⟨gone, hgone, hold⟩ := h.kept
  refine ⟨h.inited, h.begin_eq, h.selection, h.total, h.after, ?_⟩
  show ∃ gone', r.times = gone' ++ (if 0 ≤ p ∧ p < 16 then _ else _) ∧ _
  split_ifs
  · refine ⟨gone ++ (s.latestActionTimeSig p).takeWhile fun x => decide (latestTime < time - x),
      ?_, fun x hx t ht => ?_⟩
    · rw [List.append_assoc, List.takeWhile_append_dropWhile, hgone]
    · rcases List.mem_append.mp hx with hx | hx
      · exact hold x hx t ht
      · obtain ⟨e, he, rfl⟩ := htime
        have hlt := List.mem_takeWhile_imp (p := fun x => decide (latestTime < e.time - x)) hx
        exact sub_lt_of_le (ht e he) (of_decide_eq_true hlt)
  · exact ⟨gone, hgone, hold⟩

/-- A time that counts for the player comes in. -/
theorem Tracks.addAction (h : Tracks p first es s r) (htime : ∃ e ∈ es, e.time = time)
    (hfirst : first ≤ time) (selection : Bool) :
    Tracks p first es (addAction time p { s with lastActionWasSelection := selection })
      ⟨r.times ++ [time], selection⟩ := by
  obtain ⟨gone, hgone, hold⟩ := h.kept
  refine Tracks.cleanLatest ⟨h.inited, h.begin_eq, rfl, ?_, ?_, gone, ?_, hold⟩ htime
  · show Function.update s.actionCountTotal p (s.actionCountTotal p + 1) p = _
    rw [Function.update_self, h.total, List.length_append, List.length_singleton, BitVec.ofNat_add]
    rfl
  · intro x hx
    rcases List.mem_append.mp hx with hx | hx
    · exact h.after x hx
    · rw [List.mem_singleton.mp hx]
      exact hfirst
  · show r.times ++ [time] = gone ++ Function.update s.latestActionTimeSig p _ p
    rw [Function.update_self, hgone, List.append_assoc]

/-- A time that counts for another player comes in. -/
theorem Tracks.addAction_of_ne (h : Tracks p first es s r) (htime : ∃ e ∈ es, e.time = time)
    {q : ℤ} (hq : q ≠ p) (selection : Bool) :
    Tracks p first es (Apm.addAction time q { s with lastActionWasSelection := selection })
      ⟨r.times, selection⟩ := by
  obtain ⟨gone, hgone, hold⟩ := h.kept
  refine Tracks.cleanLatest ⟨h.inited, h.begin_eq, rfl, ?_, h.after, gone, ?_, hold⟩ htime
  · show Function.update s.actionCountTotal q _ p = _
    rw [Function.update_of_ne hq.symm, h.total]
  · show r.times = gone ++ Function.update s.latestActionTimeSig q _ p
    rw [Function.update_of_ne hq.symm, hgone]

/-- The first action, or none. -/
theorem Tracks.beginTime (h : Tracks p first es s r) (hbegin : es = [] → first = e.time) :
    Tracks p first (es ++ [e]) (Apm.beginTime e.time s) r := by
  obtain ⟨gone, hgone, hold⟩ := h.kept
  have hold' : ∀ x ∈ gone, ∀ t, (∀ e' ∈ es ++ [e], e'.time ≤ t) → latestTime < t - x :=
    fun x hx t ht => hold x hx t fun e' he' => ht e' (List.mem_append_left _ he')
  unfold Apm.beginTime
  split_ifs with hinit
  · exact ⟨fun _ => hinit, h.begin_eq, h.selection, h.total, h.after, gone, hgone, hold'⟩
  · have hnil : es = [] := by
      by_contra hne
      exact hinit (h.inited hne)
    exact ⟨fun _ => rfl, fun _ => (hbegin hnil).symm, h.selection, h.total, h.after, gone, hgone,
      hold'⟩

/-- The cleaning makes no difference to the test of a selection. -/
theorem Tracks.far_iff (h : Tracks p first es s r) (hinit : s.timeBeginInited = true)
    (ht : ∀ e ∈ es, e.time ≤ time) :
    near < time - lastActionTime s p ↔ near < time - r.times.getLastD first := by
  obtain ⟨gone, hgone, hold⟩ := h.kept
  unfold lastActionTime
  rw [h.begin_eq hinit]
  rcases List.eq_nil_or_concat' (s.latestActionTimeSig p) with hnil | ⟨l, x, hl⟩
  · rw [hnil, List.append_nil] at hgone
    rw [hnil]
    rcases List.eq_nil_or_concat' gone with hnil' | ⟨l, x, rfl⟩
    · rw [hgone, hnil']
    · have hmem : x ∈ l ++ [x] := List.mem_append_right _ (List.mem_singleton_self x)
      have hfar : near < time - x :=
        lt_of_le_of_lt Clock.near_le (hold x hmem time ht)
      have hle : first ≤ x := h.after x (by rw [hgone]; exact hmem)
      rw [hgone, List.getLastD_concat]
      exact iff_of_true (hfar.trans_le (Clock.sub_anti _ _ _ hle)) hfar
  · rw [hgone, hl, ← List.append_assoc, List.getLastD_concat, List.getLastD_concat]

/-- One action. -/
theorem Tracks.event (h : Tracks p first es s r) (htime : ∀ e' ∈ es, e'.time ≤ e.time)
    (hfirst : first ≤ e.time) (hbegin : es = [] → first = e.time) :
    Tracks p first (es ++ [e]) (event s e) (record p first r e) := by
  have hbegun := h.beginTime hbegin
  have hfar : near < e.time - lastActionTime (Apm.beginTime e.time s) p ↔
      near < e.time - r.times.getLastD first := by
    refine hbegun.far_iff (hbegun.inited (List.append_ne_nil_of_right_ne_nil _
      (List.cons_ne_nil e []))) fun e' he' => ?_
    rcases List.mem_append.mp he' with he' | he'
    · exact htime e' he'
    · rw [List.mem_singleton.mp he']
  have hmem : ∃ e' ∈ es ++ [e], e'.time = e.time :=
    ⟨e, List.mem_append_right _ (List.mem_singleton_self e), rfl⟩
  -- the record of an action that counts, of the player or of another one
  have hadd : ∀ selection, (e.playerId = p → (record p first r e).times = r.times ++ [e.time]) →
      (record p first r e).selection = selection →
      Tracks p first (es ++ [e]) (Apm.addAction e.time e.playerId
        { Apm.beginTime e.time s with lastActionWasSelection := selection })
        (record p first r e) := by
    rintro selection hplayer rfl
    by_cases hp : e.playerId = p
    · have hadded := hbegun.addAction hmem hfirst (record p first r e).selection
      rw [← hplayer hp] at hadded
      rwa [hp]
    · have hadded := hbegun.addAction_of_ne hmem hp (record p first r e).selection
      have htimes : (record p first r e).times = r.times := if_neg fun hand => hp hand.1
      rwa [← htimes] at hadded
  by_cases hcounts : Counts e.actionId
  · have hsel : ¬ IsSelection e.actionId := by
      intro hsel
      rw [hsel] at hcounts
      exact absurd hcounts (by decide)
    rw [Apm.event, updateAction, if_pos hcounts]
    exact hadd false (fun hp => if_pos ⟨hp, .inl hcounts⟩) (decide_eq_false hsel)
  · by_cases hsel : IsSelection e.actionId
    · rw [Apm.event, updateAction, if_neg hcounts, if_pos hsel]
      by_cases hcode : (!(Apm.beginTime e.time s).lastActionWasSelection ||
          near < e.time - lastActionTime (Apm.beginTime e.time s) e.playerId) = true
      · rw [if_pos hcode]
        refine hadd true (fun hp => if_pos ⟨hp, .inr ⟨hsel, ?_⟩⟩) (decide_eq_true hsel)
        rw [hp, Bool.or_eq_true, Bool.not_eq_true', decide_eq_true_iff, hbegun.selection, hfar] at hcode
        exact hcode
      · rw [if_neg hcode]
        rw [Bool.or_eq_true, not_or, Bool.not_eq_true', Bool.not_eq_false, decide_eq_true_iff] at hcode
        have htimes : (record p first r e).times = r.times := by
          refine if_neg fun hand => ?_
          obtain ⟨hp, hsel' | ⟨-, hfalse | hlt⟩⟩ := hand
          · exact hcounts hsel'
          · exact absurd (hbegun.selection.symm.trans hcode.1) (by rw [hfalse]; decide)
          · rw [hp, hfar] at hcode
            exact hcode.2 hlt
        exact ⟨hbegun.inited, hbegun.begin_eq, hcode.1.trans (decide_eq_true hsel).symm,
          by rw [htimes]; exact hbegun.total, by rw [htimes]; exact hbegun.after,
          by rw [htimes]; exact hbegun.kept⟩
    · have htimes : (record p first r e).times = r.times :=
        if_neg fun hand => hand.2.elim hcounts fun hs => hsel hs.1
      rw [Apm.event, updateAction, if_neg hcounts, if_neg hsel]
      exact ⟨hbegun.inited, hbegun.begin_eq, (decide_eq_false hsel).symm,
        by rw [htimes]; exact hbegun.total, by rw [htimes]; exact hbegun.after,
        by rw [htimes]; exact hbegun.kept⟩

end Tracks

/-! ## Runs -/

section Runs

variable {p : ℤ} {first time : α} {es es' pre pre' : List (Event α)} {s s' : State α}
  {r : Record α} {e : Event α}

/-- The times do not go back, and the first one is `first`. -/
structure Timed (first : α) (es : List (Event α)) : Prop where
  inOrder : es.Pairwise fun a b => a.time ≤ b.time
  first_eq : ∀ e, es.head? = some e → e.time = first

theorem Timed.of_prefix (h : Timed first es) (hp : pre <+: es) : Timed first pre where
  inOrder := h.inOrder.sublist hp.sublist
  first_eq e he := by
    obtain ⟨rest, rfl⟩ := hp
    refine h.first_eq e ?_
    rw [List.head?_append, he]
    rfl

theorem Timed.le_last (h : Timed first (es ++ [e])) : ∀ e' ∈ es ++ [e], e'.time ≤ e.time := by
  intro e' he'
  rcases List.mem_append.mp he' with he' | he'
  · exact (List.pairwise_append.mp h.inOrder).2.2 e' he' e (List.mem_singleton_self e)
  · rw [List.mem_singleton.mp he']

theorem Timed.first_le (h : Timed first es) (he : e ∈ es) : first ≤ e.time := by
  cases es with
  | nil => cases he
  | cons a es =>
    rw [← h.first_eq a rfl]
    rcases List.mem_cons.mp he with rfl | he
    · exact le_rfl
    · exact List.rel_of_pairwise_cons h.inOrder he

/-- The state after `es`. -/
def run (s : State α) (es : List (Event α)) : State α := es.foldl event (newGame s)

theorem run_concat (s : State α) (es : List (Event α)) (e : Event α) :
    run s (es ++ [e]) = event (run s es) e := Session.foldl_concat event _ es e

theorem recordOf_concat (p : ℤ) (first : α) (es : List (Event α)) (e : Event α) :
    recordOf p first (es ++ [e]) = record p first (recordOf p first es) e :=
  Session.foldl_concat (record p first) _ es e

/-- A game keeps the record of every player. -/
theorem tracks_run (p : ℤ) (s : State α) (h : Timed first es) :
    Tracks p first es (run s es) (recordOf p first es) := by
  induction es using List.reverseRecOn with
  | nil =>
    exact ⟨fun hne => absurd rfl hne, nofun, rfl, rfl, List.forall_mem_nil _, [], rfl,
      List.forall_mem_nil _⟩
  | append_singleton es e ih =>
    rw [run_concat, recordOf_concat]
    refine (ih (h.of_prefix (List.prefix_append _ _))).event
      (fun e' he' => h.le_last e' (List.mem_append_left _ he'))
      (h.first_le (List.mem_append_right _ (List.mem_singleton_self e))) ?_
    rintro rfl
    exact (h.first_eq e rfl).symm

theorem Tracks.recent (h : Tracks p first es s r) (ht : ∀ e ∈ es, e.time ≤ time) :
    recent s p time = r.times.filter fun x => decide (time - x ≤ latestTime) := by
  obtain ⟨gone, hgone, hold⟩ := h.kept
  have hnone : gone.filter (fun x => decide (time - x ≤ latestTime)) = [] := by
    rw [List.filter_eq_nil_iff]
    intro x hx
    rw [decide_eq_true_iff, not_le]
    exact hold x hx time ht
  rw [hgone, List.filter_append, hnone, List.nil_append, Apm.recent]

/-- The last action, of any player, was a selection. -/
def afterSelection (es : List (Event α)) : Bool :=
  es.getLast?.any fun e => decide (IsSelection e.actionId)

theorem selection_recordOf (p : ℤ) (first : α) (es : List (Event α)) :
    (recordOf p first es).selection = afterSelection es := by
  cases es using List.reverseRecOn with
  | nil => rfl
  | append_singleton es e =>
    rw [recordOf_concat, afterSelection, List.getLast?_concat]
    rfl

/-! ## Two runs -/

/-- After the same actions of `p`, what is known of `p` is the same at any later time. -/
def Independent (p : ℤ) (s s' : State α) (es es' : List (Event α)) : Prop :=
  ∀ pre pre', pre <+: es → pre' <+: es' →
    pre.filter (fun e => e.playerId = p) = pre'.filter (fun e => e.playerId = p) →
    ∀ time, (∀ e ∈ pre, e.time ≤ time) → (∀ e ∈ pre', e.time ≤ time) →
      (run s pre).actionCountTotal p = (run s' pre').actionCountTotal p ∧
        recent (run s pre) p time = recent (run s' pre') p time

/-- Before every selection of `p` that follows its last recorded action at once, the action of any
player was a selection in both runs or in none. -/
def Undisturbed (p : ℤ) (s : State α) (es es' : List (Event α)) : Prop :=
  ∀ pre pre' e, pre ++ [e] <+: es → pre' ++ [e] <+: es' →
    pre.filter (fun e => e.playerId = p) = pre'.filter (fun e => e.playerId = p) →
    e.playerId = p → IsSelection e.actionId →
    ¬ near < e.time - lastActionTime (beginTime e.time (run s pre)) p →
    afterSelection pre = afterSelection pre'

/-- The record after an action of another player. -/
theorem times_concat_of_ne (he : e.playerId ≠ p) :
    (recordOf p first (es ++ [e])).times = (recordOf p first es).times := by
  rw [recordOf_concat]
  exact if_neg fun hand => he hand.1

/-- Two runs have the same record, where every action of `p` is treated alike. -/
theorem record_eq (hstep : ∀ pre pre' e, pre ++ [e] <+: es → pre' ++ [e] <+: es' →
      pre.filter (fun e => e.playerId = p) = pre'.filter (fun e => e.playerId = p) →
      e.playerId = p → (recordOf p first pre).times = (recordOf p first pre').times →
      (recordOf p first (pre ++ [e])).times = (recordOf p first (pre' ++ [e])).times)
    (hpre : pre <+: es) (hpre' : pre' <+: es')
    (hfilter : pre.filter (fun e => e.playerId = p) = pre'.filter (fun e => e.playerId = p)) :
    (recordOf p first pre).times = (recordOf p first pre').times := by
  have hall : ∀ pre pre',
      pre.filter (fun e => e.playerId = p) = pre'.filter (fun e => e.playerId = p) →
      pre.filter (fun e => e.playerId = p) = pre'.filter (fun e => e.playerId = p) ∧
      (pre <+: es → pre' <+: es' → (recordOf p first pre).times = (recordOf p first pre').times) := by
    refine Session.filter_eq_induction ⟨rfl, fun _ _ => rfl⟩ ?_ ?_ ?_
    · rintro pre e pre' he ⟨hf, ih⟩
      rw [Session.filter_concat_of_not pre he, times_concat_of_ne he]
      exact ⟨hf, fun hp => ih ((List.prefix_append _ _).trans hp)⟩
    · rintro pre pre' e he ⟨hf, ih⟩
      rw [Session.filter_concat_of_not pre' he, times_concat_of_ne he]
      exact ⟨hf, fun hp hp' => ih hp ((List.prefix_append _ _).trans hp')⟩
    · rintro pre pre' e he ⟨hf, ih⟩
      rw [Session.filter_concat pre he, Session.filter_concat pre' he, hf]
      exact ⟨rfl, fun hp hp' => hstep pre pre' e hp hp' hf he
        (ih ((List.prefix_append _ _).trans hp) ((List.prefix_append _ _).trans hp'))⟩
  exact (hall pre pre' hfilter).2 hpre hpre'

/-- The test of the state is that of the record. -/
theorem far_run (h : Timed first (es ++ [e])) :
    near < e.time - lastActionTime (beginTime e.time (run s es)) p ↔
      near < e.time - (recordOf p first es).times.getLastD first := by
  have hbegun := (tracks_run p s (h.of_prefix (List.prefix_append es [e]))).beginTime (e := e)
    (by rintro rfl; exact (h.first_eq e rfl).symm)
  exact hbegun.far_iff (hbegun.inited (List.append_ne_nil_of_right_ne_nil _
    (List.cons_ne_nil e []))) h.le_last

/-- What a selection of `p` at once adds to the record. -/
theorem times_concat_of_near (he : e.playerId = p) (hsel : IsSelection e.actionId)
    (hnear : ¬ near < e.time - (recordOf p first es).times.getLastD first) :
    (recordOf p first (es ++ [e])).times =
      if afterSelection es then (recordOf p first es).times
      else (recordOf p first es).times ++ [e.time] := by
  have hcounts : ¬ Counts e.actionId := by
    rw [hsel]
    decide
  rw [recordOf_concat, ← selection_recordOf p first es]
  cases hs : (recordOf p first es).selection with
  | false => exact if_pos ⟨he, .inr ⟨hsel, .inl hs⟩⟩
  | true =>
    refine if_neg fun hand => ?_
    obtain ⟨-, hc | ⟨-, hfalse | hlt⟩⟩ := hand
    · exact hcounts hc
    · exact nomatch hs.symm.trans hfalse
    · exact hnear hlt

omit [Clock α] in
/-- The times or the times with one more are told apart by their number. -/
theorem eq_of_ofNat_length {l : List α} {a b : Bool} {x : α}
    (h : BitVec.ofNat 32 (if a then l else l ++ [x]).length =
      BitVec.ofNat 32 (if b then l else l ++ [x]).length) : a = b := by
  have hne : BitVec.ofNat 32 (l ++ [x]).length ≠ BitVec.ofNat 32 l.length := by
    rw [List.length_append, List.length_singleton]
    intro heq
    have hnat := congrArg BitVec.toNat heq
    rw [BitVec.toNat_ofNat, BitVec.toNat_ofNat] at hnat
    omega
  cases a <;> cases b
  · rfl
  · exact absurd h hne
  · exact absurd h.symm hne
  · rfl

/-- An action of `p` does the same in both runs, if what matters of the last action is the same. -/
theorem times_concat_congr (he : e.playerId = p)
    (htimes : (recordOf p first pre).times = (recordOf p first pre').times)
    (hflag : IsSelection e.actionId →
      ¬ near < e.time - (recordOf p first pre).times.getLastD first →
      afterSelection pre = afterSelection pre') :
    (recordOf p first (pre ++ [e])).times = (recordOf p first (pre' ++ [e])).times := by
  by_cases hsel : IsSelection e.actionId
  · by_cases hfar : near < e.time - (recordOf p first pre).times.getLastD first
    · have hfar' := hfar
      rw [htimes] at hfar'
      rw [recordOf_concat, recordOf_concat]
      exact (if_pos ⟨he, .inr ⟨hsel, .inr hfar⟩⟩).trans
        ((congrArg (· ++ [e.time]) htimes).trans
          (if_pos ⟨he, .inr ⟨hsel, .inr hfar'⟩⟩).symm)
    · have hnear := hfar
      rw [htimes] at hnear
      rw [times_concat_of_near he hsel hfar, times_concat_of_near he hsel hnear, htimes,
        hflag hsel hfar]
  · rw [recordOf_concat, recordOf_concat]
    by_cases hcounts : Counts e.actionId
    · exact (if_pos ⟨he, .inl hcounts⟩).trans ((congrArg (· ++ [e.time]) htimes).trans
        (if_pos ⟨he, .inl hcounts⟩).symm)
    · have hnot : ∀ r : Record α, (record p first r e).times = r.times := fun r =>
        if_neg fun hand => hand.2.elim hcounts fun hs => hsel hs.1
      rw [hnot, hnot, htimes]

/-- In independent runs a selection at once meets the same flag. -/
theorem Independent.afterSelection_eq (h : Independent p s s' es es') (hes : Timed first es)
    (hes' : Timed first es') (hpre : pre ++ [e] <+: es) (hpre' : pre' ++ [e] <+: es')
    (hfilter : pre.filter (fun e => e.playerId = p) = pre'.filter (fun e => e.playerId = p))
    (he : e.playerId = p) (htimes : (recordOf p first pre).times = (recordOf p first pre').times)
    (hsel : IsSelection e.actionId)
    (hnear : ¬ near < e.time - (recordOf p first pre).times.getLastD first) :
    afterSelection pre = afterSelection pre' := by
  have hT := hes.of_prefix hpre
  have hT' := hes'.of_prefix hpre'
  have hsame : (pre ++ [e]).filter (fun e => e.playerId = p) =
      (pre' ++ [e]).filter (fun e => e.playerId = p) := by
    rw [Session.filter_concat pre he, Session.filter_concat pre' he, hfilter]
  have htotal := (h _ _ hpre hpre' hsame e.time hT.le_last hT'.le_last).1
  have hnear' := hnear
  rw [htimes] at hnear'
  rw [(tracks_run p s hT).total, (tracks_run p s' hT').total, times_concat_of_near he hsel hnear,
    times_concat_of_near he hsel hnear', htimes] at htotal
  exact eq_of_ofNat_length htotal

/-- What is known of a player is independent of the others exactly where the others do not come
between two of its selections. -/
theorem independent_iff (p : ℤ) (s s' : State α) (hes : Timed first es) (hes' : Timed first es') :
    Independent p s s' es es' ↔ Undisturbed p s es es' := by
  constructor
  · intro h pre pre' e hpre hpre' hfilter he hsel hnear
    have htimes : (recordOf p first pre).times = (recordOf p first pre').times := record_eq
      (fun q q' a hq hq' hf ha ht => times_concat_congr ha ht fun hs hn =>
        h.afterSelection_eq hes hes' hq hq' hf ha ht hs hn)
      ((List.prefix_append pre [e]).trans hpre) ((List.prefix_append pre' [e]).trans hpre') hfilter
    rw [far_run (hes.of_prefix hpre)] at hnear
    exact h.afterSelection_eq hes hes' hpre hpre' hfilter he htimes hsel hnear
  · intro h pre pre' hpre hpre' hfilter time ht ht'
    have htimes : (recordOf p first pre).times = (recordOf p first pre').times := record_eq
      (fun q q' a hq hq' hf ha ht => times_concat_congr ha ht fun hs hn =>
        h q q' a hq hq' hf ha hs (by rwa [far_run (hes.of_prefix hq)]))
      hpre hpre' hfilter
    have htracks := tracks_run p s (hes.of_prefix hpre)
    have htracks' := tracks_run p s' (hes'.of_prefix hpre')
    rw [htracks.total, htracks'.total, htracks.recent ht, htracks'.recent ht', htimes]
    exact ⟨rfl, rfl⟩

end Runs

end Model

section Rationals

/-- Exact times. -/
@[reducible] def rationalClock : Clock ℚ where
  sub_mono _ _ c h := sub_le_sub_right h c
  sub_anti a _ _ h := sub_le_sub_left h a
  near_le := by norm_num

attribute [local instance] rationalClock

/-- An order of player 1, and a selection of player 2 in one of the games. -/
theorem independent_order :
    Independent 1 start start [⟨1, 0x12, (10 : ℚ)⟩] [⟨1, 0x12, 10⟩, ⟨2, 0x16, 11⟩] := by
  have hes : Timed (10 : ℚ) [⟨1, 0x12, 10⟩] := by
    refine ⟨List.pairwise_singleton _ _, ?_⟩
    rintro e ⟨⟩
    rfl
  have hes' : Timed (10 : ℚ) [⟨1, 0x12, 10⟩, ⟨2, 0x16, 11⟩] := by
    refine ⟨List.pairwise_pair.mpr (by norm_num), ?_⟩
    rintro e ⟨⟩
    rfl
  refine (independent_iff 1 start start hes hes').mpr fun pre pre' e hpre _ _ _ hsel _ => ?_
  have hmem : e ∈ [(⟨1, 0x12, 10⟩ : Event ℚ)] :=
    hpre.subset (List.mem_append_right _ (List.mem_singleton_self e))
  rw [List.mem_singleton.mp hmem] at hsel
  exact absurd hsel (by decide)

/-- Player 1 selects twice at once, and player 2 gives an order in between or afterwards. -/
theorem order_between :
    ¬ Independent 1 start start
      [⟨1, 0x16, (10 : ℚ)⟩, ⟨2, 0x12, 10⟩, ⟨1, 0x16, 10⟩]
      [⟨1, 0x16, 10⟩, ⟨1, 0x16, 10⟩, ⟨2, 0x12, 10⟩] := by
  intro h
  have htotal := (h _ _ List.prefix_rfl List.prefix_rfl (by decide) 10 (by decide +kernel)
    (by decide +kernel)).1
  revert htotal
  decide +kernel

end Rationals

end Apm

end DreamDota
