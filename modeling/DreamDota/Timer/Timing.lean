import DreamDota.Timer.Pass
import Mathlib.Algebra.Group.Nat.Defs
import Mathlib.Data.Nat.Basic

/-!
# The timing law

A running timer holds the time that remains until it fires. It is decremented at each update by the
clock's advance since the previous one, with 32-bit wrap-around. `timingLaw` relates it to the true
time: after any run of updates, less than `2 ^ 32` apart, the timer has fired at exactly the updates
`dueTimes` names, and what remains is its timeout less the true time since it last fired.

`execCount` is a 32-bit counter, so it holds the number of firings modulo `2 ^ 32`
(`execCount_wraps`).
-/

namespace DreamDota

/-! ## True time -/

/-- The updates at which a timer of timeout `T`, started at `s`, is to fire: the first that is `T`
or more after the start, then the first that is `T` or more after that one, and so on. -/
def dueTimes (T : ℕ) : ℕ → List ℕ → List ℕ
  | _, [] => []
  | s, u :: us => if T ≤ u - s then u :: dueTimes T u us else dueTimes T s us

theorem dueTimes_concat (T s : ℕ) (us : List ℕ) (u : ℕ) :
    dueTimes T s (us ++ [u]) =
      dueTimes T s us ++ if T ≤ u - (dueTimes T s us).getLastD s then [u] else [] := by
  induction us generalizing s with
  | nil => simp [dueTimes]
  | cons u' us ih =>
    rw [List.cons_append, dueTimes, dueTimes]
    by_cases h : T ≤ u' - s
    · rw [if_pos h, if_pos h, ih u', List.getLastD_cons, List.cons_append]
    · rw [if_neg h, if_neg h, ih s]

theorem isChain_concat {α : Type*} {R : α → α → Prop} (a : α) (l : List α) (b : α) :
    (a :: (l ++ [b])).IsChain R ↔ (a :: l).IsChain R ∧ R (l.getLastD a) b := by
  induction l generalizing a with
  | nil => simp
  | cons c l ih =>
    rw [List.cons_append, List.isChain_cons_cons, ih, List.isChain_cons_cons, List.getLastD_cons,
      and_assoc]

namespace TimerHistory

/-- The last firing, or the start. -/
def base (h : TimerHistory) : ℕ := h.fired.getLastD h.started

/-- The last update, or the start. -/
def last (h : TimerHistory) : ℕ := h.updates.getLastD h.started

/-- The true time from the last firing, or the start, to the last update. -/
def distance (h : TimerHistory) : ℕ := h.last - h.base

/-- Consecutive updates are less than `2 ^ 32` apart. -/
def Gaps (h : TimerHistory) : Prop :=
  (h.started :: h.updates).IsChain fun a b => b - a < 2 ^ 32

end TimerHistory

/-- What the timer does along its updates. `e` is the number of firings counted before the start. -/
structure TimingLaw (e : BitVec 32) (h : TimerHistory) (t : Timer) : Prop where
  fired : h.fired = if t.periodic then dueTimes t.timeout.toNat h.started h.updates
    else (dueTimes t.timeout.toNat h.started h.updates).take 1
  remaining : t.periodic = true ∨ h.fired = [] → t.remaining.toNat = t.timeout.toNat - h.distance
  elapsed : t.periodic = true ∨ h.fired = [] → t.elapsed.toNat = h.distance
  apart : (h.started :: h.fired).IsChain fun a b => a + t.timeout.toNat ≤ b
  execCount : t.periodic = true → t.execCount = e + BitVec.ofNat 32 h.fired.length

/-! ## Runs of updates -/

/-- What happens to a timer and around it: a call by any code, the update of a timer at the present
clock value, and the clock's advance. -/
inductive TimerAct where
  | call (o : TimerOp)
  | update (tm : TimerId)
  | gameTime (d : ℕ)
  deriving DecidableEq, Repr

/-- No call is made on the timer. -/
structure SparesRun (beh : TimerBehaviour) (tm : TimerId) (acts : List TimerAct) : Prop where
  calls : ∀ o, .call o ∈ acts → o.target ≠ some tm
  callbacks : ∀ cb k, Spares tm (beh cb k)

namespace Timers

variable {beh : TimerBehaviour} {w : Timers} {tm tm' : TimerId} {t : Timer}

def act (beh : TimerBehaviour) (w : Timers) : TimerAct → Timers
  | .call o => w.perform o
  | .update tm => w.update beh w.timeRaw tm
  | .gameTime d => w.gameTime d

/-! ## What the calls do to the history of a timer they spare -/

@[simp] theorem hist_add (w : Timers) (tm : TimerId) : (w.add tm).hist = w.hist := by
  unfold add; split <;> [rfl; (split_ifs <;> rfl)]

@[simp] theorem now_add (w : Timers) (tm : TimerId) : (w.add tm).now = w.now := by
  unfold add; split <;> [rfl; (split_ifs <;> rfl)]

theorem hist_note (w : Timers) (tm tm' : TimerId) (f : TimerHistory → TimerHistory) :
    (w.note tm f).hist tm' = if tm = tm' then f (w.hist tm') else w.hist tm' := by
  unfold note
  by_cases h : tm = tm'
  · subst h; simp
  · simp [h, Function.update_of_ne (Ne.symm h)]

theorem hist_noteStart (h : tm ≠ tm') : (w.noteStart tm).hist tm' = w.hist tm' := by
  unfold noteStart
  split_ifs
  · rfl
  · rw [hist_note, if_neg h]

/-- What a step leaves alone of the history of `tm` and of the clock. -/
structure SameTime (tm : TimerId) (w w' : Timers) : Prop where
  hist : w'.hist tm = w.hist tm
  now : w'.now = w.now
  timeRaw : w'.timeRaw = w.timeRaw

theorem SameTime.trans {w' w'' : Timers} (h : SameTime tm w w') (h' : SameTime tm w' w'') :
    SameTime tm w w'' :=
  ⟨h'.hist.trans h.hist, h'.now.trans h.now, h'.timeRaw.trans h.timeRaw⟩

@[simp] theorem now_perform (w : Timers) (o : TimerOp) : (w.perform o).now = w.now := by
  cases o with
  | start tm | reset tm =>
    simp only [perform, start, modify, now_add]
    unfold noteStart
    split_ifs <;> rfl
  | new timeout callback periodic autoDispose => rfl
  | pause tm | resume tm | destroy tm | setTimeout tm timeout => rfl

theorem sameTime_perform (w : Timers) {o : TimerOp} (h : o.target ≠ some tm) :
    SameTime tm w (w.perform o) := by
  refine ⟨?_, now_perform w o, timeRaw_perform w o⟩
  cases o with
  | new timeout callback periodic autoDispose => rfl
  | start tm' | reset tm' =>
    have hne : tm' ≠ tm := fun he => h (by simp [TimerOp.target, he])
    simp [perform, start, modify, hist_noteStart hne]
  | pause tm' | resume tm' | destroy tm' | setTimeout tm' timeout => rfl

theorem sameTime_foldl_perform (ops : List TimerOp) (w : Timers) (h : Spares tm ops) :
    SameTime tm w (ops.foldl perform w) := by
  induction ops generalizing w with
  | nil => exact ⟨rfl, rfl, rfl⟩
  | cons o ops ih => exact (sameTime_perform w (h o List.mem_cons_self)).trans (ih _ h.tail)

theorem sameTime_callback (w : Timers) (cb : TimerCallback) (h : Spares tm (beh cb w.calls)) :
    SameTime tm w (w.callback beh cb) := by
  have hs := sameTime_foldl_perform (beh cb w.calls) { w with calls := w.calls + 1 } h
  exact ⟨hs.hist, hs.now, hs.timeRaw⟩

theorem sameTime_finish (tm : TimerId) (w : Timers) (tm' : TimerId) :
    SameTime tm w (w.finish tm') := by
  unfold finish
  split
  · exact ⟨rfl, rfl, rfl⟩
  · split_ifs
    · exact ⟨rfl, rfl, rfl⟩
    · exact ⟨by simp [start, modify], by simp [start, modify], by simp [start, modify]⟩
    · exact ⟨rfl, rfl, rfl⟩
    · exact ⟨rfl, rfl, rfl⟩

instance (timeRaw time : BitVec 32) (t : Timer) : Decidable (t.Expires timeRaw time) :=
  inferInstanceAs (Decidable (_ ∧ _))

/-- The history that an update of the timer itself leaves. -/
def afterUpdate (h : TimerHistory) (now : ℕ) (expires : Bool) : TimerHistory :=
  ⟨h.started, h.updates ++ [now], h.fired ++ if expires then [now] else []⟩

theorem hist_update_self (beh : TimerBehaviour) (time : BitVec 32) (h : w.get tm = some t)
    (hs : Spares tm (beh t.callback w.calls)) :
    (w.update beh time tm).hist tm =
        afterUpdate (w.hist tm) w.now (decide (t.Expires w.timeRaw time)) ∧
      (w.update beh time tm).now = w.now ∧ (w.update beh time tm).timeRaw = w.timeRaw := by
  unfold update
  rw [h]
  simp only
  split_ifs with hp hr
  · have he : ¬ t.Expires w.timeRaw time := fun he => by simp [he.1] at hp
    exact ⟨by simp [noteUpdate, modify, note, afterUpdate, he], rfl, rfl⟩
  · have he : t.Expires w.timeRaw time := ⟨by simpa using hp, hr⟩
    have hcb := sameTime_callback
      (((w.noteUpdate tm).noteFired tm).modify tm (Timer.expire w.timeRaw time)) t.callback hs
    have hf := hcb.trans (sameTime_finish tm _ tm)
    refine ⟨?_, hf.now, hf.timeRaw⟩
    rw [hf.hist]
    simp [noteUpdate, noteFired, modify, note, afterUpdate, he]
  · have he : ¬ t.Expires w.timeRaw time := fun he => hr he.2
    exact ⟨by simp [noteUpdate, modify, note, afterUpdate, he], rfl, rfl⟩

theorem sameTime_update_other (time : BitVec 32) (hne : tm' ≠ tm)
    (hs : ∀ cb k, Spares tm (beh cb k)) : SameTime tm w (w.update beh time tm') := by
  unfold update
  split
  · exact ⟨rfl, rfl, rfl⟩
  · have hnote : SameTime tm w (w.noteUpdate tm') :=
      ⟨by simp [noteUpdate, hist_note, hne], rfl, rfl⟩
    split_ifs
    · exact ⟨hnote.hist, rfl, rfl⟩
    · refine SameTime.trans ?_ (sameTime_finish tm _ tm')
      refine SameTime.trans ?_ (sameTime_callback _ _ (hs _ _))
      exact ⟨by simp [noteUpdate, noteFired, modify, hist_note, hne], rfl, rfl⟩
    · exact ⟨hnote.hist, rfl, rfl⟩

/-! ## One update of a spared timer -/

/-- The timer is running: it is periodic, or it has not fired. -/
def Runs (h : TimerHistory) (t : Timer) : Prop := t.periodic = true ∨ h.fired = []

/-- The invariant of a spared timer. `T` is its timeout, `s` the true time of its start and `e` the
number of firings counted before. -/
structure Timed (T s : ℕ) (e : BitVec 32) (periodic : Bool) (w : Timers) (h : TimerHistory)
    (t : Timer) : Prop where
  timeout : t.timeout.toNat = T
  periodic : t.periodic = periodic
  started : h.started = s
  fired : h.fired = if t.periodic then dueTimes T s h.updates else (dueTimes T s h.updates).take 1
  base_le : h.base ≤ h.last
  last_le : h.last ≤ w.now
  runs : Runs h t → t.paused = false ∧ t.disposed = false ∧ h.distance ≤ T ∧
    t.timeRemaining.toNat = T - h.distance ∧
    t.lastUpdateTime = w.timeRaw - BitVec.ofNat 32 (w.now - h.last)
  stopped : ¬ Runs h t → t.paused = true
  apart : (h.started :: h.fired).IsChain fun a b => a + T ≤ b
  execCount : t.periodic = true → t.execCount = e + BitVec.ofNat 32 h.fired.length

variable {T s : ℕ} {e : BitVec 32} {p : Bool} {h : TimerHistory} {w' : Timers}

/-- The timer has just been started. -/
structure Fresh (timeRaw : BitVec 32) (t : Timer) : Prop where
  disposed : t.disposed = false
  paused : t.paused = false
  timeRemaining : t.timeRemaining = t.timeout
  lastUpdateTime : t.lastUpdateTime = timeRaw

theorem fresh_start (timeRaw : BitVec 32) {t : Timer} (hd : t.disposed = false) :
    Fresh timeRaw (t.start timeRaw) := by
  constructor <;> simp [Timer.start, hd]

theorem Fresh.timed {t : Timer} (h : Fresh w.timeRaw t) :
    Timed t.timeout.toNat w.now t.execCount t.periodic w ⟨w.now, [], []⟩ t := by
  obtain ⟨hd, hp, hrem, hlast⟩ := h
  constructor <;> simp_all [dueTimes, TimerHistory.base, TimerHistory.last, TimerHistory.distance,
    Runs]

/-- The history of a running timer names the updates at which it is due. -/
theorem Timed.base_eq (ht : Timed T s e p w h t) (hr : Runs h t) :
    h.base = (dueTimes T s h.updates).getLastD s := by
  unfold TimerHistory.base
  have hf := ht.fired
  rw [ht.started]
  cases hp : t.periodic with
  | true => rw [hf, hp, if_pos rfl]
  | false =>
    have hnil : h.fired = [] := hr.resolve_left (by simp [hp])
    rw [hp, hnil] at hf
    have hd : dueTimes T s h.updates = [] := by simpa using hf.symm
    rw [hnil, hd]

/-- The clock's advance since the last update, and what it leaves. -/
theorem Timed.advance (ht : Timed T s e p w h t) (hr : Runs h t)
    (hgap : w.now - h.last < 2 ^ 32) (time : BitVec 32) :
    (t.advance w.timeRaw time).timeRemaining.toNat = T - (w.now - h.base) := by
  obtain ⟨-, -, hle, hrem, hlast⟩ := ht.runs hr
  have hdiff : (w.timeRaw - t.lastUpdateTime).toNat = w.now - h.last := by
    rw [hlast, show w.timeRaw - (w.timeRaw - BitVec.ofNat 32 (w.now - h.last)) =
      BitVec.ofNat 32 (w.now - h.last) by bv_omega]
    rw [BitVec.toNat_ofNat, Nat.mod_eq_of_lt hgap]
  have hbl := ht.base_le
  have hln := ht.last_le
  have hdist : h.distance = h.last - h.base := rfl
  unfold Timer.advance
  simp only [BitVec.lt_def, hdiff, hrem]
  split_ifs with hlt
  · simp; omega
  · rw [BitVec.toNat_sub_of_le (by rw [BitVec.le_def, hdiff, hrem]; omega), hdiff, hrem]
    omega

theorem Timed.expires_iff (ht : Timed T s e p w h t) (hr : Runs h t)
    (hgap : w.now - h.last < 2 ^ 32) (time : BitVec 32) :
    t.Expires w.timeRaw time ↔ T ≤ w.now - h.base := by
  have hadv := ht.advance hr hgap time
  constructor
  · rintro ⟨-, hz⟩
    rw [hz] at hadv
    simp at hadv
    omega
  · intro hle
    refine ⟨(ht.runs hr).1, BitVec.eq_of_toNat_eq ?_⟩
    rw [hadv]
    simp
    omega

theorem afterUpdate_last (h : TimerHistory) (now : ℕ) (b : Bool) :
    (afterUpdate h now b).last = now :=
  List.getLastD_concat ..

theorem afterUpdate_base (h : TimerHistory) (now : ℕ) (b : Bool) :
    (afterUpdate h now b).base = if b then now else h.base := by
  cases b
  · simp [afterUpdate, TimerHistory.base]
  · simp only [afterUpdate, TimerHistory.base, if_true]
    exact List.getLastD_concat ..

/-- A running timer that is not due: what remains decreases. -/
theorem Timed.update_running (ht : Timed T s e p w h t) (hr : Runs h t)
    (hgap : w.now - h.last < 2 ^ 32) (hnow : w'.now = w.now) (hraw : w'.timeRaw = w.timeRaw)
    (hdue : w.now - h.base < T) :
    Timed T s e p w' (afterUpdate h w.now false) (t.advance w.timeRaw w.timeRaw) := by
  have hbase : (afterUpdate h w.now false).base = h.base := afterUpdate_base h w.now false
  have hlast : (afterUpdate h w.now false).last = w.now := afterUpdate_last h w.now false
  have hfired : (afterUpdate h w.now false).fired = h.fired := by simp [afterUpdate]
  have hrun : Runs (afterUpdate h w.now false) (t.advance w.timeRaw w.timeRaw) := by
    rw [Runs, hfired]
    exact hr
  obtain ⟨hp, hd, -, -, -⟩ := ht.runs hr
  have hbl := ht.base_le
  have hln := ht.last_le
  refine ⟨ht.timeout, ht.periodic, ht.started, ?_, ?_, ?_, fun _ => ⟨hp, hd, ?_, ?_, ?_⟩,
    fun hn => absurd hrun hn, ?_, ?_⟩
  · show h.fired ++ [] = if t.periodic then dueTimes T s (h.updates ++ [w.now]) else
      (dueTimes T s (h.updates ++ [w.now])).take 1
    have hnot : ¬ T ≤ w.now - h.base := by omega
    rw [dueTimes_concat, ← ht.base_eq hr, if_neg hnot, List.append_nil, List.append_nil]
    exact ht.fired
  · rw [hbase, hlast]; omega
  · rw [hlast, hnow]
  · rw [TimerHistory.distance, hbase, hlast]; omega
  · rw [TimerHistory.distance, hbase, hlast]
    exact ht.advance hr hgap w.timeRaw
  · rw [hlast, hnow, hraw, Nat.sub_self]
    simp [Timer.advance]
  · rw [hfired]; exact ht.apart
  · rw [hfired]; exact ht.execCount

/-- A running timer that is due: it fires, and a periodic one starts again. -/
theorem Timed.update_due (ht : Timed T s e p w h t) (hr : Runs h t) (hnow : w'.now = w.now)
    (hraw : w'.timeRaw = w.timeRaw) (hdue : T ≤ w.now - h.base) :
    Timed T s e p w' (afterUpdate h w.now true)
      ((t.expire w.timeRaw w.timeRaw).finish w.timeRaw) := by
  have hbase : (afterUpdate h w.now true).base = w.now := afterUpdate_base h w.now true
  have hlast : (afterUpdate h w.now true).last = w.now := afterUpdate_last h w.now true
  have hfired : (afterUpdate h w.now true).fired = h.fired ++ [w.now] := rfl
  obtain ⟨-, hd, -, -, -⟩ := ht.runs hr
  have hbl := ht.base_le
  have hln := ht.last_le
  have hdues : dueTimes T s (afterUpdate h w.now true).updates =
      dueTimes T s h.updates ++ [w.now] := by
    show dueTimes T s (h.updates ++ [w.now]) = _
    rw [dueTimes_concat, ← ht.base_eq hr, if_pos hdue]
  have hapart : ((afterUpdate h w.now true).started :: (afterUpdate h w.now true).fired).IsChain
      fun a b => a + T ≤ b := by
    rw [hfired]
    refine (isChain_concat _ _ _).mpr ⟨ht.apart, ?_⟩
    show h.base + T ≤ w.now
    omega
  cases hp : t.periodic with
  | true =>
    have hfin : (t.expire w.timeRaw w.timeRaw).finish w.timeRaw =
        { t with
          timeRemaining := t.timeout, lastUpdateTime := w.timeRaw, paused := false, added := true
          execCount := t.execCount + 1 } := by
      simp [Timer.finish, Timer.expire, Timer.advance, Timer.start, hd, hp]
    rw [hfin]
    refine ⟨ht.timeout, ht.periodic, ht.started, ?_, ?_, ?_, fun _ => ⟨rfl, hd, ?_, ?_, ?_⟩,
      fun hn => absurd (.inl hp) hn, hapart, fun _ => ?_⟩
    · show _ = if t.periodic then _ else _
      rw [hp, if_pos rfl, hdues, hfired, ht.fired, hp, if_pos rfl]
    · rw [hbase, hlast]
    · rw [hlast, hnow]
    · rw [TimerHistory.distance, hbase, hlast, Nat.sub_self]; omega
    · rw [TimerHistory.distance, hbase, hlast, Nat.sub_self]
      exact ht.timeout
    · rw [hlast, hnow, hraw, Nat.sub_self]
      simp
    · show t.execCount + 1 = _
      rw [ht.execCount hp, hfired, List.length_append, List.length_singleton, BitVec.ofNat_add,
        ← BitVec.add_assoc]
      rfl
  | false =>
    have hnil : h.fired = [] := hr.resolve_left (by simp [hp])
    have hnone : dueTimes T s h.updates = [] := by
      have hf := ht.fired
      rw [hp, hnil] at hf
      simpa using hf.symm
    have hfin : (t.expire w.timeRaw w.timeRaw).finish w.timeRaw =
        { t.expire w.timeRaw w.timeRaw with disposed := t.autoDispose } := by
      cases ha : t.autoDispose <;>
        simp [Timer.finish, Timer.expire, Timer.advance, Timer.destroy, hd, hp, ha]
    rw [hfin]
    have hstop : ¬ Runs (afterUpdate h w.now true)
        { t.expire w.timeRaw w.timeRaw with disposed := t.autoDispose } := by
      rw [Runs, hfired]
      simp [Timer.expire, Timer.advance, hp]
    refine ⟨ht.timeout, ht.periodic, ht.started, ?_, ?_, ?_, fun hn => absurd hn hstop,
      fun _ => rfl, hapart, fun hper => ?_⟩
    · show _ = if t.periodic then _ else _
      rw [hp, if_neg (by simp), hdues, hfired, hnil, hnone]
      rfl
    · rw [hbase, hlast]
    · rw [hlast, hnow]
    · have : t.periodic = true := hper
      rw [hp] at this
      cases this

/-- A one-shot timer that has fired stays as it is. -/
theorem Timed.update_stopped (ht : Timed T s e p w h t) (hr : ¬ Runs h t) (hnow : w'.now = w.now)
    (time : BitVec 32) :
    Timed T s e p w' (afterUpdate h w.now false) { t with lastUpdateTime := time } := by
  have hbase : (afterUpdate h w.now false).base = h.base := afterUpdate_base h w.now false
  have hlast : (afterUpdate h w.now false).last = w.now := afterUpdate_last h w.now false
  have hfired : (afterUpdate h w.now false).fired = h.fired := by simp [afterUpdate]
  have hstop : ¬ Runs (afterUpdate h w.now false) { t with lastUpdateTime := time } := by
    rw [Runs, hfired]
    exact hr
  have hbl := ht.base_le
  have hln := ht.last_le
  have hp : t.periodic = false := by
    cases hper : t.periodic with
    | true => exact absurd (.inl hper) hr
    | false => rfl
  refine ⟨ht.timeout, ht.periodic, ht.started, ?_, ?_, ?_, fun hn => absurd hn hstop,
    fun _ => ht.stopped hr, ?_, ?_⟩
  · show h.fired ++ [] = if t.periodic then dueTimes T s (h.updates ++ [w.now]) else
      (dueTimes T s (h.updates ++ [w.now])).take 1
    have hf := ht.fired
    rw [hp, if_neg (by simp)] at hf
    have hne : dueTimes T s h.updates ≠ [] := by
      intro hnil
      rw [hnil] at hf
      exact hr (.inr hf)
    rw [hp, if_neg (by simp), dueTimes_concat, List.append_nil, hf]
    cases hd : dueTimes T s h.updates with
    | nil => exact absurd hd hne
    | cons u us => rfl
  · rw [hbase, hlast]; omega
  · rw [hlast, hnow]
  · rw [hfired]; exact ht.apart
  · rw [hfired]; exact ht.execCount

/-! ## A whole run -/

theorem Timed.congr (ht : Timed T s e p w h t) (hnow : w'.now = w.now)
    (hraw : w'.timeRaw = w.timeRaw) : Timed T s e p w' h t :=
  { ht with
    last_le := hnow ▸ ht.last_le
    runs := fun hr => by rw [hnow, hraw]; exact ht.runs hr }

theorem Timed.gameTime (ht : Timed T s e p w h t) (d : ℕ) : Timed T s e p (w.gameTime d) h t :=
  { ht with
    last_le := Nat.le_trans ht.last_le (Nat.le_add_right _ _)
    runs := fun hr => by
      obtain ⟨hp, hd, hle, hrem, hlast⟩ := ht.runs hr
      refine ⟨hp, hd, hle, hrem, ?_⟩
      have hln := ht.last_le
      rw [hlast, show (w.gameTime d).now - h.last = w.now - h.last + d by
        simp only [Timers.gameTime]; omega, BitVec.ofNat_add]
      simp only [Timers.gameTime]
      generalize BitVec.ofNat 32 d = x
      generalize BitVec.ofNat 32 (w.now - h.last) = y
      bv_omega }

/-- One update of a spared timer. -/
theorem Timed.update (ht : Timed T s e p w (w.hist tm) t) (hget : w.get tm = some t)
    (hs : ∀ cb k, Spares tm (beh cb k)) (hgap : w.now - (w.hist tm).last < 2 ^ 32) :
    ∃ t', (w.update beh w.timeRaw tm).get tm = some t' ∧
      Timed T s e p (w.update beh w.timeRaw tm) ((w.update beh w.timeRaw tm).hist tm) t' := by
  obtain ⟨hhist, hnow, hraw⟩ := hist_update_self beh w.timeRaw hget (hs _ _)
  refine ⟨_, get_update_self beh w.timeRaw hget, ?_⟩
  rw [hhist]
  by_cases hr : Runs (w.hist tm) t
  · by_cases hdue : T ≤ w.now - (w.hist tm).base
    · have he := (ht.expires_iff hr hgap w.timeRaw).mpr hdue
      rw [Timer.update_expires he, Timer.perform_spares (hs _ _), decide_eq_true he]
      exact ht.update_due hr hnow hraw hdue
    · have he := mt (ht.expires_iff hr hgap w.timeRaw).mp hdue
      have hp : t.paused = false := (ht.runs hr).1
      rw [decide_eq_false he, Timer.update, if_neg (by simp [hp]), if_neg fun hz => he ⟨hp, hz⟩]
      exact ht.update_running hr hgap hnow hraw (by omega)
  · have hp : t.paused = true := ht.stopped hr
    have he : ¬ t.Expires w.timeRaw w.timeRaw := fun he => by simp [he.1] at hp
    rw [decide_eq_false he, Timer.update, if_pos hp]
    exact ht.update_stopped hr hnow w.timeRaw

/-- A step appends at most one update to the history of a spared timer. -/
theorem hist_act (w : Timers) (a : TimerAct) (ha : ∀ o, a = .call o → o.target ≠ some tm)
    (hs : ∀ cb k, Spares tm (beh cb k)) :
    (w.act beh a).hist tm = w.hist tm ∨
      ∃ b, (w.act beh a).hist tm = afterUpdate (w.hist tm) w.now b := by
  cases a with
  | call o => exact .inl (sameTime_perform w (ha o rfl)).hist
  | gameTime d => exact .inl rfl
  | update tm' =>
    by_cases hm : tm' = tm
    · subst hm
      cases hget : w.get tm' with
      | none => left; simp [act, update, hget]
      | some t => exact .inr ⟨_, (hist_update_self beh w.timeRaw hget (hs _ _)).1⟩
    · exact .inl (sameTime_update_other w.timeRaw hm hs).hist

theorem gaps_afterUpdate {now : ℕ} {b : Bool} (hgap : (afterUpdate h now b).Gaps) :
    h.Gaps ∧ now - h.last < 2 ^ 32 :=
  (isChain_concat _ _ _).mp hgap

/-- The updates of a run are close enough if those of a longer one are. -/
theorem gaps_of_foldl (acts : List TimerAct) (w : Timers) (hs : SparesRun beh tm acts)
    (hgap : ((acts.foldl (act beh) w).hist tm).Gaps) : (w.hist tm).Gaps := by
  induction acts generalizing w with
  | nil => exact hgap
  | cons a acts ih =>
    have hnext := ih (w.act beh a) ⟨fun o ho => hs.calls o (List.mem_cons_of_mem a ho),
      hs.callbacks⟩ hgap
    rcases hist_act w a (fun o ho => hs.calls o (ho ▸ List.mem_cons_self)) hs.callbacks with
      heq | ⟨b, heq⟩
    · exact heq ▸ hnext
    · rw [heq] at hnext
      exact (gaps_afterUpdate hnext).1

/-- The invariant holds after every step that spares the timer. -/
theorem Timed.act (ht : Timed T s e p w (w.hist tm) t) (hget : w.get tm = some t) (a : TimerAct)
    (ha : ∀ o, a = .call o → o.target ≠ some tm) (hs : ∀ cb k, Spares tm (beh cb k))
    (hgap : ((w.act beh a).hist tm).Gaps) :
    ∃ t', (w.act beh a).get tm = some t' ∧
      Timed T s e p (w.act beh a) ((w.act beh a).hist tm) t' := by
  cases a with
  | call o =>
    have hsame := sameTime_perform w (ha o rfl)
    refine ⟨t, (get_perform o hget).trans (by rw [if_neg (ha o rfl)]), ?_⟩
    exact hsame.hist.symm ▸ ht.congr hsame.now hsame.timeRaw
  | gameTime d => exact ⟨t, hget, ht.gameTime d⟩
  | update tm' =>
    by_cases hm : tm' = tm
    · subst hm
      have hg : ((w.update beh w.timeRaw tm').hist tm').Gaps := hgap
      rw [(hist_update_self beh w.timeRaw hget (hs _ _)).1] at hg
      exact ht.update hget hs (gaps_afterUpdate hg).2
    · have hsame : SameTime tm w (w.update beh w.timeRaw tm') :=
        sameTime_update_other w.timeRaw hm hs
      have hget' : (w.update beh w.timeRaw tm').get tm = some t := by
        rcases get_update_other beh w.timeRaw hm hget with h' | ⟨cb, h'⟩
        · exact h'
        · rw [h', Timer.perform_spares (hs _ _)]
      exact ⟨t, hget', hsame.hist.symm ▸ ht.congr hsame.now hsame.timeRaw⟩

/-- The invariant holds along every run that spares the timer. -/
theorem Timed.run (acts : List TimerAct) (ht : Timed T s e p w (w.hist tm) t)
    (hget : w.get tm = some t) (hs : SparesRun beh tm acts)
    (hgap : ((acts.foldl (Timers.act beh) w).hist tm).Gaps) :
    ∃ t', (acts.foldl (Timers.act beh) w).get tm = some t' ∧
      Timed T s e p (acts.foldl (Timers.act beh) w) ((acts.foldl (Timers.act beh) w).hist tm)
        t' := by
  induction acts generalizing w t with
  | nil => exact ⟨t, hget, ht⟩
  | cons a acts ih =>
    have hs' : SparesRun beh tm acts :=
      ⟨fun o ho => hs.calls o (List.mem_cons_of_mem a ho), hs.callbacks⟩
    obtain ⟨t', hget', ht'⟩ := ht.act hget a
      (fun o ho => hs.calls o (ho ▸ List.mem_cons_self)) hs.callbacks
      (gaps_of_foldl acts _ hs' hgap)
    exact ih ht' hget' hs' hgap

theorem Timed.law (ht : Timed T s e p w h t) : TimingLaw e h t := by
  obtain rfl := ht.timeout
  obtain rfl := ht.started
  refine ⟨ht.fired, fun hr => (ht.runs hr).2.2.2.1, fun hr => ?_, ht.apart, ht.execCount⟩
  obtain ⟨-, -, hle, hrem, -⟩ := ht.runs hr
  rw [Timer.elapsed, BitVec.toNat_sub_of_le (by rw [BitVec.le_def, hrem]; omega), hrem]
  omega

theorem perform_start (hget : w.get tm = some t) (hd : t.disposed = false) :
    (w.perform (.start tm)).get tm = some (t.start w.timeRaw) ∧
      (w.perform (.start tm)).hist tm = ⟨w.now, [], []⟩ ∧
      (w.perform (.start tm)).now = w.now := by
  refine ⟨?_, ?_, ?_⟩
  · simp [get_perform _ hget, TimerOp.target, TimerOp.effect]
  · simp [perform, start, modify, noteStart, hget, hd, hist_note]
  · simp [perform, start, modify, noteStart, hget, hd, note]

/-- A live timer is started, and nothing is called on it afterwards. -/
theorem timed_of_start (acts : List TimerAct) (hget : w.get tm = some t) (hd : t.disposed = false)
    (hs : SparesRun beh tm acts)
    (hgap : ((acts.foldl (act beh) (w.perform (.start tm))).hist tm).Gaps) :
    ∃ t', (acts.foldl (act beh) (w.perform (.start tm))).get tm = some t' ∧
      Timed t.timeout.toNat w.now t.execCount t.periodic
        (acts.foldl (act beh) (w.perform (.start tm)))
        ((acts.foldl (act beh) (w.perform (.start tm))).hist tm) t' := by
  obtain ⟨hget', hhist, hnow⟩ := perform_start hget hd
  have ht := (fresh_start w.timeRaw hd).timed.congr hnow (timeRaw_perform w _)
  obtain ⟨htime, hper, hexec⟩ : (t.start w.timeRaw).timeout = t.timeout ∧
      (t.start w.timeRaw).periodic = t.periodic ∧
      (t.start w.timeRaw).execCount = t.execCount := by
    simp [Timer.start, hd]
  rw [← hhist, htime, hper, hexec] at ht
  exact ht.run acts hget' hs hgap

/-- **The timing law.** A live timer is started, and nothing is called on it afterwards. However it
is updated, at clock values less than `2 ^ 32` apart, it follows the law. -/
theorem timingLaw (beh : TimerBehaviour) (w : Timers) (tm : TimerId) (t : Timer)
    (acts : List TimerAct) (hget : w.get tm = some t) (hd : t.disposed = false)
    (hs : SparesRun beh tm acts)
    (hgap : ((acts.foldl (act beh) (w.perform (.start tm))).hist tm).Gaps) :
    ∃ t', (acts.foldl (act beh) (w.perform (.start tm))).get tm = some t' ∧
      t'.timeout = t.timeout ∧ t'.periodic = t.periodic ∧
      ((acts.foldl (act beh) (w.perform (.start tm))).hist tm).started = w.now ∧
      TimingLaw t.execCount ((acts.foldl (act beh) (w.perform (.start tm))).hist tm) t' := by
  obtain ⟨t', hfin, ht⟩ := timed_of_start acts hget hd hs hgap
  exact ⟨t', hfin, BitVec.eq_of_toNat_eq ht.timeout, ht.periodic, ht.started, ht.law⟩

/-- A one-shot timer of ten milliseconds, updated twice before it is due and twice after. -/
theorem timingLaw_oneShot :
    ∃ t',
      (([.gameTime 4, .update 0, .gameTime 4, .update 0, .gameTime 4, .update 0, .update 0].foldl
        (act fun _ _ => []) ((init.perform (.new 10 0 false false)).perform (.start 0))).get 0) =
          some t' ∧
      t'.timeout = 10 ∧ t'.periodic = false ∧
      (([.gameTime 4, .update 0, .gameTime 4, .update 0, .gameTime 4, .update 0, .update 0].foldl
        (act fun _ _ => []) ((init.perform (.new 10 0 false false)).perform (.start 0))).hist
          0).started = 0 ∧
      TimingLaw 0 (([.gameTime 4, .update 0, .gameTime 4, .update 0, .gameTime 4, .update 0,
        .update 0].foldl (act fun _ _ => [])
          ((init.perform (.new 10 0 false false)).perform (.start 0))).hist 0) t' :=
  timingLaw (fun _ _ => []) (init.perform (.new 10 0 false false)) 0 (Timer.new 10 0 false false)
    [.gameTime 4, .update 0, .gameTime 4, .update 0, .gameTime 4, .update 0, .update 0] rfl rfl
    ⟨by simp, fun _ _ => by simp [Spares]⟩ (by unfold TimerHistory.Gaps; decide)

/-! ## The counter of the firings wraps -/

theorem dueTimes_zero (s : ℕ) (us : List ℕ) : dueTimes 0 s us = us := by
  induction us generalizing s with
  | nil => rfl
  | cons u us ih => rw [dueTimes, if_pos (Nat.zero_le _), ih]

/-- Updates of one timer at one clock value. -/
theorem hist_replicate (n : ℕ) (hget : w.get tm = some t) (hs : ∀ cb k, Spares tm (beh cb k)) :
    (((List.replicate n (.update tm)).foldl (act beh) w).hist tm).updates =
        (w.hist tm).updates ++ List.replicate n w.now ∧
      (((List.replicate n (.update tm)).foldl (act beh) w).hist tm).started =
        (w.hist tm).started := by
  induction n generalizing w t with
  | zero => simp
  | succ n ih =>
    obtain ⟨hhist, hnow, -⟩ := hist_update_self beh w.timeRaw hget (hs _ _)
    obtain ⟨t', hget', -⟩ := (kept_update beh w.timeRaw w tm).survives tm t hget
    obtain ⟨hn, hst⟩ := ih hget'
    rw [hhist, hnow] at hn
    rw [hhist] at hst
    rw [List.replicate_succ, List.foldl_cons, List.replicate_succ]
    exact ⟨hn.trans (by simp [afterUpdate]), hst⟩

/-- A periodic timer of timeout 0, started. -/
def zeroTimer : Timers := (init.perform (.new 0 0 true true)).perform (.start 0)

/-- It fires at each of `n` updates. -/
theorem fires_replicate (n : ℕ) :
    SparesRun (fun _ _ => []) 0 (List.replicate n (.update 0)) ∧
      (((List.replicate n (.update 0)).foldl (act fun _ _ => []) zeroTimer).hist 0).Gaps ∧
      ∃ t', ((List.replicate n (.update 0)).foldl (act fun _ _ => []) zeroTimer).get 0 = some t' ∧
        t'.execCount = BitVec.ofNat 32 n ∧
        (((List.replicate n (.update 0)).foldl (act fun _ _ => []) zeroTimer).hist
          0).fired.length = n := by
  have hs : SparesRun (fun _ _ => []) 0 (List.replicate n (.update 0)) :=
    ⟨fun o ho => by simp [List.mem_replicate] at ho, fun _ _ => by simp [Spares]⟩
  have hnew : (init.perform (.new 0 0 true true)).get 0 = some (Timer.new 0 0 true true) := rfl
  obtain ⟨hget, hhist, hnow⟩ := perform_start hnew rfl
  obtain ⟨hups, hstart⟩ := hist_replicate n hget hs.callbacks
  rw [hhist, hnow, List.nil_append] at hups
  rw [hhist] at hstart
  have hgap :
      (((List.replicate n (.update 0)).foldl (act fun _ _ => []) zeroTimer).hist 0).Gaps := by
    unfold TimerHistory.Gaps zeroTimer
    rw [hups, hstart, ← List.replicate_succ]
    exact (List.pairwise_replicate.mpr (.inr (by simp))).isChain
  obtain ⟨t', hfin, ht⟩ := timed_of_start (List.replicate n (.update 0))
    (t := Timer.new 0 0 true true) rfl rfl hs hgap
  have hfired := ht.fired
  rw [ht.periodic, show (Timer.new 0 0 true true).periodic = true from rfl, if_pos rfl,
    show (Timer.new 0 0 true true).timeout.toNat = 0 from rfl, dueTimes_zero, hups] at hfired
  refine ⟨hs, hgap, t', hfin, ?_, ?_⟩
  · rw [ht.execCount ht.periodic, hfired, List.length_replicate]
    simp [Timer.new]
  · exact (congrArg List.length hfired).trans List.length_replicate

/-- After `2 ^ 32` firings `execCount()` is 0. -/
theorem execCount_wraps :
    SparesRun (fun _ _ => []) 0 (List.replicate (2 ^ 32) (.update 0)) ∧
      (((List.replicate (2 ^ 32) (.update 0)).foldl (act fun _ _ => []) zeroTimer).hist 0).Gaps ∧
      ∃ t', ((List.replicate (2 ^ 32) (.update 0)).foldl (act fun _ _ => []) zeroTimer).get 0 =
          some t' ∧
        t'.execCount.toNat ≠ (((List.replicate (2 ^ 32) (.update 0)).foldl (act fun _ _ => [])
          zeroTimer).hist 0).fired.length := by
  obtain ⟨hs, hgap, t', hget, hexec, hfired⟩ := fires_replicate (2 ^ 32)
  refine ⟨hs, hgap, t', hget, ?_⟩
  rw [hexec, hfired]
  simp

end Timers

end DreamDota
