import DreamDota.Script.Process
import Mathlib.Data.List.GetD
import Mathlib.Data.List.Range
import Mathlib.Data.List.Perm.Subperm
import Mathlib.Logic.Relation

/-!
# Rosters of sleeping threads

What the scheduler of the script threads is for, without its map and its iterators: threads run,
fall asleep until a time, and are woken by Ticks. `Step` says what may happen at all; `Scheduled`
is what is asked of it.

1. `Sound`: the invariant of the steps.
2. `Sound.scheduled`: the threads of a sound roster are woken once, in time, and in the order of
   the times at which they are due.
-/

namespace DreamDota

/-- The time at which the sleep is over. -/
def WaitCall.wake (w : WaitCall) : ℕ := w.clock + w.delay

/-- `asleep` are the sleeping threads with the times at which they are due, `inTick` says that a
Tick is not over yet. -/
structure Roster where
  clock : ℕ
  ticks : List ℕ
  waits : List WaitCall
  resumes : List Resume
  asleep : List (ℕ × Sleeper)
  inTick : Bool
  running : List Thread
  threads : ℕ

/-- The order of the times that are waited for, and for equal times that of falling asleep. -/
def DueFirst (p q : ℕ × ℕ) : Prop := p.1 < q.1 ∨ p.1 = q.1 ∧ p.2 < q.2

namespace Roster

/-- A call of `Wait`, by its number. -/
def call (R : Roster) (i : ℕ) : WaitCall := R.waits.getD i ⟨0, 0, 0, 0⟩

def place (R : Roster) (i : ℕ) : ℕ × ℕ := ((R.call i).wake, i)

/-- The first Tick that begins after the call and finds its sleep over. -/
def IsFirst (R : Roster) (w : WaitCall) (n : ℕ) : Prop :=
  w.tick ≤ n ∧ (∃ t, R.ticks[n]? = some t ∧ w.wake ≤ t) ∧
    ∀ m t, w.tick ≤ m → m < n → R.ticks[m]? = some t → t < w.wake

/-- A Tick has begun and is over. -/
def Over (R : Roster) (n : ℕ) : Prop :=
  n < R.ticks.length ∧ (R.inTick = true → n + 1 < R.ticks.length)

/-- The calls of `Wait` before a Tick. -/
def calledBefore (R : Roster) (n : ℕ) : List ℕ :=
  (List.range R.waits.length).filter fun i => (R.call i).tick ≤ n

/-- What is asked of a scheduler. -/
structure Scheduled (before : ℕ × ℕ → ℕ × ℕ → Prop) (R : Roster) : Prop where
  /-- A call is answered at most once. -/
  once : (R.resumes.map Resume.wait).Nodup
  /-- It is answered for the thread that made it, by the first Tick after it at a time that is late
  enough. -/
  first : ∀ r ∈ R.resumes, r.wait < R.waits.length ∧ (R.call r.wait).thread = r.thread ∧
    R.IsFirst (R.call r.wait) r.tick
  /-- A Tick that is over has answered all of these. -/
  served : ∀ i < R.waits.length, ∀ n, R.IsFirst (R.call i) n → R.Over n →
    ∃ r ∈ R.resumes, r.wait = i
  order : R.resumes.Pairwise fun r r' =>
    r.tick = r'.tick → before (R.place r.wait) (R.place r'.wait)
  /-- A Tick resumes a thread at most once. -/
  apart : R.resumes.Pairwise fun r r' => r.tick = r'.tick → r.thread ≠ r'.thread
  /-- A Tick resumes no more threads than had called `Wait` before it, so that it ends. -/
  ends : ∀ n, (R.resumes.filter (·.tick = n)).length ≤ (R.calledBefore n).length

/-- What may happen. -/
inductive Step : Roster → Roster → Prop
  | start (R : Roster) :
    Step R { R with running := R.threads :: R.running, threads := R.threads + 1 }
  | stop (R : Roster) (t : Thread) (l : List Thread) (h : R.running = t :: l) :
    Step R { R with running := l }
  | sleep (R : Roster) (t : Thread) (l : List Thread) (h : R.running = t :: l) (delay : ℕ)
    (l₁ l₂ : List (ℕ × Sleeper)) (hl : R.asleep = l₁ ++ l₂)
    (hle : ∀ x ∈ l₁, x.1 ≤ R.clock + delay) (hgt : ∀ x ∈ l₂, R.clock + delay < x.1)
    (hpos : R.inTick = true → 0 < delay) :
    Step R { R with
      running := l
      asleep := l₁ ++ (R.clock + delay, ⟨t, R.waits.length⟩) :: l₂
      waits := R.waits ++ [⟨t, R.clock, delay, R.ticks.length⟩] }
  | beginTick (R : Roster) (elapsed : ℕ) (h : R.inTick = false) :
    Step R { R with
      clock := R.clock + elapsed
      ticks := R.ticks ++ [R.clock + elapsed]
      inTick := true }
  | resume (R : Roster) (key : ℕ) (e : Sleeper) (l : List (ℕ × Sleeper)) (h : R.inTick = true)
    (hl : R.asleep = (key, e) :: l) (hdue : key ≤ R.clock) :
    Step R { R with
      asleep := l
      running := e.thread :: R.running
      resumes := R.resumes ++ [⟨e.wait, e.thread, R.ticks.length - 1⟩] }
  | endTick (R : Roster) (h : R.inTick = true) (hlate : ∀ x ∈ R.asleep, R.clock < x.1) :
    Step R { R with inTick := false }

/-- The invariant of the steps. -/
structure Sound (R : Roster) : Prop where
  /-- The clock stands at the last Tick. -/
  last : ∀ n t, R.ticks[n]? = some t → n + 1 = R.ticks.length → t = R.clock
  begun : R.inTick = true → 0 < R.ticks.length
  sorted : R.asleep.Pairwise fun x y => DueFirst (x.1, x.2.wait) (y.1, y.2.wait)
  wake : ∀ x ∈ R.asleep, x.2.wait < R.waits.length ∧ (R.call x.2.wait).thread = x.2.thread ∧
    (R.call x.2.wait).wake = x.1
  covered : ∀ i < R.waits.length, (∃ r ∈ R.resumes, r.wait = i) ∨ ∃ x ∈ R.asleep, x.2.wait = i
  unanswered : ∀ x ∈ R.asleep, ∀ r ∈ R.resumes, r.wait ≠ x.2.wait
  threadsNodup : (R.running ++ R.asleep.map (·.2.thread)).Nodup
  threadsLt : ∀ t ∈ R.running ++ R.asleep.map (·.2.thread), t < R.threads
  /-- The Ticks that are over came too early for those who are still asleep. -/
  late : ∀ x ∈ R.asleep, ∀ n t, (R.call x.2.wait).tick ≤ n → R.ticks[n]? = some t → R.Over n →
    t < x.1
  /-- Who falls asleep in a Tick is not due in it. -/
  fresh : R.inTick = true → ∀ x ∈ R.asleep, (R.call x.2.wait).tick = R.ticks.length → R.clock < x.1
  waitTick : ∀ i < R.waits.length, (R.call i).tick ≤ R.ticks.length
  tickLt : ∀ r ∈ R.resumes, r.tick < R.ticks.length
  /-- Who is still asleep in a Tick comes after those it has resumed, and is due only if it is not
  one of them. -/
  current : R.inTick = true → ∀ r ∈ R.resumes, r.tick + 1 = R.ticks.length → ∀ x ∈ R.asleep,
    DueFirst (R.place r.wait) (x.1, x.2.wait) ∧ (x.2.thread = r.thread → R.clock < x.1)
  once : (R.resumes.map Resume.wait).Nodup
  first : ∀ r ∈ R.resumes, r.wait < R.waits.length ∧ (R.call r.wait).thread = r.thread ∧
    R.IsFirst (R.call r.wait) r.tick
  order : R.resumes.Pairwise fun r r' =>
    r.tick = r'.tick → DueFirst (R.place r.wait) (R.place r'.wait)
  apart : R.resumes.Pairwise fun r r' => r.tick = r'.tick → r.thread ≠ r'.thread

/-! ## What the history keeps -/

section History

variable {R R' : Roster}

theorem call_append {w : WaitCall} (h : R'.waits = R.waits ++ [w]) {i : ℕ}
    (hi : i < R.waits.length) : R'.call i = R.call i := by
  unfold call
  rw [h]
  exact List.getD_append _ _ _ _ hi

theorem call_new {w : WaitCall} (h : R'.waits = R.waits ++ [w]) : R'.call R.waits.length = w := by
  unfold call
  rw [h, List.getD_append_right _ _ _ _ le_rfl]
  simp

theorem isFirst_append {t : ℕ} (h : R'.ticks = R.ticks ++ [t]) {w : WaitCall} {n : ℕ}
    (hn : n < R.ticks.length) : R'.IsFirst w n ↔ R.IsFirst w n := by
  have hget : ∀ m, m ≤ n → R'.ticks[m]? = R.ticks[m]? := fun m hm => by
    rw [h, List.getElem?_append_left (by omega)]
  unfold IsFirst
  rw [hget n le_rfl]
  refine and_congr_right fun _ => and_congr_right fun _ => ?_
  refine forall_congr' fun m => forall_congr' fun u => forall_congr' fun _ => ?_
  refine forall_congr' fun hm => ?_
  rw [hget m hm.le]

end History

/-! ## The steps -/

section Steps

variable {R : Roster}

theorem Sound.start (h : R.Sound) :
    Sound { R with running := R.threads :: R.running, threads := R.threads + 1 } :=
  { h with
    threadsNodup := by
      refine List.nodup_cons.mpr ⟨fun hmem => ?_, h.threadsNodup⟩
      exact Nat.lt_irrefl _ (h.threadsLt _ hmem)
    threadsLt := by
      intro t ht
      rcases List.mem_cons.mp ht with rfl | ht
      · exact Nat.lt_succ_self _
      · exact Nat.lt_succ_of_lt (h.threadsLt t ht) }

theorem Sound.stop (h : R.Sound) {t : Thread} {l : List Thread} (hl : R.running = t :: l) :
    Sound { R with running := l } :=
  { h with
    threadsNodup := by
      have hnodup := h.threadsNodup
      rw [hl] at hnodup
      exact (List.nodup_cons.mp hnodup).2
    threadsLt := by
      intro u hu
      refine h.threadsLt u ?_
      rw [hl]
      exact List.mem_cons_of_mem t hu }

theorem Sound.sleep (h : R.Sound) {t : Thread} {l : List Thread} (hrun : R.running = t :: l)
    {delay : ℕ} {l₁ l₂ : List (ℕ × Sleeper)} (hl : R.asleep = l₁ ++ l₂)
    (hle : ∀ x ∈ l₁, x.1 ≤ R.clock + delay) (hgt : ∀ x ∈ l₂, R.clock + delay < x.1)
    (hpos : R.inTick = true → 0 < delay) :
    Sound { R with
      running := l
      asleep := l₁ ++ (R.clock + delay, ⟨t, R.waits.length⟩) :: l₂
      waits := R.waits ++ [⟨t, R.clock, delay, R.ticks.length⟩] } := by
  set R' : Roster := { R with
    running := l
    asleep := l₁ ++ (R.clock + delay, ⟨t, R.waits.length⟩) :: l₂
    waits := R.waits ++ [⟨t, R.clock, delay, R.ticks.length⟩] } with hR'
  have hwaits : R'.waits = R.waits ++ [⟨t, R.clock, delay, R.ticks.length⟩] := rfl
  have hlength : R'.waits.length = R.waits.length + 1 := by simp [hR']
  have hold : ∀ {i}, i < R.waits.length → R'.call i = R.call i := call_append hwaits
  have hnew : R'.call R.waits.length = ⟨t, R.clock, delay, R.ticks.length⟩ := call_new hwaits
  have hasleep : ∀ x ∈ R'.asleep,
      x = (R.clock + delay, ⟨t, R.waits.length⟩) ∨ x ∈ R.asleep := by
    intro x hx
    rw [hl]
    simp only [hR', List.mem_append, List.mem_cons] at hx ⊢
    tauto
  have hcall : ∀ x ∈ R.asleep, R'.call x.2.wait = R.call x.2.wait := fun x hx =>
    hold (h.wake x hx).1
  have hcallr : ∀ r ∈ R.resumes, R'.call r.wait = R.call r.wait := fun r hr =>
    hold (h.first r hr).1
  have hplace : ∀ r ∈ R.resumes, R'.place r.wait = R.place r.wait := fun r hr => by
    unfold place
    rw [hcallr r hr]
  have hperm : (l ++ R'.asleep.map (·.2.thread)).Perm
      (R.running ++ R.asleep.map (·.2.thread)) := by
    have hmap : l ++ R'.asleep.map (·.2.thread) =
        (l ++ l₁.map (·.2.thread)) ++ t :: l₂.map (·.2.thread) := by simp [hR']
    have hmap' : R.running ++ R.asleep.map (·.2.thread) =
        t :: ((l ++ l₁.map (·.2.thread)) ++ l₂.map (·.2.thread)) := by simp [hrun, hl]
    rw [hmap, hmap']
    exact List.perm_middle
  exact
    { last := h.last
      begun := h.begun
      sorted := by
        have hsorted := h.sorted
        rw [hl] at hsorted
        obtain ⟨h₁, h₂, h₁₂⟩ := List.pairwise_append.mp hsorted
        refine List.pairwise_append.mpr ⟨h₁, List.pairwise_cons.mpr ⟨?_, h₂⟩, ?_⟩
        · exact fun x hx => .inl (hgt x hx)
        · intro x hx y hy
          rcases List.mem_cons.mp hy with rfl | hy
          · have hwait := (h.wake x (hl ▸ List.mem_append_left l₂ hx)).1
            rcases (hle x hx).lt_or_eq with hlt | heq
            · exact .inl hlt
            · exact .inr ⟨heq, hwait⟩
          · exact h₁₂ x hx y hy
      wake := by
        intro x hx
        rcases hasleep x hx with rfl | hx
        · rw [hnew, hlength]
          exact ⟨Nat.lt_succ_self _, rfl, rfl⟩
        · rw [hcall x hx, hlength]
          exact ⟨Nat.lt_succ_of_lt (h.wake x hx).1, (h.wake x hx).2⟩
      covered := by
        intro i hi
        rw [hlength] at hi
        rcases Nat.lt_succ_iff_lt_or_eq.mp hi with hi | rfl
        · rcases h.covered i hi with hr | ⟨x, hx, hxi⟩
          · exact .inl hr
          · refine .inr ⟨x, ?_, hxi⟩
            rw [hl] at hx
            simp only [hR', List.mem_append, List.mem_cons] at hx ⊢
            tauto
        · exact .inr ⟨_, List.mem_append_right _ List.mem_cons_self, rfl⟩
      unanswered := by
        intro x hx r hr
        rcases hasleep x hx with rfl | hx
        · exact (h.first r hr).1.ne
        · exact h.unanswered x hx r hr
      threadsNodup := hperm.nodup_iff.mpr h.threadsNodup
      threadsLt := fun u hu => h.threadsLt u (hperm.subset hu)
      late := by
        intro x hx n u hn hu hover
        rcases hasleep x hx with rfl | hx
        · rw [hnew] at hn
          exact absurd hover.1 (Nat.not_lt.mpr hn)
        · rw [hcall x hx] at hn
          exact h.late x hx n u hn hu hover
      fresh := by
        intro hin x hx htick
        rcases hasleep x hx with rfl | hx
        · exact Nat.lt_add_of_pos_right (hpos hin)
        · rw [hcall x hx] at htick
          exact h.fresh hin x hx htick
      waitTick := by
        intro i hi
        rw [hlength] at hi
        rcases Nat.lt_succ_iff_lt_or_eq.mp hi with hi | rfl
        · rw [hold hi]
          exact h.waitTick i hi
        · rw [hnew]
      tickLt := h.tickLt
      current := by
        intro hin r hr htick x hx
        rw [hplace r hr]
        rcases hasleep x hx with rfl | hx
        · obtain ⟨-, -, -, ⟨u, hu, hwake⟩, -⟩ := h.first r hr
          have hclock : u = R.clock := h.last r.tick u hu htick
          have hlt : R.clock < R.clock + delay := Nat.lt_add_of_pos_right (hpos hin)
          exact ⟨.inl (lt_of_le_of_lt (hclock ▸ hwake) hlt), fun _ => hlt⟩
        · exact h.current hin r hr htick x hx
      once := h.once
      first := by
        intro r hr
        rw [hcallr r hr, hlength]
        exact ⟨Nat.lt_succ_of_lt (h.first r hr).1, (h.first r hr).2⟩
      order := by
        refine h.order.imp_of_mem fun {r r'} hr hr' hlt htick => ?_
        rw [hplace r hr, hplace r' hr']
        exact hlt htick
      apart := h.apart }

theorem Sound.beginTick (h : R.Sound) (elapsed : ℕ) (hin : R.inTick = false) :
    Sound { R with
      clock := R.clock + elapsed
      ticks := R.ticks ++ [R.clock + elapsed]
      inTick := true } := by
  set R' : Roster := { R with
    clock := R.clock + elapsed
    ticks := R.ticks ++ [R.clock + elapsed]
    inTick := true } with hR'
  have hlength : R'.ticks.length = R.ticks.length + 1 := by simp [hR']
  have hget : ∀ n < R.ticks.length, R'.ticks[n]? = R.ticks[n]? := fun n hn =>
    List.getElem?_append_left hn
  exact
    { h with
      last := by
        intro n t ht hn
        obtain rfl : n = R.ticks.length := by omega
        have hlast : R'.ticks[R.ticks.length]? = some (R.clock + elapsed) :=
          List.getElem?_concat_length
        exact Option.some.inj (ht.symm.trans hlast)
      begun := fun _ => by omega
      late := by
        intro x hx n t hn ht hover
        have hlt : n < R.ticks.length := by
          have := hover.2 rfl
          omega
        rw [hget n hlt] at ht
        exact h.late x hx n t hn ht ⟨hlt, fun hin' => by rw [hin] at hin'; cases hin'⟩
      fresh := by
        intro _ x hx htick
        have hle := h.waitTick x.2.wait (h.wake x hx).1
        have heq : (R.call x.2.wait).tick = R.ticks.length + 1 := htick.trans hlength
        omega
      waitTick := fun i hi => by
        rw [hlength]
        exact (h.waitTick i hi).trans (Nat.le_succ _)
      tickLt := fun r hr => by
        rw [hlength]
        exact Nat.lt_succ_of_lt (h.tickLt r hr)
      current := by
        intro _ r hr htick
        have hlt := h.tickLt r hr
        omega
      first := by
        intro r hr
        obtain ⟨hwait, hthread, hfirst⟩ := h.first r hr
        exact ⟨hwait, hthread, (isFirst_append rfl (h.tickLt r hr)).mpr hfirst⟩ }

theorem Sound.resume (h : R.Sound) {key : ℕ} {e : Sleeper} {l : List (ℕ × Sleeper)}
    (hin : R.inTick = true) (hl : R.asleep = (key, e) :: l) (hdue : key ≤ R.clock) :
    Sound { R with
      asleep := l
      running := e.thread :: R.running
      resumes := R.resumes ++ [⟨e.wait, e.thread, R.ticks.length - 1⟩] } := by
  have hself : (key, e) ∈ R.asleep := by simp [hl]
  have hsub : ∀ x ∈ l, x ∈ R.asleep := fun x hx => by simp [hl, hx]
  obtain ⟨hwait, hthread, hwake⟩ := h.wake _ hself
  have hpos := h.begun hin
  have hplace : R.place e.wait = (key, e.wait) := Prod.ext hwake rfl
  have hsorted := h.sorted
  rw [hl] at hsorted
  obtain ⟨hbefore, hsortedl⟩ := List.pairwise_cons.mp hsorted
  have hperm : (e.thread :: R.running ++ l.map (·.2.thread)).Perm
      (R.running ++ R.asleep.map (·.2.thread)) := by
    rw [hl, List.map_cons]
    exact List.perm_middle.symm
  -- the Tick is the first one that finds the sleep over
  have hfirst : R.IsFirst (R.call e.wait) (R.ticks.length - 1) := by
    have htick : (R.call e.wait).tick ≤ R.ticks.length - 1 := by
      have hle := h.waitTick e.wait hwait
      have hne : (R.call e.wait).tick ≠ R.ticks.length := fun heq =>
        absurd (h.fresh hin _ hself heq) (Nat.not_lt.mpr hdue)
      omega
    obtain ⟨t, ht⟩ : ∃ t, R.ticks[R.ticks.length - 1]? = some t :=
      ⟨_, List.getElem?_eq_getElem (by omega)⟩
    have hclock : t = R.clock := h.last _ t ht (by omega)
    refine ⟨htick, ⟨t, ht, ?_⟩, fun m u hm hlt hu => ?_⟩
    · rw [hclock, hwake]
      exact hdue
    · rw [hwake]
      exact h.late _ hself m u hm hu ⟨by omega, fun _ => by omega⟩
  exact
    { h with
      sorted := hsortedl
      wake := fun x hx => h.wake x (hsub x hx)
      covered := by
        intro i hi
        rcases h.covered i hi with ⟨r, hr, hri⟩ | ⟨x, hx, hxi⟩
        · exact .inl ⟨r, List.mem_append_left _ hr, hri⟩
        · rw [hl] at hx
          rcases List.mem_cons.mp hx with rfl | hx
          · exact .inl ⟨_, List.mem_append_right _ (List.mem_singleton_self _), hxi⟩
          · exact .inr ⟨x, hx, hxi⟩
      unanswered := by
        intro x hx r hr
        rcases List.mem_append.mp hr with hr | hr
        · exact h.unanswered x (hsub x hx) r hr
        · obtain rfl := List.mem_singleton.mp hr
          intro heq
          have hx' := (h.wake x (hsub x hx)).2.2
          dsimp only at heq
          rw [← heq, hwake] at hx'
          rcases hbefore x hx with hlt | ⟨-, hlt⟩
          · exact absurd hx' hlt.ne
          · exact absurd heq hlt.ne
      threadsNodup := hperm.nodup_iff.mpr h.threadsNodup
      threadsLt := fun u hu => h.threadsLt u (hperm.subset hu)
      late := fun x hx => h.late x (hsub x hx)
      fresh := fun hin x hx => h.fresh hin x (hsub x hx)
      tickLt := by
        intro r hr
        rcases List.mem_append.mp hr with hr | hr
        · exact h.tickLt r hr
        · obtain rfl := List.mem_singleton.mp hr
          exact Nat.sub_one_lt_of_lt hpos
      current := by
        intro _ r hr htick x hx
        rcases List.mem_append.mp hr with hr | hr
        · exact h.current hin r hr htick x (hsub x hx)
        · obtain rfl := List.mem_singleton.mp hr
          refine ⟨?_, fun heq => ?_⟩
          · show DueFirst (R.place e.wait) _
            rw [hplace]
            exact hbefore x hx
          · have hnodup := hperm.nodup_iff.mpr h.threadsNodup
            refine absurd ?_ (List.nodup_cons.mp hnodup).1
            exact List.mem_append_right _ (List.mem_map.mpr ⟨x, hx, heq⟩)
      once := by
        rw [List.map_append]
        refine List.nodup_append.mpr ⟨h.once, List.nodup_singleton _, ?_⟩
        intro i hi j hj
        obtain ⟨r, hr, rfl⟩ := List.mem_map.mp hi
        obtain rfl := List.mem_singleton.mp hj
        exact h.unanswered _ hself r hr
      first := by
        intro r hr
        rcases List.mem_append.mp hr with hr | hr
        · exact h.first r hr
        · obtain rfl := List.mem_singleton.mp hr
          exact ⟨hwait, hthread, hfirst⟩
      order := by
        refine List.pairwise_append.mpr ⟨h.order, List.pairwise_singleton _ _, ?_⟩
        intro r hr r' hr' htick
        obtain rfl := List.mem_singleton.mp hr'
        show DueFirst (R.place r.wait) (R.place e.wait)
        rw [hplace]
        dsimp only at htick
        exact (h.current hin r hr (by omega) _ hself).1
      apart := by
        refine List.pairwise_append.mpr ⟨h.apart, List.pairwise_singleton _ _, ?_⟩
        intro r hr r' hr' htick heq
        obtain rfl := List.mem_singleton.mp hr'
        dsimp only at htick heq
        have hlate := (h.current hin r hr (by omega) _ hself).2 heq.symm
        exact absurd hlate (Nat.not_lt.mpr hdue) }

theorem Sound.endTick (h : R.Sound) (hlate : ∀ x ∈ R.asleep, R.clock < x.1) :
    Sound { R with inTick := false } :=
  { h with
    begun := fun hin => by cases hin
    late := by
      intro x hx n t hn ht hover
      by_cases hlast : n + 1 = R.ticks.length
      · rw [h.last n t ht hlast]
        exact hlate x hx
      · have hlt : n < R.ticks.length := hover.1
        exact h.late x hx n t hn ht ⟨hlt, fun _ => by omega⟩
    fresh := fun hin => by cases hin
    current := fun hin => by cases hin }

/-- Every step keeps a roster sound. -/
theorem Sound.step {R' : Roster} (h : R.Sound) (hstep : Step R R') : R'.Sound := by
  cases hstep with
  | start => exact h.start
  | stop t l hl => exact h.stop hl
  | sleep t l hrun delay l₁ l₂ hl hle hgt hpos => exact h.sleep hrun hl hle hgt hpos
  | beginTick elapsed hin => exact h.beginTick elapsed hin
  | resume key e l hin hl hdue => exact h.resume hin hl hdue
  | endTick hin hlate => exact h.endTick hlate

theorem Sound.steps {R' : Roster} (h : R.Sound) (hsteps : Relation.ReflTransGen Step R R') :
    R'.Sound := by
  induction hsteps with
  | refl => exact h
  | tail _ hstep ih => exact ih.step hstep

end Steps

/-- A sound roster does what is asked of a scheduler. -/
theorem Sound.scheduled {R : Roster} (h : R.Sound) : R.Scheduled DueFirst where
  once := h.once
  first := h.first
  served := by
    rintro i hi n ⟨htick, ⟨t, ht, hwake⟩, -⟩ hover
    rcases h.covered i hi with hr | ⟨x, hx, rfl⟩
    · exact hr
    · have hlate := h.late x hx n t htick ht hover
      rw [(h.wake x hx).2.2] at hwake
      exact absurd hwake (Nat.not_le.mpr hlate)
  order := h.order
  apart := h.apart
  ends := by
    intro n
    rw [← List.length_map (f := Resume.wait)]
    refine List.Subperm.length_le (List.subperm_of_subset ?_ fun i hi => ?_)
    · exact h.once.sublist (List.filter_sublist.map _)
    · obtain ⟨r, hr, rfl⟩ := List.mem_map.mp hi
      obtain ⟨hr, htick⟩ := List.mem_filter.mp hr
      obtain ⟨hwait, -, hle, -⟩ := h.first r hr
      have hn : r.tick = n := by simpa using htick
      refine List.mem_filter.mpr ⟨List.mem_range.mpr hwait, decide_eq_true ?_⟩
      rw [← hn]
      exact hle

end Roster

end DreamDota
