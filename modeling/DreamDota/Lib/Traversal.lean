import DreamDota.Lib.Run
import Mathlib.Data.List.Nodup
import Mathlib.Data.List.TakeWhile

/-!
# Traversing a list that the visits edit

A pass goes through a linked list with an iterator that it moves on before each visit. The visits
may erase any items and append new ones. `step` is one turn of that loop, `turns` what the loop is
meant to do: every item of the start has its turn, in order, and is visited if it is still there.

1. `Sim`: the pass and the items whose turn is still to come.
2. `ok_iff`: the two agree if and only if the item after each visited one is an item of the start,
   and the visit leaves it in the list.
-/

namespace Traversal

variable {σ α : Type*}

/-- A list in a state, and what the `k`-th visit of a pass does to the state. -/
structure Visitor (σ α : Type*) where
  items : σ → List α
  visit : ℕ → α → σ → σ

structure Pass (σ α : Type*) where
  state : σ
  /-- The item under the iterator, unless it is at the end. -/
  cursor : Option α
  visited : List α
  /-- The iterator was followed to an erased item. -/
  fault : Bool

variable [DecidableEq α]

/-- The items from an item on. -/
def onward (l : List α) (a : α) : List α := l.dropWhile (· ≠ a)

theorem onward_split {l₁ l₂ : List α} {a : α} (h : a ∉ l₁) :
    onward (l₁ ++ a :: l₂) a = a :: l₂ := by
  have hpass : ∀ x ∈ l₁, decide (x ≠ a) = true := by
    intro x hx
    exact decide_eq_true fun hxa => h (hxa ▸ hx)
  rw [onward, List.dropWhile_append_of_pos hpass]
  simp

theorem onward_of_not_mem {l : List α} {a : α} (h : a ∉ l) : onward l a = [] := by
  rw [onward, List.dropWhile_eq_nil_iff]
  intro x hx
  exact decide_eq_true fun hxa => h (hxa ▸ hx)

theorem onward_of_mem {l : List α} {a : α} (h : a ∈ l) : ∃ rest, onward l a = a :: rest := by
  obtain ⟨l₁, l₂, rfl, hl₁⟩ := List.eq_append_cons_of_mem h
  exact ⟨l₂, onward_split hl₁⟩

namespace Visitor

variable (v : Visitor σ α)

def start (s : σ) : Pass σ α := ⟨s, (v.items s).head?, [], false⟩

def step (p : Pass σ α) : Pass σ α :=
  match p.cursor with
  | none => p
  | some a =>
    match onward (v.items p.state) a with
    | [] => { p with fault := true }
    | b :: rest =>
      { p with
        state := v.visit p.visited.length b p.state
        cursor := rest.head?
        visited := p.visited ++ [b] }

/-- The item after the one under the iterator. -/
def successor (p : Pass σ α) : Option α :=
  p.cursor.bind fun a => (onward (v.items p.state) a).tail.head?

/-- Every item of the start has its turn. -/
def turns : List α → σ → List α → σ × List α
  | [], s, visited => (s, visited)
  | a :: as, s, visited =>
    if a ∈ v.items s then turns as (v.visit visited.length a s) (visited ++ [a])
    else turns as s visited

/-- The pass ends, follows no iterator to an erased item and gives every item its turn. -/
def Ok (s : σ) : Prop :=
  ∃ N, (v.step^[N] (v.start s)).cursor = none ∧ (v.step^[N] (v.start s)).fault = false ∧
    ((v.step^[N] (v.start s)).state, (v.step^[N] (v.start s)).visited) = v.turns (v.items s) s []

/-- The next item is one of the start, and the visit leaves it in the list. -/
def Guarded (S : List α) (p : Pass σ α) : Prop :=
  ∀ b ∈ v.successor p, b ∈ S ∧ b ∈ v.items (v.step p).state

instance (S : List α) (p : Pass σ α) : Decidable (v.Guarded S p) :=
  match h : v.successor p with
  | none => isTrue (by simp [Guarded, h])
  | some b => decidable_of_iff (b ∈ S ∧ b ∈ v.items (v.step p).state) (by simp [Guarded, h])

/-! ## The turns -/

variable {v}

theorem turns_skip {as : List α} {s : σ} (h : ∀ a ∈ as, a ∉ v.items s) (bs visited : List α) :
    v.turns (as ++ bs) s visited = v.turns bs s visited := by
  induction as with
  | nil => rfl
  | cons a as ih =>
    rw [List.cons_append, turns, if_neg (h a List.mem_cons_self)]
    exact ih fun b hb => h b (List.mem_cons_of_mem a hb)

/-- The visits go through a part of the start in its order. -/
theorem turns_visited (as : List α) (s : σ) (visited : List α) :
    ∃ part, part.Sublist as ∧ (v.turns as s visited).2 = visited ++ part := by
  induction as generalizing s visited with
  | nil => exact ⟨[], .slnil, by simp [turns]⟩
  | cons a as ih =>
    unfold turns
    split_ifs
    · obtain ⟨part, hpart, heq⟩ := ih (v.visit visited.length a s) (visited ++ [a])
      exact ⟨a :: part, hpart.cons_cons a, by rw [heq, List.append_assoc]; rfl⟩
    · obtain ⟨part, hpart, heq⟩ := ih s visited
      exact ⟨part, hpart.cons a, heq⟩

/-! ## The steps -/

theorem step_end {p : Pass σ α} (h : p.cursor = none) : v.step p = p := by
  unfold step
  rw [h]

theorem step_dangling {p : Pass σ α} {a : α} (h : p.cursor = some a)
    (ha : a ∉ v.items p.state) : v.step p = { p with fault := true } := by
  unfold step
  rw [h]
  dsimp only
  rw [onward_of_not_mem ha]

theorem step_visit {p : Pass σ α} {a : α} {rest : List α} (h : p.cursor = some a)
    (ha : onward (v.items p.state) a = a :: rest) :
    v.step p = { p with
      state := v.visit p.visited.length a p.state
      cursor := rest.head?
      visited := p.visited ++ [a] } := by
  unfold step
  rw [h]
  dsimp only
  rw [ha]

theorem successor_eq {p : Pass σ α} {a : α} {rest : List α} (h : p.cursor = some a)
    (ha : onward (v.items p.state) a = a :: rest) : v.successor p = rest.head? := by
  unfold successor
  rw [h, Option.bind_some, ha, List.tail_cons]

/-- A pass does not get away from an erased item. -/
theorem stuck {p : Pass σ α} {a : α} (h : p.cursor = some a) (ha : a ∉ v.items p.state) (n : ℕ) :
    (v.step^[n] p).cursor = some a := by
  have key : (v.step^[n] p).cursor = some a ∧ a ∉ v.items (v.step^[n] p).state := by
    refine Run.invariant (I := fun p : Pass σ α => p.cursor = some a ∧ a ∉ v.items p.state) ?_
      ⟨h, ha⟩ n
    rintro q ⟨hq, haq⟩
    rw [step_dangling hq haq]
    exact ⟨hq, haq⟩
  exact key.1

theorem mem_visited_step {p : Pass σ α} {a : α} (h : a ∈ p.visited) :
    a ∈ (v.step p).visited := by
  cases hc : p.cursor with
  | none => rwa [step_end hc]
  | some b =>
    by_cases hb : b ∈ v.items p.state
    · obtain ⟨rest, hrest⟩ := onward_of_mem hb
      rw [step_visit hc hrest]
      exact List.mem_append_left [b] h
    · rw [step_dangling hc hb]
      exact h

/-! ## A pass that ends well -/

/-- The pass ends and visits no items but those of the start. -/
def Ends (v : Visitor σ α) (S : List α) (p : Pass σ α) : Prop :=
  ∃ N, (v.step^[N] p).cursor = none ∧ ∀ b ∈ (v.step^[N] p).visited, b ∈ S

variable {S : List α} {p : Pass σ α}

theorem Ends.step (h : v.Ends S p) : v.Ends S (v.step p) := by
  obtain ⟨N, hend, hvisited⟩ := h
  have hlast : v.step^[N] (v.step p) = v.step^[N] p := by
    rw [← Function.iterate_succ_apply, Run.succ, step_end hend]
  refine ⟨N, ?_, ?_⟩
  · rwa [hlast]
  · rwa [hlast]

theorem Ends.mem_start {a : α} (h : v.Ends S p) (ha : a ∈ p.visited) : a ∈ S := by
  obtain ⟨N, -, hvisited⟩ := h
  exact hvisited a
    (Run.invariant (I := fun p : Pass σ α => a ∈ p.visited) (fun _ => mem_visited_step) ha N)

/-- A pass that ends is never at an erased item. -/
theorem Ends.mem_items {a : α} (h : v.Ends S p) (hc : p.cursor = some a) :
    a ∈ v.items p.state := by
  by_contra ha
  obtain ⟨N, hend, -⟩ := h
  rw [stuck hc ha N] at hend
  cases hend

theorem Ends.guarded (h : v.Ends S p) : v.Guarded S p := by
  intro b hb
  cases hc : p.cursor with
  | none => simp [successor, hc] at hb
  | some a =>
    obtain ⟨rest, hrest⟩ := onward_of_mem (h.mem_items hc)
    rw [successor_eq hc hrest] at hb
    have hcursor : (v.step p).cursor = some b := by
      rw [step_visit hc hrest]
      exact hb
    have hmem : b ∈ v.items (v.step p).state := h.step.mem_items hcursor
    refine ⟨?_, hmem⟩
    obtain ⟨rest', hrest'⟩ := onward_of_mem hmem
    refine h.step.step.mem_start ?_
    rw [step_visit hcursor hrest']
    exact List.mem_append_right _ (List.mem_singleton_self b)

theorem Ok.ends {s : σ} (h : v.Ok s) : v.Ends (v.items s) (v.start s) := by
  obtain ⟨N, hend, -, hturns⟩ := h
  refine ⟨N, hend, fun b hb => ?_⟩
  obtain ⟨part, hpart, heq⟩ := turns_visited (v := v) (v.items s) s []
  rw [← hturns, List.nil_append] at heq
  dsimp only at heq
  rw [heq] at hb
  exact hpart.subset hb

/-- Every step of a pass that ends well meets the guard. -/
theorem Ok.guarded {s : σ} (h : v.Ok s) (n : ℕ) :
    v.Guarded (v.items s) (v.step^[n] (v.start s)) :=
  Ends.guarded (Run.invariant (fun _ hp => hp.step) h.ends n)

end Visitor

/-! ## What a visit may do -/

/-- Some of the items are left, and the appended ones are not of the start. -/
def Edits (S l l' : List α) : Prop :=
  ∃ kept added, l' = kept ++ added ∧ kept.Sublist l ∧ ∀ x ∈ added, x ∉ S

/-- Some items of the start in their order, and then items that are not of the start. -/
def Parts (S l : List α) : Prop :=
  ∃ old new, l = old ++ new ∧ old.Sublist S ∧ ∀ x ∈ new, x ∉ S

omit [DecidableEq α]

variable {S l l' : List α}

theorem Parts.edit (h : Parts S l) (he : Edits S l l') : Parts S l' := by
  obtain ⟨old, new, rfl, hold, hnew⟩ := h
  obtain ⟨kept, added, rfl, hkept, hadded⟩ := he
  obtain ⟨kept₁, kept₂, rfl, h₁, h₂⟩ := List.sublist_append_iff.mp hkept
  refine ⟨kept₁, kept₂ ++ added, List.append_assoc _ _ _, h₁.trans hold, fun x hx => ?_⟩
  rcases List.mem_append.mp hx with hx | hx
  · exact hnew x (h₂.subset hx)
  · exact hadded x hx

theorem Edits.not_mem {x : α} (he : Edits S l l') (hS : x ∈ S) (hx : x ∉ l) : x ∉ l' := by
  obtain ⟨kept, added, rfl, hkept, hadded⟩ := he
  rintro hmem
  rcases List.mem_append.mp hmem with h | h
  · exact hx (hkept.subset h)
  · exact hadded x h hS

theorem Edits.refl (S l : List α) : Edits S l l := ⟨l, [], by simp, .refl l, by simp⟩

theorem Edits.trans {l₁ l₂ l₃ : List α} (h : Edits S l₁ l₂) (h' : Edits S l₂ l₃) :
    Edits S l₁ l₃ := by
  obtain ⟨kept, added, rfl, hkept, hadded⟩ := h
  obtain ⟨kept', added', rfl, hkept', hadded'⟩ := h'
  obtain ⟨kept₁, kept₂, rfl, h₁, h₂⟩ := List.sublist_append_iff.mp hkept'
  refine ⟨kept₁, kept₂ ++ added', List.append_assoc _ _ _, h₁.trans hkept, fun x hx => ?_⟩
  rcases List.mem_append.mp hx with hx | hx
  · exact hadded x (h₂.subset hx)
  · exact hadded' x hx

/-- The items before and after one of the start. -/
theorem Parts.split {pre rest : List α} {a : α} (h : Parts S l) (hS : S = pre ++ a :: rest)
    (hnodup : S.Nodup) (ha : a ∈ l) :
    ∃ l₁ old new, l = l₁ ++ a :: (old ++ new) ∧ (∀ x ∈ l₁, x ∈ pre) ∧ old.Sublist rest ∧
      ∀ x ∈ new, x ∉ S := by
  obtain ⟨all, new, rfl, hall, hnew⟩ := h
  have hmem : a ∈ all := by
    refine (List.mem_append.mp ha).resolve_right fun h => hnew a h ?_
    simp [hS]
  subst hS
  have hother : a ∉ pre ++ rest := (List.nodup_cons.mp (List.nodup_middle.mp hnodup)).1
  obtain ⟨l₁, k, rfl, hl₁, hk⟩ := List.sublist_append_iff.mp hall
  have hak : a ∈ k := (List.mem_append.mp hmem).resolve_left fun h =>
    hother (List.mem_append_left rest (hl₁.subset h))
  rcases List.sublist_cons_iff.mp hk with hk | ⟨old, rfl, hold⟩
  · exact absurd (List.mem_append_right pre (hk.subset hak)) hother
  · exact ⟨l₁, old, new, by simp, fun x hx => hl₁.subset hx, hold, hnew⟩

/-- The items of the start that are passed over have left the list. -/
theorem Parts.skip {pre rest l₁ old new : List α} {a b : α} (hS : (pre ++ a :: rest).Nodup)
    (hl₁ : ∀ x ∈ l₁, x ∈ pre) (hold : old.Sublist rest) (hnew : ∀ x ∈ new, x ∉ pre ++ a :: rest)
    (hb : (old ++ new).head? = some b) (hbS : b ∈ pre ++ a :: rest) :
    ∃ skipped rest', rest = skipped ++ b :: rest' ∧
      ∀ x ∈ skipped, x ∉ l₁ ++ a :: (old ++ new) := by
  cases old with
  | nil => exact absurd hbS (hnew b (List.mem_of_mem_head? hb))
  | cons c old =>
    obtain rfl : c = b := by simpa using hb
    obtain ⟨r₁, r₂, rfl, hc, hold₂⟩ := List.cons_sublist_iff.mp hold
    obtain ⟨skipped, r, rfl, hskip⟩ := List.eq_append_cons_of_mem hc
    refine ⟨skipped, r ++ r₂, by simp, fun x hx hmem => ?_⟩
    have hpre := List.disjoint_of_nodup_append hS
    have ha : a ∉ skipped ++ c :: r ++ r₂ := (List.nodup_cons.mp hS.of_append_right).1
    have hrest : (skipped ++ (c :: r ++ r₂)).Nodup := by
      simpa using (List.nodup_cons.mp hS.of_append_right).2
    have hlater := List.disjoint_of_nodup_append hrest
    have hxS : x ∈ a :: (skipped ++ c :: r ++ r₂) := by simp [hx]
    rcases List.mem_append.mp hmem with hmem | hmem
    · exact hpre (hl₁ x hmem) hxS
    · rcases List.mem_cons.mp hmem with rfl | hmem
      · exact ha (by simp [hx])
      · rcases List.mem_append.mp hmem with hmem | hmem
        · refine hlater hx ?_
          rcases List.mem_cons.mp hmem with rfl | hmem
          · simp
          · simp [hold₂.subset hmem]
        · exact hnew x hmem (List.mem_append_right pre hxS)

/-! ## The guarded passes -/

namespace Visitor

variable [DecidableEq α] {v : Visitor σ α} {p : Pass σ α} {rest : List α} {I : σ → Prop}

/-- The pass keeps the turns: `rest` are the items of the start whose turn is still to come. -/
structure Sim (v : Visitor σ α) (S : List α) (p : Pass σ α) (rest : List α) : Prop where
  suffix : rest <:+ S
  parts : Parts S (v.items p.state)
  fault : p.fault = false
  atEnd : p.cursor = none → ∀ x ∈ rest, x ∉ v.items p.state
  atItem : ∀ a, p.cursor = some a → a ∈ v.items p.state ∧ ∃ rest', rest = a :: rest'

/-- A step of a guarded pass is a turn, and maybe the turns of some items that are gone. -/
theorem Sim.step {a : α} (h : v.Sim S p rest) (hS : S.Nodup) (hc : p.cursor = some a)
    (he : Edits S (v.items p.state) (v.items (v.visit p.visited.length a p.state)))
    (hQ : v.Guarded S p) :
    ∃ rest', v.Sim S (v.step p) rest' ∧ rest'.length < rest.length ∧
      v.turns rest' (v.step p).state (v.step p).visited = v.turns rest p.state p.visited := by
  obtain ⟨ha, rest₀, rfl⟩ := h.atItem a hc
  obtain ⟨pre, hpre⟩ := h.suffix
  obtain ⟨l₁, old, new, hl, hl₁, hold, hnew⟩ := h.parts.split hpre.symm hS ha
  subst hpre
  have hother : a ∉ pre ++ rest₀ := (List.nodup_cons.mp (List.nodup_middle.mp hS)).1
  have hal₁ : a ∉ l₁ := fun hmem => hother (List.mem_append_left rest₀ (hl₁ a hmem))
  have honward : onward (v.items p.state) a = a :: (old ++ new) := by
    rw [hl, onward_split hal₁]
  have hstep := step_visit hc honward
  have hturn : v.turns (a :: rest₀) p.state p.visited =
      v.turns rest₀ (v.step p).state (v.step p).visited := by
    rw [turns, if_pos ha, hstep]
  have hparts : Parts (pre ++ a :: rest₀) (v.items (v.step p).state) := by
    rw [hstep]
    exact h.parts.edit he
  have hgone : ∀ x ∈ rest₀, x ∉ v.items p.state → x ∉ v.items (v.step p).state := by
    intro x hx hxl
    rw [hstep]
    exact he.not_mem (by simp [hx]) hxl
  have hnext : (v.step p).cursor = (old ++ new).head? := by rw [hstep]
  have hfault : (v.step p).fault = false := by
    rw [hstep]
    exact h.fault
  cases hb : (old ++ new).head? with
  | none =>
    have hnil : old ++ new = [] := List.head?_eq_none_iff.mp hb
    have hleft : ∀ x ∈ rest₀, x ∉ v.items (v.step p).state := by
      intro x hx
      refine hgone x hx fun hmem => ?_
      rw [hl, hnil] at hmem
      rcases List.mem_append.mp hmem with hmem | hmem
      · exact List.disjoint_of_nodup_append hS (hl₁ x hmem) (List.mem_cons_of_mem a hx)
      · obtain rfl := List.mem_singleton.mp hmem
        exact hother (List.mem_append_right pre hx)
    refine ⟨rest₀, ⟨⟨pre ++ [a], by simp⟩, hparts, hfault, fun _ => hleft, fun b hb' => ?_⟩,
      by simp, hturn.symm⟩
    rw [hnext, hb] at hb'
    cases hb'
  | some b =>
    have hbQ := hQ b (by rw [successor_eq hc honward]; exact hb)
    obtain ⟨skipped, rest', rfl, hskip⟩ := Parts.skip hS hl₁ hold hnew hb hbQ.1
    have hskipped : ∀ x ∈ skipped, x ∉ v.items (v.step p).state := by
      intro x hx
      refine hgone x (by simp [hx]) ?_
      rw [hl]
      exact hskip x hx
    refine ⟨b :: rest', ⟨⟨pre ++ a :: skipped, by simp⟩, hparts, hfault, fun hnone => ?_,
      fun c hb' => ?_⟩, by simp only [List.length_cons, List.length_append]; omega, ?_⟩
    · rw [hnext, hb] at hnone
      cases hnone
    · rw [hnext, hb] at hb'
      obtain rfl : b = c := by simpa using hb'
      exact ⟨hbQ.2, rest', rfl⟩
    · rw [hturn, turns_skip hskipped]

/-- A guarded pass gives every item its turn. -/
theorem Sim.ends (hS : S.Nodup)
    (hvisit : ∀ k a s, I s → I (v.visit k a s) ∧ Edits S (v.items s) (v.items (v.visit k a s)))
    (h : v.Sim S p rest) (hI : I p.state) (hQ : ∀ n, v.Guarded S (v.step^[n] p)) :
    ∃ N, (v.step^[N] p).cursor = none ∧ (v.step^[N] p).fault = false ∧
      ((v.step^[N] p).state, (v.step^[N] p).visited) = v.turns rest p.state p.visited := by
  induction hlen : rest.length using Nat.strong_induction_on generalizing p rest with
  | _ m ih =>
    cases hc : p.cursor with
    | none =>
      refine ⟨0, hc, h.fault, ?_⟩
      have hskip := turns_skip (h.atEnd hc) [] p.visited
      rw [List.append_nil] at hskip
      rw [hskip]
      rfl
    | some a =>
      obtain ⟨hIstep, hedit⟩ := hvisit p.visited.length a p.state hI
      obtain ⟨rest', hsim, hlt, hturns⟩ := h.step hS hc hedit (hQ 0)
      have hIstep' : I (v.step p).state := by
        obtain ⟨l, hl⟩ := onward_of_mem (h.atItem a hc).1
        rw [step_visit hc hl]
        exact hIstep
      obtain ⟨N, hN⟩ := ih _ (hlen ▸ hlt) hsim hIstep' (fun n => hQ (n + 1)) rfl
      refine ⟨N + 1, ?_⟩
      rw [Function.iterate_succ_apply, ← hturns]
      exact hN

omit [DecidableEq α] in
theorem sim_start {s : σ} : v.Sim (v.items s) (v.start s) (v.items s) where
  suffix := List.suffix_rfl
  parts := ⟨v.items s, [], by simp [start], .refl _, by simp⟩
  fault := rfl
  atEnd h := by
    have hnil : v.items s = [] := List.head?_eq_none_iff.mp h
    simp [hnil]
  atItem a h := by
    obtain ⟨rest, hrest⟩ := List.head?_eq_some_iff.mp h
    exact ⟨List.mem_of_mem_head? h, rest, hrest⟩

/-- A pass gives every item its turn if and only if all its steps meet the guard. -/
theorem ok_iff {s : σ} (hS : (v.items s).Nodup) (hI : I s)
    (hvisit : ∀ k a t, I t →
      I (v.visit k a t) ∧ Edits (v.items s) (v.items t) (v.items (v.visit k a t))) :
    v.Ok s ↔ ∀ n, v.Guarded (v.items s) (v.step^[n] (v.start s)) :=
  ⟨fun h n => h.guarded n, fun h => sim_start.ends hS hvisit hI h⟩

end Visitor

end Traversal
