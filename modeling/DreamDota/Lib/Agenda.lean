import Mathlib.Data.List.Perm.Basic
import Mathlib.Data.List.Nodup
import Mathlib.Order.Lattice
import Mathlib.Tactic.Common

/-!
# Agendas

An agenda is an ordered map from times to queues: an entry is put at the end of the queue of its
time, and the queues are served from the front, the earliest time first. `entries` is the whole
agenda in that order. A time without entries is not in the map.

1. `push_perm`, `pairwise_push`: what `push` does to the entries and to their order.
2. `pop_perm`: what `pop` does.
3. `next`: the entry that is served after the front one of a time.
-/

/-- An ordered map from times to queues that are not empty. -/
structure Agenda (κ α : Type*) [LinearOrder κ] where
  toList : List (κ × List α)
  sorted : toList.Pairwise (·.1 < ·.1)
  filled : ∀ q ∈ toList, q.2 ≠ []

namespace Agenda

variable {κ α : Type*} [LinearOrder κ]

instance : EmptyCollection (Agenda κ α) := ⟨⟨[], .nil, fun _ h => by cases h⟩⟩

/-! ## The operations on the list of an agenda -/

/-- An entry goes to the end of the queue of its time. -/
def pushList (k : κ) (a : α) : List (κ × List α) → List (κ × List α)
  | [] => [(k, [a])]
  | (k', l) :: m =>
    if k < k' then (k, [a]) :: (k', l) :: m
    else if k = k' then (k', l ++ [a]) :: m
    else (k', l) :: pushList k a m

/-- The front entry of a time leaves, and the time with its last entry. -/
def popList (k : κ) : List (κ × List α) → List (κ × List α)
  | [] => []
  | (k', l) :: m =>
    if k = k' then
      match l.tail with
      | [] => m
      | b :: l' => (k', b :: l') :: m
    else (k', l) :: popList k m

theorem fst_pushList {k : κ} {a : α} {m : List (κ × List α)} {q : κ × List α}
    (h : q ∈ pushList k a m) : q.1 = k ∨ ∃ q' ∈ m, q'.1 = q.1 := by
  induction m with
  | nil =>
    obtain rfl := List.mem_singleton.mp h
    exact .inl rfl
  | cons p m ih =>
    obtain ⟨k', l⟩ := p
    unfold pushList at h
    split_ifs at h with hlt heq
    · rcases List.mem_cons.mp h with rfl | h
      · exact .inl rfl
      · exact .inr ⟨q, h, rfl⟩
    · rcases List.mem_cons.mp h with rfl | h
      · exact .inl heq.symm
      · exact .inr ⟨q, List.mem_cons_of_mem _ h, rfl⟩
    · rcases List.mem_cons.mp h with rfl | h
      · exact .inr ⟨_, List.mem_cons_self, rfl⟩
      · rcases ih h with h | ⟨q', hq', h⟩
        · exact .inl h
        · exact .inr ⟨q', List.mem_cons_of_mem _ hq', h⟩

theorem fst_popList {k : κ} {m : List (κ × List α)} {q : κ × List α}
    (h : q ∈ popList k m) : ∃ q' ∈ m, q'.1 = q.1 := by
  induction m with
  | nil => cases h
  | cons p m ih =>
    obtain ⟨k', l⟩ := p
    unfold popList at h
    split_ifs at h with heq
    · cases hl : l.tail with
      | nil =>
        rw [hl] at h
        exact ⟨q, List.mem_cons_of_mem _ h, rfl⟩
      | cons b l' =>
        rw [hl] at h
        rcases List.mem_cons.mp h with rfl | h
        · exact ⟨_, List.mem_cons_self, rfl⟩
        · exact ⟨q, List.mem_cons_of_mem _ h, rfl⟩
    · rcases List.mem_cons.mp h with rfl | h
      · exact ⟨_, List.mem_cons_self, rfl⟩
      · obtain ⟨q', hq', h⟩ := ih h
        exact ⟨q', List.mem_cons_of_mem _ hq', h⟩

theorem sorted_pushList {k : κ} {a : α} {m : List (κ × List α)} (h : m.Pairwise (·.1 < ·.1)) :
    (pushList k a m).Pairwise (·.1 < ·.1) := by
  induction m with
  | nil => exact List.pairwise_singleton _ _
  | cons p m ih =>
    obtain ⟨k', l⟩ := p
    obtain ⟨hfirst, hrest⟩ := List.pairwise_cons.mp h
    unfold pushList
    split_ifs with hlt heq
    · refine List.pairwise_cons.mpr ⟨fun q hq => ?_, h⟩
      rcases List.mem_cons.mp hq with rfl | hq
      · exact hlt
      · exact hlt.trans (hfirst q hq)
    · exact List.pairwise_cons.mpr ⟨hfirst, hrest⟩
    · refine List.pairwise_cons.mpr ⟨fun q hq => ?_, ih hrest⟩
      rcases fst_pushList hq with h | ⟨q', hq', h⟩
      · rw [h]
        exact lt_of_le_of_ne (not_lt.mp hlt) (Ne.symm heq)
      · rw [← h]
        exact hfirst q' hq'

theorem sorted_popList {k : κ} {m : List (κ × List α)} (h : m.Pairwise (·.1 < ·.1)) :
    (popList k m).Pairwise (·.1 < ·.1) := by
  induction m with
  | nil => exact .nil
  | cons p m ih =>
    obtain ⟨k', l⟩ := p
    obtain ⟨hfirst, hrest⟩ := List.pairwise_cons.mp h
    unfold popList
    split_ifs with heq
    · cases l.tail with
      | nil => exact hrest
      | cons b l' => exact List.pairwise_cons.mpr ⟨hfirst, hrest⟩
    · refine List.pairwise_cons.mpr ⟨fun q hq => ?_, ih hrest⟩
      obtain ⟨q', hq', h⟩ := fst_popList hq
      rw [← h]
      exact hfirst q' hq'

theorem filled_pushList {k : κ} {a : α} {m : List (κ × List α)} (h : ∀ q ∈ m, q.2 ≠ []) :
    ∀ q ∈ pushList k a m, q.2 ≠ [] := by
  induction m with
  | nil => simp [pushList]
  | cons p m ih =>
    obtain ⟨k', l⟩ := p
    obtain ⟨hfirst, hrest⟩ := List.forall_mem_cons.mp h
    unfold pushList
    split_ifs with hlt heq
    · exact List.forall_mem_cons.mpr ⟨by simp, h⟩
    · exact List.forall_mem_cons.mpr ⟨by simp, hrest⟩
    · exact List.forall_mem_cons.mpr ⟨hfirst, ih hrest⟩

theorem filled_popList {k : κ} {m : List (κ × List α)} (h : ∀ q ∈ m, q.2 ≠ []) :
    ∀ q ∈ popList k m, q.2 ≠ [] := by
  induction m with
  | nil => exact h
  | cons p m ih =>
    obtain ⟨k', l⟩ := p
    obtain ⟨hfirst, hrest⟩ := List.forall_mem_cons.mp h
    unfold popList
    split_ifs with heq
    · cases l.tail with
      | nil => exact hrest
      | cons b l' => exact List.forall_mem_cons.mpr ⟨by simp, hrest⟩
    · exact List.forall_mem_cons.mpr ⟨hfirst, ih hrest⟩

/-! ## The operations -/

def push (m : Agenda κ α) (k : κ) (a : α) : Agenda κ α :=
  ⟨pushList k a m.toList, sorted_pushList m.sorted, filled_pushList m.filled⟩

def pop (m : Agenda κ α) (k : κ) : Agenda κ α :=
  ⟨popList k m.toList, sorted_popList m.sorted, filled_popList m.filled⟩

/-- The first entry. -/
def first (m : Agenda κ α) : Option (κ × α) :=
  m.toList.head?.bind fun q => q.2.head?.map (q.1, ·)

/-- The front entry of a time. -/
def front (m : Agenda κ α) (k : κ) : Option α :=
  (m.toList.find? (·.1 = k)).bind (·.2.head?)

/-- The first entry after a time. -/
def after (m : Agenda κ α) (k : κ) : Option (κ × α) :=
  (m.toList.find? (k < ·.1)).bind fun q => q.2.head?.map (q.1, ·)

/-- The entry to serve when the front one of a time has left. -/
def next (m : Agenda κ α) (k : κ) : Option (κ × α) :=
  match m.front k with
  | some a => some (k, a)
  | none => m.after k

/-- The entries of a list of queues. -/
def entriesOf (m : List (κ × List α)) : List (κ × α) := m.flatMap fun q => q.2.map (q.1, ·)

/-- All entries, in the order in which they are served. -/
def entries (m : Agenda κ α) : List (κ × α) := entriesOf m.toList

/-! ## The entries -/

omit [LinearOrder κ] in
theorem entriesOf_cons (k : κ) (l : List α) (m : List (κ × List α)) :
    entriesOf ((k, l) :: m) = l.map (k, ·) ++ entriesOf m := rfl

omit [LinearOrder κ] in
theorem mem_entriesOf {x : κ × α} {m : List (κ × List α)} (h : x ∈ entriesOf m) :
    ∃ q ∈ m, q.1 = x.1 := by
  obtain ⟨q, hq, hx⟩ := List.mem_flatMap.mp h
  obtain ⟨a, -, rfl⟩ := List.mem_map.mp hx
  exact ⟨q, hq, rfl⟩

theorem lt_entriesOf {k : κ} {l : List α} {m : List (κ × List α)}
    (h : ((k, l) :: m).Pairwise (·.1 < ·.1)) {x : κ × α} (hx : x ∈ entriesOf m) : k < x.1 := by
  obtain ⟨q, hq, heq⟩ := mem_entriesOf hx
  rw [← heq]
  exact (List.pairwise_cons.mp h).1 q hq

/-- An entry is put after those of its time and in front of the later ones. -/
theorem pushList_split (k : κ) (a : α) {m : List (κ × List α)} (h : m.Pairwise (·.1 < ·.1)) :
    ∃ l₁ l₂, entriesOf m = l₁ ++ l₂ ∧ entriesOf (pushList k a m) = l₁ ++ (k, a) :: l₂ ∧
      (∀ x ∈ l₁, x.1 ≤ k) ∧ ∀ x ∈ l₂, k < x.1 := by
  induction m with
  | nil => exact ⟨[], [], rfl, rfl, by simp, by simp⟩
  | cons p m ih =>
    obtain ⟨k', l⟩ := p
    unfold pushList
    split_ifs with hlt heq
    · refine ⟨[], entriesOf ((k', l) :: m), rfl, rfl, by simp, fun x hx => ?_⟩
      rcases List.mem_append.mp hx with hx | hx
      · obtain ⟨b, -, rfl⟩ := List.mem_map.mp hx
        exact hlt
      · exact hlt.trans (lt_entriesOf h hx)
    · subst heq
      refine ⟨l.map (k, ·), entriesOf m, rfl, ?_, fun x hx => ?_, fun x hx => lt_entriesOf h hx⟩
      · rw [entriesOf_cons, List.map_append, List.append_assoc]
        rfl
      · obtain ⟨b, -, rfl⟩ := List.mem_map.mp hx
        exact le_rfl
    · obtain ⟨l₁, l₂, h₁, h₂, hle, hgt⟩ := ih h.of_cons
      refine ⟨l.map (k', ·) ++ l₁, l₂, ?_, ?_, fun x hx => ?_, hgt⟩
      · rw [entriesOf_cons, h₁, List.append_assoc]
      · rw [entriesOf_cons, h₂, List.append_assoc]
      · rcases List.mem_append.mp hx with hx | hx
        · obtain ⟨b, -, rfl⟩ := List.mem_map.mp hx
          exact not_lt.mp hlt
        · exact hle x hx

/-- The front entry of a time is the first one of that time. -/
theorem popList_split {k : κ} {a : α} {m : List (κ × List α)} (h : m.Pairwise (·.1 < ·.1))
    (ha : (m.find? (·.1 = k)).bind (·.2.head?) = some a) :
    ∃ l₁ l₂, entriesOf m = l₁ ++ (k, a) :: l₂ ∧ entriesOf (popList k m) = l₁ ++ l₂ ∧
      (∀ x ∈ l₁, x.1 < k) ∧ ∀ x ∈ l₂, k ≤ x.1 := by
  induction m with
  | nil => cases ha
  | cons p m ih =>
    obtain ⟨k', l⟩ := p
    unfold popList
    split_ifs with heq
    · subst heq
      obtain ⟨l', rfl⟩ : ∃ l', l = a :: l' := by
        simpa [List.head?_eq_some_iff] using ha
      refine ⟨[], l'.map (k, ·) ++ entriesOf m, rfl, ?_, by simp, fun x hx => ?_⟩
      · cases l' <;> rfl
      · rcases List.mem_append.mp hx with hx | hx
        · obtain ⟨b, -, rfl⟩ := List.mem_map.mp hx
          exact le_rfl
        · exact (lt_entriesOf h hx).le
    · have hne : ¬ (k', l).1 = k := fun h => heq h.symm
      rw [List.find?_cons_of_neg (by simpa using hne)] at ha
      obtain ⟨l₁, l₂, h₁, h₂, hlt, hge⟩ := ih h.of_cons ha
      have hk : k' < k := by
        have hmem : (k, a) ∈ entriesOf m := by simp [h₁]
        exact lt_entriesOf h hmem
      refine ⟨l.map (k', ·) ++ l₁, l₂, ?_, ?_, fun x hx => ?_, hge⟩
      · rw [entriesOf_cons, h₁, List.append_assoc]
      · rw [entriesOf_cons, h₂, List.append_assoc]
      · rcases List.mem_append.mp hx with hx | hx
        · obtain ⟨b, -, rfl⟩ := List.mem_map.mp hx
          exact hk
        · exact hlt x hx

omit [LinearOrder κ] in
/-- The first of the times that satisfy a condition has the first of the entries. -/
theorem find?_entriesOf (p : κ → Bool) {m : List (κ × List α)} (h : ∀ q ∈ m, q.2 ≠ []) :
    (entriesOf m).find? (p ·.1) =
      (m.find? (p ·.1)).bind fun q => q.2.head?.map (q.1, ·) := by
  induction m with
  | nil => rfl
  | cons q m ih =>
    obtain ⟨k, l⟩ := q
    obtain ⟨hfirst, hrest⟩ := List.forall_mem_cons.mp h
    obtain ⟨b, l', rfl⟩ := List.exists_cons_of_ne_nil hfirst
    by_cases hp : p k = true
    · simp [entriesOf_cons, hp]
    · have hnone : ((b :: l').map (k, ·)).find? (p ·.1) = none := by simp [hp]
      rw [entriesOf_cons, List.find?_append, hnone, Option.none_or, ih hrest,
        List.find?_cons_of_neg (by simpa using hp)]

variable (m : Agenda κ α)

theorem first_eq : m.first = m.entries.head? := by
  obtain ⟨l, hsorted, hfilled⟩ := m
  cases l with
  | nil => rfl
  | cons q l =>
    obtain ⟨b, l', hq⟩ := List.exists_cons_of_ne_nil (hfilled q List.mem_cons_self)
    simp [first, entries, entriesOf, hq]

theorem front_eq (k : κ) : m.front k = (m.entries.find? (·.1 = k)).map Prod.snd := by
  rw [entries, find?_entriesOf (fun k' => decide (k' = k)) m.filled, front]
  cases m.toList.find? (·.1 = k) with
  | none => rfl
  | some q => simp [Function.comp_def]

theorem after_eq (k : κ) : m.after k = m.entries.find? (k < ·.1) :=
  (find?_entriesOf (fun k' => decide (k < k')) m.filled).symm

theorem pairwise_entriesOf {l : List (κ × List α)} (h : l.Pairwise (·.1 < ·.1)) :
    (entriesOf l).Pairwise (·.1 ≤ ·.1) := by
  induction l with
  | nil => exact .nil
  | cons q l ih =>
    obtain ⟨k, q⟩ := q
    rw [entriesOf_cons]
    refine List.pairwise_append.mpr ⟨?_, ih h.of_cons, fun x hx y hy => ?_⟩
    · exact List.pairwise_map.mpr (List.pairwise_of_forall fun _ _ => le_rfl)
    · obtain ⟨b, -, rfl⟩ := List.mem_map.mp hx
      exact (lt_entriesOf h hy).le

/-- The entry to serve next is the first one that is not earlier. -/
theorem next_eq (k : κ) : m.next k = m.entries.find? (k ≤ ·.1) := by
  unfold next
  rw [front_eq, after_eq]
  have hsorted : m.entries.Pairwise (·.1 ≤ ·.1) := pairwise_entriesOf m.sorted
  cases hfind : m.entries.find? (k ≤ ·.1) with
  | none =>
    have hlt : ∀ x ∈ m.entries, x.1 < k := by simpa using hfind
    have hfront : m.entries.find? (·.1 = k) = none := by
      simpa using fun a b hab => (hlt (a, b) hab).ne
    have hafter : m.entries.find? (k < ·.1) = none := by
      simpa using fun a b hab => (hlt (a, b) hab).le
    rw [hfront]
    exact hafter
  | some x =>
    obtain ⟨hx, l₁, l₂, hl, hl₁⟩ := List.find?_eq_some_iff_append.mp hfind
    have hle : k ≤ x.1 := by simpa using hx
    have hlt : ∀ y ∈ l₁, y.1 < k := by simpa using hl₁
    rw [hl] at hsorted ⊢
    by_cases heq : x.1 = k
    · have hfront : (l₁ ++ x :: l₂).find? (·.1 = k) = some x := by
        refine List.find?_eq_some_iff_append.mpr ⟨by simpa using heq, l₁, l₂, rfl, ?_⟩
        simpa using fun a b hab => (hlt (a, b) hab).ne
      rw [hfront, ← heq]
      rfl
    · have hlt' : k < x.1 := lt_of_le_of_ne hle (Ne.symm heq)
      have hlater : ∀ y ∈ l₂, x.1 ≤ y.1 :=
        (List.pairwise_cons.mp (List.pairwise_append.mp hsorted).2.1).1
      have hfront : (l₁ ++ x :: l₂).find? (·.1 = k) = none := by
        refine List.find?_eq_none.mpr fun y hy => ?_
        rcases List.mem_append.mp hy with hy | hy
        · simpa using (hlt y hy).ne
        · rcases List.mem_cons.mp hy with rfl | hy
          · simpa using heq
          · simpa using (hlt'.trans_le (hlater y hy)).ne'
      rw [hfront]
      refine List.find?_eq_some_iff_append.mpr ⟨by simpa using hlt', l₁, l₂, rfl, ?_⟩
      simpa using fun a b hab => (hlt (a, b) hab).le

theorem push_split (k : κ) (a : α) :
    ∃ l₁ l₂, m.entries = l₁ ++ l₂ ∧ (m.push k a).entries = l₁ ++ (k, a) :: l₂ ∧
      (∀ x ∈ l₁, x.1 ≤ k) ∧ ∀ x ∈ l₂, k < x.1 := pushList_split k a m.sorted

theorem pop_split {k : κ} {a : α} (h : m.front k = some a) :
    ∃ l₁ l₂, m.entries = l₁ ++ (k, a) :: l₂ ∧ (m.pop k).entries = l₁ ++ l₂ ∧
      (∀ x ∈ l₁, x.1 < k) ∧ ∀ x ∈ l₂, k ≤ x.1 := popList_split m.sorted h

theorem push_perm (k : κ) (a : α) : (m.push k a).entries.Perm ((k, a) :: m.entries) := by
  obtain ⟨l₁, l₂, hl, hpush, -⟩ := m.push_split k a
  rw [hl, hpush]
  exact List.perm_middle

variable {m} {k : κ} {a : α} {l : List (κ × α)}

theorem pop_perm (h : m.front k = some a) : m.entries.Perm ((k, a) :: (m.pop k).entries) := by
  obtain ⟨l₁, l₂, hl, hpop, -⟩ := m.pop_split h
  rw [hl, hpop]
  exact List.perm_middle

/-- A push does not get in front of an entry. -/
theorem front_push (h : m.front k = some a) (k' : κ) (b : α) :
    (m.push k' b).front k = some a := by
  obtain ⟨l₁, l₂, hl, hpush, hle, hgt⟩ := m.push_split k' b
  rw [front_eq, hl, List.find?_append] at h
  rw [front_eq, hpush, List.find?_append]
  cases hfind : l₁.find? (·.1 = k) with
  | some x =>
    rw [hfind] at h
    exact h
  | none =>
    rw [hfind, Option.none_or] at h
    by_cases hk : k' = k
    · obtain ⟨x, hx, -⟩ := Option.map_eq_some_iff.mp h
      have hlt := hgt x (List.mem_of_find?_eq_some hx)
      have heq : x.1 = k := by simpa using List.find?_some hx
      exact absurd (hk.trans heq.symm) hlt.ne
    · rw [Option.none_or, List.find?_cons_of_neg (by simpa using hk)]
      exact h

theorem front_of_find? {p : κ → Bool} {x : κ × α} (h : m.entries.find? (p ·.1) = some x) :
    m.front x.1 = some x.2 := by
  obtain ⟨hx, l₁, l₂, hl, hl₁⟩ := List.find?_eq_some_iff_append.mp h
  have hfind : m.entries.find? (·.1 = x.1) = some x := by
    refine List.find?_eq_some_iff_append.mpr ⟨by simp, l₁, l₂, hl, fun y hy => ?_⟩
    have hy' := hl₁ y hy
    by_cases heq : y.1 = x.1
    · rw [heq, hx] at hy'
      cases hy'
    · simpa using heq
  rw [front_eq, hfind]
  rfl

theorem front_of_next {x : κ × α} (h : m.next k = some x) : m.front x.1 = some x.2 := by
  rw [next_eq] at h
  exact @front_of_find? _ _ _ m (fun k' => decide (k ≤ k')) x h

/-! ## Agendas whose first entry is being served -/

theorem front_of_first (h : m.entries = (k, a) :: l) : m.front k = some a := by
  rw [front_eq, h, List.find?_cons_of_pos (by simp)]
  rfl

theorem front_first {x : κ × α} (h : m.first = some x) : m.front x.1 = some x.2 := by
  rw [first_eq] at h
  obtain ⟨l, hl⟩ := List.head?_eq_some_iff.mp h
  exact front_of_first hl

theorem push_first (h : m.entries = (k, a) :: l) {k' : κ} (hk : k ≤ k') (b : α) :
    ∃ l₁ l₂, l = l₁ ++ l₂ ∧ (m.push k' b).entries = (k, a) :: (l₁ ++ (k', b) :: l₂) ∧
      (∀ x ∈ l₁, x.1 ≤ k') ∧ ∀ x ∈ l₂, k' < x.1 := by
  obtain ⟨l₁, l₂, hl, hpush, hle, hgt⟩ := m.push_split k' b
  rw [h] at hl
  cases l₁ with
  | nil =>
    rw [List.nil_append] at hl
    have hlt := hgt (k, a) (hl ▸ List.mem_cons_self)
    exact absurd hk (not_le.mpr hlt)
  | cons x l₁ =>
    obtain ⟨hx, htail⟩ := List.cons.inj hl
    rw [hpush, ← hx]
    exact ⟨l₁, l₂, htail, rfl, fun y hy => hle y (List.mem_cons_of_mem x hy), hgt⟩

end Agenda
