import Mathlib.Data.List.Chain
import Mathlib.Data.List.Nodup
import Mathlib.Logic.Function.Basic
import Mathlib.Tactic.Common

/-!
# Doubly linked lists

Every cell has a pointer to the next one and a pointer to the one before. The cells of a list and a
sentinel form a ring, `Through`. A list that ends in null pointers is such a ring too: its sentinel
is the null pointer, whose next cell is the head and whose cell before is the tail.

One operation writes the pointers, `join`. A cell is taken out by one `join`, `Through.unlink`, and
put in at the end by two, `Through.push`.
-/

/-- The two pointers of every cell. -/
@[ext]
structure Links (β : Type*) where
  next : β → β
  prev : β → β

namespace Links

variable {β : Type*} {p : Links β} {s a b x : β} {l l₁ l₂ : List β}

/-- `b` is the next cell of `a`, and `a` the one before `b`. -/
def Joined (p : Links β) (a b : β) : Prop := p.next a = b ∧ p.prev b = a

/-- From the sentinel `s` the pointers lead through the cells `l`, each once, and back. -/
structure Through (p : Links β) (s : β) (l : List β) : Prop where
  nodup : (s :: l).Nodup
  joined : List.IsChain p.Joined (s :: l ++ [s])

section join

variable [DecidableEq β]

/-- The pointers between `a` and `b` are written. -/
def join (p : Links β) (a b : β) : Links β :=
  ⟨Function.update p.next a b, Function.update p.prev b a⟩

theorem joined_join (p : Links β) (a b : β) : (p.join a b).Joined a b := by
  constructor
  · exact Function.update_self a b p.next
  · exact Function.update_self b a p.prev

theorem Joined.join (h : p.Joined x y) (hx : x ≠ a) (hy : y ≠ b) : (p.join a b).Joined x y := by
  constructor
  · exact (Function.update_of_ne hx b p.next).trans h.1
  · exact (Function.update_of_ne hy a p.prev).trans h.2

/-- A stretch of the list that does not lead out of `a` and not into `b` stays as it is. -/
theorem isChain_join : ∀ {l : List β}, List.IsChain p.Joined l → a ∉ l.dropLast → b ∉ l.tail →
    List.IsChain (p.join a b).Joined l
  | [], _, _, _ => List.IsChain.nil
  | [c], _, _, _ => List.isChain_singleton c
  | c :: d :: l, h, ha, hb => by
    rw [List.isChain_cons_cons] at h ⊢
    rw [List.dropLast_cons_of_ne_nil (List.cons_ne_nil d l), List.mem_cons, not_or] at ha
    rw [List.tail_cons, List.mem_cons, not_or] at hb
    exact ⟨h.1.join (Ne.symm ha.1) (Ne.symm hb.1), isChain_join h.2 ha.2 hb.2⟩

end join

/-! ## Around a cell -/

/-- A list that starts with `s` ends in a cell. -/
theorem exists_concat (s : β) (l : List β) : ∃ u a, s :: l = u ++ [a] :=
  ⟨_, _, (List.dropLast_append_getLast (List.cons_ne_nil s l)).symm⟩

/-- A list that ends in `s` starts with a cell. -/
theorem exists_cons (l : List β) (s : β) : ∃ b v, l ++ [s] = b :: v := by
  cases l with
  | nil => exact ⟨s, [], rfl⟩
  | cons b v => exact ⟨b, v ++ [s], rfl⟩

/-- The cells before and behind `x`. -/
theorem Through.around (h : p.Through s (l₁ ++ x :: l₂)) {u v : List β} (hu : s :: l₁ = u ++ [a])
    (hv : l₂ ++ [s] = b :: v) : p.Joined a x ∧ p.Joined x b := by
  have hc : List.IsChain p.Joined (u ++ a :: x :: b :: v) := by
    have heq : s :: (l₁ ++ x :: l₂) ++ [s] = (s :: l₁) ++ x :: (l₂ ++ [s]) := by simp
    have := h.joined
    rw [heq, hu, hv] at this
    simpa using this
  rw [List.isChain_append] at hc
  have := hc.2.1
  rw [List.isChain_cons_cons, List.isChain_cons_cons] at this
  exact ⟨this.1, this.2.1⟩

theorem Through.prev_sentinel (h : p.Through s l) {u : List β} (hu : s :: l = u ++ [a]) :
    p.prev s = a := by
  have hc : List.IsChain p.Joined (u ++ a :: [s]) := by
    have := h.joined
    rw [hu] at this
    simpa using this
  rw [List.isChain_append] at hc
  exact (List.isChain_pair.mp hc.2.1).2

theorem Through.next_sentinel (h : p.Through s l) {v : List β} (hv : l ++ [s] = b :: v) :
    p.next s = b := by
  have hc : List.IsChain p.Joined (s :: b :: v) := by
    have := h.joined
    rw [List.cons_append, hv] at this
    exact this
  exact (List.isChain_cons_cons.mp hc).1.1

/-- Only the pointers of the ring matter. -/
theorem Through.congr {q : Links β} (h : p.Through s l) (hn : ∀ c ∈ s :: l, q.next c = p.next c)
    (hp : ∀ c ∈ s :: l, q.prev c = p.prev c) : q.Through s l := by
  refine ⟨h.nodup, h.joined.imp_of_mem_imp ?_⟩
  intro c d hc hd hcd
  have hmem : ∀ {c}, c ∈ s :: l ++ [s] → c ∈ s :: l := by
    intro c hc
    rcases List.mem_append.mp hc with hc | hc
    · exact hc
    · exact List.mem_singleton.mp hc ▸ List.mem_cons_self
  exact ⟨(hn c (hmem hc)).trans hcd.1, (hp d (hmem hd)).trans hcd.2⟩

theorem Through.next_prev_sentinel (h : p.Through s l) : p.next (p.prev s) = s := by
  obtain ⟨u, a, hu⟩ := exists_concat s l
  have hc : List.IsChain p.Joined (u ++ a :: [s]) := by
    have := h.joined
    rw [hu] at this
    simpa using this
  rw [List.isChain_append] at hc
  rw [h.prev_sentinel hu]
  exact (List.isChain_pair.mp hc.2.1).1

theorem Through.prev_next_sentinel (h : p.Through s l) : p.prev (p.next s) = s := by
  obtain ⟨b, v, hv⟩ := exists_cons l s
  have hc : List.IsChain p.Joined (s :: b :: v) := by
    have := h.joined
    rw [List.cons_append, hv] at this
    exact this
  rw [h.next_sentinel hv]
  exact (List.isChain_cons_cons.mp hc).1.2

theorem Through.nil_iff (h : p.Through s l) : p.next s = s ↔ l = [] := by
  cases l with
  | nil => exact iff_of_true (h.next_sentinel (v := []) rfl) rfl
  | cons b v =>
    refine iff_of_false ?_ (List.cons_ne_nil b v)
    rw [h.next_sentinel (b := b) (v := v ++ [s]) rfl]
    have := h.nodup
    rw [List.nodup_cons, List.mem_cons, not_or] at this
    exact Ne.symm this.1.1

/-! ## Taking out and putting in -/

section operations

variable [DecidableEq β]

theorem Through.unlink (h : p.Through s (l₁ ++ x :: l₂)) :
    (p.join (p.prev x) (p.next x)).Through s (l₁ ++ l₂) := by
  obtain ⟨u, a, hu⟩ := exists_concat s l₁
  obtain ⟨b, v, hv⟩ := exists_cons l₂ s
  obtain ⟨hax, hxb⟩ := h.around hu hv
  rw [hax.2, hxb.1]
  have hnd : (s :: l₁ ++ l₂).Nodup := by
    refine h.nodup.sublist (List.Sublist.cons_cons s ?_)
    exact List.Sublist.append_left (List.sublist_cons_self x l₂) l₁
  have hnu : (u ++ [a]).Nodup := hu ▸ hnd.of_append_left
  have hnv : (b :: v).Nodup := by
    rw [← hv]
    refine List.nodup_append.mpr ⟨hnd.of_append_right, List.nodup_singleton s, ?_⟩
    intro c hc d hd hcd
    rw [List.mem_singleton] at hd
    exact List.disjoint_of_nodup_append hnd (hd ▸ List.mem_cons_self) (hcd ▸ hc)
  have hdisj : List.Disjoint l₁ (b :: v) := by
    rw [← hv]
    intro c hc hc'
    rcases List.mem_append.mp hc' with hc' | hc'
    · exact List.disjoint_of_nodup_append hnd (List.mem_cons_of_mem s hc) hc'
    · rw [List.mem_singleton] at hc'
      exact (List.nodup_cons.mp hnd.of_append_left).1 (hc' ▸ hc)
  have hc : List.IsChain p.Joined ((u ++ [a]) ++ x :: b :: v) := by
    have := h.joined
    rw [List.cons_append, List.append_assoc, List.cons_append, hv, ← List.cons_append, hu] at this
    exact this
  rw [List.isChain_append] at hc
  refine ⟨hnd, ?_⟩
  rw [← List.cons_append, List.append_assoc, hu, hv, List.isChain_append]
  refine ⟨isChain_join hc.1 ?_ ?_, isChain_join (List.isChain_cons_cons.mp hc.2.1).2 ?_ ?_, ?_⟩
  · rw [List.dropLast_concat]
    exact fun ha => List.disjoint_of_nodup_append hnu ha List.mem_cons_self
  · rw [← hu, List.tail_cons]
    exact fun hb => hdisj hb List.mem_cons_self
  · rw [← hv, List.dropLast_concat]
    intro ha
    exact List.disjoint_of_nodup_append hnd (hu ▸ List.mem_append_right u List.mem_cons_self) ha
  · exact (List.nodup_cons.mp hnv).1
  · intro c hc d hd
    rw [List.getLast?_concat, Option.mem_some_iff] at hc
    rw [List.head?_cons, Option.mem_some_iff] at hd
    subst hc
    subst hd
    exact joined_join p a b

theorem Through.push (h : p.Through s l) (hx : x ∉ s :: l) :
    ((p.join (p.prev s) x).join x s).Through s (l ++ [x]) := by
  obtain ⟨u, a, hu⟩ := exists_concat s l
  rw [h.prev_sentinel hu]
  have hxs : x ≠ s := fun hxs => hx (hxs ▸ List.mem_cons_self)
  have hxl : x ∉ l := fun hxl => hx (List.mem_cons_of_mem s hxl)
  have hax : a ≠ x := by
    rintro rfl
    exact hx (hu ▸ List.mem_append_right u List.mem_cons_self)
  have hnu : (u ++ [a]).Nodup := hu ▸ h.nodup
  have hsl : s ∉ l := (List.nodup_cons.mp h.nodup).1
  have hc : List.IsChain p.Joined (s :: l) := by
    have := h.joined
    rw [List.isChain_append] at this
    exact this.1
  constructor
  · rw [← List.cons_append]
    refine List.nodup_append.mpr ⟨h.nodup, List.nodup_singleton x, ?_⟩
    intro c hc d hd hcd
    rw [List.mem_singleton] at hd
    exact hx (hd ▸ hcd ▸ hc)
  · rw [← List.cons_append, List.append_assoc, List.isChain_append]
    refine ⟨isChain_join (isChain_join hc ?_ hxl) ?_ hsl, ?_, ?_⟩
    · rw [hu, List.dropLast_concat]
      exact fun ha => List.disjoint_of_nodup_append hnu ha List.mem_cons_self
    · exact fun hd => hx ((List.dropLast_sublist _).subset hd)
    · exact List.isChain_pair.mpr (joined_join _ x s)
    · intro c hc d hd
      rw [hu, List.getLast?_concat, Option.mem_some_iff] at hc
      rw [List.singleton_append, List.head?_cons, Option.mem_some_iff] at hd
      subst hc
      subst hd
      exact (joined_join p a x).join hax hxs

end operations

/-! ## Walking along the list -/

section walk

variable [DecidableEq β]

/-- The cells from `c` on until the sentinel is met. -/
def walk (p : Links β) (s : β) : ℕ → β → Option (List β)
  | 0, _ => none
  | fuel + 1, c => if c = s then some [] else (c :: ·) <$> walk p s fuel (p.next c)

/-- A walk that is long enough sees the whole list. -/
theorem Through.walk (h : p.Through s l) {fuel : ℕ} (hfuel : l.length < fuel) :
    p.walk s fuel (p.next s) = some l := by
  have hsuff : ∀ (l : List β) (fuel : ℕ) (c : β), l.length < fuel → s ∉ l →
      List.IsChain p.Joined (c :: l ++ [s]) → p.walk s fuel (p.next c) = some l := by
    intro l
    induction l with
    | nil =>
      intro fuel c hfuel _ hc
      obtain ⟨fuel, rfl⟩ := Nat.exists_eq_add_of_lt hfuel
      rw [(List.isChain_pair.mp hc).1]
      simp [Links.walk]
    | cons d l ih =>
      intro fuel c hfuel hs hc
      rw [List.length_cons] at hfuel
      obtain ⟨fuel, rfl⟩ : ∃ f, fuel = f + 1 := ⟨fuel - 1, by omega⟩
      rw [List.mem_cons, not_or] at hs
      rw [List.cons_append, List.cons_append, List.isChain_cons_cons] at hc
      rw [hc.1.1, Links.walk, if_neg (Ne.symm hs.1), ih fuel d (by omega) hs.2 hc.2]
      rfl
  exact hsuff l fuel s hfuel (List.nodup_cons.mp h.nodup).1 h.joined

end walk

end Links
