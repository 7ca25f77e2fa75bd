import Mathlib.Data.Finset.Card
import Mathlib.Data.List.Destutter
import Mathlib.Data.List.Sort

/-!
# Runs of equal values

`List.destutter (· ≠ ·)` keeps one value of every run of equal values of a list, so its length is
the number of runs. Every value of the list has a run of its own, and a value has a second run where
it comes back after another one.

1. `nodup_destutter'_iff`: no value comes back.
2. `length_destutter_eq_card_iff`: there are as many runs as values.
3. `grouped_map_iff_of_pairwise`: the values of the members of an ordered list.
-/

namespace Runs

open List

variable {α β : Type*}

/-- Equal values stand together: what stands between them is equal to them too. -/
def Grouped (l : List α) : Prop := ∀ a b, [a, b, a] <+ l → b = a

variable {l : List α} {a b : α}

/-- A list without its first value. -/
theorem Grouped.tail (h : Grouped (a :: l)) : Grouped l :=
  fun c d hs => h c d (hs.trans (sublist_cons_self a l))

/-- A run that is one longer. -/
theorem grouped_cons_self : Grouped (a :: a :: l) ↔ Grouped (a :: l) := by
  refine ⟨Grouped.tail, fun h c d hs => ?_⟩
  rcases sublist_cons_iff.mp hs with hs | ⟨r, hr, hs⟩
  · exact h c d hs
  · obtain ⟨rfl, rfl⟩ := List.cons.inj hr
    rcases sublist_cons_iff.mp hs with hs | ⟨r', hr', -⟩
    · exact h c d (hs.cons_cons c)
    · exact (List.cons.inj hr').1

/-- A run of one value: the value does not come back. -/
theorem grouped_cons_cons (hne : a ≠ b) :
    Grouped (a :: b :: l) ↔ a ∉ b :: l ∧ Grouped (b :: l) := by
  constructor
  · refine fun h => ⟨fun hmem => ?_, h.tail⟩
    have hrest : a ∈ l := (mem_cons.mp hmem).resolve_left hne
    have hsub : [a, b, a] <+ a :: b :: l := ((singleton_sublist.mpr hrest).cons_cons b).cons_cons a
    exact hne (h a b hsub).symm
  · rintro ⟨hnot, h⟩ c d hs
    rcases sublist_cons_iff.mp hs with hs | ⟨r, hr, hs⟩
    · exact h c d hs
    · obtain ⟨rfl, rfl⟩ := List.cons.inj hr
      exact absurd (hs.subset (mem_cons_of_mem d (mem_singleton_self c))) hnot

section DecidableEq

variable [DecidableEq α]

theorem mem_destutter'_iff : b ∈ l.destutter' (· ≠ ·) a ↔ b ∈ a :: l := by
  induction l generalizing a with
  | nil => exact Iff.rfl
  | cons c l ih =>
    by_cases hne : a ≠ c
    · rw [destutter'_cons_pos l hne, mem_cons, ih, mem_cons (b := a)]
    · obtain rfl : a = c := not_not.mp hne
      rw [destutter'_cons_neg l hne, ih, mem_cons, mem_cons, mem_cons, or_self_left]

/-- What is kept are the values of the list. -/
theorem mem_destutter_iff : b ∈ l.destutter (· ≠ ·) ↔ b ∈ l := by
  cases l with
  | nil => exact Iff.rfl
  | cons a l => exact mem_destutter'_iff

/-- No value has two runs in a list whose equal values stand together. -/
theorem nodup_destutter'_iff : (l.destutter' (· ≠ ·) a).Nodup ↔ Grouped (a :: l) := by
  induction l generalizing a with
  | nil =>
    refine iff_of_true (nodup_singleton a) fun c d hs => ?_
    exact absurd hs.length_le (by simp)
  | cons c l ih =>
    by_cases hne : a ≠ c
    · rw [destutter'_cons_pos l hne, nodup_cons, mem_destutter'_iff, ih, grouped_cons_cons hne]
    · obtain rfl : a = c := not_not.mp hne
      rw [destutter'_cons_neg l hne, ih, grouped_cons_self]

theorem nodup_destutter_iff : (l.destutter (· ≠ ·)).Nodup ↔ Grouped l := by
  cases l with
  | nil => exact iff_of_true nodup_nil fun c d hs => absurd hs.length_le (by simp)
  | cons a l => exact nodup_destutter'_iff

/-- The runs are as many as the values if and only if equal values stand together. -/
theorem length_destutter_eq_card_iff :
    (l.destutter (· ≠ ·)).length = l.toFinset.card ↔ Grouped l := by
  have hvalues : (l.destutter (· ≠ ·)).toFinset = l.toFinset := by
    ext b
    rw [mem_toFinset, mem_toFinset, mem_destutter_iff]
  rw [← nodup_destutter_iff, ← hvalues, eq_comm, card_toFinset]
  constructor
  · intro hlen
    rw [← (dedup_sublist _).eq_of_length hlen]
    exact nodup_dedup _
  · intro hnd
    rw [hnd.dedup]

/-- A list is one run if and only if it has one value. -/
theorem length_destutter_eq_one_iff :
    (l.destutter (· ≠ ·)).length = 1 ↔ ∃ a ∈ l, ∀ b ∈ l, b = a := by
  constructor
  · intro hlen
    obtain ⟨a, ha⟩ := length_eq_one_iff.mp hlen
    have hmem : ∀ b, b ∈ l ↔ b = a := fun b => by rw [← mem_destutter_iff, ha, mem_singleton]
    exact ⟨a, (hmem a).mpr rfl, fun b hb => (hmem b).mp hb⟩
  · rintro ⟨a, ha, hall⟩
    have hgrouped : Grouped l := fun c d hs => by
      rw [hall c (hs.subset mem_cons_self), hall d (hs.subset (mem_cons_of_mem c mem_cons_self))]
    rw [length_destutter_eq_card_iff.mpr hgrouped, Finset.card_eq_one]
    refine ⟨a, Finset.ext fun b => ?_⟩
    rw [mem_toFinset, Finset.mem_singleton]
    exact ⟨hall b, fun hb => hb ▸ ha⟩

end DecidableEq

/-- The values of the members of a list. -/
theorem grouped_map_iff {f : β → α} {l : List β} :
    Grouped (l.map f) ↔ ∀ a b c, [a, b, c] <+ l → f a = f c → f b = f a := by
  constructor
  · intro h a b c hs hac
    have hmap : [f a, f b, f c] <+ l.map f := hs.map f
    exact h (f a) (f b) (hac.symm ▸ hmap)
  · intro h c d hs
    obtain ⟨s, hsub, heq⟩ := sublist_map_iff.mp hs
    obtain ⟨x, y, z, rfl⟩ : ∃ x y z, s = [x, y, z] :=
      length_eq_three.mp ((length_map f).symm.trans (congrArg length heq).symm)
    simp only [map_cons, map_nil, cons.injEq, and_true] at heq
    obtain ⟨rfl, rfl, hxz⟩ := heq
    exact h x y z hsub hxz

/-- In an ordered list, what stands between two members is what the order has between them. -/
theorem grouped_map_iff_of_pairwise {R : β → β → Prop} [IsStrictOrder β R] {f : β → α}
    {l : List β} (hl : l.Pairwise R) :
    Grouped (l.map f) ↔ ∀ a ∈ l, ∀ b ∈ l, ∀ c ∈ l, R a b → R b c → f a = f c → f b = f a := by
  rw [grouped_map_iff]
  constructor
  · intro h a ha b hb c hc hab hbc
    have hac : R a c := trans_of R hab hbc
    have hsorted : [a, b, c].Pairwise R := by simp [hab, hbc, hac]
    have hsubperm : [a, b, c] <+~ l := hsorted.nodup.subperm (by simp [ha, hb, hc])
    exact h a b c (sublist_of_subperm_of_pairwise hsubperm hsorted hl)
  · intro h a b c hs hac
    have hsorted := hl.sublist hs
    rw [pairwise_cons, pairwise_cons] at hsorted
    exact h a (hs.subset (by simp)) b (hs.subset (by simp)) c (hs.subset (by simp))
      (hsorted.1 b (by simp)) (hsorted.2.1 c (by simp)) hac

end Runs
