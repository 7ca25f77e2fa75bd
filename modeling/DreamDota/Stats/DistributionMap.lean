import DreamDota.Stats.ChanceGreaterEqual

/-!
# Maps with a tolerance in their order

`DistributionLess` of `Stochastic.h` is the order of the keys of the damage map, of `LatencyNegDist`
and of every `Distribution`. Two keys are the same to these maps when neither is less than the other
by more than the tolerance. This is no equivalence: which of the keys come in, and what is added up
under them, depends on the order of the accesses.

1. `elements_perm`: separated keys come in with their amounts, in any order.
2. `separated_of_stored`: of two keys that are not told apart, the first one keeps the other out.
3. `mapLike_iff`: the accesses for which the map is what the code takes it for.
-/

namespace DreamDota

namespace Stochastic

open SearchTree Latency

section MapLike

variable {α : Type} [Field α] [LinearOrder α] [IsStrictOrderedRing α] {B : Balancing (α × α)}
  {accesses accesses' : List (α × α)}

/-- The map after the accesses `map[key] += amount` of a list of pairs. -/
def accessed (B : Balancing (α × α)) (accesses : List (α × α)) : BinaryTree (α × α) :=
  accumulate DistributionLess B accesses

/-- The keys that are stored. -/
def storedKeys (t : BinaryTree (α × α)) : List α := (elements t).map Prod.fst

/-- What `std::map` needs of the order of the keys, and what its users rely on: the order is a strict
weak one on the keys that occur, and neither the stored keys nor the value found for a key depend on
the order of the accesses. -/
structure MapLike (B : Balancing (α × α)) (accesses : List (α × α)) : Prop where
  order : IsStrictWeakOrder {key : α // key ∈ accesses.map Prod.fst}
    fun lhs rhs => DistributionLess lhs.1 rhs.1
  stored : ∀ accesses', accesses'.Perm accesses → ∀ key,
    key ∈ storedKeys (accessed B accesses') ↔ key ∈ storedKeys (accessed B accesses)
  value : ∀ accesses', accesses'.Perm accesses → ∀ key,
    lookup DistributionLess (accessed B accesses') key =
      lookup DistributionLess (accessed B accesses) key

omit [IsStrictOrderedRing α] in
theorem Separated.perm (h : Separated (accesses.map Prod.fst)) (hp : accesses'.Perm accesses) :
    Separated (accesses'.map Prod.fst) := fun a ha b hb =>
  h a ((hp.map Prod.fst).mem_iff.mp ha) b ((hp.map Prod.fst).mem_iff.mp hb)

/-- Separated keys come in with their amounts, whatever the order of the accesses. -/
theorem elements_perm (h : Separated (accesses.map Prod.fst)) (hp : accesses'.Perm accesses) :
    elements (accessed B accesses') = elements (accessed B accesses) := by
  refine ordered_accumulate.elements_eq ordered_accumulate fun e => ?_
  have hsums' := sums_accumulate (B := B) (h.perm hp) e
  rw [(hp.map Prod.fst).mem_iff, amountAt_perm hp] at hsums'
  exact hsums'.trans (sums_accumulate (B := B) h e).symm

/-- The order on separated keys is a strict weak one: only equal keys are not told apart. -/
theorem Separated.isStrictWeakOrder {keys : List α} (h : Separated keys) :
    IsStrictWeakOrder {key : α // key ∈ keys} fun lhs rhs => DistributionLess lhs.1 rhs.1 where
  irrefl a := irrefl_of DistributionLess a.1
  trans a b c := trans_of DistributionLess
  incomp_trans a b c hab hbc := by
    have heq {x y : {key : α // key ∈ keys}}
        (hxy : ¬ DistributionLess x.1 y.1 ∧ ¬ DistributionLess y.1 x.1) : x = y :=
      Subtype.ext ((h x.1 x.2 y.1 y.2).resolve_right fun hr => hr.elim hxy.1 hxy.2)
    obtain rfl := heq hab
    exact hbc

/-- If a key comes in wherever it stands in the accesses, it is told apart from the others: the one
that is accessed first would keep it out. -/
theorem separated_of_stored
    (h : ∀ accesses', accesses'.Perm accesses → ∀ key ∈ accesses.map Prod.fst,
      key ∈ storedKeys (accessed B accesses')) : Separated (accesses.map Prod.fst) := by
  intro a ha b hb
  obtain ⟨e, he, rfl⟩ := List.mem_map.mp ha
  obtain ⟨l₁, l₂, hl⟩ := List.append_of_mem he
  have hp : (e :: (l₁ ++ l₂)).Perm accesses := by
    rw [hl]
    exact List.perm_middle.symm
  obtain ⟨e', he', heq⟩ := List.mem_map.mp (h _ hp b hb)
  obtain ⟨e₀, he₀, heq₀⟩ := List.mem_map.mp (h _ hp e.1 ha)
  have hord : Ordered DistributionLess (accessed B (e :: (l₁ ++ l₂))) := ordered_accumulate
  rw [← heq, ← heq₀]
  by_cases hee : e₀ = e'
  · exact .inl (congrArg Prod.fst hee)
  · have : Std.Symm fun x y : α × α => DistributionLess x.1 y.1 ∨ DistributionLess y.1 x.1 :=
      ⟨fun _ _ => Or.symm⟩
    have hpair : (elements (accessed B (e :: (l₁ ++ l₂)))).Pairwise fun x y =>
        DistributionLess x.1 y.1 ∨ DistributionLess y.1 x.1 := hord.imp Or.inl
    exact .inr (hpair.forall he₀ he' hee)

/-- **Maps with a tolerance.** A map that is accessed by `map[key] += amount` is what its users take
it for, if and only if any two of the keys are equal or differ by more than the tolerance. -/
theorem mapLike_iff : MapLike B accesses ↔ Separated (accesses.map Prod.fst) := by
  constructor
  · intro h
    refine separated_of_stored (B := B) fun accesses' hp key hkey => ?_
    obtain ⟨e, he, rfl⟩ := List.mem_map.mp hkey
    obtain ⟨l₁, l₂, hl⟩ := List.append_of_mem he
    have hfirst : (e :: (l₁ ++ l₂)).Perm accesses := by
      rw [hl]
      exact List.perm_middle.symm
    rw [h.stored accesses' hp, ← h.stored _ hfirst]
    exact key_mem_accumulate
  · intro h
    refine ⟨h.isStrictWeakOrder, fun accesses' hp key => ?_, fun accesses' hp key => ?_⟩
    · rw [storedKeys, elements_perm h hp, storedKeys]
    · exact ordered_accumulate.lookup_congr (elements_perm h hp)

end MapLike

/-- Two keys, one of them accessed twice. -/
theorem mapLike_two_keys : MapLike unbalanced ([(1, 1), (0, 2), (1, 3)] : List (ℚ × ℚ)) :=
  mapLike_iff.mpr (by unfold Separated; decide +kernel)

/-- The keys 0, 1.e-5 and 2.e-5, where only the first and the last are told apart. -/
def closeKeys : List (ℚ × ℚ) := [(0, 1), (1 / 100000, 1), (2 / 100000, 1)]

/-- The comparator is no strict weak order. The three keys come in as two, and as one if the middle
one is accessed first. -/
theorem not_mapLike_closeKeys :
    ¬ IsStrictWeakOrder ℚ DistributionLess ∧ ¬ MapLike unbalanced closeKeys ∧
      storedKeys (accessed unbalanced closeKeys) = [0, 2 / 100000] ∧
      storedKeys (accessed unbalanced (closeKeys.rotate 1)) = [1 / 100000] := by
  refine ⟨fun h => ?_, fun h => ?_, by decide +kernel, by decide +kernel⟩
  · have hclose := h.incomp_trans 0 (1 / 100000) (2 / 100000) (by decide +kernel) (by decide +kernel)
    exact absurd hclose (by decide +kernel)
  · have hstored := (h.stored (closeKeys.rotate 1) (closeKeys.rotate_perm 1) 0).mpr
    exact absurd (hstored (by decide +kernel)) (by decide +kernel)

end Stochastic

end DreamDota
