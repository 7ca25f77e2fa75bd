import DreamDota.Script.AttackRangeDisplay
import Mathlib.Algebra.Order.Group.MinMax
import Mathlib.Tactic.Linarith

/-!
# The entries of the overlay

An image is owned by an entry of `UnitImageMap`. What no event breaks is in `Core`, `Target` and
`Faded`: an entry owns a live image of its unit, and the target has an entry. That a live image has an
entry, and a unit one entry at most, is in `Owned`, which collections can break.

1. `nextAlpha_bounds`: one step of a fade.
2. `Core.store`, `Core.record`, `Core.removeUnit`: what is done to an entry.
3. `visited`: the turn of an entry.
-/

namespace DreamDota.AttackRange

/-! ## The fade -/

theorem alphaStep_eq : maxAlpha * (renderInverval / fadeinDuration) = 96 / 25 ∧
    maxAlpha * (renderInverval / fadeoutDuration) = 96 / 25 := by
  norm_num [maxAlpha, renderInverval, fadeinDuration, fadeoutDuration]

/-- One step of a fade moves `alpha` toward its end and not over it. -/
theorem nextAlpha_eq {d : ImageData} (hD : d.alphaD = 0) :
    (d.alpha = d.alphaTo ∧ d.nextAlphaD = 0) ∨
    (d.alpha < d.alphaTo ∧ d.nextAlphaD = 96 / 25 ∧
      { d with alphaD := d.nextAlphaD }.nextAlpha = min d.alphaTo (d.alpha + 96 / 25)) ∨
    (d.alphaTo < d.alpha ∧ d.nextAlphaD = -(96 / 25) ∧
      { d with alphaD := d.nextAlphaD }.nextAlpha = max d.alphaTo (d.alpha - 96 / 25)) := by
  obtain ⟨hin, hout⟩ := alphaStep_eq
  rcases lt_trichotomy d.alpha d.alphaTo with hlt | heq | hlt
  · have hnext : d.nextAlphaD = 96 / 25 := by
      rw [ImageData.nextAlphaD, if_pos hlt, hD, hin, zero_add]
    refine .inr (.inl ⟨hlt, hnext, ?_⟩)
    rw [hnext]
    dsimp only [ImageData.nextAlpha]
    rw [abs_of_pos (sub_pos.mpr hlt), abs_of_pos (by norm_num), if_neg (by norm_num), mul_one,
      ← min_add_add_left, add_sub_cancel]
  · refine .inl ⟨heq, ?_⟩
    rw [ImageData.nextAlphaD, if_neg heq.not_gt, if_neg heq.not_lt, hD]
  · have hnext : d.nextAlphaD = -(96 / 25) := by
      rw [ImageData.nextAlphaD, if_neg hlt.not_gt, if_pos hlt, hD, hout, zero_sub]
    refine .inr (.inr ⟨hlt, hnext, ?_⟩)
    rw [hnext]
    dsimp only [ImageData.nextAlpha]
    rw [abs_of_neg (sub_neg.mpr hlt), abs_neg, abs_of_pos (by norm_num), if_pos (by norm_num),
      mul_neg_one, ← max_neg_neg, neg_neg, ← max_add_add_left, add_sub_cancel, ← sub_eq_add_neg]

/-- After a step, `alpha` is within its bounds, and it is positive if the unit is the target. Where
nothing is applied, `alpha` has come to its end. -/
theorem nextAlpha_bounds {d : ImageData} (hD : d.alphaD = 0) (h0 : 0 ≤ d.alpha)
    (h1 : d.alpha ≤ maxAlpha) (hto : d.alphaTo = maxAlpha ∨ d.alphaTo = 0) :
    (|d.nextAlphaD| ≥ minUpdateAlphaDiff →
      0 ≤ { d with alphaD := d.nextAlphaD }.nextAlpha ∧
      { d with alphaD := d.nextAlphaD }.nextAlpha ≤ maxAlpha ∧
      (d.alphaTo = maxAlpha → 0 < { d with alphaD := d.nextAlphaD }.nextAlpha)) ∧
    (¬ |d.nextAlphaD| ≥ minUpdateAlphaDiff → d.alpha = d.alphaTo ∧ d.nextAlphaD = 0) := by
  have hmax : (0 : ℚ) < maxAlpha := by norm_num [maxAlpha]
  rcases nextAlpha_eq hD with ⟨heq, hnext⟩ | ⟨hlt, hnext, hvalue⟩ | ⟨hlt, hnext, hvalue⟩
  · rw [hnext]
    exact ⟨fun h => absurd h (by norm_num [minUpdateAlphaDiff]), fun _ => ⟨heq, rfl⟩⟩
  · have hto' : d.alphaTo = maxAlpha := hto.resolve_right fun h => by rw [h] at hlt; linarith
    rw [hvalue, hnext]
    refine ⟨fun _ => ⟨?_, ?_, fun _ => ?_⟩, fun h => absurd ?_ h⟩
    · exact le_min (hto' ▸ hmax.le) (by linarith)
    · exact (min_le_left _ _).trans hto'.le
    · exact lt_min (hto' ▸ hmax) (by linarith)
    · norm_num [minUpdateAlphaDiff, abs_of_pos]
  · have hto' : d.alphaTo = 0 := hto.resolve_left fun h => by rw [h] at hlt; linarith
    rw [hvalue, hnext]
    refine ⟨fun _ => ⟨?_, ?_, fun h => ?_⟩, fun h => absurd ?_ h⟩
    · exact hto' ▸ le_max_left _ _
    · exact max_le (hto' ▸ hmax.le) (by linarith)
    · rw [h] at hto'
      linarith
    · norm_num [minUpdateAlphaDiff, abs_of_pos]

/-! ## The invariant -/

/-- An entry owns a live image of its unit. -/
structure Core (s : State) : Prop where
  alpha : ∀ u d, s.unitImageMap.lookup u = some d → 0 ≤ d.alpha ∧ d.alpha ≤ maxAlpha ∧ d.alphaD = 0
  image : ∀ u d, s.unitImageMap.lookup u = some d →
    s.Live d.image ∧ s.created[d.image]? = some u.unit
  imageInj : ∀ u u' d d', s.unitImageMap.lookup u = some d → s.unitImageMap.lookup u' = some d' →
    d.image = d'.image → u = u'
  nodup : s.destroyed.Nodup
  bound : ∀ image ∈ s.destroyed, image < s.created.length
  cached : ∀ handle u, s.objects handle = some u → u.unit = handle ∧ u.serial < s.serials
  serial : ∀ u ∈ s.unitImageMap, u.serial < s.serials
  ok : s.failed = false

/-- The target has an entry, and its userdata has not been finalized. -/
def Target (s : State) : Prop :=
  ∀ u, s.lastTargetUnit = some u → u ∈ s.unitImageMap ∧ ¬ s.Finalized u

/-- An entry has a positive `alpha`, or it is the one of the target and waits for its first turn. -/
def Faded (s : State) : Prop :=
  ∀ u d, s.unitImageMap.lookup u = some d →
    0 < d.alpha ∨ (s.lastTargetUnit = some u ∧ u ∈ s.pairs)

/-- A live image has an entry, and a unit has one entry at most. -/
structure Owned (s : State) : Prop where
  recorded : ∀ image, s.Live image → ∃ u d, s.unitImageMap.lookup u = some d ∧ d.image = image
  single : ∀ u ∈ s.unitImageMap, ∀ u' ∈ s.unitImageMap, u.unit = u'.unit → u = u'

variable {s : State} {u : Userdata} {d : ImageData}

theorem mem_of_lookup (h : s.unitImageMap.lookup u = some d) : u ∈ s.unitImageMap :=
  AList.lookup_isSome.mp (by rw [h]; rfl)

theorem exists_lookup (h : u ∈ s.unitImageMap) : ∃ d, s.unitImageMap.lookup u = some d :=
  Option.isSome_iff_exists.mp (AList.lookup_isSome.mpr h)

/-! ### Entries -/

theorem lookup_store (s : State) (u u' : Userdata) (d : ImageData) :
    (s.store u d).unitImageMap.lookup u' = if u' = u then some d else s.unitImageMap.lookup u' := by
  by_cases h : u' = u
  · subst h
    simp [State.store]
  · simp [State.store, h]

theorem mem_store {u' : Userdata} : u' ∈ (s.store u d).unitImageMap ↔ u' = u ∨ u' ∈ s.unitImageMap :=
  AList.mem_insert _

/-- The fields of an entry are changed, but for the image. -/
theorem Core.store (h : Core s) {d' : ImageData} (hd : s.unitImageMap.lookup u = some d)
    (himage : d'.image = d.image) (halpha : 0 ≤ d'.alpha ∧ d'.alpha ≤ maxAlpha ∧ d'.alphaD = 0) :
    Core (s.store u d') := by
  have hmem : ∀ u' ∈ (s.store u d').unitImageMap, u' ∈ s.unitImageMap := fun u' hu' =>
    (mem_store.mp hu').elim (fun heq => heq ▸ mem_of_lookup hd) id
  have hold : ∀ u' e, (s.store u d').unitImageMap.lookup u' = some e →
      ∃ e', s.unitImageMap.lookup u' = some e' ∧ e.image = e'.image := by
    intro u' e he
    rw [lookup_store] at he
    split_ifs at he with heq
    · cases he
      exact ⟨d, heq ▸ hd, himage⟩
    · exact ⟨e, he, rfl⟩
  exact {
    alpha := by
      intro u' e he
      rw [lookup_store] at he
      split_ifs at he
      · cases he
        exact halpha
      · exact h.alpha u' e he
    image := by
      intro u' e he
      obtain ⟨e', he', heq⟩ := hold u' e he
      rw [heq]
      exact h.image u' e' he'
    imageInj := by
      intro u₁ u₂ e₁ e₂ h₁ h₂ heq
      obtain ⟨e₁', h₁', heq₁⟩ := hold u₁ e₁ h₁
      obtain ⟨e₂', h₂', heq₂⟩ := hold u₂ e₂ h₂
      exact h.imageInj u₁ u₂ e₁' e₂' h₁' h₂' (heq₁.symm.trans (heq.trans heq₂))
    nodup := h.nodup
    bound := h.bound
    cached := h.cached
    serial := fun u' hu' => h.serial u' (hmem u' hu')
    ok := h.ok }

theorem Owned.store (h : Owned s) {d' : ImageData} (hd : s.unitImageMap.lookup u = some d)
    (himage : d'.image = d.image) : Owned (s.store u d') where
  recorded image hlive := by
    obtain ⟨u', e, he, rfl⟩ := h.recorded image hlive
    by_cases heq : u' = u
    · subst heq
      refine ⟨u', d', by rw [lookup_store, if_pos rfl], ?_⟩
      rw [himage, Option.some.inj (hd.symm.trans he)]
    · exact ⟨u', e, by rw [lookup_store, if_neg heq]; exact he, rfl⟩
  single u₁ h₁ u₂ h₂ := by
    have hmem : ∀ u' ∈ (s.store u d').unitImageMap, u' ∈ s.unitImageMap := fun u' hu' =>
      (mem_store.mp hu').elim (fun heq => heq ▸ mem_of_lookup hd) id
    exact h.single u₁ (hmem u₁ h₁) u₂ (hmem u₂ h₂)

/-! ### Images -/

theorem live_create {image : ℕ} (hbound : ∀ image ∈ s.destroyed, image < s.created.length)
    {unit : UnitHandle} :
    (s.createImage unit).2.Live image ↔ s.Live image ∨ image = s.created.length := by
  show (image < (s.created ++ [unit]).length ∧ image ∉ s.destroyed) ↔ _
  rw [List.length_append, List.length_singleton, State.Live]
  constructor
  · rintro ⟨hlt, hnot⟩
    rcases Nat.lt_succ_iff_lt_or_eq.mp hlt with hlt | heq
    · exact .inl ⟨hlt, hnot⟩
    · exact .inr heq
  · rintro (⟨hlt, hnot⟩ | rfl)
    · exact ⟨Nat.lt_succ_of_lt hlt, hnot⟩
    · exact ⟨Nat.lt_succ_self _, fun hin => (hbound _ hin).false⟩

/-- A new image with its entry. -/
def State.record (s : State) (u : Userdata) (d : ImageData) : State :=
  (s.createImage u.unit).2.store u { d with image := s.created.length }

theorem lookup_record (s : State) (u u' : Userdata) (d : ImageData) :
    (s.record u d).unitImageMap.lookup u' =
      if u' = u then some { d with image := s.created.length } else s.unitImageMap.lookup u' :=
  lookup_store _ u u' _

theorem mem_record {u' : Userdata} : u' ∈ (s.record u d).unitImageMap ↔ u' = u ∨ u' ∈ s.unitImageMap :=
  AList.mem_insert _

theorem live_record {image : ℕ} (h : Core s) :
    (s.record u d).Live image ↔ s.Live image ∨ image = s.created.length := live_create h.bound

theorem Core.record (h : Core s) (hserial : u.serial < s.serials)
    (halpha : 0 ≤ d.alpha ∧ d.alpha ≤ maxAlpha ∧ d.alphaD = 0) : Core (s.record u d) := by
  have hold : ∀ u' e, s.unitImageMap.lookup u' = some e → e.image < s.created.length :=
    fun u' e he => (h.image u' e he).1.1
  exact {
    alpha := by
      intro u' e he
      rw [lookup_record] at he
      split_ifs at he
      · cases he
        exact halpha
      · exact h.alpha u' e he
    image := by
      intro u' e he
      rw [lookup_record] at he
      split_ifs at he with heq
      · cases he
        exact ⟨(live_record h).mpr (.inr rfl), by subst heq; exact List.getElem?_concat_length⟩
      · obtain ⟨hlive, hunit⟩ := h.image u' e he
        exact ⟨(live_record h).mpr (.inl hlive), (List.getElem?_append_left hlive.1).trans hunit⟩
    imageInj := by
      intro u₁ u₂ e₁ e₂ h₁ h₂ heq
      rw [lookup_record] at h₁ h₂
      split_ifs at h₁ h₂ with hu₁ hu₂ hu₂
      · exact hu₁.trans hu₂.symm
      · cases h₁
        exact absurd heq (hold u₂ e₂ h₂).ne'
      · cases h₂
        exact absurd heq (hold u₁ e₁ h₁).ne
      · exact h.imageInj u₁ u₂ e₁ e₂ h₁ h₂ heq
    nodup := h.nodup
    bound := fun image himage => by
      show image < (s.created ++ [u.unit]).length
      rw [List.length_append]
      exact Nat.lt_add_right _ (h.bound image himage)
    cached := h.cached
    serial := fun u' hu' => (mem_record.mp hu').elim (fun heq => heq ▸ hserial) (h.serial u')
    ok := h.ok }

/-- The unit has no other entry. -/
theorem Owned.record (h : Owned s) (hcore : Core s) (hnew : u ∉ s.unitImageMap)
    (hunit : ∀ u' ∈ s.unitImageMap, u'.unit ≠ u.unit) : Owned (s.record u d) where
  recorded image hlive := by
    rcases (live_record hcore).mp hlive with hlive | rfl
    · obtain ⟨u', e, he, rfl⟩ := h.recorded image hlive
      have hne : u' ≠ u := fun heq => hnew (heq ▸ mem_of_lookup he)
      exact ⟨u', e, by rw [lookup_record, if_neg hne]; exact he, rfl⟩
    · exact ⟨u, _, by rw [lookup_record, if_pos rfl], rfl⟩
  single u₁ h₁ u₂ h₂ heq := by
    rcases mem_record.mp h₁ with heq₁ | hin₁ <;> rcases mem_record.mp h₂ with heq₂ | hin₂
    · exact heq₁.trans heq₂.symm
    · exact absurd (heq.symm.trans (congrArg _ heq₁)) (hunit u₂ hin₂)
    · exact absurd (heq.trans (congrArg _ heq₂)) (hunit u₁ hin₁)
    · exact h.single u₁ hin₁ u₂ hin₂ heq

/-! ### Removal -/

/-- An entry is removed and its image destroyed. -/
theorem removeUnit_eq (hd : s.unitImageMap.lookup u = some d) : s.removeUnit u =
    { s.destroyImage d.image with unitImageMap := s.unitImageMap.erase u } := by
  rw [State.removeUnit, hd]
  rfl

theorem lookup_removeUnit (hd : s.unitImageMap.lookup u = some d) (u' : Userdata) :
    (s.removeUnit u).unitImageMap.lookup u' =
      if u' = u then none else s.unitImageMap.lookup u' := by
  rw [removeUnit_eq hd]
  by_cases h : u' = u
  · subst h
    simp
  · simp [h]

theorem mem_removeUnit (hd : s.unitImageMap.lookup u = some d) {u' : Userdata} :
    u' ∈ (s.removeUnit u).unitImageMap ↔ u' ≠ u ∧ u' ∈ s.unitImageMap := by
  rw [removeUnit_eq hd]
  exact AList.mem_erase

theorem live_removeUnit (hd : s.unitImageMap.lookup u = some d) {image : ℕ} :
    (s.removeUnit u).Live image ↔ s.Live image ∧ image ≠ d.image := by
  rw [removeUnit_eq hd]
  show (_ ∧ image ∉ s.destroyed ++ [d.image]) ↔ (_ ∧ _) ∧ _
  rw [List.mem_append, List.mem_singleton, not_or, and_assoc]
  rfl

theorem Core.removeUnit (h : Core s) (hd : s.unitImageMap.lookup u = some d) :
    Core (s.removeUnit u) := by
  have hold : ∀ u' e, (s.removeUnit u).unitImageMap.lookup u' = some e →
      u' ≠ u ∧ s.unitImageMap.lookup u' = some e := by
    intro u' e he
    rw [lookup_removeUnit hd] at he
    split_ifs at he with heq
    exact ⟨heq, he⟩
  have hdestroyed : (s.removeUnit u).destroyed = s.destroyed ++ [d.image] := by
    rw [removeUnit_eq hd]
    rfl
  have hlive := (h.image u d hd).1
  exact {
    alpha := fun u' e he => h.alpha u' e (hold u' e he).2
    image := by
      intro u' e he
      obtain ⟨hne, he⟩ := hold u' e he
      have himage := h.image u' e he
      refine ⟨(live_removeUnit hd).mpr ⟨himage.1, fun heq => ?_⟩, ?_⟩
      · exact hne (h.imageInj u' u e d he hd heq)
      · rw [removeUnit_eq hd]
        exact himage.2
    imageInj := fun u₁ u₂ e₁ e₂ h₁ h₂ =>
      h.imageInj u₁ u₂ e₁ e₂ (hold u₁ e₁ h₁).2 (hold u₂ e₂ h₂).2
    nodup := by
      rw [hdestroyed]
      exact List.nodup_append.mpr ⟨h.nodup, List.nodup_singleton _,
        fun a ha b hb heq => hlive.2 (by rw [← List.mem_singleton.mp hb, ← heq]; exact ha)⟩
    bound := by
      intro image himage
      rw [hdestroyed, List.mem_append, List.mem_singleton] at himage
      rw [removeUnit_eq hd]
      exact himage.elim (h.bound image) fun heq => heq ▸ hlive.1
    cached := by
      rw [removeUnit_eq hd]
      exact h.cached
    serial := fun u' hu' => by
      have := h.serial u' ((mem_removeUnit hd).mp hu').2
      rw [removeUnit_eq hd]
      exact this
    ok := by
      rw [removeUnit_eq hd]
      exact h.ok }

theorem Owned.removeUnit (h : Owned s) (hd : s.unitImageMap.lookup u = some d) :
    Owned (s.removeUnit u) where
  recorded image hlive := by
    obtain ⟨hlive, hne⟩ := (live_removeUnit hd).mp hlive
    obtain ⟨u', e, he, rfl⟩ := h.recorded image hlive
    refine ⟨u', e, ?_, rfl⟩
    have hu : u' ≠ u := fun heq => by
      subst heq
      exact hne (congrArg ImageData.image (Option.some.inj (he.symm.trans hd)))
    rw [lookup_removeUnit hd, if_neg hu]
    exact he
  single u₁ h₁ u₂ h₂ :=
    h.single u₁ ((mem_removeUnit hd).mp h₁).2 u₂ ((mem_removeUnit hd).mp h₂).2

/-! ## The operations of the script -/

/-- A resize takes the image away and makes a new one. -/
theorem resize_eq (hd : s.unitImageMap.lookup u = some d) {d' : ImageData}
    (himage : d'.image = d.image) (hrange : d'.range ≠ s.range u.unit) :
    s.resize u d' = ({ d' with image := s.created.length }, (s.removeUnit u).record u d') := by
  have hinsert : ∀ e, (s.unitImageMap.erase u).insert u e = s.unitImageMap.insert u e := fun e =>
    AList.ext (AList.entries_insert_of_notMem (by simp))
  rw [State.resize, if_pos hrange, removeUnit_eq hd, himage]
  simp only [State.record, State.createImage, State.destroyImage, State.store, hinsert]

/-- What a resize keeps of the state. -/
structure Resized (s s' : State) (u : Userdata) (d d' : ImageData) : Prop where
  core : Core s'
  owned : Owned s → Owned s'
  entry : ∃ e, s'.unitImageMap.lookup u = some e ∧ e.image = d'.image
  other : ∀ u' ≠ u, s'.unitImageMap.lookup u' = s.unitImageMap.lookup u'
  same : s'.lastTargetUnit = s.lastTargetUnit ∧ s'.objects = s.objects ∧ s'.pairs = s.pairs
  data : d'.alpha = d.alpha ∧ d'.alphaTo = d.alphaTo ∧ d'.alphaD = d.alphaD

theorem resized (h : Core s) (hd : s.unitImageMap.lookup u = some d) (d' : ImageData)
    (himage : d'.image = d.image)
    (halpha : 0 ≤ d'.alpha ∧ d'.alpha ≤ maxAlpha ∧ d'.alphaD = 0) :
    Resized s (s.resize u d').2 u d' (s.resize u d').1 := by
  by_cases hrange : d'.range = s.range u.unit
  · have hsame : s.resize u d' = (d', s) := by
      rw [State.resize, if_neg (not_not.mpr hrange)]
    rw [hsame]
    exact ⟨h, id, ⟨d, hd, himage.symm⟩, fun _ _ => rfl, ⟨rfl, rfl, rfl⟩, ⟨rfl, rfl, rfl⟩⟩
  · have hremoved := h.removeUnit hd
    have hlength : (s.removeUnit u).created = s.created := by
      rw [removeUnit_eq hd]
      rfl
    rw [resize_eq hd himage hrange]
    refine ⟨hremoved.record ?_ halpha, fun howned => ?_, ⟨_, ?_, rfl⟩, fun u' hne => ?_, ?_,
      ⟨rfl, rfl, rfl⟩⟩
    · have hserial := h.serial u (mem_of_lookup hd)
      rw [removeUnit_eq hd]
      exact hserial
    · refine (howned.removeUnit hd).record hremoved
        (fun hin => ((mem_removeUnit hd).mp hin).1 rfl) fun u' hu' heq => ?_
      obtain ⟨hne, hin⟩ := (mem_removeUnit hd).mp hu'
      exact hne (howned.single u' hin u (mem_of_lookup hd) heq)
    · rw [lookup_record, if_pos rfl, hlength]
    · rw [lookup_record, if_neg hne, lookup_removeUnit hd, if_neg hne]
    · rw [removeUnit_eq hd]
      exact ⟨rfl, rfl, rfl⟩

/-- What the turn of an entry keeps of the state. -/
structure Visited (s s' : State) (u : Userdata) : Prop where
  core : Core s'
  owned : Owned s → Owned s'
  self : ∀ e, s'.unitImageMap.lookup u = some e → 0 < e.alpha
  mem : s.lastTargetUnit = some u → u ∈ s'.unitImageMap
  other : ∀ u' ≠ u, s'.unitImageMap.lookup u' = s.unitImageMap.lookup u'
  same : s'.lastTargetUnit = s.lastTargetUnit ∧ s'.objects = s.objects ∧ s'.pairs = s.pairs

/-- The fields of the entry are stored after a resize. -/
theorem Resized.visited {s₁ : State} {d₁ d₂ d₃ : ImageData} (h : Resized s s₁ u d₁ d₂)
    (himage : d₃.image = d₂.image) (halpha : 0 ≤ d₃.alpha ∧ d₃.alpha ≤ maxAlpha ∧ d₃.alphaD = 0)
    (hpos : 0 < d₃.alpha) : Visited s (s₁.store u d₃) u := by
  obtain ⟨e, he, heq⟩ := h.entry
  have hsame : d₃.image = e.image := himage.trans heq.symm
  refine ⟨h.core.store he hsame halpha, fun howned => (h.owned howned).store he hsame, ?_,
    fun _ => mem_store.mpr (.inl rfl), fun u' hne => ?_, h.same⟩
  · intro e' he'
    rw [lookup_store, if_pos rfl] at he'
    exact Option.some.inj he' ▸ hpos
  · rw [lookup_store, if_neg hne]
    exact h.other u' hne

/-- The entry is removed after a resize. -/
theorem Resized.removed {s₁ : State} {d₁ d₂ d₃ : ImageData} (h : Resized s s₁ u d₁ d₂)
    (himage : d₃.image = d₂.image) (halpha : 0 ≤ d₃.alpha ∧ d₃.alpha ≤ maxAlpha ∧ d₃.alphaD = 0)
    (hother : s.lastTargetUnit ≠ some u) : Visited s ((s₁.store u d₃).removeUnit u) u := by
  obtain ⟨e, he, heq⟩ := h.entry
  have hsame : d₃.image = e.image := himage.trans heq.symm
  have hstored : (s₁.store u d₃).unitImageMap.lookup u = some d₃ := by
    rw [lookup_store, if_pos rfl]
  refine ⟨(h.core.store he hsame halpha).removeUnit hstored,
    fun howned => ((h.owned howned).store he hsame).removeUnit hstored, fun e' he' => ?_,
    fun hlast => absurd hlast hother, fun u' hne => ?_, ?_⟩
  · rw [lookup_removeUnit hstored, if_pos rfl] at he'
    cases he'
  · rw [lookup_removeUnit hstored, if_neg hne, lookup_store, if_neg hne]
    exact h.other u' hne
  · rw [removeUnit_eq hstored]
    exact h.same

/-- **The turn of an entry.** -/
theorem visited (h : Core s) (hd : s.unitImageMap.lookup u = some d)
    (hpos : s.lastTargetUnit ≠ some u → 0 < d.alpha) : Visited s (s.updateUnitImage u d) u := by
  have hmax : (0 : ℚ) < maxAlpha := by norm_num [maxAlpha]
  obtain ⟨h0, h1, hD⟩ := h.alpha u d hd
  set alphaTo : ℚ := if s.lastTargetUnit = some u then maxAlpha else 0 with halphaTo
  have hr := resized h hd { d with alphaTo := alphaTo } rfl ⟨h0, h1, hD⟩
  unfold State.updateUnitImage
  rw [← halphaTo]
  generalize s.resize u { d with alphaTo := alphaTo } = r at hr ⊢
  dsimp only
  obtain ⟨halpha, hto, hD'⟩ := hr.data
  dsimp only at halpha hto hD'
  have hends : r.1.alphaTo = maxAlpha ∨ r.1.alphaTo = 0 := by
    rw [hto, halphaTo]
    exact ite_eq_or_eq _ _ _
  obtain ⟨happly, hrest⟩ := nextAlpha_bounds (hD'.trans hD) (halpha ▸ h0) (halpha ▸ h1) hends
  by_cases hmin : |r.1.nextAlphaD| ≥ minUpdateAlphaDiff
  · obtain ⟨hlow, hhigh, hself⟩ := happly hmin
    rw [if_pos hmin]
    split_ifs with hdone
    · refine hr.removed rfl ⟨hlow, hhigh, rfl⟩ fun hlast => ?_
      have hzero : alphaTo = 0 := hto.symm.trans hdone.2
      rw [halphaTo, if_pos hlast] at hzero
      exact hmax.ne' hzero
    · refine hr.visited rfl ⟨hlow, hhigh, rfl⟩ ?_
      by_contra hle
      rcases hends with hend | hend
      · exact hle (hself hend)
      · exact hdone ⟨not_lt.mp hle, hend⟩
  · obtain ⟨hend, hzero⟩ := hrest hmin
    rw [if_neg hmin]
    refine hr.visited rfl ⟨halpha ▸ h0, halpha ▸ h1, hzero⟩ ?_
    by_cases hlast : s.lastTargetUnit = some u
    · show 0 < r.1.alpha
      rw [hend, hto, halphaTo, if_pos hlast]
      exact hmax
    · exact halpha ▸ hpos hlast

/-- The turn of an entry that fades out ends the fade, or `alpha` is less by one step. -/
theorem fadeOut_visited (h : Core s) (hd : s.unitImageMap.lookup u = some d)
    (hlast : s.lastTargetUnit ≠ some u) (hpos : 0 < d.alpha) :
    (s.updateUnitImage u d).unitImageMap.lookup u = none ∨
    ∃ e, (s.updateUnitImage u d).unitImageMap.lookup u = some e ∧ e.alpha = d.alpha - 96 / 25 := by
  obtain ⟨h0, h1, hD⟩ := h.alpha u d hd
  have hr := resized h hd { d with alphaTo := 0 } rfl ⟨h0, h1, hD⟩
  unfold State.updateUnitImage
  rw [if_neg hlast]
  generalize s.resize u { d with alphaTo := 0 } = r at hr ⊢
  dsimp only
  obtain ⟨halpha, hto, hD'⟩ := hr.data
  dsimp only at halpha hto hD'
  have hlt : r.1.alphaTo < r.1.alpha := by rw [hto, halpha]; exact hpos
  rcases nextAlpha_eq (hD'.trans hD) with ⟨heq, -⟩ | ⟨hgt, -⟩ | ⟨-, hnext, hvalue⟩
  · exact absurd heq hlt.ne'
  · exact absurd hgt hlt.not_gt
  · have hmin : |r.1.nextAlphaD| ≥ minUpdateAlphaDiff := by
      rw [hnext]
      norm_num [minUpdateAlphaDiff, abs_of_pos]
    rw [if_pos hmin, hvalue, hto, halpha]
    split_ifs with hdone
    · refine .inl ?_
      rw [lookup_removeUnit (by rw [lookup_store, if_pos rfl]), if_pos rfl]
    · refine .inr ⟨_, by rw [lookup_store, if_pos rfl], ?_⟩
      refine max_eq_right (le_of_lt ?_)
      by_contra hle
      exact hdone ⟨max_le le_rfl (not_lt.mp hle), rfl⟩

end DreamDota.AttackRange
