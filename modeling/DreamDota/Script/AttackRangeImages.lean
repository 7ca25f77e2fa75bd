import DreamDota.Lib.Session
import DreamDota.Script.AttackRangeEntries

/-!
# The images of the overlay

1. `selected`: a new target.
2. `Good.beginRender`, `Good.visit`, `Good.collect`: what the parts of a session keep.
3. `law_iff`: the sessions in which the images are owned all the time.
-/

namespace DreamDota.AttackRange

variable {s : State} {u : Userdata} {d : ImageData}

/-! ## Selection -/

/-- What a call of `Unit` keeps of the state. -/
structure Called (s s' : State) (u : Userdata) : Prop where
  core : Core s'
  cached : ¬ s'.Finalized u
  serial : u.serial < s'.serials
  objects : ∀ u', ¬ s.Finalized u' → ¬ s'.Finalized u'
  only : ∀ u', ¬ s.Finalized u' → u'.unit = u.unit → u' = u
  old : u ∈ s.unitImageMap → ¬ s.Finalized u
  same : s'.unitImageMap = s.unitImageMap ∧ s'.created = s.created ∧ s'.destroyed = s.destroyed ∧
    s'.lastTargetUnit = s.lastTargetUnit ∧ s'.pairs = s.pairs

theorem callUnit_some {handle : UnitHandle} (h : s.objects handle = some u) :
    s.callUnit handle = (u, s) := by rw [State.callUnit, h]

theorem callUnit_none {handle : UnitHandle} (h : s.objects handle = none) :
    s.callUnit handle = (⟨handle, s.serials⟩,
      { s with
        objects := Function.update s.objects handle (some ⟨handle, s.serials⟩)
        serials := s.serials + 1 }) := by rw [State.callUnit, h]

theorem called (h : Core s) (handle : UnitHandle) :
    (s.callUnit handle).1.unit = handle ∧
      Called s (s.callUnit handle).2 (s.callUnit handle).1 := by
  cases hobject : s.objects handle with
  | some u =>
    obtain ⟨hunit, hserial⟩ := h.cached handle u hobject
    have hcached : s.objects u.unit = some u := hunit.symm ▸ hobject
    rw [callUnit_some hobject]
    refine ⟨hunit, h, not_not.mpr hcached, hserial, fun _ => id, fun u' hu' heq => ?_,
      fun _ => not_not.mpr hcached, ⟨rfl, rfl, rfl, rfl, rfl⟩⟩
    have hu : s.objects u'.unit = some u' := not_not.mp hu'
    rw [heq, hcached] at hu
    exact (Option.some.inj hu).symm
  | none =>
    rw [callUnit_none hobject]
    refine ⟨rfl, ?_, not_not.mpr (Function.update_self _ _ _), Nat.lt_succ_self _,
      fun u' hu' => ?_, fun u' hu' heq => ?_, fun hu => absurd (h.serial _ hu) (lt_irrefl _),
      ⟨rfl, rfl, rfl, rfl, rfl⟩⟩
    · refine ⟨h.alpha, h.image, h.imageInj, h.nodup, h.bound, fun handle' u hu => ?_,
        fun u hu => Nat.lt_succ_of_lt (h.serial u hu), h.ok⟩
      dsimp only at hu
      by_cases heq : handle' = handle
      · subst heq
        rw [Function.update_self] at hu
        cases hu
        exact ⟨rfl, Nat.lt_succ_self _⟩
      · rw [Function.update_of_ne heq] at hu
        exact (h.cached handle' u hu).imp_right Nat.lt_succ_of_lt
    · have hu : s.objects u'.unit = some u' := not_not.mp hu'
      have hne : u'.unit ≠ handle := fun heq => by
        rw [heq, hobject] at hu
        cases hu
      exact not_not.mpr ((Function.update_of_ne hne _ _).trans hu)
    · have hu : s.objects u'.unit = some u' := not_not.mp hu'
      rw [show u'.unit = handle from heq, hobject] at hu
      cases hu

theorem addUnit_of_mem (hu : u ∈ s.unitImageMap) : s.addUnit u = s := by
  obtain ⟨d, hd⟩ := exists_lookup hu
  rw [State.addUnit, hd]

theorem addUnit_of_notMem (hu : u ∉ s.unitImageMap) :
    s.addUnit u = s.record u ⟨s.created.length, 0, 0, maxAlpha, 0, s.range u.unit⟩ := by
  rw [State.addUnit, AList.lookup_eq_none.mpr hu]
  rfl

/-- What does not depend on the target. -/
theorem Core.setLast (h : Core s) (last : Option Userdata) :
    Core { s with lastTargetUnit := last } :=
  ⟨h.alpha, h.image, h.imageInj, h.nodup, h.bound, h.cached, h.serial, h.ok⟩

/-- `Owned` depends on the map and the images. -/
theorem Owned.congr {s' : State} (h : Owned s) (hmap : s'.unitImageMap = s.unitImageMap)
    (hcreated : s'.created = s.created) (hdestroyed : s'.destroyed = s.destroyed) : Owned s' where
  recorded image hlive := by
    rw [State.Live, hcreated, hdestroyed] at hlive
    rw [hmap]
    exact h.recorded image hlive
  single := by
    rw [hmap]
    exact h.single

/-- What a new target keeps of the state. -/
structure Selected (s s' : State) (handle : UnitHandle) : Prop where
  core : Core s'
  target : Target s'
  alpha : ∀ u d, s'.unitImageMap.lookup u = some d →
    s.unitImageMap.lookup u = some d ∨ s'.lastTargetUnit = some u
  owned : Owned s → (Owned s' ↔ ∀ u ∈ s.unitImageMap, u.unit = handle → ¬ s.Finalized u)

/-- **A new target.** It has an entry. A second entry for its unit is made if the first one belongs to
a userdata that has been finalized. -/
theorem selected (h : Core s) (handle : UnitHandle) : Selected s (s.setTarget handle) handle := by
  obtain ⟨hunit, hcalled⟩ := called h handle
  unfold State.setTarget
  generalize s.callUnit handle = r at hunit hcalled
  obtain ⟨hmap, hcreated, hdestroyed, -, -⟩ := hcalled.same
  dsimp only
  have hcore := hcalled.core.setLast (some r.1)
  have hkeep : Owned s → Owned { r.2 with lastTargetUnit := some r.1 } :=
    fun howned => howned.congr hmap hcreated hdestroyed
  generalize hs₁ : ({ r.2 with lastTargetUnit := some r.1 } : State) = s₁ at hcore hkeep ⊢
  have hmap₁ : s₁.unitImageMap = s.unitImageMap := hs₁ ▸ hmap
  have hlast : s₁.lastTargetUnit = some r.1 := hs₁ ▸ rfl
  have hcached : ¬ s₁.Finalized r.1 := hs₁ ▸ hcalled.cached
  have hserial : r.1.serial < s₁.serials := hs₁ ▸ hcalled.serial
  -- A userdata that is in the cache is the one that `Unit` returns.
  have honly : ∀ u, ¬ s.Finalized u → u.unit = handle → u = r.1 :=
    fun u hu heq => hcalled.only u hu (heq.trans hunit.symm)
  by_cases hmem : r.1 ∈ s₁.unitImageMap
  · rw [addUnit_of_mem hmem]
    refine ⟨hcore, fun u hu => ?_, fun u d hd => .inl (hmap₁ ▸ hd), fun hs => ⟨fun _ u hu heq => ?_,
      fun _ => hkeep hs⟩⟩
    · obtain rfl := Option.some.inj (hlast.symm.trans hu)
      exact ⟨hmem, hcached⟩
    · rw [hmap₁] at hmem
      rw [hs.single u hu r.1 hmem (heq.trans hunit.symm)]
      exact hcalled.old hmem
  · rw [addUnit_of_notMem hmem]
    refine ⟨hcore.record hserial ⟨le_rfl, by norm_num [maxAlpha], rfl⟩, fun u hu => ?_,
      fun u d hd => ?_, fun hs => ⟨fun howned u hu heq _ => ?_, fun hall => ?_⟩⟩
    · obtain rfl := Option.some.inj (hlast.symm.trans hu)
      exact ⟨mem_record.mpr (.inl rfl), hcached⟩
    · rw [lookup_record] at hd
      split_ifs at hd with heq
      · exact .inr (heq ▸ hlast)
      · exact .inl (hmap₁ ▸ hd)
    · have hsame := howned.single u (mem_record.mpr (.inr (hmap₁.symm ▸ hu))) r.1
        (mem_record.mpr (.inl rfl)) (heq.trans hunit.symm)
      exact hmem (hsame ▸ hmap₁.symm ▸ hu)
    · refine (hkeep hs).record hcore hmem fun u hu heq => ?_
      rw [hmap₁] at hu
      have huo := honly u (hall u hu (heq.trans hunit)) (heq.trans hunit)
      exact hmem (huo ▸ hmap₁.symm ▸ hu)

/-- What `UnitImageMap[LastTargetUnit].alpha_to = 0` keeps of the state. -/
structure Dimmed (s s' : State) : Prop where
  core : Core s'
  owned : Owned s → Owned s'
  mem : ∀ u, u ∈ s'.unitImageMap ↔ u ∈ s.unitImageMap
  alpha : ∀ u d, s'.unitImageMap.lookup u = some d →
    ∃ e, s.unitImageMap.lookup u = some e ∧ d.alpha = e.alpha
  same : s'.lastTargetUnit = s.lastTargetUnit ∧ s'.objects = s.objects ∧ s'.pairs = s.pairs

theorem dimmed_refl (h : Core s) : Dimmed s s :=
  ⟨h, id, fun _ => Iff.rfl, fun _ d hd => ⟨d, hd, rfl⟩, ⟨rfl, rfl, rfl⟩⟩

theorem dimmed_fadeOut (h : Core s) (hu : u ∈ s.unitImageMap) : Dimmed s (s.fadeOut u) := by
  obtain ⟨d, hd⟩ := exists_lookup hu
  rw [State.fadeOut, hd]
  refine ⟨h.store hd rfl (h.alpha u d hd), fun howned => howned.store hd rfl, fun u' => ?_,
    fun u' d' hd' => ?_, ⟨rfl, rfl, rfl⟩⟩
  · exact mem_store.trans ⟨fun h => h.elim (fun heq => heq ▸ hu) id, .inr⟩
  · rw [lookup_store] at hd'
    split_ifs at hd' with heq
    · cases hd'
      exact ⟨d, heq ▸ hd, rfl⟩
    · exact ⟨d', hd', rfl⟩

/-- The unit becomes the target. -/
def Selects (s : State) (selected : List UnitHandle) (handle : UnitHandle) : Prop :=
  s.displayRange = true ∧ selected = [handle] ∧
    ∀ last, s.lastTargetUnit = some last → handle ≠ last.unit

/-- **The target of a step.** It stays or there is none any more, or a unit becomes the target. -/
theorem updateTarget_cases (h : Core s) (ht : Target s) (selected : List UnitHandle) :
    ∃ s₁, Dimmed s s₁ ∧
      (((∀ handle, ¬ Selects s selected handle) ∧
        (s.updateTarget selected = s₁ ∨ s.updateTarget selected = { s₁ with lastTargetUnit := none })) ∨
      ∃ handle, Selects s selected handle ∧ s.updateTarget selected = s₁.setTarget handle) := by
  have hfade : ∀ last, s.lastTargetUnit = some last →
      Dimmed s (s.fadeOut last) ∧ (s.fadeOut last).failed = false := fun last hlast =>
    have hdim := dimmed_fadeOut h (ht last hlast).1
    ⟨hdim, hdim.core.ok⟩
  unfold State.updateTarget
  cases hdisplay : s.displayRange with
  | false =>
    have hno : ∀ handle, ¬ Selects s selected handle := fun handle hsel => by
      rw [Selects, hdisplay] at hsel
      exact Bool.noConfusion hsel.1
    cases hlast : s.lastTargetUnit with
    | none => exact ⟨s, dimmed_refl h, .inl ⟨hno, .inl (by simp)⟩⟩
    | some last =>
      obtain ⟨hdim, hok⟩ := hfade last hlast
      exact ⟨_, hdim, .inl ⟨hno, .inr (by simp [hok])⟩⟩
  | true =>
    match selected with
    | [] => exact ⟨s, dimmed_refl h, .inl ⟨fun _ hsel => (by cases hsel.2.1), .inr (by simp [hdisplay])⟩⟩
    | _ :: _ :: _ =>
      exact ⟨s, dimmed_refl h, .inl ⟨fun _ hsel => (by cases hsel.2.1), .inr (by simp [hdisplay])⟩⟩
    | [handle] =>
      cases hlast : s.lastTargetUnit with
      | none =>
        have hsel : Selects s [handle] handle :=
          ⟨hdisplay, rfl, fun last heq => by rw [hlast] at heq; cases heq⟩
        exact ⟨s, dimmed_refl h, .inr ⟨handle, hsel, by simp⟩⟩
      | some last =>
        by_cases hsame : handle = last.unit
        · have hno : ∀ handle', ¬ Selects s [handle] handle' := fun handle' hsel => by
            cases hsel.2.1
            exact hsel.2.2 last hlast hsame
          exact ⟨s, dimmed_refl h, .inl ⟨hno, .inl (by simp [hsame])⟩⟩
        · have hsel : Selects s [handle] handle := ⟨hdisplay, rfl, fun last' heq => by
            obtain rfl := Option.some.inj (hlast.symm.trans heq)
            exact hsame⟩
          obtain ⟨hdim, hok⟩ := hfade last hlast
          exact ⟨_, hdim, .inr ⟨handle, hsel, by simp [hsame, hok]⟩⟩

/-! ## What the events keep -/

/-- What no event breaks. -/
structure Good (s : State) : Prop where
  core : Core s
  target : Target s
  faded : Faded s

theorem good_init (range : UnitHandle → ℚ) (hotkey : ℕ) : Good (State.init range hotkey) where
  core := by
    refine ⟨fun u d hd => ?_, fun u d hd => ?_, fun u _ d _ hd => ?_, List.nodup_nil,
      fun _ h => absurd h List.not_mem_nil, fun _ _ h => ?_, fun u hu => ?_, rfl⟩
    · cases hd
    · cases hd
    · cases hd
    · cases h
    · exact absurd hu (AList.notMem_empty u)
  target _ h := by cases h
  faded u d hd := by cases hd

/-- The target does not change but for a new one. -/
theorem Target.of_dimmed {s₁ : State} (h : Target s) (hdim : Dimmed s s₁) : Target s₁ := by
  intro u hu
  obtain ⟨hlast, hobjects, -⟩ := hdim.same
  obtain ⟨hmem, hcached⟩ := h u (hlast ▸ hu)
  refine ⟨(hdim.mem u).mpr hmem, ?_⟩
  rw [State.Finalized, hobjects]
  exact hcached

/-- A step up to the loop. -/
theorem Good.beginRender (h : Good s) (hpairs : s.pairs = []) (selected : List UnitHandle) :
    Good (s.beginRender selected) ∧ (Owned s → (Owned (s.beginRender selected) ↔
      ∀ handle, Selects s selected handle → ∀ u ∈ s.unitImageMap, u.unit = handle →
        ¬ s.Finalized u)) := by
  have hpos : ∀ u d, s.unitImageMap.lookup u = some d → 0 < d.alpha := fun u d hd =>
    (h.faded u d hd).resolve_right fun hin => by simp [hpairs] at hin
  obtain ⟨s₁, hdim, hcases⟩ := updateTarget_cases h.core h.target selected
  have hpos₁ : ∀ u d, s₁.unitImageMap.lookup u = some d → 0 < d.alpha := fun u d hd => by
    obtain ⟨e, he, heq⟩ := hdim.alpha u d hd
    exact heq ▸ hpos u e he
  have hpairs : ∀ s' : State, Core s' → Core { s' with pairs := s'.unitImageMap.keys } := fun s' h =>
    ⟨h.alpha, h.image, h.imageInj, h.nodup, h.bound, h.cached, h.serial, h.ok⟩
  have howned : ∀ s' : State, Owned { s' with pairs := s'.unitImageMap.keys } ↔ Owned s' := fun s' =>
    ⟨fun h => h.congr rfl rfl rfl, fun h => h.congr rfl rfl rfl⟩
  unfold State.beginRender
  rcases hcases with ⟨hno, heq | heq⟩ | ⟨handle, hsel, heq⟩
  · rw [heq]
    have htarget := h.target.of_dimmed hdim
    refine ⟨⟨hpairs _ hdim.core, htarget, fun u d hd => .inl (hpos₁ u d hd)⟩, fun hs => ?_⟩
    rw [howned]
    exact ⟨fun _ handle hsel => absurd hsel (hno handle), fun _ => hdim.owned hs⟩
  · rw [heq]
    refine ⟨⟨hpairs _ (hdim.core.setLast none), fun u hu => (by cases hu),
      fun u d hd => .inl (hpos₁ u d hd)⟩, fun hs => ?_⟩
    rw [howned]
    exact ⟨fun _ handle hsel => absurd hsel (hno handle),
      fun _ => (hdim.owned hs).congr rfl rfl rfl⟩
  · have hselected := AttackRange.selected hdim.core handle
    rw [heq]
    refine ⟨⟨hpairs _ hselected.core, hselected.target, fun u d hd => ?_⟩, fun hs => ?_⟩
    · refine (hselected.alpha u d hd).imp (hpos₁ u d) fun hlast => ⟨hlast, ?_⟩
      exact AList.mem_keys.mp (mem_of_lookup hd)
    · rw [howned, hselected.owned (hdim.owned hs)]
      have hfin : ∀ u, s₁.Finalized u ↔ s.Finalized u := fun u => by
        rw [State.Finalized, State.Finalized, hdim.same.2.1]
      constructor
      · intro hall handle' hsel' u hu
        obtain rfl : handle = handle' := by
          have := hsel.2.1.symm.trans hsel'.2.1
          simpa using this
        exact fun hunit => (hfin u).not.mp (hall u ((hdim.mem u).mpr hu) hunit)
      · intro hall u hu hunit
        exact (hfin u).not.mpr (hall handle hsel u ((hdim.mem u).mp hu) hunit)

/-- The turn of an entry, or of a key that is gone. -/
theorem Good.visit (h : Good s) : Good s.visit ∧ (Owned s → Owned s.visit) := by
  have hpairs : ∀ pairs, Core { s with pairs := pairs } := fun pairs =>
    ⟨h.core.alpha, h.core.image, h.core.imageInj, h.core.nodup, h.core.bound, h.core.cached,
      h.core.serial, h.core.ok⟩
  cases hp : s.pairs with
  | nil =>
    have hvisit : s.visit = s := by rw [State.visit, hp]
    rw [hvisit]
    exact ⟨h, id⟩
  | cons u pairs =>
    cases hd : s.unitImageMap.lookup u with
    | none =>
      have hvisit : s.visit = { s with pairs := pairs } := by simp only [State.visit, hp, hd]
      rw [hvisit]
      refine ⟨⟨hpairs pairs, h.target, fun u' d hd' => ?_⟩, fun hs => hs.congr rfl rfl rfl⟩
      refine (h.faded u' d hd').imp_right fun hin => ⟨hin.1, ?_⟩
      have hne : u' ≠ u := fun heq => by
        rw [heq] at hd'
        exact absurd (hd.symm.trans hd') (by simp)
      exact (List.mem_cons.mp (hp ▸ hin.2)).resolve_left hne
    | some d =>
      have hvisit : s.visit = { s with pairs := pairs }.updateUnitImage u d := by
        simp only [State.visit, hp, hd]
      rw [hvisit]
      have hv := visited (s := { s with pairs := pairs }) (hpairs pairs) hd
        fun hlast => (h.faded u d hd).resolve_right fun hin => hlast hin.1
      obtain ⟨hlast, hobjects, hpairs'⟩ := hv.same
      dsimp only at hlast hobjects hpairs'
      refine ⟨⟨hv.core, fun t ht => ?_, fun u' d' hd' => ?_⟩,
        fun hs => hv.owned (hs.congr rfl rfl rfl)⟩
      · rw [hlast] at ht
        obtain ⟨hmem, hcached⟩ := h.target t ht
        refine ⟨?_, by rw [State.Finalized, hobjects]; exact hcached⟩
        by_cases heq : t = u
        · subst heq
          exact hv.mem ht
        · obtain ⟨e, he⟩ := exists_lookup hmem
          exact mem_of_lookup ((hv.other t heq).trans he)
      · by_cases heq : u' = u
        · subst heq
          exact .inl (hv.self d' hd')
        · rw [hv.other u' heq] at hd'
          refine (h.faded u' d' hd').imp_right fun hin => ?_
          rw [hlast, hpairs']
          exact ⟨hin.1, (List.mem_cons.mp (hp ▸ hin.2)).resolve_left heq⟩

theorem Good.callUnit (h : Good s) (handle : UnitHandle) :
    Good (s.callUnit handle).2 ∧ (Owned s → Owned (s.callUnit handle).2) := by
  obtain ⟨-, hcalled⟩ := called h.core handle
  obtain ⟨hmap, hcreated, hdestroyed, hlast, hpairs⟩ := hcalled.same
  refine ⟨⟨hcalled.core, fun u hu => ?_, fun u d hd => ?_⟩,
    fun hs => hs.congr hmap hcreated hdestroyed⟩
  · rw [hlast] at hu
    rw [hmap]
    exact ⟨(h.target u hu).1, hcalled.objects u (h.target u hu).2⟩
  · rw [hmap] at hd
    rw [hlast, hpairs]
    exact h.faded u d hd

/-! ## Collections -/

/-- What a collection leaves of the map. -/
theorem lookup_foldl_erase (us : List Userdata) (m : AList fun _ : Userdata => ImageData)
    (u : Userdata) : (us.foldl (fun m u => m.erase u) m).lookup u =
      if u ∈ us then none else m.lookup u := by
  induction us generalizing m with
  | nil => simp
  | cons u' us ih =>
    rw [List.foldl_cons, ih]
    by_cases heq : u = u'
    · subst heq
      simp
    · simp [heq]

theorem lookup_collect (held : Userdata → Bool) (u : Userdata) :
    (s.collect held).unitImageMap.lookup u =
      if s.Finalized u ∧ s.Unreferenced held u then none else s.unitImageMap.lookup u := by
  rw [State.collect, lookup_foldl_erase]
  by_cases hmem : u ∈ s.unitImageMap
  · simp [List.mem_filter, ← AList.mem_keys, hmem]
  · simp [List.mem_filter, ← AList.mem_keys, hmem, AList.lookup_eq_none.mpr hmem]

/-- An entry that is left was there before. -/
theorem lookup_of_collect {held : Userdata → Bool}
    (hd : (s.collect held).unitImageMap.lookup u = some d) : s.unitImageMap.lookup u = some d := by
  rw [lookup_collect] at hd
  split_ifs at hd
  exact hd

theorem Core.collect (h : Core s) (held : Userdata → Bool) : Core (s.collect held) where
  alpha u d hd := h.alpha u d (lookup_of_collect hd)
  image u d hd := h.image u d (lookup_of_collect hd)
  imageInj u u' d d' hd hd' := h.imageInj u u' d d' (lookup_of_collect hd) (lookup_of_collect hd')
  nodup := h.nodup
  bound := h.bound
  cached handle u hu := h.cached handle u (Option.filter_eq_some_iff.mp hu).1
  serial u hu :=
    let ⟨_, hd⟩ := exists_lookup hu
    h.serial u (mem_of_lookup (lookup_of_collect hd))
  ok := h.ok

/-- The target is referenced, so its entry and its userdata are kept. -/
theorem Target.collect (h : Target s) (held : Userdata → Bool) : Target (s.collect held) := by
  intro u hu
  obtain ⟨hmem, hcached⟩ := h u hu
  have hreferenced : ¬ s.Unreferenced held u := fun hun => hun.1 hu
  obtain ⟨d, hd⟩ := exists_lookup hmem
  refine ⟨mem_of_lookup (d := d) ?_, not_not.mpr ?_⟩
  · rw [lookup_collect, if_neg fun hin => hreferenced hin.2]
    exact hd
  · exact Option.filter_eq_some_iff.mpr ⟨not_not.mp hcached, by simpa using hreferenced⟩

/-- The images keep their owners if no entry goes. -/
theorem owned_collect_iff (h : Core s) (hs : Owned s) (held : Userdata → Bool) :
    Owned (s.collect held) ↔
      ∀ u ∈ s.unitImageMap.keys, ¬ (s.Finalized u ∧ s.Unreferenced held u) := by
  constructor
  · intro howned u hu hgone
    obtain ⟨d, hd⟩ := exists_lookup (AList.mem_keys.mpr hu)
    obtain ⟨u', d', hd', heq⟩ := howned.recorded d.image (h.image u d hd).1
    have hsame := h.imageInj u' u d' d (lookup_of_collect hd') hd heq
    rw [hsame, lookup_collect, if_pos hgone] at hd'
    cases hd'
  · intro hkept
    have hsame : ∀ u, (s.collect held).unitImageMap.lookup u = s.unitImageMap.lookup u := fun u => by
      rw [lookup_collect]
      split_ifs with hgone
      · exact (AList.lookup_eq_none.mpr fun hu => hkept u (AList.mem_keys.mp hu) hgone).symm
      · rfl
    refine ⟨fun image hlive => ?_, fun u hu u' hu' => ?_⟩
    · obtain ⟨u, d, hd, heq⟩ := hs.recorded image hlive
      exact ⟨u, d, (hsame u).trans hd, heq⟩
    · rw [← AList.lookup_isSome, hsame, AList.lookup_isSome] at hu hu'
      exact hs.single u hu u' hu'

theorem Good.collect (h : Good s) (held : Userdata → Bool) :
    Good (s.collect held) ∧ (Owned s → (Owned (s.collect held) ↔
      ∀ u ∈ s.unitImageMap.keys, ¬ (s.Finalized u ∧ s.Unreferenced held u))) :=
  ⟨⟨h.core.collect held, h.target.collect held,
    fun u d hd => h.faded u d (lookup_of_collect hd)⟩, fun hs => owned_collect_iff h.core hs held⟩

/-! ## Sessions -/

/-- What the keys and the ranges of the units do not change. -/
theorem Good.frame (h : Good s) (displayRange : Bool) (range : UnitHandle → ℚ) :
    Good { s with displayRange := displayRange, range := range } where
  core := ⟨h.core.alpha, h.core.image, h.core.imageInj, h.core.nodup, h.core.bound, h.core.cached,
    h.core.serial, h.core.ok⟩
  target := h.target
  faded := h.faded

/-- **One event.** What no event breaks is kept, and the images stay owned if the entries do. -/
theorem event_good (h : Good s) (e : Event) :
    Good (event s e) ∧ (Owned s → (Owned (event s e) ↔ Kept s e)) := by
  have hframe : ∀ displayRange range,
      Owned s → (Owned { s with displayRange := displayRange, range := range } ↔ True) :=
    fun _ _ hs => iff_true_intro (hs.congr rfl rfl rfl)
  cases e with
  | keyDown key =>
    by_cases hkey : key = s.hotkey
    · rw [show event s (.keyDown key) = { s with displayRange := true } from if_pos hkey]
      exact ⟨h.frame true s.range, hframe _ _⟩
    · rw [show event s (.keyDown key) = s from if_neg hkey]
      exact ⟨h, fun hs => iff_true_intro hs⟩
  | keyUp key =>
    by_cases hkey : key = s.hotkey
    · rw [show event s (.keyUp key) = { s with displayRange := false } from if_pos hkey]
      exact ⟨h.frame false s.range, hframe _ _⟩
    · rw [show event s (.keyUp key) = s from if_neg hkey]
      exact ⟨h, fun hs => iff_true_intro hs⟩
  | render selected =>
    by_cases hpairs : s.pairs = []
    · have hevent : event s (.render selected) = s.beginRender selected :=
        if_pos ⟨hpairs, h.core.ok⟩
      obtain ⟨hgood, howned⟩ := h.beginRender hpairs selected
      rw [hevent]
      refine ⟨hgood, fun hs => (howned hs).trans ?_⟩
      exact ⟨fun hall _ hdisplay handle hsel hne => hall handle ⟨hdisplay, hsel, hne⟩,
        fun hkept handle hsel => hkept hpairs hsel.1 handle hsel.2.1 hsel.2.2⟩
    · have hevent : event s (.render selected) = s := if_neg fun hin => hpairs hin.1
      rw [hevent]
      exact ⟨h, fun hs => ⟨fun _ hin => absurd hin hpairs, fun _ => hs⟩⟩
  | visit =>
    have hevent : event s .visit = s.visit := if_neg (by rw [h.core.ok]; exact Bool.false_ne_true)
    rw [hevent]
    exact ⟨h.visit.1, fun hs => iff_true_intro (h.visit.2 hs)⟩
  | range range => exact ⟨h.frame s.displayRange range, hframe _ _⟩
  | callUnit handle =>
    exact ⟨(h.callUnit handle).1, fun hs => iff_true_intro ((h.callUnit handle).2 hs)⟩
  | collect held => exact h.collect held

/-- The law is that the images are owned. -/
theorem law_iff_owned (h : Good s) : Law s ↔ Owned s := by
  constructor
  · intro hlaw
    refine ⟨fun image => (hlaw.recorded image).mp, fun u hu u' hu' heq => ?_⟩
    obtain ⟨d, hd⟩ := exists_lookup hu
    obtain ⟨d', hd'⟩ := exists_lookup hu'
    have himage := h.core.image u d hd
    have himage' := h.core.image u' d' hd'
    refine h.core.imageInj u u' d d' hd hd' ?_
    exact hlaw.single _ _ u.unit himage.1 himage'.1 himage.2 (heq ▸ himage'.2)
  · intro hs
    exact {
      alpha := fun u d hd => ⟨(h.core.alpha u d hd).1, (h.core.alpha u d hd).2.1⟩
      once := ⟨h.core.nodup, h.core.bound⟩
      recorded := fun image => ⟨hs.recorded image, fun ⟨u, d, hd, heq⟩ =>
        heq ▸ (h.core.image u d hd).1⟩
      faded := fun u d hd hnot => (h.faded u d hd).resolve_right fun hin => hnot hin.2
      single := fun image image' unit hlive hlive' hunit hunit' => by
        obtain ⟨u, d, hd, rfl⟩ := hs.recorded image hlive
        obtain ⟨u', d', hd', rfl⟩ := hs.recorded image' hlive'
        have heq : u.unit = unit :=
          Option.some.inj ((h.core.image u d hd).2.symm.trans hunit)
        have heq' : u'.unit = unit :=
          Option.some.inj ((h.core.image u' d' hd').2.symm.trans hunit')
        have hsame := hs.single u (mem_of_lookup hd) u' (mem_of_lookup hd') (heq.trans heq'.symm)
        subst hsame
        exact congrArg ImageData.image (Option.some.inj (hd.symm.trans hd'))
      target := ⟨h.core.ok, fun u hu => AList.lookup_isSome.mpr (h.target u hu).1⟩ }

/-- **The images of the overlay.** In a session, the law holds between any two events if and only if
no collection takes an entry and no unit is selected while its entry belongs to a userdata that has
been finalized. -/
theorem law_iff (range : UnitHandle → ℚ) (hotkey : ℕ) (events : List Event) :
    Session.Always event (State.init range hotkey) events Law ↔
      Session.Steps event (State.init range hotkey) events Kept := by
  have hgood : Session.Always event (State.init range hotkey) events Good :=
    Session.Always.of_step (fun s e _ h => (event_good h e).1) (good_init range hotkey)
  have hinit : Owned (State.init range hotkey) :=
    ⟨fun _ hlive => absurd hlive.1 (Nat.not_lt_zero _), fun u hu => absurd hu (AList.notMem_empty u)⟩
  have howned : Session.Always event (State.init range hotkey) events Owned ↔
      Session.Steps event (State.init range hotkey) events Kept :=
    Session.always_iff_steps
      (fun s e _ h hs hkept => ⟨(event_good h e).1, ((event_good h e).2 hs).mpr hkept⟩)
      (fun s e _ h hs hs' => ((event_good h e).2 hs).mp hs') (good_init range hotkey) hinit
  rw [← howned]
  exact ⟨fun h pre hp => (law_iff_owned (hgood pre hp)).mp (h pre hp),
    fun h pre hp => (law_iff_owned (hgood pre hp)).mpr (h pre hp)⟩

/-- The unit 5 is selected and deselected again, and two collections come before its image has faded
out. -/
def deselected : List Event :=
  [.keyDown 192, .render [5], .visit, .render [], .collect fun _ => false,
    .collect fun _ => false]

/-- The image stays for ever. -/
theorem not_law_deselected :
    ¬ Session.Always event (State.init (fun _ => 600) 192) deselected Law := by
  intro h
  obtain ⟨u, d, hd, -⟩ := ((h deselected List.prefix_rfl).recorded 0).mp (by decide +kernel)
  have hempty : (deselected.foldl event (State.init (fun _ => 600) 192)).unitImageMap.keys = [] := by
    decide +kernel
  have hmem := AList.mem_keys.mp (mem_of_lookup hd)
  rw [hempty] at hmem
  exact absurd hmem List.not_mem_nil

end DreamDota.AttackRange
