import DreamDota.Lib.FreeList
import DreamDota.Lib.Session
import Mathlib.Data.BitVec
import Mathlib.Data.List.AList
import Mathlib.Data.List.Sort
import Mathlib.Algebra.Order.Field.Rat

/-!
# Mana bars and state tags

`PreselectUIBindRefreshObject::refresh` gives every visible unit a mana bar and a state tag, as the
options ask for them, and takes them away again. The objects come from two pools. What is needed is
marked: a field of the entry of a unit is set to the counter `Marker`, which every refresh raises.

The calls that colour, place, show and hide the objects are left out.

1. `visit`: the loop that marks; what it leaves in the map, `marked_visitAll`.
2. `clean`: the loop over the map; `cleaned_cleanAll`.
3. Both keep the accounts of the pools, `PoolsOk`.
4. `reconciles_iff`: the sessions after each of whose refreshes the objects are those needed.
-/

namespace DreamDota.PreselectUIBind

/-- `PreselectUIBindInfo`. -/
structure PreselectUIBindInfo where
  marker : BitVec 32
  manaBar : Option ℕ
  markerManaBar : BitVec 32
  stateTag : Option ℕ
  markerStateTag : BitVec 32
  deriving DecidableEq, Repr

/-- What `std::map` makes for a key that is not there. -/
def PreselectUIBindInfo.init : PreselectUIBindInfo := ⟨0, none, 0, none, 0⟩

/-- What a refresh finds: the units whose health bar is visible, the options, the maximal mana and
which units are heroes. -/
structure Refresh where
  visible : List ℕ
  manaBarEnabled : Bool
  stateTagEnabled : Bool
  stateTagShowForHero : Bool
  stateTagShowForNonHero : Bool
  maxMana : ℕ → ℚ
  isHero : ℕ → Bool

/-- `UnitNeedBindManabar`. -/
def Refresh.needBindManabar (r : Refresh) (unit : ℕ) : Bool :=
  r.manaBarEnabled && decide (0 < r.maxMana unit)

/-- `UnitNeedBindStateTag`. -/
def Refresh.needBindStateTag (r : Refresh) (unit : ℕ) : Bool :=
  if r.stateTagEnabled then
    if r.isHero unit then r.stateTagShowForHero else r.stateTagShowForNonHero
  else false

/-- A unit that needs one of them. -/
def Refresh.needBind (r : Refresh) (unit : ℕ) : Bool :=
  r.needBindManabar unit || r.needBindStateTag unit

abbrev UnitBindMap := AList fun _ : ℕ => PreselectUIBindInfo

/-- The map, the pools and the counter. `last` is history: the refresh that was run last. -/
structure State where
  unitBindMap : UnitBindMap
  statBarPool : FreeList
  unitStateTagPool : FreeList
  marker : BitVec 32
  last : Option Refresh

namespace State

/-- A game begins. The counter goes on from the game before. -/
def start (marker : BitVec 32) (statBars stateTags : ℕ) : State :=
  ⟨∅, .full statBars, .full stateTags, marker, none⟩

variable (r : Refresh)

/-- The entry of a unit is marked. -/
def mark (marker : BitVec 32) (unit : ℕ) (info : PreselectUIBindInfo) : PreselectUIBindInfo :=
  { info with
    marker := marker
    markerManaBar := if r.needBindManabar unit then marker else info.markerManaBar
    markerStateTag := if r.needBindStateTag unit then marker else info.markerStateTag }

/-- The body of the first loop, for a visible unit. -/
def visit (s : State) (unit : ℕ) : State :=
  if r.needBind unit then
    match s.unitBindMap.lookup unit with
    | some info => { s with unitBindMap := s.unitBindMap.insert unit (mark r s.marker unit info) }
    | none =>
      let bar := s.statBarPool.settle (r.needBindManabar unit) none
      let stateTag := s.unitStateTagPool.settle (r.needBindStateTag unit) none
      { s with
        unitBindMap := s.unitBindMap.insert unit
          { mark r s.marker unit .init with manaBar := bar.1, stateTag := stateTag.1 }
        statBarPool := bar.2
        unitStateTagPool := stateTag.2 }
  else s

/-- The body of the second loop, for an entry of the map. -/
def clean (s : State) (unit : ℕ) : State :=
  match s.unitBindMap.lookup unit with
  | none => s
  | some info =>
    if info.marker ≠ s.marker then
      { s with
        unitBindMap := s.unitBindMap.erase unit
        statBarPool := (s.statBarPool.settle false info.manaBar).2
        unitStateTagPool := (s.unitStateTagPool.settle false info.stateTag).2 }
    else
      let bar := s.statBarPool.settle (decide (info.markerManaBar = s.marker)) info.manaBar
      let stateTag := s.unitStateTagPool.settle (decide (info.markerStateTag = s.marker)) info.stateTag
      { s with
        unitBindMap := s.unitBindMap.insert unit { info with manaBar := bar.1, stateTag := stateTag.1 }
        statBarPool := bar.2
        unitStateTagPool := stateTag.2 }

/-- The units of the map in the order of `std::map`. -/
def keys (s : State) : List ℕ := s.unitBindMap.keys.insertionSort (· ≤ ·)

def visitAll (s : State) : State := r.visible.foldl (visit r) s

def cleanAll (s : State) : State := s.keys.foldl clean s

/-- `refresh`. -/
def refresh (s : State) (r : Refresh) : State :=
  let s := (s.visitAll r).cleanAll
  { s with marker := s.marker + 1, last := some r }

/-! ## The claim -/

/-- The objects that the entries hold in a field. -/
def held (field : PreselectUIBindInfo → Option ℕ) (m : UnitBindMap) : List ℕ :=
  m.entries.filterMap fun e => field e.2

/-- Every object that a pool made is in the pool or in one field of one entry, and there once. -/
structure PoolsOk (s : State) : Prop where
  statBars : s.statBarPool.Accounts (held (·.manaBar) s.unitBindMap)
  stateTags : s.unitStateTagPool.Accounts (held (·.stateTag) s.unitBindMap)

/-- The entries are those of the visible units that need a binding, and they have what is needed. -/
structure Bound (r : Refresh) (s : State) : Prop where
  units : ∀ unit, unit ∈ s.unitBindMap ↔ unit ∈ r.visible ∧ r.needBind unit = true
  manaBar : ∀ unit info, s.unitBindMap.lookup unit = some info →
    (info.manaBar ≠ none ↔ r.needBindManabar unit = true)
  stateTag : ∀ unit info, s.unitBindMap.lookup unit = some info →
    (info.stateTag ≠ none ↔ r.needBindStateTag unit = true)

/-- The state is right after the last refresh. -/
def LastBound (s : State) : Prop := ∀ r ∈ s.last, Bound r s

/-- The pools are right between the bodies of the loops of a refresh, too. -/
def PoolsOkDuring (s : State) (r : Refresh) : Prop :=
  Session.Always (visit r) s r.visible PoolsOk ∧
    Session.Always clean (s.visitAll r) (s.visitAll r).keys PoolsOk

/-- A visible unit that needs one thing and not the other has no entry, or a new one, that is marked
for what it does not need. -/
def Unmarked (s : State) (r : Refresh) : Prop :=
  ∀ unit ∈ r.visible, r.needBind unit = true →
    let info := (s.unitBindMap.lookup unit).getD .init
    (r.needBindManabar unit = false → info.markerManaBar ≠ s.marker) ∧
    (r.needBindStateTag unit = false → info.markerStateTag ≠ s.marker)

variable {r : Refresh} {s : State} {unit u : ℕ} {info : PreselectUIBindInfo} {units : List ℕ}
  {rs : List Refresh}

/-! ## The first loop -/

/-- An entry for a visible unit: marked for what is needed, and otherwise as it was. -/
structure Marked (r : Refresh) (marker : BitVec 32) (unit : ℕ) (old : Option PreselectUIBindInfo)
    (info : PreselectUIBindInfo) : Prop where
  eq_marker : info.marker = marker
  manaBar : info.markerManaBar =
    if r.needBindManabar unit then marker else (old.getD .init).markerManaBar
  stateTag : info.markerStateTag =
    if r.needBindStateTag unit then marker else (old.getD .init).markerStateTag

theorem visit_of_not (h : ¬ r.needBind unit = true) : s.visit r unit = s := if_neg h

theorem visit_of_some (h : r.needBind unit = true) (hinfo : s.unitBindMap.lookup unit = some info) :
    s.visit r unit =
      { s with unitBindMap := s.unitBindMap.insert unit (mark r s.marker unit info) } := by
  rw [visit, if_pos h, hinfo]

theorem visit_of_none (h : r.needBind unit = true) (hinfo : s.unitBindMap.lookup unit = none) :
    s.visit r unit =
      { s with
        unitBindMap := s.unitBindMap.insert unit
          { mark r s.marker unit .init with
            manaBar := (s.statBarPool.settle (r.needBindManabar unit) none).1
            stateTag := (s.unitStateTagPool.settle (r.needBindStateTag unit) none).1 }
        statBarPool := (s.statBarPool.settle (r.needBindManabar unit) none).2
        unitStateTagPool := (s.unitStateTagPool.settle (r.needBindStateTag unit) none).2 } := by
  rw [visit, if_pos h, hinfo]

/-- A visit changes the entry of its unit at most. -/
theorem visit_frame : (s.visit r unit).marker = s.marker ∧ (s.visit r unit).last = s.last ∧
    ∀ u, u ≠ unit → (s.visit r unit).unitBindMap.lookup u = s.unitBindMap.lookup u := by
  by_cases h : r.needBind unit = true
  · cases hinfo : s.unitBindMap.lookup unit with
    | none =>
      rw [visit_of_none h hinfo]
      exact ⟨rfl, rfl, fun u hu => AList.lookup_insert_ne hu⟩
    | some info =>
      rw [visit_of_some h hinfo]
      exact ⟨rfl, rfl, fun u hu => AList.lookup_insert_ne hu⟩
  · rw [visit_of_not h]
    exact ⟨rfl, rfl, fun _ _ => rfl⟩

theorem lookup_visit (h : r.needBind unit = true) :
    ∃ info, (s.visit r unit).unitBindMap.lookup unit = some info ∧
      Marked r s.marker unit (s.unitBindMap.lookup unit) info := by
  cases hinfo : s.unitBindMap.lookup unit with
  | none =>
    rw [visit_of_none h hinfo]
    exact ⟨_, AList.lookup_insert _, rfl, rfl, rfl⟩
  | some info =>
    rw [visit_of_some h hinfo]
    exact ⟨_, AList.lookup_insert _, rfl, rfl, rfl⟩

/-- A unit that is visited again. -/
theorem Marked.again {marker : BitVec 32} {old : Option PreselectUIBindInfo}
    {info' : PreselectUIBindInfo} (h : Marked r marker unit old info)
    (h' : Marked r marker unit (some info) info') : Marked r marker unit old info' where
  eq_marker := h'.eq_marker
  manaBar := by
    rw [h'.manaBar, Option.getD_some, h.manaBar]
    split_ifs <;> rfl
  stateTag := by
    rw [h'.stateTag, Option.getD_some, h.stateTag]
    split_ifs <;> rfl

theorem visit_foldl_marker : (units.foldl (visit r) s).marker = s.marker := by
  induction units generalizing s with
  | nil => rfl
  | cons unit units ih => rw [List.foldl_cons, ih, visit_frame.1]

/-- What the first loop leaves in the map. -/
theorem lookup_visit_foldl (r : Refresh) (s : State) (units : List ℕ) (u : ℕ) :
    (u ∈ units ∧ r.needBind u = true → ∃ info,
      (units.foldl (visit r) s).unitBindMap.lookup u = some info ∧
      Marked r s.marker u (s.unitBindMap.lookup u) info) ∧
    (¬ (u ∈ units ∧ r.needBind u = true) →
      (units.foldl (visit r) s).unitBindMap.lookup u = s.unitBindMap.lookup u) := by
  induction units using List.reverseRecOn with
  | nil => exact ⟨fun h => absurd h.1 List.not_mem_nil, fun _ => rfl⟩
  | append_singleton units unit ih =>
    obtain ⟨ihmarked, ihsame⟩ := ih
    rw [Session.foldl_concat, List.mem_append, List.mem_singleton]
    by_cases hneed : r.needBind u = true
    · by_cases hu : u = unit
      · subst hu
        refine ⟨fun _ => ?_, fun h => absurd ⟨.inr rfl, hneed⟩ h⟩
        obtain ⟨info, hlookup, hmarked⟩ := lookup_visit (s := units.foldl (visit r) s) hneed
        rw [visit_foldl_marker] at hmarked
        refine ⟨info, hlookup, ?_⟩
        by_cases hmem : u ∈ units
        · obtain ⟨old, hold, hmarked'⟩ := ihmarked ⟨hmem, hneed⟩
          rw [hold] at hmarked
          exact hmarked'.again hmarked
        · rwa [ihsame fun h => hmem h.1] at hmarked
      · rw [visit_frame.2.2 u hu]
        exact ⟨fun h => ihmarked ⟨h.1.resolve_right hu, hneed⟩,
          fun h => ihsame fun h' => h ⟨.inl h'.1, hneed⟩⟩
    · refine ⟨fun h => absurd h.2 hneed, fun _ => ?_⟩
      have hsame := ihsame fun h => hneed h.2
      by_cases hu : u = unit
      · rw [← hu, visit_of_not hneed, hsame]
      · rw [visit_frame.2.2 u hu, hsame]

/-! ## The second loop -/

/-- What the second loop makes of an entry. -/
def Cleaned (marker : BitVec 32) (old new : Option PreselectUIBindInfo) : Prop :=
  match old with
  | none => new = none
  | some info => (info.marker ≠ marker → new = none) ∧ (info.marker = marker → ∃ info',
      new = some info' ∧ info'.marker = marker ∧
      (info'.manaBar ≠ none ↔ info.markerManaBar = marker) ∧
      (info'.stateTag ≠ none ↔ info.markerStateTag = marker))

theorem clean_of_none (hinfo : s.unitBindMap.lookup unit = none) : s.clean unit = s := by
  rw [clean, hinfo]

theorem clean_of_ne (hinfo : s.unitBindMap.lookup unit = some info)
    (hmarker : info.marker ≠ s.marker) : s.clean unit =
      { s with
        unitBindMap := s.unitBindMap.erase unit
        statBarPool := (s.statBarPool.settle false info.manaBar).2
        unitStateTagPool := (s.unitStateTagPool.settle false info.stateTag).2 } := by
  rw [clean, hinfo]
  exact if_pos hmarker

theorem clean_of_eq (hinfo : s.unitBindMap.lookup unit = some info)
    (hmarker : info.marker = s.marker) :
    let bar := s.statBarPool.settle (decide (info.markerManaBar = s.marker)) info.manaBar
    let stateTag := s.unitStateTagPool.settle (decide (info.markerStateTag = s.marker)) info.stateTag
    s.clean unit =
      { s with
        unitBindMap := s.unitBindMap.insert unit { info with manaBar := bar.1, stateTag := stateTag.1 }
        statBarPool := bar.2
        unitStateTagPool := stateTag.2 } := by
  rw [clean, hinfo]
  exact if_neg (not_not_intro hmarker)

/-- The body changes the entry of its unit at most. -/
theorem clean_frame : (s.clean unit).marker = s.marker ∧ (s.clean unit).last = s.last ∧
    ∀ u, u ≠ unit → (s.clean unit).unitBindMap.lookup u = s.unitBindMap.lookup u := by
  cases hinfo : s.unitBindMap.lookup unit with
  | none =>
    rw [clean_of_none hinfo]
    exact ⟨rfl, rfl, fun _ _ => rfl⟩
  | some info =>
    by_cases hmarker : info.marker = s.marker
    · rw [clean_of_eq hinfo hmarker]
      exact ⟨rfl, rfl, fun u hu => AList.lookup_insert_ne hu⟩
    · rw [clean_of_ne hinfo hmarker]
      exact ⟨rfl, rfl, fun u hu => AList.lookup_erase_ne hu⟩

theorem settle_ne_none {p : FreeList} {P : Prop} [Decidable P] {object : Option ℕ} :
    (p.settle (decide P) object).1 ≠ none ↔ P := by
  rw [← Option.isSome_iff_ne_none, FreeList.settle_isSome, decide_eq_true_iff]

theorem lookup_clean :
    Cleaned s.marker (s.unitBindMap.lookup unit) ((s.clean unit).unitBindMap.lookup unit) := by
  cases hinfo : s.unitBindMap.lookup unit with
  | none =>
    rw [clean_of_none hinfo]
    exact hinfo
  | some info =>
    by_cases hmarker : info.marker = s.marker
    · rw [clean_of_eq hinfo hmarker]
      exact ⟨fun h => absurd hmarker h, fun _ => ⟨_, AList.lookup_insert _, hmarker, settle_ne_none,
        settle_ne_none⟩⟩
    · rw [clean_of_ne hinfo hmarker]
      exact ⟨fun _ => AList.lookup_erase _ _, fun h => absurd h hmarker⟩

theorem clean_foldl_marker : (units.foldl clean s).marker = s.marker := by
  induction units generalizing s with
  | nil => rfl
  | cons unit units ih => rw [List.foldl_cons, ih, clean_frame.1]

theorem lookup_clean_foldl_of_not (h : u ∉ units) :
    (units.foldl clean s).unitBindMap.lookup u = s.unitBindMap.lookup u := by
  induction units generalizing s with
  | nil => rfl
  | cons unit units ih =>
    rw [List.mem_cons, not_or] at h
    rw [List.foldl_cons, ih h.2, clean_frame.2.2 u h.1]

theorem lookup_clean_foldl (hnodup : units.Nodup) (h : u ∈ units) :
    Cleaned s.marker (s.unitBindMap.lookup u)
      ((units.foldl clean s).unitBindMap.lookup u) := by
  induction units generalizing s with
  | nil => cases h
  | cons unit units ih =>
    obtain ⟨hnot, hnodup⟩ := List.nodup_cons.mp hnodup
    rw [List.foldl_cons]
    rcases List.mem_cons.mp h with rfl | h
    · rw [lookup_clean_foldl_of_not hnot]
      exact lookup_clean
    · have hne : u ≠ unit := fun heq => hnot (heq ▸ h)
      have hrest := ih (s := s.clean unit) hnodup h
      rwa [clean_frame.1, clean_frame.2.2 u hne] at hrest

/-- What the second loop leaves in the map. -/
theorem lookup_cleanAll (s : State) (u : ℕ) :
    Cleaned s.marker (s.unitBindMap.lookup u) (s.cleanAll.unitBindMap.lookup u) := by
  have hperm := List.perm_insertionSort (· ≤ ·) s.unitBindMap.keys
  by_cases hu : u ∈ s.keys
  · exact lookup_clean_foldl (hperm.nodup_iff.mpr s.unitBindMap.keys_nodup) hu
  · have hnone : s.unitBindMap.lookup u = none :=
      AList.lookup_eq_none.mpr fun hmem => hu (hperm.mem_iff.mpr (AList.mem_keys.mp hmem))
    rw [cleanAll, lookup_clean_foldl_of_not hu, hnone]
    rfl

/-! ## The pools -/

section Held

variable {field : PreselectUIBindInfo → Option ℕ} {m : UnitBindMap} {p : FreeList}
  {object : Option ℕ} {needed : Bool}

theorem held_insert : held field (m.insert unit info) =
    (field info).toList ++ held field (m.erase unit) := by
  unfold held
  rw [AList.entries_insert, List.filterMap_cons]
  cases field info <;> rfl

theorem held_erase_of_none (h : m.lookup unit = none) :
    held field (m.erase unit) = held field m := by
  have hnot : unit ∉ m.entries.keys := fun hmem => AList.lookup_eq_none.mp h (AList.mem_keys.mpr hmem)
  unfold held
  rw [show (m.erase unit).entries = m.entries.kerase unit from rfl,
    List.kerase_of_notMem_keys hnot]

/-- The objects of an entry come first. -/
theorem held_perm (h : m.lookup unit = some info) :
    (held field m).Perm ((field info).toList ++ held field (m.erase unit)) := by
  have hmem : unit ∈ m.entries.keys :=
    AList.mem_keys.mp (AList.lookup_isSome.mp (by rw [h]; rfl))
  obtain ⟨old, as, bs, -, hentries, herase⟩ := List.exists_of_kerase hmem
  have hold : m.lookup unit = some old := by
    refine AList.mem_lookup_iff.mpr ?_
    rw [hentries]
    exact List.mem_append_right _ List.mem_cons_self
  obtain rfl : info = old := Option.some.inj (h.symm.trans hold)
  unfold held
  rw [show (m.erase unit).entries = m.entries.kerase unit from rfl, herase, hentries]
  rw [List.filterMap_append, List.filterMap_append, List.filterMap_cons]
  cases hfield : field info with
  | none => exact .refl _
  | some a => exact List.perm_middle

/-- The entry of a unit takes what it needs. -/
theorem accounts_insert (h : p.Accounts (held field m))
    (hobject : (held field m).Perm (object.toList ++ held field (m.erase unit)))
    (hfield : field info = (p.settle needed object).1) :
    (p.settle needed object).2.Accounts (held field (m.insert unit info)) := by
  rw [held_insert, hfield]
  exact (h.perm hobject).settle needed

/-- The entry of a unit goes and gives back what it has. -/
theorem accounts_erase (h : p.Accounts (held field m)) (hinfo : m.lookup unit = some info) :
    (p.settle false (field info)).2.Accounts (held field (m.erase unit)) := by
  have hsettle := (h.perm (held_perm hinfo)).settle false
  have hnone : (p.settle false (field info)).1 = none := by
    rw [← Option.not_isSome_iff_eq_none, FreeList.settle_isSome]
    exact Bool.false_ne_true
  rwa [hnone] at hsettle

/-- The entry of a unit keeps what it has. -/
theorem accounts_keep {info' : PreselectUIBindInfo} (h : p.Accounts (held field m))
    (hinfo : m.lookup unit = some info) (hfield : field info' = field info) :
    p.Accounts (held field (m.insert unit info')) := by
  rw [held_insert, hfield]
  exact h.perm (held_perm hinfo)

end Held

theorem poolsOk_start (marker : BitVec 32) (statBars stateTags : ℕ) :
    PoolsOk (start marker statBars stateTags) :=
  ⟨FreeList.accounts_full _, FreeList.accounts_full _⟩

theorem PoolsOk.visit (h : PoolsOk s) (r : Refresh) (unit : ℕ) : PoolsOk (s.visit r unit) := by
  by_cases hneed : r.needBind unit = true
  · cases hinfo : s.unitBindMap.lookup unit with
    | none =>
      have hfree : ∀ field, (held field s.unitBindMap).Perm
          ((none : Option ℕ).toList ++ held field (s.unitBindMap.erase unit)) := fun field => by
        rw [held_erase_of_none hinfo]
        exact .refl _
      rw [visit_of_none hneed hinfo]
      exact ⟨accounts_insert h.statBars (hfree _) rfl, accounts_insert h.stateTags (hfree _) rfl⟩
    | some info =>
      rw [visit_of_some hneed hinfo]
      exact ⟨accounts_keep h.statBars hinfo rfl, accounts_keep h.stateTags hinfo rfl⟩
  · rwa [visit_of_not hneed]

theorem PoolsOk.clean (h : PoolsOk s) (unit : ℕ) : PoolsOk (s.clean unit) := by
  cases hinfo : s.unitBindMap.lookup unit with
  | none => rwa [clean_of_none hinfo]
  | some info =>
    by_cases hmarker : info.marker = s.marker
    · rw [clean_of_eq hinfo hmarker]
      exact ⟨accounts_insert h.statBars (held_perm hinfo) rfl,
        accounts_insert h.stateTags (held_perm hinfo) rfl⟩
    · rw [clean_of_ne hinfo hmarker]
      exact ⟨accounts_erase h.statBars hinfo, accounts_erase h.stateTags hinfo⟩

theorem PoolsOk.during (h : PoolsOk s) (r : Refresh) : PoolsOkDuring s r := by
  have hvisit : Session.Always (State.visit r) s r.visible PoolsOk :=
    .of_step (fun _ unit _ hs => hs.visit r unit) h
  exact ⟨hvisit, .of_step (fun _ unit _ hs => PoolsOk.clean hs unit) hvisit.last⟩

theorem PoolsOk.refresh (h : PoolsOk s) (r : Refresh) : PoolsOk (s.refresh r) := by
  have hclean : PoolsOk (s.visitAll r).cleanAll := (h.during r).2.last
  exact ⟨hclean.statBars, hclean.stateTags⟩

/-! ## A refresh -/

/-- Between refreshes every entry was marked by the last one. -/
structure Inv (s : State) : Prop where
  marker : ∀ u info, s.unitBindMap.lookup u = some info → info.marker + 1 = s.marker
  pools : PoolsOk s

/-- What a refresh leaves of a unit. -/
theorem lookup_refresh (h : Inv s) (r : Refresh) (u : ℕ) :
    (¬ (u ∈ r.visible ∧ r.needBind u = true) →
      (s.refresh r).unitBindMap.lookup u = none) ∧
    (u ∈ r.visible ∧ r.needBind u = true → ∃ info,
      (s.refresh r).unitBindMap.lookup u = some info ∧ info.marker = s.marker ∧
      (info.manaBar ≠ none ↔ r.needBindManabar u = true ∨
        ((s.unitBindMap.lookup u).getD .init).markerManaBar = s.marker) ∧
      (info.stateTag ≠ none ↔ r.needBindStateTag u = true ∨
        ((s.unitBindMap.lookup u).getD .init).markerStateTag = s.marker)) := by
  obtain ⟨hmarked, hsame⟩ := lookup_visit_foldl r s r.visible u
  have hmarker : (s.visitAll r).marker = s.marker := visit_foldl_marker
  have hcleaned := lookup_cleanAll (s.visitAll r) u
  rw [hmarker] at hcleaned
  constructor
  · intro hnot
    have hlookup : (s.visitAll r).unitBindMap.lookup u = s.unitBindMap.lookup u := hsame hnot
    rw [hlookup] at hcleaned
    cases hinfo : s.unitBindMap.lookup u with
    | none =>
      rw [hinfo] at hcleaned
      exact hcleaned
    | some info =>
      rw [hinfo] at hcleaned
      refine hcleaned.1 fun heq => ?_
      have hlast := h.marker u info hinfo
      rw [heq] at hlast
      exact absurd hlast (by bv_omega)
  · intro hneed
    obtain ⟨info, hinfo, hmark⟩ := hmarked hneed
    rw [show (s.visitAll r).unitBindMap.lookup u = some info from hinfo] at hcleaned
    obtain ⟨info', hinfo', hmarker', hbar, htag⟩ := hcleaned.2 hmark.eq_marker
    refine ⟨info', hinfo', hmarker', ?_, ?_⟩
    · rw [hbar, hmark.manaBar]
      split_ifs with hneed' <;> simp [hneed']
    · rw [htag, hmark.stateTag]
      split_ifs with hneed' <;> simp [hneed']

theorem Inv.refresh (h : Inv s) (r : Refresh) : Inv (s.refresh r) := by
  refine ⟨fun u info hinfo => ?_, h.pools.refresh r⟩
  have hmarker : (s.refresh r).marker = s.marker + 1 := by
    show (s.visitAll r).cleanAll.marker + 1 = _
    rw [cleanAll, clean_foldl_marker, visitAll, visit_foldl_marker]
  obtain ⟨hnone, hsome⟩ := lookup_refresh h r u
  by_cases hneed : u ∈ r.visible ∧ r.needBind u = true
  · obtain ⟨info', hinfo', heq, -⟩ := hsome hneed
    obtain rfl : info = info' := Option.some.inj (hinfo.symm.trans hinfo')
    rw [heq, hmarker]
  · rw [hnone hneed] at hinfo
    cases hinfo

/-- After a refresh the objects are those needed if and only if no stale mark met it. -/
theorem bound_refresh_iff (h : Inv s) (r : Refresh) : Bound r (s.refresh r) ↔ Unmarked s r := by
  constructor
  · intro hbound u hvisible hneed
    obtain ⟨info, hinfo, -, hbar, htag⟩ := (lookup_refresh h r u).2 ⟨hvisible, hneed⟩
    have hbar' := hbar.symm.trans (hbound.manaBar u info hinfo)
    have htag' := htag.symm.trans (hbound.stateTag u info hinfo)
    refine ⟨fun hno hmark => ?_, fun hno hmark => ?_⟩
    · exact absurd (hno.symm.trans (hbar'.mp (.inr hmark))) Bool.false_ne_true
    · exact absurd (hno.symm.trans (htag'.mp (.inr hmark))) Bool.false_ne_true
  · intro hunmarked
    have hentry : ∀ u info, (s.refresh r).unitBindMap.lookup u = some info →
        (u ∈ r.visible ∧ r.needBind u = true) ∧
        (info.manaBar ≠ none ↔ r.needBindManabar u = true) ∧
        (info.stateTag ≠ none ↔ r.needBindStateTag u = true) := by
      intro u info hinfo
      obtain ⟨hnone, hsome⟩ := lookup_refresh h r u
      by_cases hneed : u ∈ r.visible ∧ r.needBind u = true
      · obtain ⟨info', hinfo', -, hbar, htag⟩ := hsome hneed
        obtain rfl : info = info' := Option.some.inj (hinfo.symm.trans hinfo')
        obtain ⟨hmana, hstate⟩ := hunmarked u hneed.1 hneed.2
        refine ⟨hneed, hbar.trans ⟨fun hor => ?_, .inl⟩, htag.trans ⟨fun hor => ?_, .inl⟩⟩
        · exact hor.elim id fun hmark => by_contra fun hno => hmana (eq_false_of_ne_true hno) hmark
        · exact hor.elim id fun hmark => by_contra fun hno => hstate (eq_false_of_ne_true hno) hmark
      · rw [hnone hneed] at hinfo
        cases hinfo
    refine ⟨fun u => ⟨fun hmem => ?_, fun hneed => ?_⟩, fun u info hinfo => (hentry u info hinfo).2.1,
      fun u info hinfo => (hentry u info hinfo).2.2⟩
    · obtain ⟨info, hinfo⟩ := Option.isSome_iff_exists.mp (AList.lookup_isSome.mpr hmem)
      exact (hentry u info hinfo).1
    · obtain ⟨info, hinfo, -⟩ := (lookup_refresh h r u).2 hneed
      exact AList.lookup_isSome.mp (by rw [hinfo]; rfl)

/-! ## Sessions -/

/-- After every refresh the entries are those needed and have what is needed; the pools are right
then, and between any two bodies of the loops. -/
def Reconciles (s : State) (rs : List Refresh) : Prop :=
  Session.Always refresh s rs (fun s => LastBound s ∧ PoolsOk s) ∧
    Session.Steps refresh s rs PoolsOkDuring

theorem inv_start (marker : BitVec 32) (statBars stateTags : ℕ) :
    Inv (start marker statBars stateTags) :=
  ⟨fun _ _ h => (nomatch h), poolsOk_start marker statBars stateTags⟩

theorem lastBound_refresh_iff (h : Inv s) (r : Refresh) :
    LastBound (s.refresh r) ↔ Unmarked s r := by
  have hlast : LastBound (s.refresh r) ↔ Bound r (s.refresh r) :=
    ⟨fun hbound => hbound r rfl, fun hbound _ hr => Option.some.inj hr ▸ hbound⟩
  exact hlast.trans (bound_refresh_iff h r)

theorem always_lastBound_iff (h : Inv s) (hlast : LastBound s) (rs : List Refresh) :
    Session.Always refresh s rs LastBound ↔ Session.Steps refresh s rs Unmarked :=
  Session.always_iff_steps (I := Inv)
    (fun _ r _ hs _ hmark => ⟨hs.refresh r, (lastBound_refresh_iff hs r).mpr hmark⟩)
    (fun _ r _ hs _ hbound => (lastBound_refresh_iff hs r).mp hbound) h hlast

/-- The objects are those needed in exactly the sessions in which no stale mark is met. -/
theorem reconciles_iff (marker : BitVec 32) (statBars stateTags : ℕ) (rs : List Refresh) :
    Reconciles (start marker statBars stateTags) rs ↔
      Session.Steps refresh (start marker statBars stateTags) rs Unmarked := by
  have hinv := inv_start marker statBars stateTags
  have hall : Session.Always refresh (start marker statBars stateTags) rs Inv :=
    .of_step (fun _ r _ hs => hs.refresh r) hinv
  have hiff := always_lastBound_iff hinv nofun rs
  constructor
  · exact fun h => hiff.mp (h.1.mono fun _ hs => hs.1)
  · intro h
    refine ⟨fun pre hpre => ⟨hiff.mpr h pre hpre, (hall pre hpre).pools⟩, fun pre r hpre => ?_⟩
    exact (hall pre ((List.prefix_append _ _).trans hpre)).pools.during r

/-- A hero without mana is visible at the first refresh of all. -/
def heroWithoutMana : Refresh := ⟨[1], true, true, true, false, fun _ => 0, fun _ => true⟩

theorem not_reconciles_first_refresh : ¬ ∀ (marker : BitVec 32) (statBars stateTags : ℕ)
    (rs : List Refresh), Reconciles (start marker statBars stateTags) rs := by
  intro h
  have hbound := (h 0 24 12 [heroWithoutMana]).1.mono fun _ hs => hs.1
  have hunmarked := (always_lastBound_iff (inv_start 0 24 12) nofun _).mp hbound
  exact (hunmarked [] heroWithoutMana List.prefix_rfl 1 (by decide) (by decide)).1 (by decide) rfl

end State

end DreamDota.PreselectUIBind
