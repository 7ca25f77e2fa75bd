import DreamDota.Lib.SearchTree
import DreamDota.Lib.Session
import Mathlib.Algebra.Order.Field.Basic
import Mathlib.Algebra.Order.Field.Rat
import Mathlib.Data.Finset.Card

/-!
# Unit groups

`UnitGroup.cpp`: a group is a `std::set` of units whose comparator asks the game for the selection
priorities of the two units it compares. `GetUnit` keeps one `Unit` for each handle, so a unit is its
handle here. A priority is a `float` that is only compared, which `ℚ` does in the same way.

1. `unitgroupcomp` is a strict total order, whatever the priorities are.
2. `Findable`: the operation meets its unit in its place, if it is a member.
3. `membershipOk_of_findable`: the group holds what was added and not taken out since.
-/

namespace DreamDota

open SearchTree

/-- A unit, by its Jass handle id. -/
abbrev UnitHandle := ℕ

/-- What the game answers for the selection priority of each unit object, and `none` where
`UnitGetObject` finds no object. -/
abbrev SelectionPriorities := UnitHandle → Option ℚ

/-- `UnitSelectionPrioGet(UnitGetObject(handle))`. -/
def unitSelectionPrioGet (game : SelectionPriorities) (handle : UnitHandle) : ℚ :=
  match game handle with
  | none => 0
  | some rv => rv / 40000

def unitgroupcomp (game : SelectionPriorities) (handleL handleR : UnitHandle) : Prop :=
  let prioDiff := unitSelectionPrioGet game handleL - unitSelectionPrioGet game handleR
  prioDiff > 0 ∨ (prioDiff = 0 ∧ handleL < handleR)

instance (game : SelectionPriorities) : DecidableRel (unitgroupcomp game) := fun _ _ =>
  inferInstanceAs (Decidable (_ ∨ _))

theorem unitgroupcomp_iff {game : SelectionPriorities} {a b : UnitHandle} :
    unitgroupcomp game a b ↔ unitSelectionPrioGet game b < unitSelectionPrioGet game a ∨
      (unitSelectionPrioGet game a = unitSelectionPrioGet game b ∧ a < b) := by
  show _ - _ > 0 ∨ (_ - _ = 0 ∧ a < b) ↔ _
  rw [gt_iff_lt, sub_pos, sub_eq_zero]

instance (game : SelectionPriorities) : IsStrictTotalOrder UnitHandle (unitgroupcomp game) where
  trichotomous a b hab hba := by
    rw [unitgroupcomp_iff, not_or, not_and] at hab hba
    have heq : unitSelectionPrioGet game a = unitSelectionPrioGet game b :=
      le_antisymm (not_lt.mp hab.1) (not_lt.mp hba.1)
    exact le_antisymm (not_lt.mp (hba.2 heq.symm)) (not_lt.mp (hab.2 heq))
  irrefl a h := by
    rw [unitgroupcomp_iff] at h
    exact h.elim (lt_irrefl _) fun h => lt_irrefl _ h.2
  trans a b c hab hbc := by
    rw [unitgroupcomp_iff] at *
    rcases hab with hab | ⟨hab, hlt⟩ <;> rcases hbc with hbc | ⟨hbc, hlt'⟩
    · exact .inl (hbc.trans hab)
    · exact .inl (hbc ▸ hab)
    · exact .inl (hab ▸ hbc)
    · exact .inr ⟨hab.trans hbc, hlt.trans hlt'⟩

/-! ## The operations -/

/-- A group and the game. -/
structure UnitGroup where
  container : BinaryTree UnitHandle
  game : SelectionPriorities

/-- The operations of a group, where `none` is a null pointer, and the events of the game that
change priorities. -/
inductive GroupEvent where
  | add (unit : Option UnitHandle)
  | remove (unit : Option UnitHandle)
  | has (unit : Option UnitHandle)
  | size
  | clear
  | game (priorities : SelectionPriorities)

namespace UnitGroup

/-- A new group. -/
def new (game : SelectionPriorities) : UnitGroup := ⟨.nil, game⟩

/-- The members in the order of the iterators. -/
def members (g : UnitGroup) : List UnitHandle := elements g.container

variable (B : Balancing UnitHandle)

def add (g : UnitGroup) : Option UnitHandle → UnitGroup
  | some unit => { g with container := insert (unitgroupcomp g.game) B g.container unit }
  | none => g

def remove (g : UnitGroup) : Option UnitHandle → UnitGroup
  | some unit => { g with container := erase (unitgroupcomp g.game) B g.container unit }
  | none => g

def has (g : UnitGroup) : Option UnitHandle → Bool
  | some unit => contains (unitgroupcomp g.game) g.container unit
  | none => false

def size (g : UnitGroup) : ℕ := g.members.length

def clear (g : UnitGroup) : UnitGroup := { g with container := .nil }

def event (g : UnitGroup) : GroupEvent → UnitGroup
  | .add unit => g.add B unit
  | .remove unit => g.remove B unit
  | .has _ | .size => g
  | .clear => g.clear
  | .game priorities => { g with game := priorities }

/-! ## The law -/

/-- The unit was added after it was last removed or the group last cleared. -/
def Added (events : List GroupEvent) (unit : UnitHandle) : Prop :=
  ∃ pre post, events = pre ++ .add (some unit) :: post ∧ .remove (some unit) ∉ post ∧ .clear ∉ post

/-- What the claims about a group say, over all states and operations of a session. -/
structure MembershipOk (game : SelectionPriorities) (events : List GroupEvent) : Prop where
  members : ∀ pre, pre <+: events → ∀ unit,
    unit ∈ (pre.foldl (event B) (new game)).members ↔ Added pre unit
  once : ∀ pre, pre <+: events → (pre.foldl (event B) (new game)).members.Nodup
  has : ∀ pre unit, pre ++ [.has (some unit)] <+: events →
    ((pre.foldl (event B) (new game)).has (some unit) = true ↔ Added pre unit)
  remove : ∀ pre unit, pre ++ [.remove (some unit)] <+: events →
    unit ∉ ((pre ++ [.remove (some unit)]).foldl (event B) (new game)).members
  size : ∀ pre, pre <+: events → ∀ s : Finset UnitHandle, (∀ unit, unit ∈ s ↔ Added pre unit) →
    (pre.foldl (event B) (new game)).size = s.card

/-- The unit of an operation that searches. -/
def searched : GroupEvent → Option UnitHandle
  | .add unit | .remove unit | .has unit => unit
  | _ => none

/-- The unit searched for, if it is a member, stands where its present priority puts it: what the
comparator says is before it precedes it in the group, and what it says is after it follows. -/
def Findable (g : UnitGroup) (e : GroupEvent) : Prop :=
  ∀ unit ∈ searched e, unit ∈ g.members → InPlace (unitgroupcomp g.game) unit g.members

instance (g : UnitGroup) (e : GroupEvent) : Decidable (g.Findable e) :=
  match h : searched e with
  | none => isTrue fun unit hu => by rw [h] at hu; cases hu
  | some unit =>
    decidable_of_iff (unit ∈ g.members → InPlace (unitgroupcomp g.game) unit g.members)
      ⟨fun hf unit' hu => by rw [h] at hu; cases hu; exact hf, fun hf => hf unit h⟩

/-! ## What the operations do -/

variable {B} {g : UnitGroup} {unit : UnitHandle} {e : GroupEvent} {events : List GroupEvent}
  {game : SelectionPriorities}

/-- What an event does to the law: whether the unit is to be a member. -/
theorem added_concat :
    Added (events ++ [e]) unit ↔
      e = .add (some unit) ∨ (Added events unit ∧ e ≠ .remove (some unit) ∧ e ≠ .clear) := by
  constructor
  · rintro ⟨pre, post, heq, hremove, hclear⟩
    rcases List.eq_nil_or_concat post with rfl | ⟨post, e', rfl⟩
    · obtain ⟨-, he⟩ := List.append_inj' heq rfl
      exact .inl (List.cons.inj he).1
    · rw [List.concat_eq_append, ← List.cons_append, ← List.append_assoc] at heq
      obtain ⟨rfl, he⟩ := List.append_inj' heq rfl
      obtain rfl : e = e' := by simpa using he
      simp only [List.concat_eq_append, List.mem_append, List.mem_singleton, not_or] at hremove hclear
      exact .inr ⟨⟨pre, post, rfl, hremove.1, hclear.1⟩, Ne.symm hremove.2, Ne.symm hclear.2⟩
  · rintro (rfl | ⟨⟨pre, post, rfl, hremove, hclear⟩, hr, hc⟩)
    · exact ⟨events, [], rfl, List.not_mem_nil, List.not_mem_nil⟩
    · refine ⟨pre, post ++ [e], by rw [List.append_assoc]; rfl, ?_, ?_⟩
      · simp [hremove, Ne.symm hr]
      · simp [hclear, Ne.symm hc]

/-- An add that searches in place makes its unit a member, once. -/
theorem members_add (h : g.Findable (.add (some unit))) :
    (g.add B (some unit)).members =
        elements (insert (unitgroupcomp g.game) B g.container unit) ∧
      (unit ∈ g.members → (g.add B (some unit)).members = g.members) ∧
      (unit ∉ g.members → (g.add B (some unit)).members.Perm (unit :: g.members)) := by
  refine ⟨rfl, fun hm => ?_, fun hm => ?_⟩
  · exact congrArg elements (insert_of_inPlace (h unit rfl hm) hm)
  · exact elements_insert_of_notMem hm

/-- A remove that searches in place takes its unit out. -/
theorem members_remove (h : g.Findable (.remove (some unit))) :
    (g.remove B (some unit)).members = g.members.erase unit := by
  by_cases hm : unit ∈ g.members
  · exact elements_erase_of_inPlace (h unit rfl hm) hm
  · rw [List.erase_of_not_mem hm]
    exact congrArg elements (erase_of_notMem hm)

/-- A search in place answers whether its unit is a member. -/
theorem has_iff (h : g.Findable (.has (some unit))) :
    g.has (some unit) = true ↔ unit ∈ g.members := by
  by_cases hm : unit ∈ g.members
  · exact iff_of_true (contains_of_inPlace (h unit rfl hm) hm) hm
  · refine iff_of_false ?_ hm
    rw [has, contains_of_notMem hm]
    exact Bool.false_ne_true

/-- The group holds the units that are to be members, each of them once. -/
def Holds (g : UnitGroup) (events : List GroupEvent) : Prop :=
  g.members.Nodup ∧ ∀ unit, unit ∈ g.members ↔ Added events unit

theorem Holds.event (h : Holds g events) (hf : g.Findable e) :
    Holds (g.event B e) (events ++ [e]) := by
  obtain ⟨hnd, hm⟩ := h
  -- an event that is neither an add, nor a remove, nor a clear leaves the members
  have hsame : ∀ g' : UnitGroup, g'.members = g.members → (∀ u, e ≠ .add (some u)) →
      (∀ u, e ≠ .remove (some u)) → e ≠ .clear → Holds g' (events ++ [e]) := by
    intro g' hg' hadd hremove hclear
    refine ⟨hg' ▸ hnd, fun u => ?_⟩
    rw [hg', added_concat, hm u]
    exact ⟨fun ha => .inr ⟨ha, hremove u, hclear⟩, fun ha => (ha.resolve_left (hadd u)).1⟩
  cases e with
  | add o =>
    cases o with
    | none => exact hsame _ rfl (by simp) (by simp) (by simp)
    | some u =>
      obtain ⟨-, hin, hout⟩ := members_add (B := B) hf
      have hadded : ∀ v, Added (events ++ [.add (some u)]) v ↔ v = u ∨ v ∈ g.members := by
        intro v
        rw [added_concat, hm v]
        simp [eq_comm]
      by_cases hu : u ∈ g.members
      · refine ⟨by rw [UnitGroup.event, hin hu]; exact hnd, fun v => ?_⟩
        rw [UnitGroup.event, hin hu, hadded]
        exact ⟨.inr, fun hv => hv.elim (fun he => he ▸ hu) id⟩
      · have hp := hout hu
        refine ⟨hp.nodup_iff.mpr (List.nodup_cons.mpr ⟨hu, hnd⟩), fun v => ?_⟩
        rw [UnitGroup.event, hp.mem_iff, hadded, List.mem_cons]
  | remove o =>
    cases o with
    | none => exact hsame _ rfl (by simp) (by simp) (by simp)
    | some u =>
      have hr := members_remove (B := B) hf
      refine ⟨by rw [UnitGroup.event, hr]; exact hnd.erase u, fun v => ?_⟩
      rw [UnitGroup.event, hr, hnd.mem_erase_iff, added_concat, hm v]
      constructor
      · rintro ⟨hne, ha⟩
        exact .inr ⟨ha, by simpa using Ne.symm hne, by simp⟩
      · rintro (he | ⟨ha, hne, -⟩)
        · cases he
        · exact ⟨fun he => hne (by rw [he]), ha⟩
  | has o => exact hsame _ rfl (by simp) (by simp) (by simp)
  | size => exact hsame _ rfl (by simp) (by simp) (by simp)
  | clear =>
    refine ⟨List.nodup_nil, fun v => iff_of_false List.not_mem_nil ?_⟩
    rw [added_concat]
    rintro (he | ⟨-, -, hne⟩)
    · cases he
    · exact hne rfl
  | game priorities => exact hsame _ rfl (by simp) (by simp) (by simp)

/-- The group holds what it should along a session whose operations find their units. -/
theorem holds_session (game : SelectionPriorities)
    (h : Session.Steps (event B) (new game) events Findable) :
    Holds (events.foldl (event B) (new game)) events := by
  induction events using List.reverseRecOn with
  | nil =>
    refine ⟨List.nodup_nil, fun v => iff_of_false List.not_mem_nil ?_⟩
    rintro ⟨pre, post, heq, -⟩
    exact List.append_ne_nil_of_right_ne_nil _ (List.cons_ne_nil _ _) heq.symm
  | append_singleton events e ih =>
    obtain ⟨hsteps, he⟩ := Session.steps_concat.mp h
    rw [Session.foldl_concat]
    exact (ih hsteps).event he

/-- **Membership of unit groups.** In a session in which every add, remove and has meets its unit in
its place, if it is a member, the group holds the units that were added and not removed or cleared
since, each of them once, `has` and `remove` find them and the size is their number. -/
theorem membershipOk_of_findable (B : Balancing UnitHandle) (game : SelectionPriorities)
    (events : List GroupEvent) (h : Session.Steps (event B) (new game) events Findable) :
    MembershipOk B game events := by
  have hholds : ∀ pre, pre <+: events → Holds (pre.foldl (event B) (new game)) pre :=
    fun pre hp => holds_session game (h.of_prefix hp)
  constructor
  · exact fun pre hp => (hholds pre hp).2
  · exact fun pre hp => (hholds pre hp).1
  · intro pre unit hp
    rw [has_iff (h pre _ hp)]
    exact (hholds pre ((List.prefix_append _ _).trans hp)).2 unit
  · intro pre unit hp
    rw [(hholds _ hp).2 unit, added_concat]
    rintro (he | ⟨-, hne, -⟩)
    · cases he
    · exact hne rfl
  · intro pre hp s hs
    obtain ⟨hnd, hm⟩ := hholds pre hp
    have heq : s = (pre.foldl (event B) (new game)).members.toFinset := by
      ext v
      rw [hs v, ← hm v, List.mem_toFinset]
    rw [heq, List.toFinset_card_of_nodup hnd]
    rfl

/-- What `Findable` asks is needed: a member out of its place is not found in some tree. -/
theorem findable_of_found (hnd : g.members.Nodup) (hm : unit ∈ g.members)
    (h : ∀ container, elements container = g.members →
      (⟨container, g.game⟩ : UnitGroup).has (some unit) = true) : g.Findable (.has (some unit)) := by
  intro u hu _
  obtain rfl : unit = u := Option.some.inj hu
  by_contra hplace
  obtain ⟨t, ht, hfalse⟩ := exists_contains_eq_false hnd hm hplace
  have htrue : contains (unitgroupcomp g.game) t unit = true := h t ht
  rw [hfalse] at htrue
  cases htrue

/-! ## Fixed priorities -/

/-- The members stand in the order of the present priorities. While these do not change, a group is
in this order. -/
def Sorted (g : UnitGroup) : Prop := g.members.Pairwise (unitgroupcomp g.game)

theorem sorted_new (game : SelectionPriorities) : (new game).Sorted := List.Pairwise.nil

theorem Sorted.findable (h : g.Sorted) (e : GroupEvent) : g.Findable e :=
  fun _ _ _ => inPlace_of_pairwise h

theorem Sorted.nodup (h : g.Sorted) : g.members.Nodup := nodup_of_pairwise h

theorem Sorted.add (h : g.Sorted) (o : Option UnitHandle) : (g.add B o).Sorted := by
  cases o with
  | none => exact h
  | some u => exact pairwise_insert h

theorem Sorted.remove (h : g.Sorted) (o : Option UnitHandle) : (g.remove B o).Sorted := by
  cases o with
  | none => exact h
  | some u => exact pairwise_erase h

theorem Sorted.mem_add (h : g.Sorted) {v : UnitHandle} :
    v ∈ (g.add B (some unit)).members ↔ v = unit ∨ v ∈ g.members := by
  obtain ⟨-, hin, hout⟩ := members_add (B := B) (h.findable (.add (some unit)))
  by_cases hu : unit ∈ g.members
  · rw [hin hu]
    exact ⟨.inr, fun hv => hv.elim (fun he => he ▸ hu) id⟩
  · rw [(hout hu).mem_iff, List.mem_cons]

theorem Sorted.mem_remove (h : g.Sorted) {v : UnitHandle} :
    v ∈ (g.remove B (some unit)).members ↔ v ≠ unit ∧ v ∈ g.members := by
  rw [members_remove (h.findable _), h.nodup.mem_erase_iff]

theorem Sorted.has_iff (h : g.Sorted) : g.has (some unit) = true ↔ unit ∈ g.members :=
  UnitGroup.has_iff (h.findable _)

/-! ## Two sessions in which a priority changes -/

/-- Two units of priorities 2 and 1. -/
def twoUnits : SelectionPriorities := fun handle =>
  if handle = 1 then some 80000 else if handle = 2 then some 40000 else none

/-- The first of them has died. -/
def firstDied : SelectionPriorities := fun handle => if handle = 2 then some 40000 else none

/-- Both are added, the first dies, and the second is asked for and added again. -/
def deathSession : List GroupEvent :=
  [.add (some 1), .add (some 2), .game firstDied, .has (some 2), .add (some 2), .size]

/-- The second unit is a member that `has` does not find, and it comes in once more. -/
theorem member_not_found :
    ¬ MembershipOk unbalanced twoUnits deathSession ∧
      ((deathSession.take 3).foldl (event unbalanced) (new twoUnits)).members = [1, 2] ∧
      ((deathSession.take 3).foldl (event unbalanced) (new twoUnits)).has (some 2) = false ∧
      (deathSession.foldl (event unbalanced) (new twoUnits)).members = [2, 1, 2] ∧
      (deathSession.foldl (event unbalanced) (new twoUnits)).size = 3 := by
  have hlast : (deathSession.foldl (event unbalanced) (new twoUnits)).members = [2, 1, 2] := by
    decide +kernel
  refine ⟨fun h => ?_, by decide +kernel, by decide +kernel, hlast, by decide +kernel⟩
  have honce := h.once deathSession List.prefix_rfl
  rw [hlast] at honce
  exact absurd honce (by decide)

/-- A session in which a priority changes and the units keep their places. -/
theorem membershipOk_lostPriority :
    MembershipOk unbalanced twoUnits [.add (some 1), .add (some 2), .has (some 1), .remove (some 1),
      .game firstDied, .has (some 2), .add none, .clear, .size] :=
  membershipOk_of_findable _ _ _ (by decide +kernel)

end UnitGroup

end DreamDota
