import DreamDota.Lib.Mask
import Mathlib.Data.Int.Notation
import Mathlib.Data.List.Nodup

/-!
# Unit filters

`UnitFilter` and `Unit::filterMatch`: a unit matches a filter when it has all properties that are
required and none that is excluded. What the game answers about a unit and about the players are
parameters.

The property `UNDER_QUEUE` is tested by a branch of its own, in which a unit without a queue has the
property when it is required. `filterOk_iff` says when this does not matter.
-/

namespace DreamDota

namespace UnitFilter

/-! ## What the game answers -/

/-- The number of no player. -/
def playerAny : BitVec 32 := -1

def abilityBuildInProgress : BitVec 32 := 0x41426E50

def abilityUpgradeInProgress : BitVec 32 := 0x41556E50

/-- The answers about the players. -/
structure Players where
  getPlayerAlliance : BitVec 32 → BitVec 32 → ℕ → Bool
  getPlayerController : BitVec 32 → ℕ
  getPlayerSlotState : BitVec 32 → ℕ
  isPlayerObserver : BitVec 32 → Bool

/-- The answers about a unit: `queueItemType` is the first slot of its ability `'Aque'`, if it has
the ability, and `owner` the number of its owner. -/
structure UnitAnswers where
  object : Bool
  typeFlag : BitVec 32
  isUnitType : ℕ → Bool
  isUnitIllusion : Bool
  isUnitPaused : Bool
  isUnitHidden : Bool
  isUnitLoaded : Bool
  getUnitAbilityLevel : BitVec 32 → ℤ
  queueItemType : Option (BitVec 32)
  stateFlag : BitVec 32
  owner : BitVec 32
  isUnitDetected : BitVec 32 → Bool
  isUnitFogged : BitVec 32 → Bool
  isUnitMasked : BitVec 32 → Bool
  isUnitInvisible : BitVec 32 → Bool
  isUnitVisible : BitVec 32 → Bool
  isUnitAlly : BitVec 32 → Bool
  isUnitEnemy : BitVec 32 → Bool
  isUnitSelected : BitVec 32 → Bool

/-- `isInvulnerable`. -/
def UnitAnswers.isInvulnerable (u : UnitAnswers) : Bool := Mask.has u.stateFlag 3

/-! ## Filters of players -/

/-- `PlayerFilter`. -/
structure PlayerFilter where
  require : BitVec 32
  exclude : BitVec 32
  player : BitVec 32

/-- `PlayerFilterMatch`. -/
def playerFilterMatch (players : Players) (playerIdSrc : BitVec 32) (filter : PlayerFilter) :
    Bool :=
  let test (field : ℕ) (holds : Bool) := Mask.passes filter.require filter.exclude field holds
  let controller := players.getPlayerController playerIdSrc
  let slotState := players.getPlayerSlotState playerIdSrc
  (filter.player == playerAny ||
    (List.range 10).all fun i => test i (players.getPlayerAlliance playerIdSrc filter.player i)) &&
  test 10 (controller == 0) && test 11 (controller == 1) && test 12 (controller == 2) &&
  test 13 (controller == 3) && test 14 (controller == 4) && test 15 (controller == 5) &&
  test 16 (slotState == 0) && test 17 (slotState == 1) && test 18 (slotState == 2) &&
  test 19 (players.isPlayerObserver playerIdSrc)

/-! ## Filters of units -/

/-- The properties. -/
inductive UnitFlag where
  | giant | undead | summoned | mechanical | peon | sapper | townhall | ancient | neutral | ward
  | standon | tauren
  | hero | dead | structureUnit | flying | ground | attacksFlying | attacksGround | meleeAttacker
  | rangedAttacker
  | stunned | plagued | snared | poisoned | polymorphed | sleeping | resistant | ethereal
  | magicImmune | illusion | paused | hidden | loaded | underConstruction | underQueue
  | underUpgrade | invulnerable
  | detected | fogged | masked | invisible | visible | ally | enemy | selected | controllable
  | fullcontrollable
  deriving DecidableEq, Repr

/-- The place of the bit of a property. -/
def UnitFlag.bit : UnitFlag → ℕ
  | .giant => 0 | .undead => 1 | .summoned => 2 | .mechanical => 3 | .peon => 4 | .sapper => 5
  | .townhall => 6 | .ancient => 7 | .neutral => 8 | .ward => 9 | .standon => 10 | .tauren => 11
  | .hero => 12 | .dead => 13 | .structureUnit => 14 | .flying => 15 | .ground => 16
  | .attacksFlying => 17 | .attacksGround => 18 | .meleeAttacker => 19 | .rangedAttacker => 20
  | .stunned => 21 | .plagued => 22 | .snared => 23 | .poisoned => 24 | .polymorphed => 25
  | .sleeping => 26 | .resistant => 27 | .ethereal => 28 | .magicImmune => 29 | .illusion => 30
  | .paused => 31 | .hidden => 32 | .loaded => 33 | .underConstruction => 34 | .underQueue => 35
  | .underUpgrade => 36 | .invulnerable => 37
  | .detected => 38 | .fogged => 39 | .masked => 40 | .invisible => 41 | .visible => 42
  | .ally => 43 | .enemy => 44 | .selected => 45 | .controllable => 46 | .fullcontrollable => 47

end UnitFilter

/-- `UnitFilter`. -/
structure UnitFilter where
  require : BitVec 64
  exclude : BitVec 64
  player : BitVec 32
  deriving DecidableEq, Repr

namespace UnitFilter

/-- The filter for sets of properties. -/
def of (require exclude : List UnitFlag) (player : BitVec 32) : UnitFilter :=
  ⟨Mask.ofFields (require.map UnitFlag.bit), Mask.ofFields (exclude.map UnitFlag.bit), player⟩

/-- The filter without arguments, which `operator==` takes for `NULL`. -/
def empty : UnitFilter := ⟨0, 0, 0⟩

def requires (filter : UnitFilter) (flag : UnitFlag) : Bool := Mask.has filter.require flag.bit

def excludes (filter : UnitFilter) (flag : UnitFlag) : Bool := Mask.has filter.exclude flag.bit

/-- The pair of tests of a property. -/
def test (filter : UnitFilter) (e : UnitFlag × Bool) : Bool :=
  Mask.passes filter.require filter.exclude e.1.bit e.2

/-- The tests of the macro `PROC`, with the numbers of the unit types. -/
def unitTypeTests (u : UnitAnswers) : List (UnitFlag × Bool) := [
  (.hero, u.isUnitType 0), (.dead, u.isUnitType 1), (.structureUnit, u.isUnitType 2),
  (.flying, u.isUnitType 3), (.ground, u.isUnitType 4), (.attacksFlying, u.isUnitType 5),
  (.attacksGround, u.isUnitType 6), (.meleeAttacker, u.isUnitType 7),
  (.rangedAttacker, u.isUnitType 8), (.stunned, u.isUnitType 11), (.plagued, u.isUnitType 12),
  (.snared, u.isUnitType 13), (.poisoned, u.isUnitType 21), (.polymorphed, u.isUnitType 22),
  (.sleeping, u.isUnitType 23), (.resistant, u.isUnitType 24), (.ethereal, u.isUnitType 25),
  (.magicImmune, u.isUnitType 26)]

/-- The tests that follow. -/
def stateTests (u : UnitAnswers) : List (UnitFlag × Bool) := [
  (.illusion, u.isUnitIllusion), (.paused, u.isUnitPaused), (.hidden, u.isUnitHidden),
  (.loaded, u.isUnitLoaded),
  (.underConstruction, decide (0 < u.getUnitAbilityLevel abilityBuildInProgress))]

/-- The tests that follow the one of the queue. -/
def lastStateTests (u : UnitAnswers) : List (UnitFlag × Bool) := [
  (.underUpgrade, decide (0 < u.getUnitAbilityLevel abilityUpgradeInProgress)),
  (.invulnerable, u.isInvulnerable)]

/-- The tests that are made if a player is given. -/
def playerTests (players : Players) (u : UnitAnswers) (toPlayerId : BitVec 32) :
    List (UnitFlag × Bool) := [
  (.detected, u.isUnitDetected toPlayerId), (.fogged, u.isUnitFogged toPlayerId),
  (.masked, u.isUnitMasked toPlayerId), (.invisible, u.isUnitInvisible toPlayerId),
  (.visible, u.isUnitVisible toPlayerId), (.ally, u.isUnitAlly toPlayerId),
  (.enemy, u.isUnitEnemy toPlayerId), (.selected, u.isUnitSelected toPlayerId),
  (.controllable, playerFilterMatch players u.owner ⟨1#32 <<< 6, 0#32, toPlayerId⟩),
  (.fullcontrollable, playerFilterMatch players u.owner ⟨1#32 <<< 7, 0#32, toPlayerId⟩)]

/-- `hasQueue`, from the first slot of the queue. -/
def hasQueue (queueItemType : BitVec 32) : Bool :=
  queueItemType != 0 && queueItemType != 0xFFFFFFFF

/-- The two branches for `UNDER_QUEUE`. A unit without the ability leaves both of them. -/
def queueTest (filter : UnitFilter) (u : UnitAnswers) : Bool :=
  if filter.requires .underQueue && u.queueItemType.any fun type => !hasQueue type then false
  else if filter.excludes .underQueue && u.queueItemType.any hasQueue then false
  else true

/-- `Unit::filterMatch`. -/
def filterMatch (players : Players) (u : UnitAnswers) (filter : UnitFilter) : Bool :=
  u.object &&
  ((List.range 12).all fun field =>
    Mask.passes filter.require filter.exclude field (Mask.has (u.typeFlag.setWidth 64) field)) &&
  (unitTypeTests u).all filter.test && (stateTests u).all filter.test && filter.queueTest u &&
  (lastStateTests u).all filter.test &&
  (filter.player == playerAny || (playerTests players u filter.player).all filter.test)

/-! ## What the filter is to mean -/

/-- A property that a unit has with regard to a player. -/
def UnitFlag.Relative (flag : UnitFlag) : Prop := 38 ≤ flag.bit

/-- The property that a flag names. -/
def holds (players : Players) (u : UnitAnswers) (toPlayerId : BitVec 32) : UnitFlag → Bool
  | .giant => Mask.has u.typeFlag 0
  | .undead => Mask.has u.typeFlag 1
  | .summoned => Mask.has u.typeFlag 2
  | .mechanical => Mask.has u.typeFlag 3
  | .peon => Mask.has u.typeFlag 4
  | .sapper => Mask.has u.typeFlag 5
  | .townhall => Mask.has u.typeFlag 6
  | .ancient => Mask.has u.typeFlag 7
  | .neutral => Mask.has u.typeFlag 8
  | .ward => Mask.has u.typeFlag 9
  | .standon => Mask.has u.typeFlag 10
  | .tauren => Mask.has u.typeFlag 11
  | .hero => u.isUnitType 0
  | .dead => u.isUnitType 1
  | .structureUnit => u.isUnitType 2
  | .flying => u.isUnitType 3
  | .ground => u.isUnitType 4
  | .attacksFlying => u.isUnitType 5
  | .attacksGround => u.isUnitType 6
  | .meleeAttacker => u.isUnitType 7
  | .rangedAttacker => u.isUnitType 8
  | .stunned => u.isUnitType 11
  | .plagued => u.isUnitType 12
  | .snared => u.isUnitType 13
  | .poisoned => u.isUnitType 21
  | .polymorphed => u.isUnitType 22
  | .sleeping => u.isUnitType 23
  | .resistant => u.isUnitType 24
  | .ethereal => u.isUnitType 25
  | .magicImmune => u.isUnitType 26
  | .illusion => u.isUnitIllusion
  | .paused => u.isUnitPaused
  | .hidden => u.isUnitHidden
  | .loaded => u.isUnitLoaded
  | .underConstruction => decide (0 < u.getUnitAbilityLevel abilityBuildInProgress)
  | .underQueue => u.queueItemType.any hasQueue
  | .underUpgrade => decide (0 < u.getUnitAbilityLevel abilityUpgradeInProgress)
  | .invulnerable => u.isInvulnerable
  | .detected => u.isUnitDetected toPlayerId
  | .fogged => u.isUnitFogged toPlayerId
  | .masked => u.isUnitMasked toPlayerId
  | .invisible => u.isUnitInvisible toPlayerId
  | .visible => u.isUnitVisible toPlayerId
  | .ally => u.isUnitAlly toPlayerId
  | .enemy => u.isUnitEnemy toPlayerId
  | .selected => u.isUnitSelected toPlayerId
  | .controllable => players.getPlayerAlliance u.owner toPlayerId 6
  | .fullcontrollable => players.getPlayerAlliance u.owner toPlayerId 7

/-- The properties with regard to a player take part if a player is given. -/
def TakesPart (player : BitVec 32) (flag : UnitFlag) : Prop := flag.Relative → player ≠ playerAny

/-- The unit has the property if it is required, and has it not if it is excluded. -/
def Meets (players : Players) (u : UnitAnswers) (filter : UnitFilter) (flag : UnitFlag) : Prop :=
  (filter.requires flag = true → holds players u filter.player flag = true) ∧
    (filter.excludes flag = true → holds players u filter.player flag = false)

/-- What the comment of `filterMatch` says. -/
def Matches (players : Players) (u : UnitAnswers) (filter : UnitFilter) : Prop :=
  ∀ flag, TakesPart filter.player flag → Meets players u filter flag

/-- A filter means what the comment says, and it is one thing to require a property and the other to
exclude it. -/
structure FilterOk (players : Players) (u : UnitAnswers) (filter : UnitFilter) (flag : UnitFlag) :
    Prop where
  matches_iff : filterMatch players u filter = true ↔ Matches players u filter
  complementary : TakesPart filter.player flag →
    filterMatch players u (of [flag] [] filter.player) =
      !filterMatch players u (of [] [flag] filter.player)

/-! ## The tests -/

section Tests

variable {players : Players} {u : UnitAnswers} {filter : UnitFilter} {flag : UnitFlag}
  {player : BitVec 32} {flags : List UnitFlag}

/-- The flags of the loop. -/
def typeFlags : List UnitFlag := [.giant, .undead, .summoned, .mechanical, .peon, .sapper,
  .townhall, .ancient, .neutral, .ward, .standon, .tauren]

/-- The flags of the other tests but those of the queue and those of the players. -/
def stateFlags : List UnitFlag := [.hero, .dead, .structureUnit, .flying, .ground, .attacksFlying,
  .attacksGround, .meleeAttacker, .rangedAttacker, .stunned, .plagued, .snared, .poisoned,
  .polymorphed, .sleeping, .resistant, .ethereal, .magicImmune, .illusion, .paused, .hidden,
  .loaded, .underConstruction, .underUpgrade, .invulnerable]

def playerFlags : List UnitFlag := [.detected, .fogged, .masked, .invisible, .visible, .ally,
  .enemy, .selected, .controllable, .fullcontrollable]

theorem test_iff : filter.test (flag, holds players u filter.player flag) = true ↔
    Meets players u filter flag := Mask.passes_iff

theorem all_tests :
    (flags.map fun flag => (flag, holds players u filter.player flag)).all filter.test = true ↔
      ∀ flag ∈ flags, Meets players u filter flag := by
  rw [List.all_map, List.all_eq_true]
  exact forall₂_congr fun flag _ => test_iff

/-- Every property is tested somewhere. -/
theorem mem_flags (flag : UnitFlag) : flag ∈ typeFlags ∨ flag ∈ stateFlags ∨ flag = .underQueue ∨
    flag ∈ playerFlags := by
  cases flag <;> decide

theorem mem_playerFlags : flag ∈ playerFlags ↔ flag.Relative := by
  unfold UnitFlag.Relative
  cases flag <;> decide

theorem not_relative (h : flag ∈ typeFlags ++ stateFlags) : ¬ flag.Relative := by
  revert h
  unfold UnitFlag.Relative
  cases flag <;> decide

/-- A filter of players for one alliance asks for this alliance. -/
theorem playerFilterMatch_alliance {i : ℕ} (hi : i < 10) (hplayer : player ≠ playerAny) :
    playerFilterMatch players u.owner ⟨1#32 <<< i, 0#32, player⟩ =
      players.getPlayerAlliance u.owner player i := by
  have hpasses (field : ℕ) (holds : Bool) :
      Mask.passes (1#32 <<< i) 0#32 field holds = true ↔ (i = field → holds = true) :=
    Mask.passes_require (by omega)
  have hany : (player == playerAny) = false := beq_eq_false_iff_ne.mpr hplayer
  rw [Bool.eq_iff_iff]
  simp only [playerFilterMatch, hany, Bool.false_or, Bool.and_eq_true, List.all_eq_true,
    List.mem_range, hpasses]
  constructor
  · rintro ⟨⟨⟨⟨⟨⟨⟨⟨⟨⟨h, -⟩, -⟩, -⟩, -⟩, -⟩, -⟩, -⟩, -⟩, -⟩, -⟩
    exact h i hi rfl
  · intro h
    have hother {field : ℕ} {holds : Bool} (hfield : 10 ≤ field) : i = field → holds = true :=
      fun heq => by omega
    refine ⟨⟨⟨⟨⟨⟨⟨⟨⟨⟨fun field _ heq => heq ▸ h, ?_⟩, ?_⟩, ?_⟩, ?_⟩, ?_⟩, ?_⟩, ?_⟩, ?_⟩, ?_⟩, ?_⟩
    all_goals exact hother (by decide)

variable (players) in
theorem typeTests_iff : ((List.range 12).all fun field =>
    Mask.passes filter.require filter.exclude field (Mask.has (u.typeFlag.setWidth 64) field)) =
      true ↔ ∀ flag ∈ typeFlags, Meets players u filter flag := by
  have hrange : List.range 12 = typeFlags.map UnitFlag.bit := by decide
  rw [hrange, List.all_map, List.all_eq_true]
  refine forall₂_congr fun flag hflag => ?_
  have hhas : Mask.has (u.typeFlag.setWidth 64) flag.bit = holds players u filter.player flag := by
    rw [Mask.has_eq, BitVec.getLsbD_setWidth, ← Mask.has_eq]
    cases flag <;> first | exact absurd hflag (by decide) | simp [UnitFlag.bit, holds]
  rw [Function.comp_apply, hhas]
  exact Mask.passes_iff

variable (players u filter) in
theorem stateTests_iff : ((unitTypeTests u).all filter.test && (stateTests u).all filter.test &&
    (lastStateTests u).all filter.test) = true ↔
      ∀ flag ∈ stateFlags, Meets players u filter flag := by
  have hflags : unitTypeTests u ++ stateTests u ++ lastStateTests u =
      stateFlags.map fun flag => (flag, holds players u filter.player flag) := rfl
  rw [← List.all_append, ← List.all_append, hflags, all_tests]

theorem playerTests_iff (hplayer : filter.player ≠ playerAny) :
    (playerTests players u filter.player).all filter.test = true ↔
      ∀ flag ∈ playerFlags, Meets players u filter flag := by
  have hflags : playerTests players u filter.player =
      playerFlags.map fun flag => (flag, holds players u filter.player flag) := by
    unfold playerTests
    rw [playerFilterMatch_alliance (by decide) hplayer,
      playerFilterMatch_alliance (by decide) hplayer]
    rfl
  rw [hflags, all_tests]

variable (players) in
/-- The branches for the queue test what they should, except that they do not miss the ability if
the queue is required. -/
theorem queueTest_iff : filter.queueTest u = true ↔
    (filter.requires .underQueue = true → u.queueItemType ≠ none →
      holds players u filter.player .underQueue = true) ∧
    (filter.excludes .underQueue = true → holds players u filter.player .underQueue = false) := by
  unfold queueTest holds
  cases u.queueItemType with
  | none => cases filter.requires .underQueue <;> cases filter.excludes .underQueue <;> simp
  | some type =>
    cases filter.requires .underQueue <;> cases filter.excludes .underQueue <;>
      cases hqueue : hasQueue type <;> simp [hqueue]

/-- What `filterMatch` tests, all in all. -/
theorem filterMatch_iff_tests (hobject : u.object = true) : filterMatch players u filter = true ↔
    filter.queueTest u = true ∧
      ∀ flag, flag ≠ .underQueue → TakesPart filter.player flag → Meets players u filter flag := by
  have hstate := stateTests_iff players u filter
  rw [Bool.and_eq_true, Bool.and_eq_true] at hstate
  unfold filterMatch
  simp only [hobject, Bool.true_and, Bool.and_eq_true, typeTests_iff players]
  constructor
  · rintro ⟨⟨⟨⟨⟨htype, hunit⟩, hfirst⟩, hqueue⟩, hlast⟩, hplayer⟩
    refine ⟨hqueue, fun flag hne htakes => ?_⟩
    rcases mem_flags flag with hflag | hflag | hflag | hflag
    · exact htype flag hflag
    · exact hstate.mp ⟨⟨hunit, hfirst⟩, hlast⟩ flag hflag
    · exact absurd hflag hne
    · have hgiven : filter.player ≠ playerAny := htakes (mem_playerFlags.mp hflag)
      rw [beq_eq_false_iff_ne.mpr hgiven, Bool.false_or, playerTests_iff hgiven] at hplayer
      exact hplayer flag hflag
  · rintro ⟨hqueue, hrest⟩
    have hfree {flag : UnitFlag} (hflag : flag ∈ typeFlags ++ stateFlags) :
        Meets players u filter flag := by
      refine hrest flag ?_ fun hrelative => absurd hrelative (not_relative hflag)
      rintro rfl
      exact absurd hflag (by decide)
    obtain ⟨⟨hunit, hfirst⟩, hlast⟩ := hstate.mpr fun flag hflag =>
      hfree (List.mem_append_right _ hflag)
    refine ⟨⟨⟨⟨⟨fun flag hflag => hfree (List.mem_append_left _ hflag), hunit⟩, hfirst⟩, hqueue⟩,
      hlast⟩, ?_⟩
    by_cases hgiven : filter.player = playerAny
    · rw [beq_iff_eq.mpr hgiven, Bool.true_or]
    · rw [beq_eq_false_iff_ne.mpr hgiven, Bool.false_or, playerTests_iff hgiven]
      refine fun flag hflag => hrest flag ?_ fun _ => hgiven
      rintro rfl
      exact absurd hflag (by decide)

/-! ## When the filter means what it is to mean -/

theorem matches_iff_meets : Matches players u filter ↔ Meets players u filter .underQueue ∧
    ∀ flag, flag ≠ .underQueue → TakesPart filter.player flag → Meets players u filter flag := by
  constructor
  · intro h
    exact ⟨h .underQueue fun hrelative => absurd hrelative (by unfold UnitFlag.Relative; decide),
      fun flag _ => h flag⟩
  · rintro ⟨hqueue, hrest⟩ flag htakes
    by_cases hflag : flag = .underQueue
    · rw [hflag]
      exact hqueue
    · exact hrest flag hflag htakes

/-- The defect shows if the queue is required, there is none, and all else is as it should be. -/
theorem filterMatch_iff (hobject : u.object = true) :
    (filterMatch players u filter = true ↔ Matches players u filter) ↔
      (filter.requires .underQueue = true → u.queueItemType ≠ none ∨
        ∃ flag, flag ≠ .underQueue ∧ TakesPart filter.player flag ∧
          ¬ Meets players u filter flag) := by
  rw [filterMatch_iff_tests hobject, matches_iff_meets, queueTest_iff players]
  constructor
  · intro h hrequires
    by_contra hno
    rw [not_or, not_not, not_exists] at hno
    obtain ⟨hnone, hrest⟩ := hno
    have hmeets := h.mp ⟨⟨fun _ hsome => absurd hnone hsome, fun _ => by
      unfold holds
      rw [hnone]
      rfl⟩, fun flag hne htakes => by_contra fun hnot => hrest flag ⟨hne, htakes, hnot⟩⟩
    have hholds := hmeets.1.1 hrequires
    unfold holds at hholds
    rw [hnone] at hholds
    cases hholds
  · intro h
    constructor
    · rintro ⟨⟨hreq, hexc⟩, hrest⟩
      refine ⟨⟨fun hrequires => hreq hrequires ?_, hexc⟩, hrest⟩
      exact (h hrequires).resolve_right fun ⟨flag, hne, htakes, hnot⟩ =>
        hnot (hrest flag hne htakes)
    · rintro ⟨⟨hreq, hexc⟩, hrest⟩
      exact ⟨⟨fun hrequires _ => hreq hrequires, hexc⟩, hrest⟩

theorem bit_injective : UnitFlag.bit.Injective := by
  intro a b hab
  have hnodup : ((UnitFlag.underQueue :: (typeFlags ++ stateFlags ++ playerFlags)).map
      UnitFlag.bit).Nodup := by decide
  have hmem (flag : UnitFlag) :
      flag ∈ UnitFlag.underQueue :: (typeFlags ++ stateFlags ++ playerFlags) := by
    cases flag <;> decide
  exact List.inj_on_of_nodup_map hnodup (hmem a) (hmem b) hab

theorem bit_lt (flag : UnitFlag) : flag.bit < 64 := by
  cases flag <;> decide

/-- A filter for sets of properties requires and excludes these properties. -/
theorem requires_of {require exclude : List UnitFlag} :
    (of require exclude player).requires flag = decide (flag ∈ require) := by
  rw [requires, of, Mask.has_ofFields _ _ (bit_lt flag), decide_eq_decide,
    List.mem_map_of_injective bit_injective]

theorem excludes_of {require exclude : List UnitFlag} :
    (of require exclude player).excludes flag = decide (flag ∈ exclude) := by
  rw [excludes, of, Mask.has_ofFields _ _ (bit_lt flag), decide_eq_decide,
    List.mem_map_of_injective bit_injective]

/-- A filter that requires one property. -/
theorem matches_require (htakes : TakesPart player flag) : Matches players u (of [flag] [] player) ↔
    holds players u player flag = true := by
  unfold Matches Meets
  simp only [requires_of, excludes_of, List.mem_singleton, decide_eq_true_iff, List.not_mem_nil,
    decide_false, Bool.false_eq_true, false_imp_iff, and_true]
  exact ⟨fun h => h flag htakes rfl, fun h other _ heq => heq ▸ h⟩

/-- A filter that excludes one property. -/
theorem matches_exclude (htakes : TakesPart player flag) : Matches players u (of [] [flag] player) ↔
    holds players u player flag = false := by
  unfold Matches Meets
  simp only [requires_of, excludes_of, List.mem_singleton, decide_eq_true_iff, List.not_mem_nil,
    decide_false, Bool.false_eq_true, false_imp_iff, true_and]
  exact ⟨fun h => h flag htakes rfl, fun h other _ heq => heq ▸ h⟩

variable (players) in
/-- A unit without the ability matches every filter that names nothing but the queue. -/
theorem filterMatch_of_noQueue (hobject : u.object = true) (hnone : u.queueItemType = none)
    {require exclude : List UnitFlag} (hreq : ∀ flag ∈ require, flag = .underQueue)
    (hexc : ∀ flag ∈ exclude, flag = .underQueue) :
    filterMatch players u (of require exclude player) = true := by
  rw [filterMatch_iff_tests hobject, queueTest_iff players]
  refine ⟨⟨fun _ hsome => absurd hnone hsome, fun _ => by unfold holds; rw [hnone]; rfl⟩, ?_⟩
  intro flag hne _
  refine ⟨fun h => absurd (hreq flag ?_) hne, fun h => absurd (hexc flag ?_) hne⟩
  · rwa [requires_of, decide_eq_true_iff] at h
  · rwa [excludes_of, decide_eq_true_iff] at h

/-- **Unit filters.** For an existing unit, a filter and a property: the filter means what its
comment says unless it requires a queue, the unit has no queue ability and everything else is as it
should be; to require the property and to exclude it are opposites unless it is the queue of such a
unit. -/
theorem filterOk_iff (hobject : u.object = true) : FilterOk players u filter flag ↔
    (filter.requires .underQueue = true → u.queueItemType ≠ none ∨
      ∃ other, other ≠ .underQueue ∧ TakesPart filter.player other ∧
        ¬ Meets players u filter other) ∧
    (flag = .underQueue → u.queueItemType ≠ none) := by
  have hopposite (htakes : TakesPart filter.player flag)
      (hreq : filterMatch players u (of [flag] [] filter.player) = true ↔
        Matches players u (of [flag] [] filter.player)) :
      filterMatch players u (of [flag] [] filter.player) =
        !filterMatch players u (of [] [flag] filter.player) := by
    have hexc : filterMatch players u (of [] [flag] filter.player) = true ↔
        Matches players u (of [] [flag] filter.player) :=
      (filterMatch_iff hobject).mpr fun h => by rw [requires_of] at h; cases h
    rw [matches_require htakes] at hreq
    rw [matches_exclude htakes] at hexc
    rw [Bool.eq_iff_iff, hreq, Bool.not_eq_true', ← Bool.not_eq_true, hexc, Bool.not_eq_false]
  constructor
  · rintro ⟨hmatches, hcompl⟩
    refine ⟨(filterMatch_iff hobject).mp hmatches, ?_⟩
    rintro rfl hnone
    have hqueue : TakesPart filter.player .underQueue := fun hrelative =>
      absurd hrelative (by unfold UnitFlag.Relative; decide)
    have h := hcompl hqueue
    rw [filterMatch_of_noQueue players hobject hnone (by decide) (by decide),
      filterMatch_of_noQueue players hobject hnone (by decide) (by decide)] at h
    cases h
  · rintro ⟨hcond, hflag⟩
    refine ⟨(filterMatch_iff hobject).mpr hcond, fun htakes => hopposite htakes ?_⟩
    refine (filterMatch_iff hobject).mpr fun h => .inl (hflag ?_)
    rw [requires_of, decide_eq_true_iff, List.mem_singleton] at h
    exact h.symm

end Tests

/-- A unit without any property. -/
def plainUnit : UnitAnswers where
  object := true
  typeFlag := 0
  isUnitType _ := false
  isUnitIllusion := false
  isUnitPaused := false
  isUnitHidden := false
  isUnitLoaded := false
  getUnitAbilityLevel _ := 0
  queueItemType := none
  stateFlag := 0
  owner := 0
  isUnitDetected _ := false
  isUnitFogged _ := false
  isUnitMasked _ := false
  isUnitInvisible _ := false
  isUnitVisible _ := false
  isUnitAlly _ := false
  isUnitEnemy _ := false
  isUnitSelected _ := false

/-- Players without alliances. -/
def plainPlayers : Players := ⟨fun _ _ _ => false, fun _ => 0, fun _ => 0, fun _ => false⟩

/-- A filter for heroes with a queue, which no plain unit matches. -/
theorem filterOk_hero :
    FilterOk plainPlayers plainUnit (of [.hero, .underQueue] [] playerAny) .hero :=
  (filterOk_iff rfl).mpr ⟨fun _ => .inr ⟨.hero, by decide,
    fun hrelative => absurd hrelative (by unfold UnitFlag.Relative; decide),
    fun hmeets => absurd (hmeets.1 (by decide)) (by decide)⟩, by decide⟩

/-- A unit without a queue matches the filter that requires one. -/
theorem not_filterOk_underQueue :
    filterMatch plainPlayers plainUnit (of [.underQueue] [] playerAny) = true ∧
      holds plainPlayers plainUnit playerAny .underQueue = false ∧
      ¬ FilterOk plainPlayers plainUnit (of [.underQueue] [] playerAny) .underQueue := by
  have hmatch : filterMatch plainPlayers plainUnit (of [.underQueue] [] playerAny) = true := by
    decide
  refine ⟨hmatch, rfl, fun h => ?_⟩
  have hholds := (h.matches_iff.mp hmatch .underQueue fun hrelative =>
    absurd hrelative (by unfold UnitFlag.Relative; decide)).1 (by decide)
  cases hholds

end UnitFilter

end DreamDota
