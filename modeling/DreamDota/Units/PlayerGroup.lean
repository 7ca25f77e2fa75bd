import DreamDota.Units.GroupUnits
import Mathlib.Data.List.Count
import Mathlib.Data.List.GetD
import Mathlib.Tactic.FinCases

/-!
# Groups of players

The operations of `PlayerGroup`, and what is done with the groups: the rows of the panels are put
where `forEachTeam` says, and `GroupUnits` takes the units of the players of a group.

1. `Counted`: every operation keeps the count of the players.
2. `has_ofFilter`: the group of a filter.
3. `forEachTeam_spec`: every player with a team has one call, by team and then by number.
4. `mem_groupUnits_ofFilter`: the units that `GroupUnits` finds for a filter of players.
-/

namespace DreamDota

namespace PlayerGroup

/-! ## The code -/

def remove (group : PlayerGroup) (inPlayerId : ℕ) : PlayerGroup :=
  if inPlayerId < 16 ∧ group.players.getD inPlayerId false = true then
    ⟨group.players.set inPlayerId false, group.playerCount - 1⟩
  else group

def clear (group : PlayerGroup) : PlayerGroup := ⟨group.players.map fun _ => false, 0⟩

/-- The constructor of a filter. -/
def ofFilter (players : UnitFilter.Players) (filter : UnitFilter.PlayerFilter) : PlayerGroup :=
  (List.range 16).foldl (fun group i =>
    if UnitFilter.playerFilterMatch players (BitVec.ofNat 32 i) filter then group.add i else group)
    new

/-- The loop of `position`. -/
def positionFrom (group : PlayerGroup) (inPlayer : ℕ) : ℤ → List ℕ → ℤ
  | _, [] => -1
  | pos, i :: is =>
    if group.has i then
      if i = inPlayer then pos else positionFrom group inPlayer (pos + 1) is
    else positionFrom group inPlayer pos is

def position (group : PlayerGroup) (inPlayer : ℕ) : ℤ :=
  positionFrom group inPlayer 0 (List.range 16)

/-- The arguments of a `PlayerTeamCallback`. -/
structure TeamCall where
  team : ℕ
  indexInTeam : ℕ
  indexTotal : ℕ
  player : ℕ
  deriving DecidableEq, Repr

section

variable (playerTeam : ℕ → ℤ)

/-- The turn of the first loop of `forEachTeam` for a player. A team behind the last one is an access
outside of the array. -/
def addToTeam (group : PlayerGroup) (teams : List PlayerGroup) (i : ℕ) :
    Option (List PlayerGroup) :=
  if group.has i then
    let team := playerTeam i
    if team > -1 then
      if team.toNat < teams.length then some (teams.modify team.toNat fun team => team.add i)
      else none
    else some teams
  else some teams

/-- The inner loop over the players `js`, for the team `i`: the calls and the total. -/
def callTeam (i : ℕ) (team : PlayerGroup) : List ℕ → ℕ → ℕ → List TeamCall × ℕ
  | [], _, indexTotal => ([], indexTotal)
  | j :: js, indexInTeam, indexTotal =>
    if team.has j then
      let rest := callTeam i team js (indexInTeam + 1) (indexTotal + 1)
      (⟨i, indexInTeam, indexTotal, j⟩ :: rest.1, rest.2)
    else callTeam i team js indexInTeam indexTotal

/-- The outer loop over the teams `is`. -/
def callTeams (teams : List PlayerGroup) : List ℕ → ℕ → List TeamCall
  | [], _ => []
  | i :: is, indexTotal =>
    let calls := callTeam i (teams.getD i new) (List.range 16) 0 indexTotal
    calls.1 ++ callTeams teams is calls.2

/-- `forEachTeam`: the calls. -/
def forEachTeam (group : PlayerGroup) : Option (List TeamCall) := do
  let teams ← (List.range 16).foldlM (addToTeam playerTeam group) (List.replicate 16 new)
  return callTeams teams (List.range 16) 0

def countTeam (group : PlayerGroup) : ℕ :=
  (((List.range 16).filter group.has).map playerTeam).dedup.length

end

/-! ## The count -/

/-- There are 16 players, and `playerCount` is the number of those in the group. -/
structure Counted (group : PlayerGroup) : Prop where
  length_eq : group.players.length = 16
  count_eq : group.playerCount = group.players.count true

variable {group team : PlayerGroup} {i j : ℕ}

theorem counted_new : Counted new := by
  constructor <;> decide

theorem getD_of_lt {l : List Bool} (h : i < l.length) : l.getD i false = l[i] :=
  List.getD_eq_getElem l false h

theorem Counted.add (h : group.Counted) (i : ℕ) : (group.add i).Counted := by
  unfold PlayerGroup.add
  split_ifs with hi
  · have hlt : i < group.players.length := h.length_eq ▸ hi.1
    refine ⟨List.length_set.trans h.length_eq, ?_⟩
    rw [getD_of_lt hlt] at hi
    rw [List.count_set hlt, hi.2, h.count_eq]
    simp
  · exact h

theorem Counted.remove (h : group.Counted) (i : ℕ) : (group.remove i).Counted := by
  unfold PlayerGroup.remove
  split_ifs with hi
  · have hlt : i < group.players.length := h.length_eq ▸ hi.1
    refine ⟨List.length_set.trans h.length_eq, ?_⟩
    rw [getD_of_lt hlt] at hi
    rw [List.count_set hlt, hi.2, h.count_eq]
    simp
  · exact h

theorem Counted.clear (h : group.Counted) : group.clear.Counted := by
  refine ⟨(List.length_map _).trans h.length_eq, (List.count_eq_zero.mpr ?_).symm⟩
  unfold PlayerGroup.clear
  simp

/-! ## The members -/

theorem has_new (j : ℕ) : new.has j = false := by
  unfold has new
  rw [List.getD_eq_getElem?_getD, List.getElem?_replicate]
  split_ifs <;> rfl

theorem Counted.has_add (h : group.Counted) :
    (group.add i).has j = true ↔ (i < 16 ∧ j = i) ∨ group.has j = true := by
  unfold PlayerGroup.add has
  by_cases hi : i < 16
  · have hlt : i < group.players.length := h.length_eq ▸ hi
    by_cases hmem : group.players.getD i false = true
    · rw [if_neg fun hc => Bool.false_ne_true (hc.2.symm.trans hmem)]
      exact ⟨.inr, fun hor => hor.elim (fun hj => hj.2 ▸ hmem) id⟩
    · rw [if_pos ⟨hi, by simpa using hmem⟩]
      by_cases hj : j = i
      · subst hj
        simp [List.getD_eq_getElem?_getD, hlt, hi]
      · simp [List.getD_eq_getElem?_getD, List.getElem?_set_ne (Ne.symm hj), hj]
  · rw [if_neg (by simp [hi])]
    simp [hi]

theorem Counted.has_lt (h : group.Counted) (hj : group.has j = true) : j < 16 := by
  by_contra hge
  unfold has at hj
  rw [List.getD_eq_default _ _ (by rw [h.length_eq]; omega)] at hj
  exact Bool.false_ne_true hj

/-- The count is 0 for the group without players only. -/
theorem Counted.count_eq_zero_iff (h : group.Counted) :
    group.playerCount = 0 ↔ ∀ j, group.has j = false := by
  rw [h.count_eq, List.count_eq_zero]
  constructor
  · intro hno j
    by_contra hj
    have hj : group.has j = true := by simpa using hj
    have hlt := h.has_lt hj
    unfold has at hj
    rw [getD_of_lt (h.length_eq ▸ hlt)] at hj
    exact hno (hj ▸ List.getElem_mem _)
  · intro hno htrue
    obtain ⟨j, hlt, hj⟩ := List.getElem_of_mem htrue
    have := hno j
    unfold has at this
    rw [getD_of_lt hlt, hj] at this
    exact Bool.false_ne_true this.symm

/-- Players that are added one by one if they pass a test. -/
theorem foldl_add (p : ℕ → Bool) (is : List ℕ) (h : group.Counted) :
    (is.foldl (fun group i => if p i then group.add i else group) group).Counted ∧
      ∀ j, (is.foldl (fun group i => if p i then group.add i else group) group).has j = true ↔
        (j ∈ is ∧ j < 16 ∧ p j = true) ∨ group.has j = true := by
  induction is generalizing group with
  | nil => exact ⟨h, fun j => by simp⟩
  | cons i is ih =>
    rw [List.foldl_cons]
    cases hp : p i with
    | false =>
      obtain ⟨hcounted, hhas⟩ := ih h
      refine ⟨hcounted, fun j => (hhas j).trans ?_⟩
      rw [List.mem_cons]
      constructor
      · rintro (⟨hj, hlt⟩ | hj)
        · exact .inl ⟨.inr hj, hlt⟩
        · exact .inr hj
      · rintro (⟨rfl | hj, hlt⟩ | hj)
        · rw [hp] at hlt
          exact absurd hlt.2 Bool.false_ne_true
        · exact .inl ⟨hj, hlt⟩
        · exact .inr hj
    | true =>
      obtain ⟨hcounted, hhas⟩ := ih (h.add i)
      refine ⟨hcounted, fun j => (hhas j).trans ?_⟩
      rw [h.has_add, List.mem_cons]
      constructor
      · rintro (⟨hj, hlt⟩ | ⟨hlt, rfl⟩ | hj)
        · exact .inl ⟨.inr hj, hlt⟩
        · exact .inl ⟨.inl rfl, hlt, hp⟩
        · exact .inr hj
      · rintro (⟨rfl | hj, hlt⟩ | hj)
        · exact .inr (.inl ⟨hlt.1, rfl⟩)
        · exact .inl ⟨hj, hlt⟩
        · exact .inr (.inr hj)

theorem counted_ofFilter (players : UnitFilter.Players) (filter : UnitFilter.PlayerFilter) :
    (ofFilter players filter).Counted := (foldl_add _ _ counted_new).1

theorem has_ofFilter (players : UnitFilter.Players) (filter : UnitFilter.PlayerFilter) :
    (ofFilter players filter).has j = true ↔
      j < 16 ∧ UnitFilter.playerFilterMatch players (BitVec.ofNat 32 j) filter = true := by
  unfold ofFilter
  rw [(foldl_add _ _ counted_new).2, has_new, List.mem_range]
  simp only [Bool.false_eq_true, or_false]
  exact ⟨fun h => h.2, fun h => ⟨h.1, h⟩⟩

/-! ## The teams -/

section

variable {playerTeam : ℕ → ℤ} {teams : List PlayerGroup}

/-- What the groups of the teams hold when the players `done` have been looked at. -/
structure Teams (playerTeam : ℕ → ℤ) (group : PlayerGroup) (done : List ℕ)
    (teams : List PlayerGroup) : Prop where
  length_eq : teams.length = 16
  counted : ∀ team ∈ teams, team.Counted
  has_iff : ∀ t < 16, ∀ j, (teams.getD t new).has j = true ↔
    j ∈ done ∧ group.has j = true ∧ playerTeam j = t

theorem teams_nil (playerTeam : ℕ → ℤ) (group : PlayerGroup) :
    Teams playerTeam group [] (List.replicate 16 new) := by
  refine ⟨List.length_replicate, fun team ht => ?_, fun t ht j => ?_⟩
  · rw [List.eq_of_mem_replicate ht]
    exact counted_new
  · rw [List.getD_replicate _ ht, has_new]
    simp

theorem Teams.step {done : List ℕ} (h : Teams playerTeam group done teams) (hi : i < 16)
    (hteam : group.has i = true → playerTeam i < 16) :
    ∃ teams', addToTeam playerTeam group teams i = some teams' ∧
      Teams playerTeam group (done ++ [i]) teams' := by
  -- a player without a call leaves the teams as they are
  have hsame (hno : ¬(group.has i = true ∧ -1 < playerTeam i)) :
      Teams playerTeam group (done ++ [i]) teams := by
    refine ⟨h.length_eq, h.counted, fun t ht j => (h.has_iff t ht j).trans ?_⟩
    rw [List.mem_append, List.mem_singleton]
    refine ⟨fun hj => ⟨.inl hj.1, hj.2⟩, ?_⟩
    rintro ⟨hj | rfl, hhas, hplayer⟩
    · exact ⟨hj, hhas, hplayer⟩
    · exact absurd ⟨hhas, by omega⟩ hno
  unfold addToTeam
  by_cases hhas : group.has i = true
  · by_cases hpos : -1 < playerTeam i
    · have hlt : (playerTeam i).toNat < teams.length := by
        have := hteam hhas
        rw [h.length_eq]
        omega
      simp only [hhas, ↓reduceIte, gt_iff_lt, hpos, hlt]
      refine ⟨_, rfl, (List.length_modify ..).trans h.length_eq, fun team hm => ?_,
        fun t ht j => ?_⟩
      · obtain ⟨t, ht, rfl⟩ := List.getElem_of_mem hm
        rw [List.length_modify] at ht
        rw [List.getElem_modify]
        split_ifs
        · exact (h.counted _ (List.getElem_mem ht)).add i
        · exact h.counted _ (List.getElem_mem ht)
      · have htlen : t < teams.length := h.length_eq ▸ ht
        have hold := h.has_iff t ht j
        rw [List.getD_eq_getElem _ _ htlen] at hold
        rw [List.getD_eq_getElem _ _ (by rwa [List.length_modify]), List.getElem_modify,
          List.mem_append, List.mem_singleton]
        by_cases hti : (playerTeam i).toNat = t
        · rw [if_pos hti, (h.counted _ (List.getElem_mem htlen)).has_add, hold]
          constructor
          · rintro (⟨-, rfl⟩ | ⟨hj, hrest⟩)
            · exact ⟨.inr rfl, hhas, by omega⟩
            · exact ⟨.inl hj, hrest⟩
          · rintro ⟨hj | rfl, hrest⟩
            · exact .inr ⟨hj, hrest⟩
            · exact .inl ⟨hi, rfl⟩
        · rw [if_neg hti, hold]
          constructor
          · rintro ⟨hj, hrest⟩
            exact ⟨.inl hj, hrest⟩
          · rintro ⟨hj | rfl, hrest⟩
            · exact ⟨hj, hrest⟩
            · exact absurd hrest.2 (by omega)
    · simp only [hhas, ↓reduceIte, gt_iff_lt, hpos]
      exact ⟨teams, rfl, hsame fun hno => hpos hno.2⟩
  · rw [if_neg hhas]
    exact ⟨teams, rfl, hsame fun hno => hhas hno.1⟩

theorem Teams.foldlM {done is : List ℕ} (h : Teams playerTeam group done teams)
    (his : ∀ i ∈ is, i < 16) (hteam : ∀ i, group.has i = true → playerTeam i < 16) :
    ∃ teams', is.foldlM (addToTeam playerTeam group) teams = some teams' ∧
      Teams playerTeam group (done ++ is) teams' := by
  induction is generalizing done teams with
  | nil => exact ⟨teams, rfl, by rwa [List.append_nil]⟩
  | cons i is ih =>
    obtain ⟨teams₁, hstep, h₁⟩ := h.step (his i List.mem_cons_self) (hteam i)
    obtain ⟨teams', hfold, h'⟩ := ih h₁ fun j hj => his j (List.mem_cons_of_mem i hj)
    refine ⟨teams', ?_, by simpa using h'⟩
    rw [List.foldlM_cons, hstep]
    exact hfold

/-! ## The calls -/

theorem callTeam_snd (i : ℕ) (team : PlayerGroup) (js : List ℕ) (indexInTeam indexTotal : ℕ) :
    (callTeam i team js indexInTeam indexTotal).2 =
      indexTotal + (callTeam i team js indexInTeam indexTotal).1.length := by
  induction js generalizing indexInTeam indexTotal with
  | nil => rfl
  | cons j js ih =>
    unfold callTeam
    split_ifs
    · rw [ih, List.length_cons]
      omega
    · exact ih _ _

/-- The calls for a team: its players in order, counted from `indexInTeam` and `indexTotal`. -/
theorem callTeam_fst (i : ℕ) (team : PlayerGroup) (js : List ℕ) (indexInTeam indexTotal : ℕ) :
    (callTeam i team js indexInTeam indexTotal).1 =
      (js.filter team.has).mapIdx fun k j => ⟨i, indexInTeam + k, indexTotal + k, j⟩ := by
  induction js generalizing indexInTeam indexTotal with
  | nil => rfl
  | cons j js ih =>
    unfold callTeam
    split_ifs with hj
    · rw [List.filter_cons_of_pos hj, List.mapIdx_cons]
      refine congrArg₂ List.cons rfl ((ih _ _).trans ?_)
      simp only [Nat.add_assoc, Nat.add_comm 1]
    · rw [List.filter_cons_of_neg hj]
      exact ih _ _

/-- The players of a team that are called, in order. -/
def playersOf (teams : List PlayerGroup) (i : ℕ) : List ℕ :=
  (List.range 16).filter (teams.getD i new).has

theorem callTeams_cons (teams : List PlayerGroup) (i : ℕ) (is : List ℕ) (indexTotal : ℕ) :
    callTeams teams (i :: is) indexTotal =
      ((playersOf teams i).mapIdx fun k j => ⟨i, k, indexTotal + k, j⟩) ++
        callTeams teams is (indexTotal + (playersOf teams i).length) := by
  change (callTeam i (teams.getD i new) (List.range 16) 0 indexTotal).1 ++ callTeams teams is
    (callTeam i (teams.getD i new) (List.range 16) 0 indexTotal).2 = _
  simp only [callTeam_snd, callTeam_fst, List.length_mapIdx, Nat.zero_add]
  rfl

/-- The loops go over the teams, and within a team over its players. -/
theorem map_callTeams (teams : List PlayerGroup) (is : List ℕ) (indexTotal : ℕ) :
    ((callTeams teams is indexTotal).map fun c => (c.team, c.player)) =
      is.flatMap fun i => (playersOf teams i).map fun j => (i, j) := by
  induction is generalizing indexTotal with
  | nil => rfl
  | cons i is ih =>
    rw [callTeams_cons, List.map_append, ih, List.flatMap_cons]
    refine congrArg (· ++ _) (List.ext_getElem ?_ fun k hk hk' => ?_) <;> simp

theorem map_indexTotal (teams : List PlayerGroup) (is : List ℕ) (indexTotal : ℕ) :
    (callTeams teams is indexTotal).map TeamCall.indexTotal =
      List.range' indexTotal (callTeams teams is indexTotal).length := by
  induction is generalizing indexTotal with
  | nil => rfl
  | cons i is ih =>
    rw [callTeams_cons, List.map_append, ih, List.length_append, List.length_mapIdx,
      ← List.range'_append_1]
    refine congrArg (· ++ _) (List.ext_getElem ?_ fun k hk hk' => ?_) <;> simp

/-- The calls of a team are numbered one after the other. -/
theorem map_indexInTeam (teams : List PlayerGroup) {is : List ℕ} (his : is.Nodup)
    (indexTotal t : ℕ) :
    ((callTeams teams is indexTotal).filter fun c => c.team = t).map TeamCall.indexInTeam =
      List.range ((callTeams teams is indexTotal).filter fun c => c.team = t).length := by
  have hteam : ∀ is indexTotal, ∀ c ∈ callTeams teams is indexTotal, c.team ∈ is := by
    intro is indexTotal c hc
    have hmem := List.mem_map_of_mem (f := fun c : TeamCall => (c.team, c.player)) hc
    rw [map_callTeams, List.mem_flatMap] at hmem
    obtain ⟨i, hi, hpair⟩ := hmem
    obtain ⟨j, -, hj⟩ := List.mem_map.mp hpair
    exact (Prod.mk.inj hj).1 ▸ hi
  induction is generalizing indexTotal with
  | nil => rfl
  | cons i is ih =>
    obtain ⟨hnew, his⟩ := List.nodup_cons.mp his
    rw [callTeams_cons, List.filter_append]
    by_cases ht : i = t
    · subst ht
      have hrest : (callTeams teams is (indexTotal + (playersOf teams i).length)).filter
          (fun c => c.team = i) = [] := by
        rw [List.filter_eq_nil_iff]
        intro c hc
        simpa using fun hci : c.team = i => hnew (hci ▸ hteam _ _ c hc)
      have hfirst : (((playersOf teams i).mapIdx fun k j =>
          (⟨i, k, indexTotal + k, j⟩ : TeamCall)).filter fun c => c.team = i) =
            (playersOf teams i).mapIdx fun k j => ⟨i, k, indexTotal + k, j⟩ := by
        rw [List.filter_eq_self]
        intro c hc
        obtain ⟨k, hk, rfl⟩ := List.mem_mapIdx.mp hc
        exact decide_eq_true rfl
      rw [hrest, hfirst, List.append_nil]
      refine List.ext_getElem ?_ fun k hk hk' => ?_ <;> simp
    · have hfirst : (((playersOf teams i).mapIdx fun k j =>
          (⟨i, k, indexTotal + k, j⟩ : TeamCall)).filter fun c => c.team = t) = [] := by
        rw [List.filter_eq_nil_iff]
        intro c hc
        obtain ⟨k, hk, rfl⟩ := List.mem_mapIdx.mp hc
        simpa using ht
      rw [hfirst, List.nil_append]
      exact ih his _

theorem pairwise_flatMap_pairs {f : ℕ → List ℕ} {is : List ℕ} (his : is.Pairwise (· < ·))
    (hf : ∀ i, (f i).Pairwise (· < ·)) :
    (is.flatMap fun i => (f i).map fun j => (i, j)).Pairwise
      (Prod.Lex (· < ·) (· < ·)) := by
  rw [List.pairwise_flatMap]
  refine ⟨fun i _ => ?_, his.imp fun {i i'} hlt => ?_⟩
  · rw [List.pairwise_map]
    exact (hf i).imp fun hlt => Prod.Lex.right i hlt
  · intro x hx y hy
    obtain ⟨j, -, rfl⟩ := List.mem_map.mp hx
    obtain ⟨j', -, rfl⟩ := List.mem_map.mp hy
    exact Prod.Lex.left j j' hlt

/-- `forEachTeam` calls for every player of the group that has a team, by team and then by number.
The calls are numbered one after the other, all of them and those of each team. -/
theorem forEachTeam_spec (hteam : ∀ i, group.has i = true → playerTeam i < 16) :
    ∃ calls, group.forEachTeam playerTeam = some calls ∧
      (calls.map fun c => (c.team, c.player)).Pairwise (Prod.Lex (· < ·) (· < ·)) ∧
      (∀ t j : ℕ, (t, j) ∈ (calls.map fun c => (c.team, c.player)) ↔
        j < 16 ∧ group.has j = true ∧ playerTeam j = t) ∧
      calls.map TeamCall.indexTotal = List.range calls.length ∧
      ∀ t, (calls.filter fun c => c.team = t).map TeamCall.indexInTeam =
        List.range (calls.filter fun c => c.team = t).length := by
  obtain ⟨teams, hfold, hteams⟩ := (teams_nil playerTeam group).foldlM
    (fun i hi => List.mem_range.mp hi) hteam
  rw [List.nil_append] at hteams
  refine ⟨callTeams teams (List.range 16) 0, by rw [forEachTeam, hfold]; rfl, ?_, fun t j => ?_, ?_,
    map_indexInTeam teams List.nodup_range 0⟩
  · rw [map_callTeams]
    exact pairwise_flatMap_pairs List.pairwise_lt_range fun i => List.pairwise_lt_range.filter _
  · rw [map_callTeams, List.mem_flatMap]
    constructor
    · rintro ⟨i, hi, hpair⟩
      obtain ⟨j', hj', heq⟩ := List.mem_map.mp hpair
      obtain ⟨rfl, rfl⟩ := Prod.mk.inj heq
      obtain ⟨hrange, hhas⟩ := List.mem_filter.mp hj'
      obtain ⟨-, hgroup, hplayer⟩ := (hteams.has_iff i (List.mem_range.mp hi) j').mp hhas
      exact ⟨List.mem_range.mp hrange, hgroup, hplayer⟩
    · rintro ⟨hlt, hgroup, hplayer⟩
      have ht : t < 16 := by
        have := hteam j hgroup
        omega
      refine ⟨t, List.mem_range.mpr ht, List.mem_map.mpr ⟨j, List.mem_filter.mpr
        ⟨List.mem_range.mpr hlt, ?_⟩, rfl⟩⟩
      exact (hteams.has_iff t ht j).mpr ⟨List.mem_range.mpr hlt, hgroup, hplayer⟩
  · exact (map_indexTotal teams _ 0).trans (List.range_eq_range' ..).symm

/-- Two players of a team, another one alone, and one without a team. -/
theorem forEachTeam_spec_four : ∃ calls,
    (((((new.add 2).add 4).add 7).add 9).forEachTeam
      fun i => if i = 7 then 0 else if i = 9 then -1 else 1) = some calls ∧
    calls.map TeamCall.indexTotal = List.range calls.length := by
  obtain ⟨calls, hcalls, -, -, htotal, -⟩ :=
    @forEachTeam_spec ((((new.add 2).add 4).add 7).add 9)
      (fun i => if i = 7 then 0 else if i = 9 then -1 else 1) fun i _ => by split_ifs <;> decide
  exact ⟨calls, hcalls, htotal⟩

example : (((((new.add 2).add 4).add 7).add 9).forEachTeam
    fun i => if i = 7 then 0 else if i = 9 then -1 else 1) =
      some [⟨0, 0, 0, 7⟩, ⟨1, 0, 1, 2⟩, ⟨1, 1, 2, 4⟩] := by decide

theorem Counted.playerCount_eq (h : group.Counted) :
    group.playerCount = ((List.range 16).filter group.has).length := by
  have hplayers : group.players = (List.range 16).map group.has := by
    refine List.ext_getElem (by simp [h.length_eq]) fun k hk hk' => ?_
    rw [List.getElem_map, List.getElem_range]
    exact (getD_of_lt hk).symm
  rw [h.count_eq, hplayers, List.count, List.countP_map, List.countP_eq_length_filter]
  exact congrArg (fun p => ((List.range 16).filter p).length) (funext fun i => beq_true _)

/-- The teams are as many as the players when nobody shares a team. -/
theorem countTeam_eq_playerCount_iff (h : group.Counted) :
    group.countTeam playerTeam = group.playerCount ↔
      ∀ i < 16, ∀ j < 16, group.has i = true → group.has j = true →
        playerTeam i = playerTeam j → i = j := by
  have hnodup : ((List.range 16).filter group.has).Nodup := List.nodup_range.filter _
  have hsub := List.dedup_sublist (((List.range 16).filter group.has).map playerTeam)
  rw [h.playerCount_eq, countTeam]
  calc (((List.range 16).filter group.has).map playerTeam).dedup.length =
        ((List.range 16).filter group.has).length
      ↔ (((List.range 16).filter group.has).map playerTeam).Nodup := by
        rw [← List.dedup_eq_self, ← List.length_map (f := playerTeam)]
        exact ⟨hsub.eq_of_length, congrArg List.length⟩
    _ ↔ _ := by
        rw [List.nodup_map_iff_inj_on hnodup]
        simp only [List.mem_filter, List.mem_range]
        exact ⟨fun hinj i hi j hj hgi hgj => hinj i ⟨hi, hgi⟩ j ⟨hj, hgj⟩,
          fun hinj i hi j hj => hinj i hi.1 j hj.1 hi.2 hj.2⟩

/-- The place of a player is the number of the players before it. -/
theorem positionFrom_eq (inPlayer : ℕ) (pos : ℤ) (pre post : List ℕ) (hpre : inPlayer ∉ pre)
    (hhas : group.has inPlayer = true) :
    positionFrom group inPlayer pos (pre ++ inPlayer :: post) =
      pos + (pre.countP group.has : ℕ) := by
  induction pre generalizing pos with
  | nil => simp [positionFrom, hhas]
  | cons i pre ih =>
    rw [List.mem_cons, not_or] at hpre
    rw [List.cons_append, positionFrom]
    split_ifs with hi hip
    · exact absurd hip.symm hpre.1
    · rw [ih _ hpre.2, List.countP_cons_of_pos hi]
      push_cast
      omega
    · rw [ih _ hpre.2, List.countP_cons_of_neg hi]

theorem positionFrom_of_not_mem (inPlayer : ℕ) (pos : ℤ) (is : List ℕ)
    (hno : ∀ i ∈ is, group.has i = true → i ≠ inPlayer) :
    positionFrom group inPlayer pos is = -1 := by
  induction is generalizing pos with
  | nil => rfl
  | cons i is ih =>
    rw [List.forall_mem_cons] at hno
    rw [positionFrom]
    split_ifs with hi hip
    · exact absurd hip (hno.1 hi)
    · exact ih _ hno.2
    · exact ih _ hno.2

theorem position_eq {inPlayer : ℕ} (hlt : inPlayer < 16) : group.position inPlayer =
    if group.has inPlayer then (((List.range inPlayer).countP group.has : ℕ) : ℤ) else -1 := by
  unfold position
  split_ifs with hhas
  · have hrange : List.range 16 =
        List.range inPlayer ++ inPlayer :: (List.range' (inPlayer + 1) (15 - inPlayer)) := by
      have happ := List.range'_append_1 (s := 0) (m := inPlayer) (n := 15 - inPlayer + 1)
      rw [Nat.zero_add, List.range'_succ, show inPlayer + (15 - inPlayer + 1) = 16 by omega] at happ
      rw [List.range_eq_range', List.range_eq_range', happ]
    rw [hrange, positionFrom_eq _ _ _ _ (by simp) hhas, Int.zero_add]
  · exact positionFrom_of_not_mem _ _ _ fun i _ hi hip => hhas (hip ▸ hi)

end

end PlayerGroup

/-! ## The units of the players of a filter -/

namespace GameUnits

open UnitGroup

variable {B : SearchTree.Balancing UnitHandle} {game : GameUnits} {unit : UnitHandle}
  {units : List UnitHandle} {g : UnitGroup} {maxCount : ℕ}

/-- The loop adds the first matched units, as many as there may be. -/
theorem addMatched_limit (p : UnitHandle → Bool) (hmax : maxCount ≠ 0) (units : List UnitHandle)
    {count : ℕ} (hcount : count < maxCount) (g : UnitGroup) :
    addMatched B p maxCount units count g =
      g.addAll B ((units.filter p).take (maxCount - count)) := by
  induction units generalizing count g with
  | nil => simp [addMatched, UnitGroup.addAll]
  | cons u units ih =>
    unfold addMatched
    cases hp : p u with
    | false =>
      rw [List.filter_cons_of_neg (by simp [hp])]
      exact ih hcount g
    | true =>
      obtain ⟨k, hk⟩ : ∃ k, maxCount - count = k + 1 := ⟨maxCount - count - 1, by omega⟩
      rw [List.filter_cons_of_pos hp, hk, List.take_succ_cons]
      by_cases hlast : maxCount ≤ count + 1
      · have hzero : k = 0 := by omega
        simp [hmax, hcount, hlast, hzero, UnitGroup.addAll]
      · have hrest := ih (show count + 1 < maxCount by omega) (g.add B (some u))
        rw [show maxCount - (count + 1) = k by omega] at hrest
        simp [hcount, hlast, hrest, UnitGroup.addAll]

/-- The tests, when the owners are those of a filter: if no player passes the filter, any owner
does. -/
def Wanted (game : GameUnits) (inUnitTypeId : BitVec 32) (filter : UnitFilter.PlayerFilter)
    (inRegion : Option (UnitHandle → Bool)) (inUnitFilter : UnitFilter) (u : UnitHandle) : Prop :=
  (inUnitTypeId = 0 ∨ game.getUnitTypeId u = inUnitTypeId) ∧
  (UnitFilter.playerFilterMatch game.players (game.answers u).owner filter = true ∨
    ∀ i < 16, UnitFilter.playerFilterMatch game.players (BitVec.ofNat 32 i) filter = false) ∧
  (∀ hasPoint ∈ inRegion, hasPoint u = true) ∧
  (inUnitFilter = UnitFilter.empty ∨
    UnitFilter.filterMatch game.players (game.answers u) inUnitFilter = true)

variable {inUnitTypeId : BitVec 32} {filter : UnitFilter.PlayerFilter}
  {inRegion : Option (UnitHandle → Bool)} {inUnitFilter : UnitFilter}

theorem isMatched_ofFilter (howner : (game.answers unit).owner.toNat < 16) :
    game.isMatched inUnitTypeId (PlayerGroup.ofFilter game.players filter) inRegion inUnitFilter
      unit = true ↔ game.Wanted inUnitTypeId filter inRegion inUnitFilter unit := by
  have hcounted := PlayerGroup.counted_ofFilter game.players filter
  have hzero : (PlayerGroup.ofFilter game.players filter).playerCount = 0 ↔
      ∀ i < 16, UnitFilter.playerFilterMatch game.players (BitVec.ofNat 32 i) filter = false := by
    rw [hcounted.count_eq_zero_iff]
    refine forall_congr' fun i => ?_
    rw [← Bool.not_eq_true, PlayerGroup.has_ofFilter, not_and, Bool.not_eq_true]
  have hhas : (PlayerGroup.ofFilter game.players filter).has (game.answers unit).owner.toNat =
      true ↔ UnitFilter.playerFilterMatch game.players (game.answers unit).owner filter = true := by
    rw [PlayerGroup.has_ofFilter, BitVec.ofNat_toNat, BitVec.setWidth_eq]
    exact and_iff_right howner
  unfold isMatched Wanted
  simp only [Bool.and_eq_true, Bool.or_eq_true, beq_iff_eq, hzero, hhas, Option.all_eq_true,
    and_assoc, eq_comm (a := inUnitTypeId) (b := game.getUnitTypeId unit)]
  rw [or_comm (a := ∀ i < 16, _)]
  exact Iff.rfl

/-- The units that `GroupUnits` takes its members from. -/
def sourceUnits (game : GameUnits) : Option UnitGroup → List UnitHandle
  | none => game.unitGrabAll
  | some fromGroup => fromGroup.members

/-- The first `maxCount` units, where 0 is no limit. -/
def limited (maxCount : ℕ) (units : List UnitHandle) : List UnitHandle :=
  if maxCount = 0 then units else units.take maxCount

open Classical in
/-- The group holds the wanted units, and with a limit the first ones of these, in the order of the
priorities. -/
theorem mem_groupUnits_ofFilter (fromGroup : Option UnitGroup)
    (howner : ∀ u ∈ game.sourceUnits fromGroup, (game.answers u).owner.toNat < 16) :
    game.InOrder (game.groupUnits B fromGroup inUnitTypeId
      (PlayerGroup.ofFilter game.players filter) inRegion inUnitFilter maxCount) ∧
    ∀ u, u ∈ (game.groupUnits B fromGroup inUnitTypeId
        (PlayerGroup.ofFilter game.players filter) inRegion inUnitFilter maxCount).members ↔
      u ∈ limited maxCount ((game.sourceUnits fromGroup).filter
        (game.Wanted inUnitTypeId filter inRegion inUnitFilter)) := by
  have hfilter : (game.sourceUnits fromGroup).filter (game.isMatched inUnitTypeId
      (PlayerGroup.ofFilter game.players filter) inRegion inUnitFilter) =
        (game.sourceUnits fromGroup).filter
          (game.Wanted inUnitTypeId filter inRegion inUnitFilter) := by
    refine List.filter_congr fun u hu => Bool.eq_iff_iff.mpr ?_
    rw [isMatched_ofFilter (howner u hu), decide_eq_true_iff]
  have hgroup : game.groupUnits B fromGroup inUnitTypeId
      (PlayerGroup.ofFilter game.players filter) inRegion inUnitFilter maxCount =
        (new game.priorities).addAll B (limited maxCount ((game.sourceUnits fromGroup).filter
          (game.Wanted inUnitTypeId filter inRegion inUnitFilter))) := by
    have hunits : game.groupUnits B fromGroup inUnitTypeId
        (PlayerGroup.ofFilter game.players filter) inRegion inUnitFilter maxCount =
          addMatched B (game.isMatched inUnitTypeId (PlayerGroup.ofFilter game.players filter)
            inRegion inUnitFilter) maxCount (game.sourceUnits fromGroup) 0
              (new game.priorities) := by
      cases fromGroup <;> rfl
    rw [hunits, ← hfilter, limited]
    split_ifs with hmax
    · rw [hmax, addMatched_eq]
    · rw [addMatched_limit _ hmax _ (Nat.pos_of_ne_zero hmax), Nat.sub_zero]
  rw [hgroup]
  refine ⟨inOrder_new.addAll _, fun u => ?_⟩
  rw [inOrder_new.mem_addAll]
  exact or_iff_left List.not_mem_nil

/-- Units with the numbers of their owners. -/
def ownedUnits : GameUnits where
  priorities _ := none
  players := UnitFilter.plainPlayers
  answers unit := { UnitFilter.plainUnit with owner := BitVec.ofNat 32 unit }
  getUnitTypeId _ := 0x68666F6F
  upgradeTypeId _ := none
  getPlayerTechCount _ _ := 1
  unitGrabAll := [1, 2, 3]

theorem wanted_observers (u : UnitHandle) : ownedUnits.Wanted 0
    ⟨1 <<< 19, 0, UnitFilter.playerAny⟩ none UnitFilter.empty u :=
  ⟨.inl rfl, .inr (by decide), nofun, .inl rfl⟩

open Classical in
/-- There are no observers, so the units of observers are all units; the first two are taken. -/
theorem mem_groupUnits_observers :
    let units := ownedUnits.groupUnits SearchTree.unbalanced none 0
      (PlayerGroup.ofFilter UnitFilter.plainPlayers ⟨1 <<< 19, 0, UnitFilter.playerAny⟩) none
      UnitFilter.empty 2
    2 ∈ units.members ∧ 3 ∉ units.members := by
  intro units
  have howner : ∀ u ∈ ownedUnits.sourceUnits none, (ownedUnits.answers u).owner.toNat < 16 := by
    intro u hu
    have hu : u ∈ [1, 2, 3] := hu
    fin_cases hu <;> decide
  have hmem : ∀ u, u ∈ units.members ↔ u ∈ limited 2 (([1, 2, 3] : List UnitHandle).filter
      (ownedUnits.Wanted 0 ⟨1 <<< 19, 0, UnitFilter.playerAny⟩ none UnitFilter.empty)) :=
    (mem_groupUnits_ofFilter none howner).2
  have hall : ([1, 2, 3] : List UnitHandle).filter (ownedUnits.Wanted 0
      ⟨1 <<< 19, 0, UnitFilter.playerAny⟩ none UnitFilter.empty) = [1, 2, 3] :=
    List.filter_eq_self.mpr fun u _ => decide_eq_true (wanted_observers u)
  rw [hmem, hmem, hall]
  exact ⟨by decide, by decide⟩

end GameUnits

end DreamDota
