import DreamDota.Lib.Climb
import Mathlib.Data.Finset.Lattice.Fold
import Mathlib.Data.Fintype.EquivFin

/-!
# The ancestors of an agent type

`AgentHasAncestor` of `Tools.cpp` climbs from a type to its parent until it comes to the ancestor or
to a type without a parent, and keeps the answers of all calls.

The game's table of the agent types is a parameter. Its other data are left out.

1. `walk_iff`: a climb that ends has found the ancestor if and only if it is reached.
2. `exists_walk`: with fuel enough, every climb in a table without cycles ends.
3. `Sound.agentHasAncestor`: the answers that are kept are those of the climb.
4. `agentHasAncestor_iff`: the answer after any calls.
-/

namespace DreamDota

namespace AgentAncestor

open Relation Climb

/-! ## The code -/

/-- The `parent_id` of the data that `GetAgentAgileTypeData` finds for a type. -/
abbrev ParentTable : Type := BitVec 32 → Option (BitVec 32)

/-- `AgentAncestorData`. -/
abbrev AncestorData : Type := BitVec 32 × BitVec 32 → Option Bool

/-- The loop, which has no bound in the source. -/
def walk (table : ParentTable) (ancestor_id : BitVec 32) : ℕ → BitVec 32 → Option Bool
  | 0, _ => none
  | fuel + 1, agent_id =>
    match table agent_id with
    | some parent_id =>
      if agent_id ≠ parent_id then
        if parent_id = ancestor_id then some true
        else walk table ancestor_id fuel parent_id
      else some false
    | none => some false

/-- `AgentHasAncestor`. -/
def agentHasAncestor (table : ParentTable) (fuel : ℕ) (data : AncestorData)
    (agent_id ancestor_id : BitVec 32) : Option (Bool × AncestorData) :=
  if agent_id = ancestor_id then some (true, data)
  else
    match data (agent_id, ancestor_id) with
    | some answer => some (answer, data)
    | none => (walk table ancestor_id fuel agent_id).map fun answer =>
      (answer, Function.update data (agent_id, ancestor_id) (some answer))

/-- What is kept after a sequence of calls. -/
def afterCalls (table : ParentTable) (fuel : ℕ) :
    List (BitVec 32 × BitVec 32) → AncestorData → Option AncestorData
  | [], data => some data
  | call :: calls, data =>
    (agentHasAncestor table fuel data call.1 call.2).bind fun r => afterCalls table fuel calls r.2

/-- The function without what is kept. -/
def computeAncestor (table : ParentTable) (fuel : ℕ) (agent_id ancestor_id : BitVec 32) :
    Option Bool :=
  if agent_id = ancestor_id then some true else walk table ancestor_id fuel agent_id

theorem finite_int : Finite (BitVec 32) :=
  Finite.of_injective BitVec.toFin fun _ _ => BitVec.eq_of_toFin_eq

section Walk

variable {table : ParentTable} {agent_id ancestor_id : BitVec 32} {fuel n : ℕ} {answer : Bool}
  {data data' : AncestorData} {calls : List (BitVec 32 × BitVec 32)}

/-- A climb that ends has found the ancestor if and only if it is reached. -/
theorem walk_iff (hne : agent_id ≠ ancestor_id)
    (h : walk table ancestor_id fuel agent_id = some answer) :
    answer = true ↔ ReflTransGen (Step table) agent_id ancestor_id := by
  induction fuel generalizing agent_id with
  | zero => cases h
  | succ fuel ih =>
    rw [walk] at h
    split at h
    next parent_id hparent =>
      by_cases hself : agent_id = parent_id
      · -- a root that is its own parent
        rw [if_neg (not_not_intro hself)] at h
        refine iff_of_false (by rw [← Option.some.inj h]; decide) fun hreach => hne ?_
        refine reaches_of_stop (fun b hb => hb.2 ?_) hreach
        rw [hself]
        exact Option.some.inj ((hself ▸ hparent).symm.trans (hself ▸ hb.1))
      · have hmove : Move table agent_id parent_id := ⟨hparent, hself⟩
        rw [if_pos hself] at h
        rw [hmove.reaches_iff, or_iff_right hne]
        split_ifs at h with hfound
        · rw [hfound]
          exact iff_of_true (Option.some.inj h).symm .refl
        · exact ih hfound h
    next hnone =>
      -- a root without an entry
      refine iff_of_false (by rw [← Option.some.inj h]; decide) fun hreach => hne ?_
      exact reaches_of_stop (fun b hb => by rw [hb.1] at hnone; cases hnone) hreach

/-- From every type the climb ends. -/
theorem exists_walk_of (h : Acyclic table) (agent_id : BitVec 32) : ∃ n, ∀ fuel ≥ n,
    ∀ ancestor_id, ∃ answer, walk table ancestor_id fuel agent_id = some answer := by
  have := finite_int
  induction agent_id using h.wellFounded.induction with
  | _ agent_id ih =>
    cases hparent : table agent_id with
    | none =>
      refine ⟨1, fun fuel hfuel ancestor_id => ⟨false, ?_⟩⟩
      obtain ⟨fuel, rfl⟩ := Nat.exists_eq_add_of_le' hfuel
      rw [walk, hparent]
    | some parent_id =>
      by_cases hself : agent_id = parent_id
      · refine ⟨1, fun fuel hfuel ancestor_id => ⟨false, ?_⟩⟩
        obtain ⟨fuel, rfl⟩ := Nat.exists_eq_add_of_le' hfuel
        rw [walk, hparent]
        exact if_neg (not_not_intro hself)
      · obtain ⟨n, hn⟩ := ih parent_id ⟨hparent, hself⟩
        refine ⟨n + 1, fun fuel hfuel ancestor_id => ?_⟩
        obtain ⟨fuel, rfl⟩ := Nat.exists_eq_add_of_le' (Nat.le_of_add_left_le hfuel)
        obtain ⟨answer, hanswer⟩ := hn fuel (by omega) ancestor_id
        rw [walk, hparent]
        simp only [ne_eq, hself, not_false_eq_true, if_true]
        split_ifs
        · exact ⟨true, rfl⟩
        · exact ⟨answer, hanswer⟩

/-- There is fuel enough for all climbs. -/
theorem exists_walk (h : Acyclic table) : ∃ n, ∀ fuel ≥ n, ∀ agent_id ancestor_id,
    ∃ answer, walk table ancestor_id fuel agent_id = some answer := by
  have := finite_int
  have := Fintype.ofFinite (BitVec 32)
  choose n hn using exists_walk_of h
  refine ⟨Finset.univ.sup n, fun fuel hfuel agent_id => hn agent_id fuel ?_⟩
  exact (Finset.le_sup (Finset.mem_univ agent_id)).trans hfuel

/-- What is kept are answers of the climb. -/
def Sound (table : ParentTable) (fuel : ℕ) (data : AncestorData) : Prop :=
  ∀ agent_id ancestor_id answer, data (agent_id, ancestor_id) = some answer →
    computeAncestor table fuel agent_id ancestor_id = some answer

theorem sound_empty : Sound table fuel fun _ => none := fun _ _ _ h => nomatch h

/-- A call gives the answer of the climb, and keeps no other. -/
theorem Sound.agentHasAncestor (hsound : Sound table fuel data)
    (hcompute : computeAncestor table fuel agent_id ancestor_id = some answer) :
    ∃ data', agentHasAncestor table fuel data agent_id ancestor_id = some (answer, data') ∧
      Sound table fuel data' := by
  unfold AgentAncestor.agentHasAncestor
  by_cases heq : agent_id = ancestor_id
  · rw [computeAncestor, if_pos heq] at hcompute
    exact ⟨data, by rw [if_pos heq, Option.some.inj hcompute], hsound⟩
  · rw [if_neg heq]
    cases hdata : data (agent_id, ancestor_id) with
    | some kept =>
      have hkept := hsound _ _ _ hdata
      exact ⟨data, by rw [Option.some.inj (hkept.symm.trans hcompute)], hsound⟩
    | none =>
      have hwalk : walk table ancestor_id fuel agent_id = some answer := by
        rw [← hcompute, computeAncestor, if_neg heq]
      refine ⟨_, by rw [hwalk]; rfl, fun a b answer' h' => ?_⟩
      by_cases hkey : (a, b) = (agent_id, ancestor_id)
      · obtain ⟨rfl, rfl⟩ := Prod.mk.inj hkey
        rw [Function.update_self] at h'
        rw [hcompute, h']
      · rw [Function.update_of_ne hkey] at h'
        exact hsound a b answer' h'

/-- With fuel enough, all calls end. -/
theorem Sound.afterCalls (calls : List (BitVec 32 × BitVec 32)) (hfuel : ∀ agent_id ancestor_id,
      ∃ answer, computeAncestor table fuel agent_id ancestor_id = some answer)
    (hsound : Sound table fuel data) :
    ∃ data', afterCalls table fuel calls data = some data' ∧ Sound table fuel data' := by
  induction calls generalizing data with
  | nil => exact ⟨data, rfl, hsound⟩
  | cons call calls ih =>
    obtain ⟨answer, hcompute⟩ := hfuel call.1 call.2
    obtain ⟨data₁, hcall, hsound₁⟩ := hsound.agentHasAncestor hcompute
    obtain ⟨data', hrest, hsound'⟩ := ih hsound₁
    exact ⟨data', by rw [AgentAncestor.afterCalls, hcall]; exact hrest, hsound'⟩

/-- **Agent ancestry.** In a table without cycles every call ends, whatever was called before, with
the answer that is computed without the kept ones: whether the ancestor is reached by parent
steps. -/
theorem agentHasAncestor_iff (h : Acyclic table) : ∃ n, ∀ fuel ≥ n, ∀ calls agent_id ancestor_id,
    ∃ data answer data', afterCalls table fuel calls (fun _ => none) = some data ∧
      agentHasAncestor table fuel data agent_id ancestor_id = some (answer, data') ∧
      computeAncestor table fuel agent_id ancestor_id = some answer ∧
      (answer = true ↔ ReflTransGen (Step table) agent_id ancestor_id) := by
  obtain ⟨n, hn⟩ := exists_walk h
  refine ⟨n, fun fuel hfuel calls agent_id ancestor_id => ?_⟩
  have hcompute (agent_id ancestor_id : BitVec 32) :
      ∃ answer, computeAncestor table fuel agent_id ancestor_id = some answer ∧
        (answer = true ↔ ReflTransGen (Step table) agent_id ancestor_id) := by
    unfold computeAncestor
    split_ifs with heq
    · exact ⟨true, rfl, iff_of_true rfl (heq ▸ .refl)⟩
    · obtain ⟨answer, hwalk⟩ := hn fuel hfuel agent_id ancestor_id
      exact ⟨answer, hwalk, walk_iff heq hwalk⟩
  obtain ⟨data, hcalls, hsound⟩ := sound_empty.afterCalls calls
    fun agent_id ancestor_id => (hcompute agent_id ancestor_id).imp fun _ => And.left
  obtain ⟨answer, hanswer, hiff⟩ := hcompute agent_id ancestor_id
  obtain ⟨data', hcall, -⟩ := hsound.agentHasAncestor hanswer
  exact ⟨data, answer, data', hcalls, hcall, hanswer, hiff⟩

end Walk

/-- A table with the types 3, 2 and 1, of which the last is its own parent. -/
def threeTypes : ParentTable := fun agent_id =>
  if agent_id = 3 then some 2
  else if agent_id = 2 then some 1
  else if agent_id = 1 then some 1
  else none

theorem acyclic_threeTypes : Acyclic threeTypes := by
  have hmove {a b : BitVec 32} (h : Move threeTypes a b) : b.toNat < a.toNat := by
    obtain ⟨hstep, hne⟩ := h
    unfold threeTypes at hstep
    split_ifs at hstep with h3 h2 h1
    · rw [h3, ← Option.some.inj hstep]
      decide
    · rw [h2, ← Option.some.inj hstep]
      decide
    · exact absurd (h1.trans (Option.some.inj hstep)) hne
  have hlt {a b : BitVec 32} (h : TransGen (Move threeTypes) a b) : b.toNat < a.toNat := by
    induction h with
    | single h => exact hmove h
    | tail _ h ih => exact (hmove h).trans ih
  exact fun a h => (hlt h).false

/-- The type 3 has the ancestor 1, after a call for another ancestor. -/
theorem agentHasAncestor_threeTypes : ∃ fuel data data',
    afterCalls threeTypes fuel [(3, 4), (2, 1)] (fun _ => none) = some data ∧
    agentHasAncestor threeTypes fuel data 3 1 = some (true, data') := by
  obtain ⟨n, hn⟩ := agentHasAncestor_iff acyclic_threeTypes
  obtain ⟨data, answer, data', hcalls, hcall, -, hiff⟩ := hn n le_rfl [(3, 4), (2, 1)] 3 1
  have htrue : answer = true :=
    hiff.mpr (.head (b := 2) (by unfold Step; decide) (.single (by unfold Step; decide)))
  exact ⟨n, data, data', hcalls, htrue ▸ hcall⟩

end AgentAncestor

end DreamDota
