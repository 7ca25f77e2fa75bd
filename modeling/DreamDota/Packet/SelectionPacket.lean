import DreamDota.Packet.Model
import DreamDota.Units.UnitGroup
import Mathlib.Data.List.Range

/-!
# The selection packet

`PacketSelectionSend` of `Packet.cpp`, down to the fields of `PacketSelection`, and
`UnitGroup::fillUnitObjectSet`, which builds the sets that a group hands to it. A set may contain the
null pointer, which the loop skips, and `objects` stands for the array and the memory behind it.

`written` is history: the indices that the loop has written to.

1. `fillObjects_spec`: the loop.
2. `selectionPacketOk_iff`: the sets whose packet is well formed.
3. `selectionPacketOk_group`: the groups whose packet is.
-/

namespace DreamDota

/-- The null pointer, as a unit object. -/
def nullUnit : UnitPtr := 0

/-- The length of `PacketSelection::objects`. -/
def maxObjects : ℕ := 12

structure PacketSelection where
  id : BitVec 8
  mode : BitVec 8
  count : BitVec 16
  objects : ℕ → HashGroup

/-- What `PacketSelectionSend` hands to `PacketSend`. -/
structure SelectionSend where
  packet : PacketSelection
  size : BitVec 32
  written : List ℕ

/-- The loop of `PacketSelectionSend`: the last `i`, `objects` and what was written. -/
def fillObjects (hash : UnitPtr → HashGroup) :
    List UnitPtr → ℕ → (ℕ → HashGroup) → ℕ × (ℕ → HashGroup) × List ℕ
  | [], i, objects => (i, objects, [])
  | lpUnit :: units, i, objects =>
    if lpUnit = nullUnit then fillObjects hash units i objects
    else
      let r := fillObjects hash units (i + 1) (Function.update objects i (hash lpUnit))
      (r.1, r.2.1, i :: r.2.2)

/-- `PacketSelectionSend`, up to `PacketSend`. The packet is not initialised, so `stack` is what its
array holds at first. -/
def packetSelectionSend (hash : UnitPtr → HashGroup) (stack : ℕ → HashGroup) (set : UnitSet)
    (select : Bool) : Option SelectionSend :=
  if set.toList.length > 0 then
    let r := fillObjects hash set.toList 0 stack
    some
      { packet :=
          { id := 0x16
            mode := if select then 1 else 2
            count := BitVec.ofNat 16 set.toList.length
            objects := r.2.1 }
        size := 4 + BitVec.ofNat 32 r.1 * 8
        written := r.2.2 }
  else none

/-- `UnitGetObject`. -/
def unitGetObject (gameUnitGetObject : UnitHandle → UnitPtr) (handle : UnitHandle) : UnitPtr :=
  if handle = 0 then nullUnit else gameUnitGetObject handle

/-- `UnitGroup::fillUnitObjectSet`, for a new set. -/
def UnitGroup.fillUnitObjectSet (gameUnitGetObject : UnitHandle → UnitPtr) (g : UnitGroup) :
    UnitSet :=
  (∅ : UnitSet).insertAll
    ((g.members.map (unitGetObject gameUnitGetObject)).filter (· ≠ nullUnit))

/-- The units of a set. -/
def unitsOf (set : UnitSet) : List UnitPtr := set.toList.filter (· ≠ nullUnit)

/-- The packet is well formed, and its hashes are those of the units of the set. -/
structure SelectionPacketOk (hash : UnitPtr → HashGroup) (set : UnitSet) (s : SelectionSend) :
    Prop where
  bounds : ∀ i ∈ s.written, i < maxObjects
  count : s.packet.count.toNat = s.written.length
  size : s.size.toNat = 4 + 8 * s.packet.count.toNat
  hashes : (List.range s.packet.count.toNat).map s.packet.objects = (unitsOf set).map hash

/-! ## The loop -/

section Loop

variable {hash : UnitPtr → HashGroup}

/-- The loop writes the hashes of the units, one after the other from `i` on. -/
theorem fillObjects_spec (units : List UnitPtr) (i : ℕ) (objects : ℕ → HashGroup) :
    let n := (units.filter (· ≠ nullUnit)).length
    let r := fillObjects hash units i objects
    r.1 = i + n ∧ r.2.2 = List.range' i n ∧
      (List.range' i n).map r.2.1 = (units.filter (· ≠ nullUnit)).map hash ∧
      ∀ j < i, r.2.1 j = objects j := by
  induction units generalizing i objects with
  | nil => exact ⟨rfl, rfl, rfl, fun _ _ => rfl⟩
  | cons u units ih =>
    by_cases hu : u = nullUnit
    · simp only [fillObjects, if_pos hu]
      rw [List.filter_cons_of_neg (by simpa using hu)]
      exact ih i objects
    · simp only [fillObjects, if_neg hu]
      rw [List.filter_cons_of_pos (by simpa using hu)]
      obtain ⟨hi, hw, hobj, hbelow⟩ := ih (i + 1) (Function.update objects i (hash u))
      refine ⟨?_, ?_, ?_, fun j hj => ?_⟩
      · rw [hi, List.length_cons]
        omega
      · rw [hw, List.length_cons, List.range'_succ]
      · rw [List.length_cons, List.range'_succ, List.map_cons, List.map_cons, hobj,
          hbelow i (Nat.lt_succ_self i), Function.update_self]
      · rw [hbelow j (Nat.lt_succ_of_lt hj), Function.update_of_ne hj.ne]

end Loop

/-! ## The packet -/

variable {hash : UnitPtr → HashGroup} {stack : ℕ → HashGroup} {set : UnitSet} {select : Bool}
  {s : SelectionSend}

/-- What is sent, in terms of the units of the set. -/
theorem packetSelectionSend_spec (h : packetSelectionSend hash stack set select = some s) :
    s.written = List.range (unitsOf set).length ∧
      s.packet.count = BitVec.ofNat 16 set.toList.length ∧
      s.size = 4 + BitVec.ofNat 32 (unitsOf set).length * 8 ∧
      (List.range (unitsOf set).length).map s.packet.objects = (unitsOf set).map hash ∧
      s.packet.mode = if select then 1 else 2 := by
  have hset : set.toList.length > 0 := by
    by_contra hn
    rw [packetSelectionSend, if_neg hn] at h
    cases h
  rw [packetSelectionSend, if_pos hset] at h
  obtain rfl := Option.some.inj h
  obtain ⟨hi, hw, hobj, -⟩ := @fillObjects_spec hash set.toList 0 stack
  rw [Nat.zero_add] at hi
  rw [← List.range_eq_range'] at hw hobj
  refine ⟨hw, rfl, ?_, hobj, rfl⟩
  rw [hi]
  rfl

theorem length_unitsOf (set : UnitSet) :
    (unitsOf set).length + (if nullUnit ∈ set then 1 else 0) = set.toList.length := by
  have hcount : set.toList.count nullUnit = if nullUnit ∈ set then 1 else 0 :=
    List.Nodup.count (set.sorted.imp ne_of_lt)
  rw [← hcount, unitsOf, ← List.countP_eq_length_filter, List.count]
  have hsplit := List.length_eq_countP_add_countP (fun u => u == nullUnit) (l := set.toList)
  rw [hsplit, Nat.add_comm]
  congr 1
  refine List.countP_congr fun u _ => ?_
  simp

theorem packetSelectionSend_eq_none_iff :
    packetSelectionSend hash stack set select = none ↔ set.toList = [] := by
  by_cases h : set.toList.length > 0
  · rw [packetSelectionSend, if_pos h]
    exact iff_of_false (fun hn => by cases hn) (List.ne_nil_of_length_pos h)
  · rw [packetSelectionSend, if_neg h]
    exact iff_of_true rfl (List.length_eq_zero_iff.mp (Nat.eq_zero_of_not_pos h))

/-- **The selection packet.** Every packet that is sent for a set is well formed, with the hashes of
the units of the set, if and only if the set has at most 12 elements and the null pointer is not one
of them. -/
theorem selectionPacketOk_iff (hash : UnitPtr → HashGroup) (stack : ℕ → HashGroup) (set : UnitSet)
    (select : Bool) :
    (∀ s, packetSelectionSend hash stack set select = some s → SelectionPacketOk hash set s) ↔
      set.toList.length ≤ maxObjects ∧ nullUnit ∉ set := by
  have hlen := length_unitsOf set
  constructor
  · intro h
    cases hs : packetSelectionSend hash stack set select with
    | none =>
      have hempty := packetSelectionSend_eq_none_iff.mp hs
      exact ⟨by rw [hempty]; exact Nat.zero_le _, by rw [OrdSet.mem_def, hempty]; simp⟩
    | some s =>
      obtain ⟨hw, hc, -⟩ := packetSelectionSend_spec hs
      have hok := h s hs
      have hn : (unitsOf set).length ≤ maxObjects := by
        by_contra hlt
        refine absurd (hok.bounds maxObjects ?_) (Nat.lt_irrefl _)
        rw [hw]
        exact List.mem_range.mpr (Nat.lt_of_not_le hlt)
      have hcount := hok.count
      rw [hc, hw, List.length_range, BitVec.toNat_ofNat] at hcount
      unfold maxObjects at *
      -- a null pointer would be counted and not written
      split_ifs at hlen with hnull
      · omega
      · exact ⟨by omega, hnull⟩
  · rintro ⟨hle, hnull⟩ s hs
    obtain ⟨hw, hc, hsize, hobj, -⟩ := packetSelectionSend_spec hs
    rw [if_neg hnull] at hlen
    unfold maxObjects at hle
    have hcount : s.packet.count.toNat = (unitsOf set).length := by
      rw [hc, BitVec.toNat_ofNat]
      omega
    refine ⟨fun i hi => ?_, ?_, ?_, ?_⟩
    · rw [hw, List.mem_range] at hi
      unfold maxObjects
      omega
    · rw [hcount, hw, List.length_range]
    · rw [hcount, hsize, BitVec.toNat_add, BitVec.toNat_mul, BitVec.toNat_ofNat]
      simp only [BitVec.reduceToNat]
      omega
    · rw [hcount]
      exact hobj

/-- A packet that is well formed is the one that the model of the packets sends. -/
theorem selectionPacket_eq (G : Game) (hs : packetSelectionSend G.hash stack set select = some s)
    (hok : SelectionPacketOk G.hash set s) (hnull : nullUnit ∉ set) :
    Packet.selection (if s.packet.mode = 1 then .select else .deselect) s.packet.count.toNat
        ((List.range s.packet.count.toNat).map s.packet.objects) =
      selectionPacket G set select := by
  obtain ⟨hw, -, -, -, hmode⟩ := packetSelectionSend_spec hs
  have hmode' : (if s.packet.mode = 1 then SelectionMode.select else .deselect) =
      if select then .select else .deselect := by
    rw [hmode]
    cases select <;> rfl
  have hunits : unitsOf set = set.toList := by
    refine List.filter_eq_self.mpr fun u hu => ?_
    simpa using fun h : u = nullUnit => hnull (OrdSet.mem_def.mpr (h ▸ hu))
  rw [hmode', hok.hashes, hok.count, hw, List.length_range, hunits]
  rfl

/-! ## The sets of a group -/

/-- The set that a group hands over does not contain the null pointer. -/
theorem nullUnit_notMem_fill (gameUnitGetObject : UnitHandle → UnitPtr) (g : UnitGroup) :
    nullUnit ∉ g.fillUnitObjectSet gameUnitGetObject := by
  rw [UnitGroup.fillUnitObjectSet, OrdSet.mem_insertAll]
  rintro (h | h)
  · exact OrdSet.notMem_empty _ h
  · simpa using (List.mem_filter.mp h).2

/-- A group's packet is well formed if and only if at most 12 unit objects belong to its members. -/
theorem selectionPacketOk_group (hash : UnitPtr → HashGroup) (stack : ℕ → HashGroup)
    (gameUnitGetObject : UnitHandle → UnitPtr) (g : UnitGroup) (select : Bool) :
    (∀ s, packetSelectionSend hash stack (g.fillUnitObjectSet gameUnitGetObject) select = some s →
        SelectionPacketOk hash (g.fillUnitObjectSet gameUnitGetObject) s) ↔
      (g.fillUnitObjectSet gameUnitGetObject).toList.length ≤ maxObjects := by
  rw [selectionPacketOk_iff]
  exact and_iff_left (nullUnit_notMem_fill gameUnitGetObject g)

/-- A group of 13 units. -/
def thirteenUnits : UnitGroup :=
  ⟨SearchTree.spine [1, 2, 3, 4, 5, 6, 7, 8, 9, 10, 11, 12, 13], fun _ => some 0⟩

/-- Its set is handed over by an action, and the packet overruns the array. -/
theorem packet_overrun :
    (∃ s, packetSelectionSend id (fun _ => 0) (thirteenUnits.fillUnitObjectSet id) true = some s ∧
        maxObjects ∈ s.written ∧
        ¬ SelectionPacketOk id (thirteenUnits.fillUnitObjectSet id) s) ∧
      PacketInstr.selectionSend (thirteenUnits.fillUnitObjectSet id) true ∈
        ((PacketCall.sendAction thirteenUnits.size (thirteenUnits.fillUnitObjectSet id)
          (.action ⟨0, 0, 0⟩) true true).exec plainGame PacketState.init.core).1 := by
  constructor
  · obtain ⟨s, hs⟩ : ∃ s, packetSelectionSend id (fun _ => 0)
        (thirteenUnits.fillUnitObjectSet id) true = some s := ⟨_, rfl⟩
    have hm : maxObjects ∈ s.written := by
      rw [(packetSelectionSend_spec hs).1]
      decide
    exact ⟨s, hs, hm, fun hok => absurd (hok.bounds _ hm) (Nat.lt_irrefl _)⟩
  · decide

end DreamDota
