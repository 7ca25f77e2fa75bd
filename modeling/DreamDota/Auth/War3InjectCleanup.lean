import DreamDota.Auth.War3Inject
import Mathlib.Tactic.Abel

/-!
# Calls of `War3Inject`, and one of `War3InjectCleanup`

1. `prepare_state`: what a call does to the context. The two addresses are slots that later calls
   overwrite.
2. `run_spec`: the context and the blocks after any number of calls.
3. `freed_iff`: the calls after which the cleanup frees everything.
4. `remoteSetup_iff`: this and the pointer of the device.
-/

namespace DreamDota

namespace Injection

open Bytes

/-! ## One call -/

variable {P : Type} {image : Image} {a : Attempt P} {s : State P}

/-- What a call does to `mem_shellcode`. -/
def Attempt.touchShellcode (a : Attempt P) : Option (Option (P × Address)) :=
  a.remoteNtdll.map fun _ => a.shellcode.map (a.process, ·)

/-- What a call does to `mem_vtable`. -/
def Attempt.touchVtable (image : Image) (a : Attempt P) : Option (Option (P × Address)) :=
  (a.placed image).map fun _ => a.vtable.map (a.process, ·)

/-- A slot of the context after a call. -/
def touched (slot : Option Address) (touch : Option (Option (P × Address))) : Option Address :=
  (touch.map (Option.map Prod.snd)).getD slot

theorem placeShellcode_state (image : Image) (a : Attempt P) (s : State P) :
    (placeShellcode image a s).state.ctx.process = a.process ∧
    (placeShellcode image a s).state.ctx.memShellcode =
      touched s.ctx.memShellcode a.touchShellcode ∧
    (placeShellcode image a s).state.ctx.memVtable = s.ctx.memVtable ∧
    (placeShellcode image a s).state.ledger =
      a.touchShellcode.join.toList.foldl Ledger.take s.ledger := by
  unfold placeShellcode Attempt.touchShellcode
  cases a.remoteNtdll with
  | none => exact ⟨rfl, rfl, rfl, rfl⟩
  | some remoteNtdll =>
    cases a.shellcode with
    | none => exact ⟨rfl, rfl, rfl, rfl⟩
    | some mem =>
      dsimp only
      split_ifs <;> exact ⟨rfl, rfl, rfl, rfl⟩

theorem placeVtable_state (mem : Address) (ram : Ram) :
    (placeVtable a mem ram s).state.ctx.process = s.ctx.process ∧
    (placeVtable a mem ram s).state.ctx.memShellcode = s.ctx.memShellcode ∧
    (placeVtable a mem ram s).state.ctx.memVtable = a.vtable ∧
    (placeVtable a mem ram s).state.ledger =
      (a.vtable.map (a.process, ·)).toList.foldl Ledger.take s.ledger := by
  unfold placeVtable
  cases a.vtable with
  | none => exact ⟨rfl, rfl, rfl, rfl⟩
  | some memVtable =>
    dsimp only
    split_ifs <;> exact ⟨rfl, rfl, rfl, rfl⟩

/-- What a call leaves in the context, and what it allocates. -/
structure Touched (image : Image) (a : Attempt P) (s s' : State P) : Prop where
  process : s'.ctx.process = a.process
  memShellcode : s'.ctx.memShellcode = touched s.ctx.memShellcode a.touchShellcode
  memVtable : s'.ctx.memVtable = touched s.ctx.memVtable (a.touchVtable image)
  ledger : s'.ledger = (a.touchShellcode.join.toList ++ (a.touchVtable image).join.toList).foldl
    Ledger.take s.ledger

theorem prepare_state (image : Image) (a : Attempt P) (s : State P) :
    Touched image a s (prepare image a s).state := by
  obtain ⟨hprocess, hshellcode, hvtable, hledger⟩ := placeShellcode_state image a s
  have haddr : (placeShellcode image a s).addr = a.placed image := placeShellcode_addr
  cases hplaced : a.placed image with
  | none =>
    have htouch : a.touchVtable image = none := by
      rw [Attempt.touchVtable, hplaced]
      rfl
    have hprepare : prepare image a s = placeShellcode image a s := by
      unfold prepare
      dsimp only
      rw [haddr, hplaced]
    rw [hprepare]
    refine ⟨hprocess, hshellcode, ?_, ?_⟩
    · rw [hvtable, htouch]
      rfl
    · rw [hledger, htouch]
      show _ = (a.touchShellcode.join.toList ++ []).foldl Ledger.take s.ledger
      rw [List.append_nil]
  | some mem =>
    have htouch : a.touchVtable image = some (a.vtable.map (a.process, ·)) := by
      rw [Attempt.touchVtable, hplaced]
      rfl
    have hprepare : prepare image a s =
        placeVtable a mem (placeShellcode image a s).ram (placeShellcode image a s).state := by
      unfold prepare
      dsimp only
      rw [haddr, hplaced]
    obtain ⟨hprocess', hshellcode', hvtable', hledger'⟩ := placeVtable_state (a := a)
      (s := (placeShellcode image a s).state) mem (placeShellcode image a s).ram
    rw [hprepare]
    refine ⟨hprocess'.trans hprocess, hshellcode'.trans hshellcode, ?_, ?_⟩
    · rw [hvtable', htouch]
      cases a.vtable <;> rfl
    · rw [hledger', hledger, htouch, List.foldl_append]
      rfl

theorem war3Inject_state (image : Image) (a : Attempt P) (s : State P) :
    (war3Inject image a s).2.2 = (prepare image a s).state := by
  cases haddr : a.copied image with
  | none => rw [war3Inject_of_none haddr]
  | some memVtable => rw [war3Inject_of_addr haddr]

/-! ## All calls -/

/-- `InjectContext` before the first call. -/
def State.zero (null : P) : State P := ⟨⟨null, none, 0, none, 0⟩, some 0⟩

/-- The calls of `War3Inject`, one after the other. -/
def run (image : Image) (null : P) (attempts : List (Attempt P)) : State P :=
  attempts.foldl (fun s a => (war3Inject image a s).2.2) (State.zero null)

/-- The process of the last call. -/
def lastProcess (null : P) (attempts : List (Attempt P)) : P :=
  (attempts.getLast?.map Attempt.process).getD null

/-- The blocks that were allocated for the shellcode, and those for the table. -/
def shellcodes (attempts : List (Attempt P)) : List (P × Address) :=
  Slot.taken (attempts.map Attempt.touchShellcode)

def vtables (image : Image) (attempts : List (Attempt P)) : List (P × Address) :=
  Slot.taken (attempts.map (Attempt.touchVtable image))

theorem touched_held (touches : List (Option (Option (P × Address))))
    (touch : Option (Option (P × Address))) :
    touched ((Slot.held touches).map Prod.snd) touch =
      (Slot.held (touches ++ [touch])).map Prod.snd := by
  rw [Slot.held_concat]
  cases touch <;> rfl

theorem run_spec (image : Image) (null : P) (attempts : List (Attempt P)) :
    (run image null attempts).ctx.process = lastProcess null attempts ∧
    (run image null attempts).ctx.memShellcode =
      (Slot.held (attempts.map Attempt.touchShellcode)).map Prod.snd ∧
    (run image null attempts).ctx.memVtable =
      (Slot.held (attempts.map (Attempt.touchVtable image))).map Prod.snd ∧
    (run image null attempts).ledger =
      some ((shellcodes attempts : Multiset (P × Address)) + vtables image attempts) := by
  induction attempts using List.reverseRecOn with
  | nil => exact ⟨rfl, rfl, rfl, rfl⟩
  | append_singleton attempts a ih =>
    obtain ⟨-, hshellcode, hvtable, hledger⟩ := ih
    have hlast : run image null (attempts ++ [a]) =
        (prepare image a (run image null attempts)).state := by
      rw [← war3Inject_state]
      unfold run
      rw [List.foldl_append]
      rfl
    have hstate := prepare_state image a (run image null attempts)
    rw [← hlast] at hstate
    refine ⟨?_, ?_, ?_, ?_⟩
    · rw [hstate.process, lastProcess, List.getLast?_concat]
      rfl
    · rw [hstate.memShellcode, hshellcode, touched_held, List.map_append]
      rfl
    · rw [hstate.memVtable, hvtable, touched_held, List.map_append]
      rfl
    · have hshellcodes : shellcodes (attempts ++ [a]) =
          shellcodes attempts ++ a.touchShellcode.join.toList := by
        unfold shellcodes
        rw [List.map_append, List.map_singleton, Slot.taken_concat]
      have hvtables : vtables image (attempts ++ [a]) =
          vtables image attempts ++ (a.touchVtable image).join.toList := by
        unfold vtables
        rw [List.map_append, List.map_singleton, Slot.taken_concat]
      rw [hstate.ledger, hledger, Ledger.foldl_take_some, hshellcodes, hvtables, ← Multiset.coe_add,
        ← Multiset.coe_add, ← Multiset.coe_add]
      congr 1
      abel

/-! ## The cleanup -/

/-- The blocks that the cleanup frees. -/
def freedBlocks (s : State P) : List (P × Address) :=
  (s.ctx.memShellcode.toList ++ s.ctx.memVtable.toList).map (s.ctx.process, ·)

variable [DecidableEq P]

theorem cleanup_ledger (s : State P) :
    (war3InjectCleanup s).ledger = (freedBlocks s).foldl Ledger.give s.ledger := by
  unfold war3InjectCleanup freedBlocks
  rw [List.map_append, List.foldl_append, List.foldl_map, List.foldl_map]

/-- Every block that was allocated is freed once, and in its process. -/
def Freed (image : Image) (null : P) (attempts : List (Attempt P)) : Prop :=
  (war3InjectCleanup (run image null attempts)).ledger = some 0

/-- The call comes to the allocation of the shellcode, and it succeeds. -/
def Attempt.Allocates (a : Attempt P) : Prop := a.remoteNtdll.isSome ∧ a.shellcode.isSome

/-- After a call that has allocated something no call finds the module, and the last call is for the
same process. -/
structure Kept (null : P) (attempts : List (Attempt P)) : Prop where
  once : attempts.Pairwise fun a later => a.Allocates → later.remoteNtdll = none
  process : ∀ a ∈ attempts, a.Allocates → a.process = lastProcess null attempts

omit [DecidableEq P] in
/-- Two slots hold all that was taken, and in one process. -/
theorem coe_append_eq_iff {S T : List (P × Address)} {gs gv : Option (P × Address)}
    (hs : gs.toList.Sublist S) (hv : gv.toList.Sublist T) (p : P) :
    ((S ++ T : List (P × Address)) : Multiset (P × Address)) =
        ((gs.toList ++ gv.toList).map fun b => (p, b.2) : List (P × Address)) ↔
      (S = gs.toList ∧ T = gv.toList) ∧ ∀ b ∈ S ++ T, b.1 = p := by
  constructor
  · intro h
    rw [Multiset.coe_eq_coe] at h
    have hlen := h.length_eq
    rw [List.length_map, List.length_append, List.length_append] at hlen
    have hS := hs.length_le
    have hT := hv.length_le
    refine ⟨⟨(hs.eq_of_length (by omega)).symm, (hv.eq_of_length (by omega)).symm⟩, fun b hb => ?_⟩
    obtain ⟨c, -, rfl⟩ := List.mem_map.mp (h.mem_iff.mp hb)
    rfl
  · rintro ⟨⟨rfl, rfl⟩, hprocess⟩
    have hmap : (gs.toList ++ gv.toList).map (fun b => (p, b.2)) = gs.toList ++ gv.toList := by
      conv_rhs => rw [← List.map_id (gs.toList ++ gv.toList)]
      exact List.map_congr_left fun b hb => by rw [← hprocess b hb]; rfl
    rw [hmap]

omit [DecidableEq P] in
theorem touchShellcode_join {b : P × Address} :
    a.touchShellcode.join = some b ↔ a.Allocates ∧ b.1 = a.process ∧ a.shellcode = some b.2 := by
  obtain ⟨p, mem⟩ := b
  unfold Attempt.touchShellcode Attempt.Allocates
  cases a.remoteNtdll with
  | none => simp
  | some remoteNtdll =>
    cases a.shellcode with
    | none => simp
    | some mem' => simp [eq_comm]

omit [DecidableEq P] in
theorem placed_allocates {mem : Address} (h : a.placed image = some mem) : a.Allocates := by
  obtain ⟨remoteNtdll, hntdll, h⟩ := Option.bind_eq_some_iff.mp h
  obtain ⟨mem', hmem, -⟩ := Option.bind_eq_some_iff.mp h
  exact ⟨by rw [hntdll]; rfl, by rw [hmem]; rfl⟩

omit [DecidableEq P] in
theorem touchVtable_join {b : P × Address} (h : (a.touchVtable image).join = some b) :
    a.Allocates ∧ b.1 = a.process := by
  unfold Attempt.touchVtable at h
  cases hplaced : a.placed image with
  | none =>
    rw [hplaced] at h
    cases h
  | some mem =>
    rw [hplaced] at h
    obtain ⟨memVtable, -, rfl⟩ := Option.map_eq_some_iff.mp
      (show a.vtable.map (a.process, ·) = some b from h)
    exact ⟨placed_allocates hplaced, rfl⟩

omit [DecidableEq P] in
theorem shellcodes_eq_held_iff (attempts : List (Attempt P)) :
    shellcodes attempts = (Slot.held (attempts.map Attempt.touchShellcode)).toList ↔
      attempts.Pairwise fun a later => a.Allocates → later.remoteNtdll = none := by
  unfold shellcodes
  rw [Slot.taken_eq_held_iff, List.pairwise_map]
  refine List.Pairwise.iff fun a later => imp_congr ?_ ?_
  · rw [Option.ne_none_iff_exists']
    constructor
    · rintro ⟨b, hb⟩
      exact (touchShellcode_join.mp hb).1
    · intro hall
      obtain ⟨mem, hmem⟩ := Option.isSome_iff_exists.mp hall.2
      exact ⟨(a.process, mem), touchShellcode_join.mpr ⟨hall, rfl, hmem⟩⟩
  · exact Option.map_eq_none_iff

omit [DecidableEq P] in
theorem vtables_eq_held {attempts : List (Attempt P)} (image : Image)
    (h : attempts.Pairwise fun a later => a.Allocates → later.remoteNtdll = none) :
    vtables image attempts = (Slot.held (attempts.map (Attempt.touchVtable image))).toList := by
  unfold vtables
  rw [Slot.taken_eq_held_iff, List.pairwise_map]
  refine h.imp fun {a later} hlater htouch => ?_
  obtain ⟨b, hb⟩ := Option.ne_none_iff_exists'.mp htouch
  have hnone := hlater (touchVtable_join hb).1
  unfold Attempt.touchVtable Attempt.placed
  rw [hnone]
  rfl

omit [DecidableEq P] in
theorem forall_process_iff (image : Image) (attempts : List (Attempt P)) (p : P) :
    (∀ b ∈ shellcodes attempts ++ vtables image attempts, b.1 = p) ↔
      ∀ a ∈ attempts, a.Allocates → a.process = p := by
  constructor
  · intro h a ha hall
    obtain ⟨mem, hmem⟩ := Option.isSome_iff_exists.mp hall.2
    refine h (a.process, mem) (List.mem_append_left _ (List.mem_filterMap.mpr ?_))
    exact ⟨a.touchShellcode, List.mem_map_of_mem ha,
      touchShellcode_join.mpr ⟨hall, rfl, hmem⟩⟩
  · intro h b hb
    rcases List.mem_append.mp hb with hb | hb
    · obtain ⟨touch, htouch, hjoin⟩ := List.mem_filterMap.mp hb
      obtain ⟨a, ha, rfl⟩ := List.mem_map.mp htouch
      obtain ⟨hall, hprocess, -⟩ := touchShellcode_join.mp hjoin
      rw [hprocess, h a ha hall]
    · obtain ⟨touch, htouch, hjoin⟩ := List.mem_filterMap.mp hb
      obtain ⟨a, ha, rfl⟩ := List.mem_map.mp htouch
      obtain ⟨hall, hprocess⟩ := touchVtable_join hjoin
      rw [hprocess, h a ha hall]

theorem freed_iff (image : Image) (null : P) (attempts : List (Attempt P)) :
    Freed image null attempts ↔ Kept null attempts := by
  obtain ⟨hprocess, hshellcode, hvtable, hledger⟩ := run_spec image null attempts
  have hblocks : freedBlocks (run image null attempts) =
      ((Slot.held (attempts.map Attempt.touchShellcode)).toList ++
        (Slot.held (attempts.map (Attempt.touchVtable image))).toList).map
          fun b => (lastProcess null attempts, b.2) := by
    unfold freedBlocks
    rw [hprocess, hshellcode, hvtable, Option.toList_map, Option.toList_map, ← List.map_append,
      List.map_map]
    rfl
  have hiff := coe_append_eq_iff (Slot.held_sublist (attempts.map Attempt.touchShellcode))
    (Slot.held_sublist (attempts.map (Attempt.touchVtable image))) (lastProcess null attempts)
  unfold Freed
  rw [cleanup_ledger, hledger, Ledger.foldl_give_eq_some_iff, hblocks, add_zero, Multiset.coe_add]
  refine hiff.trans ?_
  constructor
  · rintro ⟨⟨hS, -⟩, hprocesses⟩
    exact ⟨(shellcodes_eq_held_iff attempts).mp hS,
      (forall_process_iff image attempts _).mp hprocesses⟩
  · rintro ⟨honce, hprocesses⟩
    exact ⟨⟨(shellcodes_eq_held_iff attempts).mpr honce, vtables_eq_held image honce⟩,
      (forall_process_iff image attempts _).mpr hprocesses⟩

/-! ## The whole setup -/

omit [DecidableEq P] in
/-- A shellcode that begins with the placeholder is written. -/
theorem placed_eq {remoteNtdll : BitVec 32} {mem : Address} {code : List Byte}
    (hcode : image.code = ofDword TPL_REMOTEDATA_ADDR ++ code)
    (hsize : memSize image < 2 ^ 31) (hntdll : a.remoteNtdll = some remoteNtdll)
    (hmem : a.shellcode = some mem) (hwrite : a.writeShellcode.complete (memSize image) = true) :
    a.placed image = some mem := by
  have hlen : (injectData image a remoteNtdll).length = memSize image :=
    length_injectData remoteNtdll
  have hroom : 4 < memSize image := by
    unfold memSize sizeofRemoteData
    omega
  have hocc : OccursAt (injectData image a remoteNtdll) TPL_REMOTEDATA_ADDR 0 := by
    unfold injectData
    rw [hcode, List.append_assoc, List.append_assoc, ← List.nil_append (ofDword _ ++ _)]
    exact readDword_append List.length_nil
  have hreplaced : (replacedData image a remoteNtdll mem).1 = true := by
    unfold replacedData
    dsimp only
    rw [dwordReplace_first (by omega) ⟨hocc, nofun⟩ ⟨by omega, by omega⟩]
    rfl
  unfold Attempt.placed
  rw [hntdll, hmem]
  exact if_pos (Bool.and_eq_true_iff.mpr ⟨hreplaced, hwrite⟩)

/-- A shellcode that is the placeholder, and a call that does not fail before its last write. -/
def sampleImage : Image := ⟨ofDword TPL_REMOTEDATA_ADDR, 0x77000000, 0x77001000⟩

def sample : Attempt ℕ where
  process := 1
  device := 0x3000
  deviceVtable := 0x4000
  filename := []
  ram := ⟨fun _ => 0, [], []⟩
  remoteNtdll := some 0x77010000
  currentDirectory := fun _ => 0
  heap := fun _ => 0
  shellcode := some 0x1000
  writeShellcode := ⟨true, memSize sampleImage⟩
  vtable := some 0x2000
  readVtable := ⟨true, vtableSize⟩
  writeVtable := ⟨true, vtableSize⟩
  writePointer := ⟨true, 4⟩

theorem fresh_sample : Fresh sampleImage sample := by
  constructor
  · rintro mem ⟨⟩
    exact apart_of_le (by decide) (by decide)
  · rintro mem ⟨⟩
    exact apart_of_le (by decide) (by decide)
  · rintro mem ⟨⟩
    exact apart_of_le (by decide) (by decide)

theorem copied_sample : sample.copied sampleImage = some 0x2000 := by
  have hplaced : sample.placed sampleImage = some 0x1000 :=
    placed_eq (List.append_nil _).symm (by decide) rfl rfl rfl
  unfold Attempt.copied
  rw [hplaced]
  rfl

/-- The pointer is set as a whole or not at all, and all that the calls allocate is freed, if the last
write is not cut short and no call comes to its allocations after one that has done so. -/
theorem remoteSetup_iff (image : Image) :
    (∀ (a : Attempt P) (s : State P), Fresh image a → (Atomic image a s ↔ LastWrite image a)) ∧
    ∀ (null : P) (attempts : List (Attempt P)), Freed image null attempts ↔ Kept null attempts :=
  ⟨fun _ _ hfresh => atomic_iff hfresh, freed_iff image⟩

theorem remoteSetup_sample :
    Atomic sampleImage sample (State.zero 0) ∧ Freed sampleImage 0 [sample] := by
  obtain ⟨hatomic, hfreed⟩ := @remoteSetup_iff ℕ _ sampleImage
  refine ⟨(hatomic sample (State.zero 0) fresh_sample).mpr fun _ _ => .inl rfl,
    (hfreed 0 [sample]).mpr ⟨List.pairwise_singleton _ _, fun a ha _ => ?_⟩⟩
  rw [List.mem_singleton.mp ha]
  rfl

/-- The last write moves a byte and fails. -/
def shortWrite : Attempt ℕ := { sample with writePointer := ⟨false, 1⟩ }

/-- A second call, which allocates other blocks. -/
def again : Attempt ℕ := { sample with shellcode := some 0x11000, vtable := some 0x12000 }

theorem not_remoteSetup : ¬Atomic sampleImage shortWrite (State.zero 0) ∧
    ¬Freed sampleImage 0 [sample, again] := by
  constructor
  · intro h
    have hfresh : Fresh sampleImage shortWrite :=
      ⟨fresh_sample.shellcode_device, fresh_sample.shellcode_vtable, fresh_sample.vtable_device⟩
    have hlast := (atomic_iff hfresh).mp h
    exact absurd (hlast 0x2000 copied_sample) (by decide)
  · intro h
    have honce := ((freed_iff sampleImage 0 [sample, again]).mp h).once
    have hnone : again.remoteNtdll = none :=
      (List.pairwise_cons.mp honce).1 again (List.mem_singleton_self again) ⟨rfl, rfl⟩
    cases hnone

end Injection

end DreamDota
