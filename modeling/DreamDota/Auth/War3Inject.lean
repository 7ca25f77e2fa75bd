import DreamDota.Auth.DWORDReplace
import DreamDota.Lib.Ledger
import DreamDota.Lib.Memory

/-!
# Setting up the injection

`War3Inject` writes a shellcode and a table into the process of the game, and then the pointer of the
device. What it has allocated is noted in one global context, which the next call overwrites, and
`War3InjectCleanup` frees what is noted there.

1. `war3Inject`, `war3InjectCleanup`: the code.
2. `placeShellcode_spec`, `placeTable_spec`: the two parts before the last write.
3. `atomic_iff`: when the pointer of the device is set as a whole or not at all.
-/

namespace DreamDota

namespace Injection

open Bytes

/-! ## The code -/

/-- How a read or a write of another process ends: the status, and the bytes that were moved. -/
structure Transfer where
  ok : Bool
  bytes : ℕ

/-- The test after every transfer. -/
def Transfer.complete (t : Transfer) (size : ℕ) : Bool := t.ok && t.bytes == size

/-- The memory after `WriteRemoteMemory`. -/
def Transfer.write (t : Transfer) (ram : Ram) (addr : Address) (bs : List Byte) : Ram :=
  ram.store addr (bs.take t.bytes)

/-- The code between `start` and `end` of `InitInjectCode`, and the addresses of `NTDLL`. -/
structure Image where
  code : List Byte
  ntdllModule : BitVec 32
  ldrLoadDll : BitVec 32

/-- What one call meets: the search result, its process, and the answers of the system. -/
structure Attempt (P : Type) where
  process : P
  device : Address
  deviceVtable : Address
  filename : List (BitVec 16)
  /-- The memory of the process. -/
  ram : Ram
  /-- `GetProcessModuleAddress` -/
  remoteNtdll : Option (BitVec 32)
  /-- What `GetCurrentDirectory` writes, and what the array of `new` contains. -/
  currentDirectory : ℕ → Byte
  heap : ℕ → Byte
  shellcode : Option Address
  writeShellcode : Transfer
  vtable : Option Address
  readVtable : Transfer
  writeVtable : Transfer
  writePointer : Transfer

/-- `TPL_REMOTEDATA_ADDR` -/
def TPL_REMOTEDATA_ADDR : BitVec 32 := 0xDEADDEAD

/-- `sizeof(RemoteData)`, and of one of its paths. -/
def sizeofRemoteData : ℕ := 424
def sizeofPath : ℕ := 200

/-- `sizeof(vtable)` -/
def vtableSize : ℕ := (1 + 45) * 4

def codeMemSize (image : Image) : ℕ := image.code.length + image.code.length % 4

def memSize (image : Image) : ℕ := codeMemSize image + sizeofRemoteData

variable {P : Type}

/-- `remote_data` -/
def remoteData (image : Image) (a : Attempt P) (remoteNtdll : BitVec 32) : List Byte :=
  ofDword (-1) ++
    ofDword (image.ldrLoadDll + (remoteNtdll - image.ntdllModule)) ++
    ofWord (BitVec.ofNat 16 a.filename.length * 2) ++ ofWord (BitVec.ofNat 16 sizeofPath) ++
    ofDword 0 ++
    ofDword a.deviceVtable ++
    ofDword a.device ++
    (List.range sizeofPath).map a.currentDirectory ++
    (a.filename.flatMap ofWord ++ List.replicate sizeofPath 0).take sizeofPath

/-- `data`, before the placeholder is replaced. -/
def injectData (image : Image) (a : Attempt P) (remoteNtdll : BitVec 32) : List Byte :=
  image.code ++ (List.range (image.code.length % 4)).map a.heap ++ remoteData image a remoteNtdll

/-- `DWORDReplace` of the placeholder, which does not fail: `dwordReplace_isSome`. -/
def replacedData (image : Image) (a : Attempt P) (remoteNtdll : BitVec 32) (mem : Address) :
    Bool × List Byte :=
  let data := injectData image a remoteNtdll
  (dwordReplace data TPL_REMOTEDATA_ADDR (mem.at (codeMemSize image))).getD (false, data)

/-- `War3InjectContext` -/
structure Context (P : Type) where
  process : P
  memVtable : Option Address
  memVtableSize : ℕ
  memShellcode : Option Address
  memShellcodeSize : ℕ

/-- The context, and the blocks that are allocated in the processes. -/
structure State (P : Type) where
  ctx : Context P
  ledger : Ledger (P × Address)

/-- What a part of `War3Inject` has done. Without an address it has returned `false`. -/
structure Part (P : Type) where
  addr : Option Address
  ram : Ram
  state : State P

/-- The module, the shellcode and its data. -/
def placeShellcode (image : Image) (a : Attempt P) (s : State P) : Part P :=
  let s := { s with ctx := { s.ctx with process := a.process } }
  match a.remoteNtdll with
  | none => ⟨none, a.ram, s⟩
  | some remoteNtdll =>
    let s := { s with ctx := { s.ctx with memShellcode := a.shellcode } }
    match a.shellcode with
    | none => ⟨none, a.ram, s⟩
    | some mem =>
      let s : State P :=
        { ctx := { s.ctx with memShellcodeSize := memSize image }
          ledger := s.ledger.take (a.process, mem) }
      let (replaced, data) := replacedData image a remoteNtdll mem
      let ram := if replaced then a.writeShellcode.write a.ram mem data else a.ram
      if replaced && a.writeShellcode.complete (memSize image) then ⟨some mem, ram, s⟩
      else ⟨none, ram, s⟩

/-- The table of the device, with `vtable[1 + 14]` replaced. -/
def newVtable (vtable : List Byte) (mem : Address) : List Byte :=
  vtable.take 60 ++ ofDword mem ++ vtable.drop 64

/-- The copy of the table. -/
def placeVtable (a : Attempt P) (mem : Address) (ram : Ram) (s : State P) : Part P :=
  let s := { s with ctx := { s.ctx with memVtable := a.vtable, memVtableSize := vtableSize } }
  match a.vtable with
  | none => ⟨none, ram, s⟩
  | some memVtable =>
    let s := { s with ledger := s.ledger.take (a.process, memVtable) }
    if a.readVtable.complete vtableSize then
      let vtable := newVtable (ram.peek (a.deviceVtable - 4) vtableSize) mem
      let ram := a.writeVtable.write ram memVtable vtable
      if a.writeVtable.complete vtableSize then ⟨some memVtable, ram, s⟩ else ⟨none, ram, s⟩
    else ⟨none, ram, s⟩

/-- All that comes before the last write. -/
def prepare (image : Image) (a : Attempt P) (s : State P) : Part P :=
  let part := placeShellcode image a s
  match part.addr with
  | none => part
  | some mem => placeVtable a mem part.ram part.state

/-- `War3Inject`: its result, the memory of the process and the context. -/
def war3Inject (image : Image) (a : Attempt P) (s : State P) : Bool × Ram × State P :=
  let part := prepare image a s
  match part.addr with
  | none => (false, part.ram, part.state)
  | some memVtable =>
    (a.writePointer.complete 4,
      a.writePointer.write part.ram a.device (ofDword (memVtable.at 4)), part.state)

variable [DecidableEq P]

/-- `War3InjectCleanup` -/
def war3InjectCleanup (s : State P) : State P :=
  let free (ledger : Ledger (P × Address)) (mem : Address) := ledger.give (s.ctx.process, mem)
  { ctx := ⟨s.ctx.process, none, 0, none, 0⟩
    ledger := s.ctx.memVtable.toList.foldl free (s.ctx.memShellcode.toList.foldl free s.ledger) }

/-! ## One call -/

/-- What is allocated was not in use: it is apart from the pointer of the device and from the part of
the table that is read. -/
structure Fresh (image : Image) (a : Attempt P) : Prop where
  shellcode_device : ∀ mem, a.shellcode = some mem → Apart mem (memSize image) a.device 4
  shellcode_vtable : ∀ mem, a.shellcode = some mem →
    Apart mem (memSize image) (a.deviceVtable - 4) vtableSize
  vtable_device : ∀ mem, a.vtable = some mem → Apart mem vtableSize a.device 4

variable {image : Image} {a : Attempt P} {s : State P}

omit [DecidableEq P] in
theorem length_remoteData (remoteNtdll : BitVec 32) :
    (remoteData image a remoteNtdll).length = sizeofRemoteData := by
  unfold remoteData sizeofPath sizeofRemoteData
  simp only [List.length_append, length_ofDword, length_ofWord, List.length_map, List.length_range,
    List.length_take, List.length_replicate]
  omega

omit [DecidableEq P] in
theorem length_injectData (remoteNtdll : BitVec 32) :
    (injectData image a remoteNtdll).length = memSize image := by
  unfold injectData memSize codeMemSize
  rw [List.length_append, List.length_append, List.length_map, List.length_range,
    length_remoteData]

omit [DecidableEq P] in
theorem length_replacedData (remoteNtdll : BitVec 32) (mem : Address) :
    (replacedData image a remoteNtdll mem).2.length = memSize image := by
  unfold replacedData
  dsimp only
  cases hreplace : dwordReplace (injectData image a remoteNtdll) TPL_REMOTEDATA_ADDR
      (mem.at (codeMemSize image)) with
  | none => exact length_injectData remoteNtdll
  | some result => exact (length_dwordReplace hreplace).trans (length_injectData remoteNtdll)

/-- A transfer into a block leaves what is apart from the block. -/
theorem peek_write_apart {t : Transfer} {ram : Ram} {addr b : Address} {bs : List Byte} {n k : ℕ}
    (hlen : bs.length ≤ n) (h : Apart addr n b k) (hk : k ≤ 2 ^ 32) :
    (t.write ram addr bs).peek b k = ram.peek b k :=
  Ram.peek_store_apart (h.mono ((List.length_take_le' _ _).trans hlen)) hk

omit [DecidableEq P] in
/-- The shellcode does not touch what is apart from its block. -/
theorem placeShellcode_spec {b : Address} {k : ℕ} (hk : k ≤ 2 ^ 32)
    (h : ∀ mem, a.shellcode = some mem → Apart mem (memSize image) b k) :
    (placeShellcode image a s).ram.peek b k = a.ram.peek b k := by
  unfold placeShellcode
  cases a.remoteNtdll with
  | none => rfl
  | some remoteNtdll =>
    cases hmem : a.shellcode with
    | none => rfl
    | some mem =>
      have hwrite : (if (replacedData image a remoteNtdll mem).1 then a.writeShellcode.write a.ram mem
          (replacedData image a remoteNtdll mem).2 else a.ram).peek b k = a.ram.peek b k := by
        split_ifs
        · exact peek_write_apart (length_replacedData remoteNtdll mem).le (h mem hmem) hk
        · rfl
      dsimp only
      generalize (if (replacedData image a remoteNtdll mem).1 then a.writeShellcode.write a.ram mem
        (replacedData image a remoteNtdll mem).2 else a.ram) = ram at hwrite ⊢
      split_ifs <;> exact hwrite

omit [DecidableEq P] in
theorem length_newVtable {vtable : List Byte} (h : vtable.length = vtableSize) (mem : Address) :
    (newVtable vtable mem).length = vtableSize := by
  unfold newVtable vtableSize at *
  rw [List.length_append, List.length_append, length_ofDword, List.length_take, List.length_drop]
  omega

/-- The copy of the table is complete, and the pointer of the device as it was. -/
structure Prepared (a : Attempt P) (mem memVtable : Address) (ram ram' : Ram) : Prop where
  allocated : a.vtable = some memVtable
  vtable : ram'.peek memVtable vtableSize =
    newVtable (ram.peek (a.deviceVtable - 4) vtableSize) mem
  device : ram'.peek a.device 4 = ram.peek a.device 4

omit [DecidableEq P] in
theorem placeVtable_spec (mem : Address) (ram : Ram)
    (h : ∀ memVtable, a.vtable = some memVtable → Apart memVtable vtableSize a.device 4) :
    (placeVtable a mem ram s).ram.peek a.device 4 = ram.peek a.device 4 ∧
      ∀ memVtable, (placeVtable a mem ram s).addr = some memVtable →
        Prepared a mem memVtable ram (placeVtable a mem ram s).ram := by
  unfold placeVtable
  cases hvtable : a.vtable with
  | none => exact ⟨rfl, nofun⟩
  | some memVtable =>
    dsimp only
    have hlen := length_newVtable
      (Ram.length_peek ram (a.deviceVtable - 4) vtableSize) mem
    have hdevice : (a.writeVtable.write ram memVtable
        (newVtable (ram.peek (a.deviceVtable - 4) vtableSize) mem)).peek a.device 4 =
          ram.peek a.device 4 :=
      peek_write_apart hlen.le (h memVtable hvtable) (by decide)
    split_ifs with hread hwrite
    · refine ⟨hdevice, fun memVtable' heq => ?_⟩
      obtain rfl := Option.some.inj heq
      refine ⟨hvtable, ?_, hdevice⟩
      have hbytes : a.writeVtable.bytes = vtableSize :=
        beq_iff_eq.mp (Bool.and_eq_true_iff.mp hwrite).2
      have htake : (newVtable (ram.peek (a.deviceVtable - 4) vtableSize) mem).take
          a.writeVtable.bytes = newVtable (ram.peek (a.deviceVtable - 4) vtableSize) mem :=
        List.take_of_length_le (by rw [hlen, hbytes])
      unfold Transfer.write
      rw [htake]
      exact Ram.peek_store hlen (by decide)
    · exact ⟨hdevice, nofun⟩
    · exact ⟨rfl, nofun⟩

omit [DecidableEq P] in
theorem prepare_spec (hfresh : Fresh image a) :
    (prepare image a s).ram.peek a.device 4 = a.ram.peek a.device 4 ∧
      ∀ memVtable, (prepare image a s).addr = some memVtable →
        ∃ mem, Prepared a mem memVtable a.ram (prepare image a s).ram := by
  have hdevice := placeShellcode_spec (s := s) (by decide) hfresh.shellcode_device
  have htable := placeShellcode_spec (s := s) (by decide) hfresh.shellcode_vtable
  unfold prepare
  dsimp only
  cases hmem : (placeShellcode image a s).addr with
  | none =>
    refine ⟨hdevice, fun _ hsome => ?_⟩
    cases hmem.symm.trans hsome
  | some mem =>
    obtain ⟨hsame, hprepared⟩ := placeVtable_spec (s := (placeShellcode image a s).state) mem
      (placeShellcode image a s).ram hfresh.vtable_device
    refine ⟨hsame.trans hdevice, fun memVtable haddr => ⟨mem, ?_⟩⟩
    obtain ⟨hallocated, hvtable, hkept⟩ := hprepared memVtable haddr
    exact ⟨hallocated, by rw [hvtable, htable], hkept.trans hdevice⟩

/-- The address of the shellcode, if it was written. -/
def Attempt.placed (image : Image) (a : Attempt P) : Option Address := do
  let remoteNtdll ← a.remoteNtdll
  let mem ← a.shellcode
  if (replacedData image a remoteNtdll mem).1 && a.writeShellcode.complete (memSize image) then
    some mem
  else none

/-- The address of the copied table, if all that comes before the last write has succeeded. -/
def Attempt.copied (image : Image) (a : Attempt P) : Option Address := do
  let _ ← a.placed image
  let memVtable ← a.vtable
  if a.readVtable.complete vtableSize && a.writeVtable.complete vtableSize then some memVtable
  else none

omit [DecidableEq P] in
theorem placeShellcode_addr : (placeShellcode image a s).addr = a.placed image := by
  unfold placeShellcode Attempt.placed
  cases a.remoteNtdll with
  | none => rfl
  | some remoteNtdll =>
    cases a.shellcode with
    | none => rfl
    | some mem =>
      dsimp only [Option.bind_eq_bind, Option.bind_some]
      split_ifs <;> rfl

omit [DecidableEq P] in
theorem prepare_addr : (prepare image a s).addr = a.copied image := by
  have haddr : (placeShellcode image a s).addr = a.placed image := placeShellcode_addr
  unfold prepare Attempt.copied
  dsimp only
  rw [haddr]
  cases hplaced : a.placed image with
  | none => exact haddr.trans hplaced
  | some mem =>
    unfold placeVtable
    cases a.vtable with
    | none => rfl
    | some memVtable =>
      dsimp only [Option.bind_eq_bind, Option.bind_some]
      cases a.readVtable.complete vtableSize with
      | false => rfl
      | true =>
        cases a.writeVtable.complete vtableSize with
        | false => rfl
        | true => rfl

/-- The pointer of the device is set to a copy of the table with one slot replaced and the result is
`true`, or it is as before and the result is `false`. -/
structure Atomic (image : Image) (a : Attempt P) (s : State P) : Prop where
  success : (war3Inject image a s).1 = true → ∃ memVtable mem,
    (war3Inject image a s).2.1.peek a.device 4 = ofDword (memVtable.at 4) ∧
    (war3Inject image a s).2.1.peek memVtable vtableSize =
      newVtable (a.ram.peek (a.deviceVtable - 4) vtableSize) mem
  failure : (war3Inject image a s).1 = false →
    (war3Inject image a s).2.1.peek a.device 4 = a.ram.peek a.device 4

/-- If the last write is not complete, it has changed nothing: the bytes that it has moved were in the
pointer before. -/
def LastWrite (image : Image) (a : Attempt P) : Prop :=
  ∀ memVtable, a.copied image = some memVtable →
    a.writePointer.complete 4 = true ∨ (ofDword (memVtable.at 4)).take a.writePointer.bytes =
      (a.ram.peek a.device 4).take a.writePointer.bytes

omit [DecidableEq P] in
theorem war3Inject_of_none (h : a.copied image = none) : war3Inject image a s =
    (false, (prepare image a s).ram, (prepare image a s).state) := by
  unfold war3Inject
  dsimp only
  rw [prepare_addr, h]

omit [DecidableEq P] in
theorem war3Inject_of_addr {memVtable : Address}
    (h : a.copied image = some memVtable) : war3Inject image a s =
      (a.writePointer.complete 4, a.writePointer.write (prepare image a s).ram a.device
        (ofDword (memVtable.at 4)), (prepare image a s).state) := by
  unfold war3Inject
  dsimp only
  rw [prepare_addr, h]

omit [DecidableEq P] in
theorem addr_of_success (h : (war3Inject image a s).1 = true) :
    ∃ memVtable, a.copied image = some memVtable ∧
      a.writePointer.complete 4 = true := by
  cases haddr : a.copied image with
  | none =>
    rw [war3Inject_of_none haddr] at h
    cases h
  | some memVtable =>
    rw [war3Inject_of_addr haddr] at h
    exact ⟨memVtable, rfl, h⟩

/-- The pointer after the last write. -/
theorem peek_writePointer (t : Transfer) (ram : Ram) (device : Address) (pointer : BitVec 32) :
    (t.write ram device (ofDword pointer)).peek device 4 =
      (ofDword pointer).take t.bytes ++ (ram.peek device 4).drop t.bytes := by
  have hlen : ((ofDword pointer).take t.bytes).length = min t.bytes 4 := by
    rw [List.length_take, length_ofDword]
  unfold Transfer.write
  rw [Ram.peek_store_short (by rw [hlen]; exact Nat.min_le_right _ _) (by decide), hlen]
  rcases Nat.le_total t.bytes 4 with hle | hge
  · rw [Nat.min_eq_left hle]
  · rw [Nat.min_eq_right hge, List.drop_of_length_le (by rw [Ram.length_peek]),
      List.drop_of_length_le (by rw [Ram.length_peek]; exact hge)]

omit [DecidableEq P] in
theorem atomic_iff (hfresh : Fresh image a) : Atomic image a s ↔ LastWrite image a := by
  obtain ⟨hdevice, hprepared⟩ := prepare_spec (s := s) hfresh
  constructor
  · intro h memVtable haddr
    rcases Bool.eq_false_or_eq_true (a.writePointer.complete 4) with hcomplete | hpartial
    · exact .inl hcomplete
    · have hpointer := h.failure (by rw [war3Inject_of_addr haddr]; exact hpartial)
      rw [war3Inject_of_addr haddr] at hpointer
      rw [peek_writePointer, hdevice] at hpointer
      have hsplit := hpointer.trans
        (List.take_append_drop a.writePointer.bytes (a.ram.peek a.device 4)).symm
      exact .inr (List.append_cancel_right hsplit)
  · intro h
    constructor
    · intro hsuccess
      obtain ⟨memVtable, haddr, hcomplete⟩ := addr_of_success hsuccess
      obtain ⟨mem, hallocated, hvtable, -⟩ := hprepared memVtable (prepare_addr.trans haddr)
      have hbytes : a.writePointer.bytes = 4 := beq_iff_eq.mp (Bool.and_eq_true_iff.mp hcomplete).2
      have hpointer := peek_writePointer a.writePointer (prepare image a s).ram a.device
        (memVtable.at 4)
      rw [hbytes, List.take_of_length_le (length_ofDword _).le,
        List.drop_of_length_le (Ram.length_peek _ _ _).le, List.append_nil] at hpointer
      refine ⟨memVtable, mem, ?_, ?_⟩
      · rw [war3Inject_of_addr haddr]
        exact hpointer
      · rw [war3Inject_of_addr haddr, ← hvtable]
        -- The pointer is apart from the copy.
        have hapart : Apart a.device 4 memVtable vtableSize :=
          fun x hx hin => hfresh.vtable_device memVtable hallocated x hin hx
        exact peek_write_apart (length_ofDword _).le hapart (by decide)
    · intro hfailure
      cases haddr : a.copied image with
      | none =>
        rw [war3Inject_of_none haddr]
        exact hdevice
      | some memVtable =>
        rw [war3Inject_of_addr haddr] at hfailure ⊢
        have hmoved := (h memVtable haddr).resolve_left (Bool.eq_false_iff.mp hfailure)
        show (a.writePointer.write _ _ _).peek a.device 4 = _
        rw [peek_writePointer, hmoved, hdevice, List.take_append_drop]

end Injection

end DreamDota
