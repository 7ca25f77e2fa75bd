import DreamDota.Lib.Crc
import Mathlib.Tactic.IntervalCases

/-!
# The check sum of the protection module

`init_table` and `crc32` of `main.cpp`. The first call fills the table, and the calls after it use
what the first one has left.

`filled_initTable` is what a filled table holds, `tableStep_eq` one step of `crc32` as eight steps
of the register, and `crc32_eq` the result of every call of a session.
-/

namespace DreamDota

namespace Protect

/-! ## The code -/

/-- `CRC32` and the static `init` of `crc32`. -/
structure Statics where
  CRC32 : Vector (BitVec 32) 256
  init : Bool

/-- Before the first call. -/
def Statics.zero : Statics := ⟨Vector.replicate 256 0, false⟩

def polynomial : BitVec 32 := 0xEDB88320

/-- The body of the loop over `j`. -/
def tableBit (crc : BitVec 32) : BitVec 32 :=
  if crc &&& 1 ≠ 0 then (crc >>> 1) ^^^ polynomial else crc >>> 1

/-- The loop over `j`. -/
def tableEntry (i : Fin 256) : BitVec 32 := tableBit^[8] (BitVec.ofNat 32 i)

/-- The body of the loop over `i`. -/
def setEntry (CRC32 : Vector (BitVec 32) 256) (i : Fin 256) : Vector (BitVec 32) 256 :=
  CRC32.set i (tableEntry i)

def init_table (CRC32 : Vector (BitVec 32) 256) : Vector (BitVec 32) 256 :=
  (List.finRange 256).foldl setEntry CRC32

theorem index_lt (ret : BitVec 32) (byte : BitVec 8) :
    ((ret &&& 0xFF) ^^^ byte.setWidth 32).toNat < 256 := by
  have hret : (ret &&& 0xFF).toNat < 2 ^ 8 := by
    rw [BitVec.toNat_and]
    exact (Nat.and_le_right).trans_lt (by decide)
  have hbyte : (byte.setWidth 32).toNat < 2 ^ 8 := by
    rw [BitVec.toNat_setWidth_of_le (by decide)]
    exact byte.isLt
  rw [BitVec.toNat_xor]
  exact Nat.xor_lt_two_pow hret hbyte

/-- `(ret & 0xFF) ^ buf[i]`, which is within the table. -/
def index (ret : BitVec 32) (byte : BitVec 8) : Fin 256 := ⟨_, index_lt ret byte⟩

/-- The body of the loop of `crc32`. -/
def tableStep (CRC32 : Vector (BitVec 32) 256) (ret : BitVec 32) (byte : BitVec 8) : BitVec 32 :=
  CRC32[index ret byte] ^^^ (ret >>> 8)

/-- `crc32`, which reads the first `len` bytes. -/
def crc32 (s : Statics) (buf : List (BitVec 8)) (len : ℤ) : BitVec 32 × Statics :=
  let s := if s.init then s else ⟨init_table s.CRC32, true⟩
  (~~~ (buf.take len.toNat).foldl (tableStep s.CRC32) 0xFFFFFFFF, s)

/-! ## The check sum bit by bit -/

/-- The bits of a buffer: a byte begins with its lowest bit. -/
def bufferBits (buf : List (BitVec 8)) : List Bool := buf.flatMap (Crc.bits 8)

/-- The reflected check sum with the polynomial `0xEDB88320`, one bit at a time. -/
def bitCrc32 (buf : List (BitVec 8)) : BitVec 32 :=
  ~~~ Crc.feed polynomial 0xFFFFFFFF (bufferBits buf)

/-! ## The table -/

/-- Every entry is its index after eight steps. -/
def Filled (CRC32 : Vector (BitVec 32) 256) : Prop := ∀ i : Fin 256, CRC32[i] = tableEntry i

theorem low_iff (crc : BitVec 32) : crc &&& 1 ≠ 0 ↔ crc.getLsbD 0 = true := by
  constructor
  · intro h
    by_contra hbit
    refine h (BitVec.eq_of_getLsbD_eq fun i hi => ?_)
    cases i with
    | zero => simpa using hbit
    | succ i => simp
  · intro h hzero
    have hbit := congrArg (fun x : BitVec 32 => x.getLsbD 0) hzero
    rw [BitVec.getLsbD_and, h] at hbit
    exact absurd hbit (by decide)

theorem tableBit_eq : tableBit = Crc.shift polynomial := by
  funext crc
  cases h : crc.getLsbD 0 with
  | true => rw [tableBit, if_pos ((low_iff crc).mpr h), Crc.shift_of_low polynomial crc h]
  | false =>
    have hlow : ¬ crc &&& 1 ≠ 0 := fun hne => Bool.noConfusion (h.symm.trans ((low_iff crc).mp hne))
    rw [tableBit, if_neg hlow, Crc.shift_of_not_low polynomial crc h]

theorem setEntry_self (CRC32 : Vector (BitVec 32) 256) (i : Fin 256) :
    (setEntry CRC32 i)[i] = tableEntry i := by simp [setEntry]

theorem setEntry_ne (CRC32 : Vector (BitVec 32) 256) {i j : Fin 256} (h : j ≠ i) :
    (setEntry CRC32 j)[i] = CRC32[i] := Vector.getElem_set_ne _ _ fun hval => h (Fin.ext hval)

/-- The entries that the loop has come to are filled, and the others are kept. -/
theorem init_table_loop (is : List (Fin 256)) (CRC32 : Vector (BitVec 32) 256) (i : Fin 256)
    (hi : i ∈ is ∨ CRC32[i] = tableEntry i) : (is.foldl setEntry CRC32)[i] = tableEntry i := by
  induction is generalizing CRC32 with
  | nil => simpa using hi
  | cons j is ih =>
    refine ih (setEntry CRC32 j) ?_
    by_cases hj : j = i
    · rw [hj]
      exact .inr (setEntry_self CRC32 i)
    · rw [setEntry_ne CRC32 hj]
      exact hi.imp_left fun h => (List.mem_cons.mp h).resolve_left fun h => hj h.symm

theorem filled_init_table (CRC32 : Vector (BitVec 32) 256) : Filled (init_table CRC32) := by
  intro i
  unfold init_table
  exact init_table_loop _ CRC32 i (.inl (List.mem_finRange i))

/-! ## The calls -/

/-- The table is filled once a call has been made. -/
def Statics.Good (s : Statics) : Prop := s.init = true → Filled s.CRC32

theorem Statics.good_zero : Statics.zero.Good := fun h => Bool.noConfusion h

/-- The mask selects the lowest eight bits. -/
theorem getLsbD_mask (i : ℕ) (hi : i < 32) : (0xFF : BitVec 32).getLsbD i = decide (i < 8) := by
  interval_cases i <;> rfl

/-- The index holds the lowest bits of the register after the byte was written into it. -/
theorem ofNat_index (ret : BitVec 32) (byte : BitVec 8) :
    BitVec.ofNat 32 (index ret byte) = (ret ^^^ byte.setWidth 32) &&& 0xFF := by
  rw [index, BitVec.ofNat_toNat, BitVec.setWidth_eq]
  refine BitVec.eq_of_getLsbD_eq fun i hi => ?_
  rw [BitVec.getLsbD_xor, BitVec.getLsbD_and, BitVec.getLsbD_and, BitVec.getLsbD_xor,
    BitVec.getLsbD_setWidth, getLsbD_mask i hi]
  by_cases h : i < 8
  · simp [h]
  · simp [h, BitVec.getLsbD_of_ge byte i (by omega)]

/-- One step with a filled table is eight steps with the bits of the byte. -/
theorem tableStep_eq {CRC32 : Vector (BitVec 32) 256} (h : Filled CRC32) (ret : BitVec 32)
    (byte : BitVec 8) : tableStep CRC32 ret byte = Crc.feed polynomial ret (Crc.bits 8 byte) := by
  have hhigh : ret >>> 8 = (ret ^^^ byte.setWidth 32) >>> 8 := by
    have hzero : (byte.setWidth 32) >>> 8 = 0#32 := Crc.ushiftRight_setWidth byte
    rw [BitVec.ushiftRight_xor_distrib, hzero, BitVec.xor_zero]
  calc tableStep CRC32 ret byte
      = (Crc.shift polynomial)^[8] ((ret ^^^ byte.setWidth 32) &&& 0xFF) ^^^
          ((ret ^^^ byte.setWidth 32) >>> 8) := by
        rw [tableStep, h, tableEntry, tableBit_eq, ofNat_index, hhigh]
    _ = (Crc.shift polynomial)^[8] (ret ^^^ byte.setWidth 32) :=
        (Crc.iterate_shift_split polynomial getLsbD_mask _).symm
    _ = Crc.feed polynomial ret (Crc.bits 8 byte) :=
        Crc.iterate_shift_word polynomial (by decide) ret byte

/-- The loop over the buffer. -/
theorem foldl_tableStep {CRC32 : Vector (BitVec 32) 256} (h : Filled CRC32) (buf : List (BitVec 8))
    (ret : BitVec 32) :
    buf.foldl (tableStep CRC32) ret = Crc.feed polynomial ret (bufferBits buf) := by
  induction buf generalizing ret with
  | nil => rfl
  | cons byte buf ih =>
    rw [List.foldl_cons, ih, tableStep_eq h, bufferBits, bufferBits, List.flatMap_cons,
      Crc.feed_append]

/-- A call uses a filled table and leaves it. -/
theorem crc32_spec {s : Statics} (hs : s.Good) (buf : List (BitVec 8)) (len : ℤ) :
    (crc32 s buf len).1 = bitCrc32 (buf.take len.toNat) ∧ (crc32 s buf len).2.Good := by
  have hfilled : Filled (if s.init then s else ⟨init_table s.CRC32, true⟩ : Statics).CRC32 := by
    cases h : s.init with
    | true => simpa [h] using hs h
    | false => simpa [h] using filled_init_table s.CRC32
  refine ⟨?_, fun _ => hfilled⟩
  simp only [crc32]
  rw [foldl_tableStep hfilled]
  rfl

/-- The statics after calls with buffers and lengths. -/
def calls (s : Statics) (args : List (List (BitVec 8) × ℤ)) : Statics :=
  args.foldl (fun s arg => (crc32 s arg.1 arg.2).2) s

/-- **The check sum.** After any calls, the result is the reflected check sum, bit by bit. -/
theorem crc32_eq (args : List (List (BitVec 8) × ℤ)) (buf : List (BitVec 8)) :
    (crc32 (calls Statics.zero args) buf buf.length).1 = bitCrc32 buf := by
  have hgood : (calls Statics.zero args).Good :=
    List.foldlRecOn args _ Statics.good_zero fun s hs arg _ => (crc32_spec hs arg.1 arg.2).2
  rw [(crc32_spec hgood buf buf.length).1, Int.toNat_natCast, List.take_length]

-- The digits from 1 to 9.
example : bitCrc32 ((List.range 9).map fun i => BitVec.ofNat 8 (0x31 + i)) = 0xCBF43926 := by
  decide +kernel

end Protect

end DreamDota
