import Mathlib.Data.List.TakeDrop
import Mathlib.Data.List.Basic
import Mathlib.Logic.Function.Basic
import Mathlib.Tactic.Common
import Mathlib.Tactic.Ring

/-!
# Blocks of bytes

Little-endian numbers, and reads and writes that fail outside of the block. A block that is written
from its start to its end is `written ++ rest`: `write_append` moves the border, and `read_append`
reads a piece that is framed by two others. `pack` is an array of words in a block.
-/

/-- A byte. -/
abbrev Byte := BitVec 8

namespace Bytes

/-! ## Little-endian numbers -/

/-- The lowest `w` bytes of `n`. -/
def ofNat : ℕ → ℕ → List Byte
  | 0, _ => []
  | w + 1, n => BitVec.ofNat 8 n :: ofNat w (n / 256)

/-- The number whose lowest byte comes first. -/
def toNat : List Byte → ℕ
  | [] => 0
  | b :: bs => b.toNat + 256 * toNat bs

@[simp] theorem length_ofNat (w n : ℕ) : (ofNat w n).length = w := by
  induction w generalizing n with
  | zero => rfl
  | succ w ih => rw [ofNat, List.length_cons, ih]

theorem toNat_ofNat (w n : ℕ) : toNat (ofNat w n) = n % 256 ^ w := by
  induction w generalizing n with
  | zero => rw [ofNat, toNat, pow_zero, Nat.mod_one]
  | succ w ih =>
    have hpow : 256 ^ (w + 1) = 256 * 256 ^ w := pow_succ' 256 w
    rw [ofNat, toNat, ih, BitVec.toNat_ofNat, hpow, Nat.mod_mul]

theorem ofNat_toNat (l : List Byte) : ofNat l.length (toNat l) = l := by
  induction l with
  | nil => rfl
  | cons b bs ih =>
    have hb : b.toNat < 256 := b.isLt
    have hdiv : (b.toNat + 256 * toNat bs) / 256 = toNat bs := by omega
    have hlow : BitVec.ofNat 8 (b.toNat + 256 * toNat bs) = b := by
      apply BitVec.eq_of_toNat_eq
      rw [BitVec.toNat_ofNat]
      omega
    rw [List.length_cons, toNat, ofNat, hdiv, ih, hlow]

theorem toNat_lt (l : List Byte) : toNat l < 256 ^ l.length := by
  induction l with
  | nil => exact Nat.one_pos
  | cons b bs ih =>
    have hb : b.toNat < 256 := b.isLt
    rw [toNat, List.length_cons, pow_succ']
    omega

/-- A 16-bit number. -/
def word (l : List Byte) : BitVec 16 := BitVec.ofNat 16 (toNat l)

def ofWord (v : BitVec 16) : List Byte := ofNat 2 v.toNat

/-- A 32-bit number. -/
def dword (l : List Byte) : BitVec 32 := BitVec.ofNat 32 (toNat l)

def ofDword (v : BitVec 32) : List Byte := ofNat 4 v.toNat

@[simp] theorem length_ofWord (v : BitVec 16) : (ofWord v).length = 2 := length_ofNat 2 _

@[simp] theorem length_ofDword (v : BitVec 32) : (ofDword v).length = 4 := length_ofNat 4 _

@[simp] theorem word_ofWord (v : BitVec 16) : word (ofWord v) = v := by
  apply BitVec.eq_of_toNat_eq
  rw [word, ofWord, toNat_ofNat, BitVec.toNat_ofNat]
  omega

@[simp] theorem dword_ofDword (v : BitVec 32) : dword (ofDword v) = v := by
  apply BitVec.eq_of_toNat_eq
  rw [dword, ofDword, toNat_ofNat, BitVec.toNat_ofNat]
  omega

theorem ofDword_dword {l : List Byte} (h : l.length = 4) : ofDword (dword l) = l := by
  have hlt : toNat l < 2 ^ 32 := by
    have hlt := toNat_lt l
    rw [h] at hlt
    exact hlt
  rw [ofDword, dword, BitVec.toNat_ofNat, Nat.mod_eq_of_lt hlt, ← h, ofNat_toNat]

/-! ## Exclusive or -/

/-- Byte by byte, as long as both have bytes. -/
def xorBytes (l m : List Byte) : List Byte := List.zipWith (· ^^^ ·) l m

theorem ofNat_xor (w a c : ℕ) : ofNat w (a ^^^ c) = xorBytes (ofNat w a) (ofNat w c) := by
  induction w generalizing a c with
  | zero => rfl
  | succ w ih =>
    have hdiv : (a ^^^ c) / 256 = a / 256 ^^^ c / 256 := Nat.xor_div_two_pow (n := 8)
    have hlow : BitVec.ofNat 8 (a ^^^ c) = BitVec.ofNat 8 a ^^^ BitVec.ofNat 8 c := by
      apply BitVec.eq_of_toNat_eq
      rw [BitVec.toNat_xor, BitVec.toNat_ofNat, BitVec.toNat_ofNat, BitVec.toNat_ofNat]
      exact Nat.xor_mod_two_pow
    rw [ofNat, hdiv, ih, hlow]
    rfl

/-- A word is combined byte by byte. -/
theorem ofDword_xor {l : List Byte} (h : l.length = 4) (v : BitVec 32) :
    ofDword (dword l ^^^ v) = xorBytes l (ofDword v) := by
  conv_rhs => rw [← ofDword_dword h]
  rw [ofDword, BitVec.toNat_xor, ofNat_xor]
  rfl

@[simp] theorem length_xorBytes (l m : List Byte) :
    (xorBytes l m).length = min l.length m.length := List.length_zipWith

theorem xorBytes_xorBytes {l m : List Byte} (h : l.length ≤ m.length) :
    xorBytes (xorBytes l m) m = l := by
  induction l generalizing m with
  | nil => rfl
  | cons b l ih =>
    cases m with
    | nil => cases h
    | cons c m =>
      have hbyte : (b ^^^ c) ^^^ c = b := by
        rw [BitVec.xor_assoc, BitVec.xor_self, BitVec.xor_zero]
      show ((b ^^^ c) ^^^ c) :: xorBytes (xorBytes l m) m = b :: l
      rw [hbyte, ih (Nat.le_of_succ_le_succ h)]

theorem xorBytes_append {l m l' m' : List Byte} (h : l.length = m.length) :
    xorBytes (l ++ l') (m ++ m') = xorBytes l m ++ xorBytes l' m' := List.zipWith_append h

theorem take_xorBytes (l m : List Byte) (k : ℕ) :
    (xorBytes l m).take k = xorBytes (l.take k) (m.take k) := List.take_zipWith

/-! ## Reads and writes -/

/-- The `len` bytes from `off` on, if they lie in the block. -/
def read (b : List Byte) (off len : ℕ) : Option (List Byte) :=
  if off + len ≤ b.length then some ((b.drop off).take len) else none

/-- The block with the bytes `bs` from `off` on, if there is room for them. -/
def write (b : List Byte) (off : ℕ) (bs : List Byte) : Option (List Byte) :=
  if off + bs.length ≤ b.length then some (b.take off ++ bs ++ b.drop (off + bs.length)) else none

def readDword (b : List Byte) (off : ℕ) : Option (BitVec 32) := (read b off 4).map dword

def writeDword (b : List Byte) (off : ℕ) (v : BitVec 32) : Option (List Byte) :=
  write b off (ofDword v)

variable {b b' bs p q r : List Byte} {off len : ℕ}

theorem read_eq (h : off + len ≤ b.length) : read b off len = some ((b.drop off).take len) :=
  if_pos h

theorem read_eq_none : read b off len = none ↔ b.length < off + len := by
  unfold read
  split_ifs with h
  · exact ⟨nofun, fun hlt => by omega⟩
  · exact ⟨fun _ => by omega, fun _ => rfl⟩

theorem readDword_eq (h : off + 4 ≤ b.length) :
    readDword b off = some (dword ((b.drop off).take 4)) := by
  rw [readDword, read_eq h, Option.map_some]

/-- A block is cut in two. -/
theorem exists_append {k : ℕ} (h : k ≤ b.length) :
    ∃ p q, b = p ++ q ∧ p.length = k ∧ q.length = b.length - k :=
  ⟨b.take k, b.drop k, (List.take_append_drop k b).symm, List.length_take_of_le h,
    List.length_drop⟩

/-- A piece between two others is read. -/
theorem read_append (hp : p.length = off) (hq : q.length = len) :
    read (p ++ (q ++ r)) off len = some q := by
  rw [read_eq (by simp only [List.length_append]; omega), ← hp, List.drop_left, ← hq,
    List.take_left]

theorem readDword_append {v : BitVec 32} (hp : p.length = off) :
    readDword (p ++ (ofDword v ++ r)) off = some v := by
  rw [readDword, read_append hp (length_ofDword v), Option.map_some, dword_ofDword]

/-- A piece between two others is overwritten. -/
theorem write_append (hp : p.length = off) (hq : q.length = bs.length) :
    write (p ++ (q ++ r)) off bs = some (p ++ (bs ++ r)) := by
  have hroom : off + bs.length ≤ (p ++ (q ++ r)).length := by
    simp only [List.length_append]
    omega
  rw [write, if_pos hroom, ← hp, List.take_left, ← List.drop_drop, List.drop_left, ← hq,
    List.drop_left, List.append_assoc]

theorem length_write (h : write b off bs = some b') : b'.length = b.length := by
  unfold write at h
  split_ifs at h with hroom
  obtain rfl := Option.some.inj h
  simp only [List.length_append, List.length_take, List.length_drop]
  omega

/-! ## Arrays of words -/

/-- The words `v i` with `s ≤ i < s + n`. -/
def packFrom (s n : ℕ) (v : ℕ → BitVec 32) : List Byte :=
  (List.range' s n).flatMap fun i => ofDword (v i)

/-- The first `n` words of `v`. -/
def pack (n : ℕ) (v : ℕ → BitVec 32) : List Byte := packFrom 0 n v

variable {i n s : ℕ} {v w : ℕ → BitVec 32} {tail : List Byte} {x : BitVec 32}

@[simp] theorem length_packFrom : (packFrom s n v).length = 4 * n := by
  induction n generalizing s with
  | zero => rfl
  | succ n ih =>
    rw [packFrom, List.range'_succ, List.flatMap_cons, List.length_append, length_ofDword,
      ← packFrom, ih]
    omega

@[simp] theorem length_pack : (pack n v).length = 4 * n := length_packFrom

theorem packFrom_congr (h : ∀ i, s ≤ i → i < s + n → v i = w i) :
    packFrom s n v = packFrom s n w := by
  unfold packFrom
  refine List.flatMap_congr fun i hi => ?_
  rw [List.mem_range'_1] at hi
  rw [h i hi.1 hi.2]

/-- The word `i` stands between those before it and those after it. -/
theorem pack_split (hi : i < n) (v : ℕ → BitVec 32) :
    pack n v = pack i v ++ (ofDword (v i) ++ packFrom (i + 1) (n - i - 1) v) := by
  have hrange : List.range' 0 n = List.range' 0 i ++ (i :: List.range' (i + 1) (n - i - 1)) := by
    rw [← List.range'_succ, show n - i - 1 + 1 = n - i by omega]
    have h := List.range'_append_1 (s := 0) (m := i) (n := n - i)
    rw [Nat.zero_add, Nat.add_sub_of_le hi.le] at h
    exact h.symm
  rw [pack, packFrom, hrange, List.flatMap_append, List.flatMap_cons]
  rfl

theorem readDword_pack (hi : i < n) : readDword (pack n v ++ tail) (4 * i) = some (v i) := by
  rw [pack_split hi, List.append_assoc, List.append_assoc, readDword_append length_pack]

theorem writeDword_pack (hi : i < n) :
    writeDword (pack n v ++ tail) (4 * i) x = some (pack n (Function.update v i x) ++ tail) := by
  have hbefore : pack i (Function.update v i x) = pack i v :=
    packFrom_congr fun j _ hj => by rw [Function.update_of_ne (show j ≠ i by omega)]
  have hafter : packFrom (i + 1) (n - i - 1) (Function.update v i x) =
      packFrom (i + 1) (n - i - 1) v :=
    packFrom_congr fun j hj _ => by rw [Function.update_of_ne (show j ≠ i by omega)]
  rw [pack_split hi v, pack_split hi (Function.update v i x), hbefore, hafter,
    Function.update_self, List.append_assoc, List.append_assoc, writeDword,
    write_append length_pack (by rw [length_ofDword, length_ofDword]), List.append_assoc,
    List.append_assoc]

@[simp] theorem length_flatMap_ofDword (ws : List (BitVec 32)) :
    (ws.flatMap ofDword).length = 4 * ws.length := by
  induction ws with
  | nil => rfl
  | cons v ws ih =>
    rw [List.flatMap_cons, List.length_append, length_ofDword, ih, List.length_cons]
    omega

/-- The words of a list are written one after the other. -/
theorem foldlM_writeDword {ws : List (BitVec 32)} {f : List Byte → ℕ → Option (List Byte)}
    {room : List Byte} {k : ℕ} (hk : k ≤ ws.length) (hroom : room.length = 4 * k)
    (hf : ∀ b i, (hi : i < ws.length) → f b i = writeDword b (4 * i) ws[i]) :
    (List.range k).foldlM f (room ++ tail) = some ((ws.take k).flatMap ofDword ++ tail) := by
  induction k generalizing room tail with
  | zero =>
    obtain rfl := List.eq_nil_of_length_eq_zero hroom
    rfl
  | succ k ih =>
    obtain ⟨p, q, rfl, hp, hq⟩ := exists_append (b := room) (k := 4 * k) (by omega)
    have hlen : ((ws.take k).flatMap ofDword).length = 4 * k := by
      rw [length_flatMap_ofDword, List.length_take]
      omega
    rw [List.range_succ, List.foldlM_append, List.append_assoc, ih (by omega) hp,
      Option.bind_eq_bind, Option.bind_some, List.foldlM_cons, hf _ _ hk, writeDword,
      write_append hlen (by rw [length_ofDword]; omega), List.take_add_one,
      List.getElem?_eq_getElem hk, List.flatMap_append, List.append_assoc]
    simp only [Option.toList_some, List.flatMap_singleton, List.foldlM_nil]
    rfl

/-- A block of `4 * n` bytes is an array of words. -/
theorem exists_pack (h : b.length = 4 * n) : ∃ v, b = pack n v := by
  induction n generalizing b with
  | zero => exact ⟨fun _ => 0, List.eq_nil_of_length_eq_zero h⟩
  | succ n ih =>
    obtain ⟨p, q, rfl, hp, hq⟩ := exists_append (b := b) (k := 4 * n) (by omega)
    obtain ⟨v, rfl⟩ := ih hp
    refine ⟨Function.update v n (dword q), ?_⟩
    rw [pack_split (Nat.lt_succ_self n), Function.update_self, ofDword_dword (by omega),
      show n + 1 - n - 1 = 0 by omega]
    have hbefore : pack n (Function.update v n (dword q)) = pack n v :=
      packFrom_congr fun j _ hj => by rw [Function.update_of_ne (show j ≠ n by omega)]
    rw [hbefore, packFrom, List.range'_zero, List.flatMap_nil, List.append_nil]

end Bytes
