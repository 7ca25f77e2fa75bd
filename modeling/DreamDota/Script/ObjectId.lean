import DreamDota.Lib.Bytes
import Mathlib.Data.BitVec
import Mathlib.Data.List.TakeWhile
import Mathlib.Tactic.Ring

/-!
# Object ids and their strings

`S2ObjectId` adds up the characters of a string, which are signed, and pushes a signed number.
`ObjectId2S` converts the number to an unsigned one and takes its bytes.

1. `s2ObjectId`, `objectId2S`: the code.
2. `objectIdWord_eq_iff`: the strings that are added up without a borrow.
3. `objectId_roundTrip_iff`: the strings and ids that come back.
-/

namespace DreamDota

namespace ObjectId

/-! ## The code -/

/-- The numbers of Lua. `ofInteger` is the cast of `lua_pushinteger`, `toUInt` the one to `uint32_t`,
which is defined for the numbers that fit. -/
structure LuaNumbers (N : Type) where
  ofInteger : BitVec 32 → N
  toUInt : N → BitVec 32
  toString : N → List Byte
  ofString : List Byte → Option N
  ofInteger_injective : Function.Injective ofInteger
  toUInt_ofInteger : ∀ n : BitVec 32, 0 ≤ n.toInt → toUInt (ofInteger n) = n

inductive LuaValue (N : Type) where
  | number (n : N)
  | string (s : List Byte)
  | other

/-- What `luaL_argcheck` raises. -/
structure ArgError where
  arg : ℕ
  message : String
  deriving DecidableEq, Repr

/-- The characters of a string, without what follows its end. -/
def chars (str : List Byte) : List Byte := str.takeWhile (· ≠ 0)

/-- `lua_tostring`, for what `lua_isstring` accepts. -/
def toStringArg {N : Type} (lua : LuaNumbers N) : LuaValue N → Option (List Byte)
  | .number n => some (lua.toString n)
  | .string s => some s
  | .other => none

/-- `lua_tonumber`, for what `lua_isnumber` accepts. -/
def toNumberArg {N : Type} (lua : LuaNumbers N) : LuaValue N → Option N
  | .number n => some n
  | .string s => lua.ofString s
  | .other => none

/-- The value of `r`. A `char` is signed. -/
def objectIdWord (str : List Byte) : BitVec 32 :=
  ((chars str).drop 1).foldl (fun r c => r * 256 + c.signExtend 32) ((str.headD 0).signExtend 32)

variable {N : Type} (lua : LuaNumbers N)

/-- `S2ObjectId` -/
def s2ObjectId (args : List (LuaValue N)) : Except ArgError (LuaValue N) :=
  match args.head?.bind (toStringArg lua) with
  | some str => .ok (.number (lua.ofInteger (objectIdWord str)))
  | none => .error ⟨1, "'string' expected"⟩

/-- The body of the loop of `IntegerIdToChar`: the buffer and `remainingValue`. -/
def charStep (s : List Byte × BitVec 32) (byteno : ℕ) : List Byte × BitVec 32 :=
  (s.1.set (3 - byteno) ((s.2 % 256).truncate 8), s.2 / 256)

/-- `IntegerIdToCharBuffer`. Its last byte stays zero. -/
structure CharBuffer where
  bytes : List Byte
  length_eq : bytes.length = 5
  last : bytes[4]? = some 0

/-- The buffer that `IntegerIdToChar` has written. -/
def idChars (buffer : List Byte) (id : BitVec 32) : List Byte :=
  ((List.range 4).foldl charStep (buffer, id)).1

/-- The bytes of a number, the highest first. -/
def highFirst (id : BitVec 32) : List Byte := (Bytes.ofDword id).reverse

/-- What was in the buffer before is overwritten. -/
theorem idChars_eq (buffer : CharBuffer) (id : BitVec 32) :
    idChars buffer.bytes id = highFirst id ++ [0] := by
  obtain ⟨bytes, hlen, hlast⟩ := buffer
  match bytes, hlen, hlast with
  | [a, b, c, d, e], _, hlast =>
    obtain rfl : e = 0 := Option.some.inj hlast
    have hbyte : ∀ v : BitVec 32, (v % 256).truncate 8 = BitVec.ofNat 8 v.toNat := fun v => by
      apply BitVec.eq_of_toNat_eq
      rw [BitVec.truncate_eq_setWidth, BitVec.toNat_setWidth, BitVec.toNat_umod, BitVec.toNat_ofNat]
      exact Nat.mod_mod_of_dvd _ (dvd_refl 256)
    show [_, _, _, _, 0] = _
    simp only [hbyte]
    rfl

/-- `IntegerIdToChar` -/
def integerIdToChar (buffer : CharBuffer) (id : BitVec 32) : CharBuffer where
  bytes := idChars buffer.bytes id
  length_eq := by
    rw [idChars_eq, highFirst, List.length_append, List.length_reverse, Bytes.length_ofDword]
    rfl
  last := by
    have hlen : (highFirst id).length = 4 := by
      rw [highFirst, List.length_reverse, Bytes.length_ofDword]
    rw [idChars_eq, List.getElem?_append_right hlen.le, hlen]
    rfl

/-- `ObjectId2S`: what it pushes, and the buffer. -/
def objectId2S (buffer : CharBuffer) (args : List (LuaValue N)) :
    Except ArgError (LuaValue N × CharBuffer) :=
  match args.head?.bind (toNumberArg lua) with
  | some n =>
    let buffer := integerIdToChar buffer (lua.toUInt n)
    .ok (.string (chars buffer.bytes), buffer)
  | none => .error ⟨1, "'number' expected"⟩

/-! ## Strings of four characters -/

/-- A string of four characters. -/
structure IdString where
  bytes : List Byte
  length_eq : bytes.length = 4
  ne_zero : ∀ b ∈ bytes, b ≠ 0

/-- The number whose highest byte comes first. -/
def IdString.id (s : IdString) : BitVec 32 := Bytes.dword s.bytes.reverse

/-- The characters behind the first one are not negative. -/
def IdString.Ascii (s : IdString) : Prop := ∀ b ∈ s.bytes.tail, b.toNat < 128

theorem chars_eq_self {s : List Byte} (h : ∀ b ∈ s, b ≠ 0) (rest : List Byte) :
    chars (s ++ 0 :: rest) = s := by
  unfold chars
  rw [List.takeWhile_append_of_pos fun b hb => decide_eq_true (h b hb), List.takeWhile_cons_of_neg
    (by decide), List.append_nil]

theorem highFirst_id (s : IdString) : highFirst s.id = s.bytes := by
  rw [highFirst, IdString.id, Bytes.ofDword_dword (by rw [List.length_reverse, s.length_eq]),
    List.reverse_reverse]

theorem highFirst_inj {v w : BitVec 32} (h : highFirst v = highFirst w) : v = w := by
  have hbytes := congrArg Bytes.dword (List.reverse_injective h)
  rwa [Bytes.dword_ofDword, Bytes.dword_ofDword] at hbytes

/-- The characters of a buffer that begins with other bytes are others. -/
theorem chars_integerIdToChar_iff (buffer : CharBuffer) (v : BitVec 32) (s : IdString) :
    chars (integerIdToChar buffer v).bytes = s.bytes ↔ v = s.id := by
  have hbytes : (integerIdToChar buffer v).bytes = highFirst v ++ [0] := idChars_eq buffer v
  rw [hbytes]
  constructor
  · intro h
    have hprefix : s.bytes <+: highFirst v ++ [0] := h ▸ List.takeWhile_prefix _
    have hlen : s.bytes.length = (highFirst v).length := by
      rw [s.length_eq, highFirst, List.length_reverse, Bytes.length_ofDword]
    have htake := List.prefix_iff_eq_take.mp hprefix
    rw [hlen, List.take_left] at htake
    exact highFirst_inj (by rw [← htake, highFirst_id])
  · rintro rfl
    rw [highFirst_id, chars_eq_self s.ne_zero]

/-! ## The sum of the characters -/

/-- What a negative character borrows. -/
def borrow (c : Byte) : BitVec 32 := if c.toNat < 128 then 0 else 1

set_option maxRecDepth 4000 in
theorem signExtend_eq : ∀ c : Byte, c.signExtend 32 = c.setWidth 32 - 256 * borrow c := by
  decide

theorem dword_cons (c : Byte) (bs : List Byte) :
    Bytes.dword (c :: bs) = c.setWidth 32 + 256 * Bytes.dword bs := by
  rw [Bytes.dword, Bytes.toNat, BitVec.ofNat_add, BitVec.ofNat_mul, BitVec.ofNat_toNat]
  rfl

/-- All borrows but the first one stay in the number. -/
theorem borrows_eq_zero (a b c d : Byte) :
    256 * (borrow d + 256 * (borrow c + 256 * (borrow b + 256 * borrow a))) = 0 ↔
      b.toNat < 128 ∧ c.toNat < 128 ∧ d.toNat < 128 := by
  unfold borrow
  by_cases ha : a.toNat < 128 <;> by_cases hb : b.toNat < 128 <;>
    by_cases hc : c.toNat < 128 <;> by_cases hd : d.toNat < 128 <;>
    simp only [ha, hb, hc, hd, if_true, if_false] <;> decide

theorem objectIdWord_eq_iff (s : IdString) : objectIdWord s.bytes = s.id ↔ s.Ascii := by
  obtain ⟨bytes, hlen, hne⟩ := s
  match bytes, hlen, hne with
  | [a, b, c, d], _, hne =>
    have hchars : chars [a, b, c, d] = [a, b, c, d] := by
      unfold chars
      rw [List.takeWhile_eq_self_iff]
      exact fun x hx => decide_eq_true (hne x hx)
    have hword : objectIdWord [a, b, c, d] =
        ((a.signExtend 32 * 256 + b.signExtend 32) * 256 + c.signExtend 32) * 256 +
          d.signExtend 32 := by
      unfold objectIdWord
      rw [hchars]
      rfl
    have hdiff : objectIdWord [a, b, c, d] = Bytes.dword [d, c, b, a] -
        256 * (borrow d + 256 * (borrow c + 256 * (borrow b + 256 * borrow a))) := by
      rw [hword, dword_cons, dword_cons, dword_cons, dword_cons, signExtend_eq, signExtend_eq,
        signExtend_eq, signExtend_eq, show Bytes.dword [] = 0 from rfl]
      ring
    have hascii : (∀ x ∈ [b, c, d], x.toNat < 128) ↔
        b.toNat < 128 ∧ c.toNat < 128 ∧ d.toNat < 128 := by simp
    show objectIdWord [a, b, c, d] = Bytes.dword [d, c, b, a] ↔ ∀ x ∈ [b, c, d], x.toNat < 128
    rw [hascii, hdiff, sub_eq_self, borrows_eq_zero]

theorem toInt_id_nonneg {s : IdString} (h : (s.bytes.headD 0).toNat < 128) : 0 ≤ s.id.toInt := by
  obtain ⟨bytes, hlen, hne⟩ := s
  match bytes, hlen, hne, h with
  | [a, b, c, d], _, _, h =>
    have hvalue : (Bytes.dword [d, c, b, a]).toNat = Bytes.toNat [d, c, b, a] := by
      rw [Bytes.dword, BitVec.toNat_ofNat]
      exact Nat.mod_eq_of_lt ((Bytes.toNat_lt [d, c, b, a]).trans_le
        (show 256 ^ 4 ≤ 2 ^ 32 by decide))
    have hsmall : Bytes.toNat [d, c, b, a] < 2 ^ 31 := by
      have hlow := Bytes.toNat_lt [d, c, b]
      have ha : a.toNat < 128 := h
      simp only [Bytes.toNat, List.length_cons, List.length_nil] at hlow ⊢
      omega
    show 0 ≤ (Bytes.dword [d, c, b, a]).toInt
    rw [BitVec.toInt_eq_toNat_of_lt (by omega)]
    exact Int.natCast_nonneg _

/-! ## Back again -/

/-- The number of a string leads back to the string, in C++ and in Lua. -/
structure StringBack (lua : LuaNumbers N) (buffer : CharBuffer) (s : IdString) : Prop where
  integerIdToChar : chars (integerIdToChar buffer (objectIdWord s.bytes)).bytes = s.bytes
  objectId2S : ∃ n buffer', s2ObjectId lua [.string s.bytes] = .ok n ∧
    objectId2S lua buffer [n] = .ok (.string s.bytes, buffer')

/-- The string of an id leads back to the id. -/
def IdBack (lua : LuaNumbers N) (buffer : CharBuffer) (id : BitVec 32) : Prop :=
  s2ObjectId lua [.string (chars (ObjectId.integerIdToChar buffer id).bytes)] =
    .ok (.number (lua.ofInteger id))

theorem stringBack_iff (buffer : CharBuffer) (s : IdString) :
    StringBack lua buffer s ↔
      s.Ascii ∧ ((s.bytes.headD 0).toNat < 128 ∨ lua.toUInt (lua.ofInteger s.id) = s.id) := by
  constructor
  · rintro ⟨hchars, n, buffer', hn, hback⟩
    rw [chars_integerIdToChar_iff] at hchars
    refine ⟨(objectIdWord_eq_iff s).mp hchars, .inr ?_⟩
    obtain rfl := Except.ok.inj hn
    rw [hchars] at hback
    have hstring := (Prod.mk.inj (Except.ok.inj hback)).1
    exact (chars_integerIdToChar_iff buffer _ s).mp (LuaValue.string.inj hstring)
  · rintro ⟨hascii, hconv⟩
    have hword := (objectIdWord_eq_iff s).mpr hascii
    have hnumber : lua.toUInt (lua.ofInteger s.id) = s.id :=
      hconv.elim (fun h => lua.toUInt_ofInteger s.id (toInt_id_nonneg h)) id
    refine ⟨(chars_integerIdToChar_iff buffer _ s).mpr hword, .number (lua.ofInteger s.id),
      ObjectId.integerIdToChar buffer (lua.toUInt (lua.ofInteger s.id)), by rw [← hword]; rfl, ?_⟩
    show Except.ok (LuaValue.string (chars (ObjectId.integerIdToChar buffer (lua.toUInt
      (lua.ofInteger s.id))).bytes), _) = _
    rw [(chars_integerIdToChar_iff buffer _ s).mpr hnumber]

/-- An id without zero bytes is the id of its string. -/
theorem idBack_id_iff (buffer : CharBuffer) (s : IdString) : IdBack lua buffer s.id ↔ s.Ascii := by
  unfold IdBack
  rw [(chars_integerIdToChar_iff buffer s.id s).mpr rfl, ← objectIdWord_eq_iff]
  constructor
  · exact fun h => lua.ofInteger_injective (LuaValue.number.inj (Except.ok.inj h))
  · exact fun h => congrArg (fun v => Except.ok (LuaValue.number (lua.ofInteger v))) h

theorem exists_idString {id : BitVec 32} (h : ∀ b ∈ Bytes.ofDword id, b ≠ 0) :
    ∃ s : IdString, s.bytes = highFirst id ∧ s.id = id := by
  refine ⟨⟨highFirst id, ?_, fun b hb => h b (List.mem_reverse.mp hb)⟩, rfl, ?_⟩
  · rw [highFirst, List.length_reverse, Bytes.length_ofDword]
  · show Bytes.dword (Bytes.ofDword id).reverse.reverse = id
    rw [List.reverse_reverse, Bytes.dword_ofDword]

/-- The strings and the ids that come back. -/
theorem objectId_roundTrip_iff (buffer : CharBuffer) :
    (∀ s : IdString, StringBack lua buffer s ↔ (∀ b ∈ s.bytes.tail, b.toNat < 128) ∧
      ((s.bytes.headD 0).toNat < 128 ∨ lua.toUInt (lua.ofInteger s.id) = s.id)) ∧
    ∀ id : BitVec 32, (∀ b ∈ Bytes.ofDword id, b ≠ 0) →
      (IdBack lua buffer id ↔ ∀ b ∈ (Bytes.ofDword id).reverse.tail, b.toNat < 128) := by
  refine ⟨stringBack_iff lua buffer, fun id h => ?_⟩
  obtain ⟨s, hbytes, rfl⟩ := exists_idString h
  rw [idBack_id_iff, IdString.Ascii, hbytes]
  rfl

/-! ## Numbers for a run -/

/-- Integers, of which the negative ones are converted to zero. -/
def intNumbers : LuaNumbers ℤ where
  ofInteger n := n.toInt
  toUInt n := if 0 ≤ n then BitVec.ofInt 32 n else 0
  toString n := n.repr.toList.map fun c => BitVec.ofNat 8 c.toNat
  ofString _ := none
  ofInteger_injective _ _ h := BitVec.toInt_inj.mp h
  toUInt_ofInteger n hn := by rw [if_pos hn, BitVec.ofInt_toInt]

/-- `IntegerIdToCharBuffer` at the start. -/
def zeroBuffer : CharBuffer := ⟨List.replicate 5 0, rfl, rfl⟩

/-- `"hfoo"` -/
theorem objectId_roundTrip_hfoo : IdBack intNumbers zeroBuffer 0x68666F6F :=
  ((objectId_roundTrip_iff intNumbers zeroBuffer).2 0x68666F6F (by decide)).mpr (by decide)

/-- A string whose last character is negative. -/
theorem not_stringBack_negative :
    ¬StringBack intNumbers zeroBuffer ⟨[0x68, 0x66, 0x6F, 0xE9], rfl, by decide⟩ := by
  rw [stringBack_iff]
  exact fun h => absurd (h.1 0xE9 (by decide)) (by decide)

end ObjectId

end DreamDota
