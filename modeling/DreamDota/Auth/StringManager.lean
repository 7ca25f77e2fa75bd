import DreamDota.Lib.Bytes
import Mathlib.Data.List.Basic

/-!
# The string table

`GenerateString2.py` builds the blob of a language, and `StringManager.cpp` reads it. An exception
of the script, and an access outside of the blob or the buffer, is the result `none`.

1. `generate_eq`: the blob is the header, the offsets and the words of the strings.
2. `getDword_blob`: a word of the blob is decrypted.
3. `getString_eq`: the loop that fills the buffer.
-/

namespace DreamDota

open Bytes

/-- 32 words. -/
abbrev KeyArray := Fin 32 → BitVec 32

/-! ## `GenerateString2.py` -/

/-- `s` with zeros up to a multiple of four bytes. -/
def padded (s : List Byte) : List Byte :=
  if s.length % 4 ≠ 0 then s ++ List.replicate (4 - s.length % 4) 0 else s

/-- `array.array('L', s)`. -/
def arrayL : List Byte → List (BitVec 32)
  | a :: b :: c :: d :: s => dword [a, b, c, d] :: arrayL s
  | _ => []

/-- `arr.append(value)`, which raises an `OverflowError`. -/
def arrayAppend (arr : List (BitVec 32)) (value : ℕ) : Option (List (BitVec 32)) :=
  if value < 2 ^ 32 then some (arr ++ [BitVec.ofNat 32 value]) else none

/-- `ArrayXOR`. -/
def arrayXor (key : KeyArray) (arr : List (BitVec 32)) : List (BitVec 32) :=
  arr.mapIdx fun i old => old ^^^ key (Fin.ofNat 32 i)

/-- The loop over the strings. Its state is `offset`, `outArr` and `dataArr`. -/
def generateLoop : List (List Byte) → ℕ → List (BitVec 32) → List (BitVec 32) →
    Option (ℕ × List (BitVec 32) × List (BitVec 32))
  | [], offset, outArr, dataArr => some (offset, outArr, dataArr)
  | s :: table, offset, outArr, dataArr => do
    let s := padded s
    let outArr ← arrayAppend outArr offset
    generateLoop table (offset + s.length) outArr (dataArr ++ arrayL s)

/-- The body of `Main` for one language, whose strings are `table`. -/
def generate (key : KeyArray) (table : List (List Byte)) : Option (List (BitVec 32)) := do
  let outArr ← arrayAppend [] table.length
  let (offset, outArr, dataArr) ← generateLoop table 0 outArr []
  let outArr ← arrayAppend outArr offset
  return arrayXor key (outArr ++ dataArr)

/-! ## `StringManager.cpp` -/

/-- `DecryptBlock`, where the block `i` is registered with the word `i` of the key. -/
def decryptBlock (key : KeyArray) (i : Fin 32) (src : BitVec 32) : BitVec 32 := src ^^^ key i

/-- `GetDword`, where `data` is `StringData.data`. -/
def getDword (key : KeyArray) (data : List (BitVec 32)) (index : BitVec 32) :
    Option (BitVec 32) := do
  let d := index % 32
  return decryptBlock key (Fin.ofNat 32 d.toNat) (← data[index.toNat]?)

/-- `GetString`. Its result is the buffer. -/
def getString (key : KeyArray) (data : List (BitVec 32)) (id size : BitVec 32)
    (buffer : List Byte) : Option (List Byte) := do
  let count ← getDword key data 0
  let offset ← getDword key data (1 + id)
  (List.range (size / 4).toNat).foldlM
    (fun buffer i => do
      let pos := (1 + count + 1 + (offset / 4)) + BitVec.ofNat 32 i
      writeDword buffer (4 * i) (← getDword key data pos))
    buffer

/-- `GetStringLength`. -/
def getStringLength (key : KeyArray) (data : List (BitVec 32)) (id : BitVec 32) :
    Option (BitVec 32) := do
  let _count ← getDword key data 0
  let offset ← getDword key data (1 + id)
  return (← getDword key data (1 + id + 1)) - offset

/-- `std::string::assign` of a C string. -/
def assign (buffer : List Byte) : Option (List Byte) :=
  if 0 ∈ buffer then some (buffer.takeWhile (· ≠ 0)) else none

/-- `StringUTF8`. The new buffer holds `garbage`. -/
def stringUTF8 (key : KeyArray) (data : List (BitVec 32)) (garbage : ℕ → Byte) (id : BitVec 32) :
    Option (List Byte) := do
  let size ← getStringLength key data id
  let buffer := (List.range (size + 1).toNat).map garbage
  let buffer ← getString key data id size buffer
  let buffer ← write buffer size.toNat [0]
  assign buffer

/-! ## Padded strings -/

variable {key : KeyArray} {s : List Byte} {table : List (List Byte)} {i acc : ℕ}

theorem length_padded (s : List Byte) : (padded s).length = (s.length + 3) / 4 * 4 := by
  unfold padded
  split_ifs with h
  · rw [List.length_append, List.length_replicate]
    omega
  · omega

theorem length_arrayL (s : List Byte) : (arrayL s).length = s.length / 4 := by
  fun_induction arrayL s with
  | case1 a b c d s ih =>
    simp only [List.length_cons, ih]
    omega
  | case2 s hs =>
    have hshort : s.length < 4 := by
      match s, hs with
      | [], _ | [_], _ | [_, _], _ | [_, _, _], _ => simp
      | a :: b :: c :: d :: s, hs => exact absurd rfl (hs a b c d s)
    rw [List.length_nil, Nat.div_eq_of_lt hshort]

/-- The bytes of the words of a string are the string. -/
theorem flatMap_arrayL (h : s.length % 4 = 0) : (arrayL s).flatMap ofDword = s := by
  fun_induction arrayL s with
  | case1 a b c d s ih =>
    simp only [List.length_cons] at h
    rw [List.flatMap_cons, ih (by omega), ofDword_dword rfl]
    rfl
  | case2 s hs =>
    match s, hs with
    | [], _ => rfl
    | [_], _ | [_, _], _ | [_, _, _], _ => simp at h
    | a :: b :: c :: d :: s, hs => exact absurd rfl (hs a b c d s)

/-- A C string ends before the padding. -/
theorem takeWhile_padded (hnul : 0 ∉ s) : (padded s ++ [0]).takeWhile (· ≠ 0) = s := by
  have htake (n : ℕ) : (s ++ List.replicate (n + 1) (0 : Byte)).takeWhile (· ≠ 0) = s := by
    rw [List.takeWhile_append_of_pos, List.replicate_succ, List.takeWhile_cons_of_neg (by decide),
      List.append_nil]
    intro b hb
    rw [decide_eq_true_iff]
    rintro rfl
    exact hnul hb
  unfold padded
  split_ifs
  · rw [List.append_assoc, ← List.replicate_succ']
    exact htake _
  · exact htake 0

/-! ## The blob -/

/-- The size of the strings. -/
def tableSize (table : List (List Byte)) : ℕ := (table.flatMap padded).length

/-- The offsets of the strings, the first of which begins at `acc`, and the last end. -/
def offsets : ℕ → List (List Byte) → List (BitVec 32)
  | acc, [] => [BitVec.ofNat 32 acc]
  | acc, s :: table => BitVec.ofNat 32 acc :: offsets (acc + (padded s).length) table

/-- The words of the strings. -/
def stringWords (table : List (List Byte)) : List (BitVec 32) :=
  table.flatMap fun s => arrayL (padded s)

/-- The blob before it is encrypted. -/
def plainBlob (table : List (List Byte)) : List (BitVec 32) :=
  BitVec.ofNat 32 table.length :: (offsets 0 table ++ stringWords table)

theorem tableSize_cons : tableSize (s :: table) = (padded s).length + tableSize table := by
  rw [tableSize, List.flatMap_cons, List.length_append, tableSize]

theorem generateLoop_eq (key : KeyArray) (table : List (List Byte)) (acc : ℕ)
    (outArr dataArr : List (BitVec 32)) :
    ((generateLoop table acc outArr dataArr).bind fun r =>
        (arrayAppend r.2.1 r.1).bind fun outArr => some (arrayXor key (outArr ++ r.2.2))) =
      if acc + tableSize table < 2 ^ 32 then
        some (arrayXor key ((outArr ++ offsets acc table) ++ (dataArr ++ stringWords table)))
      else none := by
  induction table generalizing acc outArr dataArr with
  | nil =>
    simp only [generateLoop, Option.bind_some, arrayAppend, offsets, stringWords, tableSize,
      List.flatMap_nil, List.append_nil, List.length_nil, Nat.add_zero]
    split_ifs <;> rfl
  | cons s table ih =>
    have hwords : stringWords (s :: table) = arrayL (padded s) ++ stringWords table :=
      List.flatMap_cons
    rw [generateLoop, arrayAppend, tableSize_cons]
    by_cases hacc : acc < 2 ^ 32
    · simp only [if_pos hacc, Option.bind_eq_bind, Option.bind_some, ih, offsets, hwords,
        List.append_assoc, List.singleton_append, Nat.add_assoc]
    · rw [if_neg hacc, if_neg (by omega)]
      rfl

/-- The script succeeds when the number of strings and the offsets are words. -/
theorem generate_eq (key : KeyArray) (table : List (List Byte)) :
    generate key table = if table.length < 2 ^ 32 ∧ tableSize table < 2 ^ 32 then
      some (arrayXor key (plainBlob table)) else none := by
  have hloop := generateLoop_eq key table 0 [BitVec.ofNat 32 table.length] []
  rw [Nat.zero_add, List.nil_append, List.append_assoc] at hloop
  unfold generate
  rw [arrayAppend]
  by_cases hcount : table.length < 2 ^ 32
  · simp only [hcount, true_and, ↓reduceIte]
    exact hloop
  · simp only [hcount, false_and, ↓reduceIte]
    rfl

theorem length_offsets : (offsets acc table).length = table.length + 1 := by
  induction table generalizing acc with
  | nil => rfl
  | cons s table ih => rw [offsets, List.length_cons, ih, List.length_cons]

/-- An offset is the size of the strings before it. -/
theorem offsets_getElem (hi : i ≤ table.length) :
    (offsets acc table)[i]? = some (BitVec.ofNat 32 (acc + tableSize (table.take i))) := by
  induction table generalizing acc i with
  | nil =>
    obtain rfl := Nat.le_zero.mp hi
    rfl
  | cons s table ih =>
    cases i with
    | zero => rfl
    | succ i =>
      rw [offsets, List.getElem?_cons_succ, ih (Nat.le_of_succ_le_succ hi), List.take_succ_cons,
        tableSize_cons, Nat.add_assoc]

theorem length_stringWords (table : List (List Byte)) :
    4 * (stringWords table).length = tableSize table := by
  induction table with
  | nil => rfl
  | cons s table ih =>
    have hpad := length_padded s
    rw [stringWords, List.flatMap_cons, List.length_append, length_arrayL, ← stringWords,
      tableSize_cons]
    omega

/-- A string, and those before and after it. -/
theorem table_split (hi : i < table.length) :
    table = table.take i ++ (table[i] :: table.drop (i + 1)) := by
  rw [← List.drop_eq_getElem_cons hi, List.take_append_drop]

theorem tableSize_take_succ (hi : i < table.length) :
    tableSize (table.take (i + 1)) = tableSize (table.take i) + (padded table[i]).length := by
  rw [List.take_add_one, List.getElem?_eq_getElem hi, tableSize, List.flatMap_append,
    List.length_append, Option.toList_some, List.flatMap_singleton, tableSize]

theorem tableSize_take_le (table : List (List Byte)) (i : ℕ) :
    tableSize (table.take i) ≤ tableSize table := by
  have h := congrArg tableSize (List.take_append_drop i table)
  unfold tableSize at *
  rw [List.flatMap_append, List.length_append] at h
  omega

theorem stringWords_getElem (hi : i < table.length) {j : ℕ}
    (hj : 4 * j < (padded table[i]).length) :
    (stringWords table)[tableSize (table.take i) / 4 + j]? = (arrayL (padded table[i]))[j]? := by
  have hbefore : (stringWords (table.take i)).length = tableSize (table.take i) / 4 := by
    rw [← length_stringWords (table.take i)]
    omega
  have hlen : j < (arrayL (padded table[i])).length := by
    have hpad := length_padded table[i]
    rw [length_arrayL]
    omega
  have hsplit : stringWords table = stringWords (table.take i) ++
      (arrayL (padded table[i]) ++ stringWords (table.drop (i + 1))) := by
    conv_lhs => rw [table_split hi]
    rw [stringWords, List.flatMap_append, List.flatMap_cons]
    rfl
  rw [hsplit, List.getElem?_append_right (by omega), hbefore, Nat.add_sub_cancel_left,
    List.getElem?_append_left hlen]

/-! ## The decoder -/

theorem getDword_arrayXor {arr : List (BitVec 32)} (index : BitVec 32) :
    getDword key (arrayXor key arr) index = arr[index.toNat]? := by
  have hmod : (index % 32).toNat = index.toNat % 32 := by
    rw [BitVec.toNat_umod]
    rfl
  have hkey : Fin.ofNat 32 (index.toNat % 32) = Fin.ofNat 32 index.toNat := by
    apply Fin.ext
    exact Nat.mod_mod _ _
  rw [getDword, arrayXor, List.getElem?_mapIdx, hmod, hkey]
  cases arr[index.toNat]? with
  | none => rfl
  | some w =>
    simp only [Option.map_some, Option.bind_eq_bind, Option.bind_some, decryptBlock,
      BitVec.xor_assoc, BitVec.xor_self, BitVec.xor_zero]
    rfl

theorem plainBlob_offset (hi : i ≤ table.length) :
    (plainBlob table)[1 + i]? = some (BitVec.ofNat 32 (tableSize (table.take i))) := by
  rw [plainBlob, Nat.add_comm 1 i, List.getElem?_cons_succ,
    List.getElem?_append_left (by rw [length_offsets]; omega), offsets_getElem hi, Nat.zero_add]

theorem plainBlob_word (hi : i < table.length) {j : ℕ} (hj : 4 * j < (padded table[i]).length) :
    (plainBlob table)[1 + table.length + 1 + tableSize (table.take i) / 4 + j]? =
      (arrayL (padded table[i]))[j]? := by
  have hpos : 1 + table.length + 1 + tableSize (table.take i) / 4 + j =
      (offsets 0 table).length + (tableSize (table.take i) / 4 + j) + 1 := by
    rw [length_offsets]
    omega
  rw [plainBlob, hpos, List.getElem?_cons_succ, List.getElem?_append_right (by omega),
    Nat.add_sub_cancel_left, stringWords_getElem hi hj]

theorem length_plainBlob (table : List (List Byte)) :
    4 * (plainBlob table).length = 4 * (table.length + 2) + tableSize table := by
  have hwords := length_stringWords table
  rw [plainBlob, List.length_cons, List.length_append, length_offsets]
  omega

section Decoder

variable {id : BitVec 32} (hsize : (plainBlob table).length ≤ 2 ^ 32)

theorem getDword_offset (hi : i ≤ table.length) (hlt : 1 + i < 2 ^ 32) :
    getDword key (arrayXor key (plainBlob table)) (BitVec.ofNat 32 (1 + i)) =
      some (BitVec.ofNat 32 (tableSize (table.take i))) := by
  rw [getDword_arrayXor, BitVec.toNat_ofNat, Nat.mod_eq_of_lt hlt, plainBlob_offset hi]

include hsize

theorem getDword_id (hid : id.toNat < table.length) :
    getDword key (arrayXor key (plainBlob table)) (1 + id) =
      some (BitVec.ofNat 32 (tableSize (table.take id.toNat))) := by
  have hlen := length_plainBlob table
  have hindex : 1 + id = BitVec.ofNat 32 (1 + id.toNat) := by
    rw [BitVec.ofNat_add, BitVec.ofNat_toNat, BitVec.setWidth_eq]
    rfl
  rw [hindex, getDword_offset hid.le (by omega)]

theorem getStringLength_eq (hid : id.toNat < table.length) :
    getStringLength key (arrayXor key (plainBlob table)) id =
      some (BitVec.ofNat 32 (padded table[id.toNat]).length) := by
  have hlen := length_plainBlob table
  have hindex : 1 + id + 1 = BitVec.ofNat 32 (1 + (id.toNat + 1)) := by
    rw [← Nat.add_assoc, BitVec.ofNat_add, BitVec.ofNat_add, BitVec.ofNat_toNat,
      BitVec.setWidth_eq]
    rfl
  have hsub : BitVec.ofNat 32 (tableSize (table.take (id.toNat + 1))) -
      BitVec.ofNat 32 (tableSize (table.take id.toNat)) =
        BitVec.ofNat 32 (padded table[id.toNat]).length := by
    rw [tableSize_take_succ hid, BitVec.ofNat_add, BitVec.add_comm, BitVec.add_sub_cancel]
  rw [getStringLength, hindex, getDword_offset hid (by omega), getDword_id hsize hid, ← hsub,
    getDword_arrayXor]
  rfl

/-- A word of a string, at the position that `GetString` computes. -/
theorem getDword_pos (hdata : tableSize table < 2 ^ 32) (hid : id.toNat < table.length) {j : ℕ}
    (hj : j < (arrayL (padded table[id.toNat])).length) :
    getDword key (arrayXor key (plainBlob table))
        ((1 + BitVec.ofNat 32 table.length + 1 +
          (BitVec.ofNat 32 (tableSize (table.take id.toNat)) / 4)) + BitVec.ofNat 32 j) =
      some (arrayL (padded table[id.toNat]))[j] := by
  have hlen := length_plainBlob table
  have hend := tableSize_take_le table (id.toNat + 1)
  rw [tableSize_take_succ hid] at hend
  rw [length_arrayL] at hj
  have hdiv : BitVec.ofNat 32 (tableSize (table.take id.toNat)) / 4 =
      BitVec.ofNat 32 (tableSize (table.take id.toNat) / 4) := by
    have hfour : (4 : BitVec 32).toNat = 4 := rfl
    apply BitVec.eq_of_toNat_eq
    rw [BitVec.toNat_udiv, hfour, BitVec.toNat_ofNat, BitVec.toNat_ofNat]
    omega
  have hpos : (1 + BitVec.ofNat 32 table.length + 1 +
      BitVec.ofNat 32 (tableSize (table.take id.toNat) / 4)) + BitVec.ofNat 32 j =
        BitVec.ofNat 32 (1 + table.length + 1 + tableSize (table.take id.toNat) / 4 + j) := by
    rw [BitVec.ofNat_add, BitVec.ofNat_add, BitVec.ofNat_add, BitVec.ofNat_add]
    rfl
  rw [hdiv, hpos, getDword_arrayXor, BitVec.toNat_ofNat, Nat.mod_eq_of_lt (by omega),
    plainBlob_word hid (by omega), List.getElem?_eq_getElem]

/-- The buffer after `GetString`. -/
theorem getString_eq (hdata : tableSize table < 2 ^ 32) (hid : id.toNat < table.length)
    {room rest : List Byte} (hroom : room.length = (padded table[id.toNat]).length) :
    getString key (arrayXor key (plainBlob table)) id
        (BitVec.ofNat 32 (padded table[id.toNat]).length) (room ++ rest) =
      some (padded table[id.toNat] ++ rest) := by
  have hpad := length_padded table[id.toNat]
  have hend := tableSize_take_le table (id.toNat + 1)
  rw [tableSize_take_succ hid] at hend
  have hcount : getDword key (arrayXor key (plainBlob table)) 0 =
      some (BitVec.ofNat 32 table.length) :=
    getDword_arrayXor 0
  have hwords : (BitVec.ofNat 32 (padded table[id.toNat]).length / 4).toNat =
      (arrayL (padded table[id.toNat])).length := by
    have hfour : (4 : BitVec 32).toNat = 4 := rfl
    rw [BitVec.toNat_udiv, hfour, BitVec.toNat_ofNat, length_arrayL]
    omega
  let words := arrayL (padded table[id.toNat])
  have hfill : (List.range words.length).foldlM
      (fun buffer i => do
        let pos := (1 + BitVec.ofNat 32 table.length + 1 +
          (BitVec.ofNat 32 (tableSize (table.take id.toNat)) / 4)) + BitVec.ofNat 32 i
        writeDword buffer (4 * i) (← getDword key (arrayXor key (plainBlob table)) pos))
      (room ++ rest) =
        some ((words.take words.length).flatMap ofDword ++ rest) := by
    refine foldlM_writeDword le_rfl (by rw [hroom, length_arrayL]; omega) fun b j hj => ?_
    simp only [getDword_pos hsize hdata hid hj, Option.bind_eq_bind, Option.bind_some]
    rfl
  rw [List.take_length, flatMap_arrayL (by omega)] at hfill
  unfold getString
  rw [hcount, getDword_id hsize hid, Option.bind_eq_bind, Option.bind_some, Option.bind_some,
    hwords]
  exact hfill

end Decoder

/-- The decoder gives back every string of the table. -/
theorem stringUTF8_generate {blob : List (BitVec 32)} {id : BitVec 32}
    (hnul : ∀ s ∈ table, 0 ∉ s) (hblob : generate key table = some blob)
    (hsize : blob.length ≤ 2 ^ 32) (hid : id.toNat < table.length) (garbage : ℕ → Byte) :
    stringUTF8 key blob garbage id = some table[id.toNat] := by
  rw [generate_eq] at hblob
  split_ifs at hblob with hfits
  obtain rfl := Option.some.inj hblob
  rw [arrayXor, List.length_mapIdx] at hsize
  have hpad := length_padded table[id.toNat]
  have hend := tableSize_take_le table (id.toNat + 1)
  rw [tableSize_take_succ hid] at hend
  have hnat : (BitVec.ofNat 32 (padded table[id.toNat]).length).toNat =
      (padded table[id.toNat]).length := by
    rw [BitVec.toNat_ofNat]
    exact Nat.mod_eq_of_lt (by omega)
  have hnew : (BitVec.ofNat 32 (padded table[id.toNat]).length + 1).toNat =
      (padded table[id.toNat]).length + 1 := by
    have hone : (1 : BitVec 32).toNat = 1 := rfl
    rw [BitVec.toNat_add, hnat, hone]
    exact Nat.mod_eq_of_lt (by omega)
  obtain ⟨room, rest, hbuffer, hroom, hrest⟩ :=
    exists_append (b := (List.range ((padded table[id.toNat]).length + 1)).map garbage)
      (k := (padded table[id.toNat]).length)
      (by rw [List.length_map, List.length_range]; exact Nat.le_succ _)
  rw [List.length_map, List.length_range, Nat.add_sub_cancel_left] at hrest
  have hend : write (padded table[id.toNat] ++ (rest ++ [])) (padded table[id.toNat]).length [0] =
      some (padded table[id.toNat] ++ ([0] ++ [])) :=
    write_append rfl hrest
  rw [List.append_nil, List.append_nil] at hend
  have hassign : assign (padded table[id.toNat] ++ [0]) = some table[id.toNat] := by
    rw [assign, if_pos (List.mem_append_right _ (List.mem_singleton.mpr rfl)),
      takeWhile_padded (hnul _ (List.getElem_mem hid))]
  unfold stringUTF8
  rw [getStringLength_eq hsize hid]
  simp only [Option.bind_eq_bind, Option.bind_some, hnew, hbuffer,
    getString_eq hsize hfits.2 hid hroom, hnat, hend, hassign]

/-- The second of two strings. -/
theorem stringUTF8_second : ∃ blob,
    generate (fun i => BitVec.ofNat 32 (7 * i + 3)) [[1, 2, 3], [4, 5, 6, 7, 8]] = some blob ∧
      stringUTF8 (fun i => BitVec.ofNat 32 (7 * i + 3)) blob (fun _ => 9) 1 =
        some [4, 5, 6, 7, 8] :=
  ⟨_, rfl, @stringUTF8_generate _ [[1, 2, 3], [4, 5, 6, 7, 8]] _ 1 (by decide) rfl (by decide)
    (by decide) _⟩

end DreamDota
