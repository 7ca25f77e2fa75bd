import DreamDota.Lib.Bytes

/-!
# Messages

`Message.cpp`: a message is a header, a table with the end offset of every field, and the fields.
A function that reads or writes outside of the buffer it was given has the result `none`.
Allocations succeed, and a field of size 0 has no bytes.
-/

namespace DreamDota

open Bytes

/-- `fields_size` and `fields_data` are arrays, which may be longer than `fieldc`. -/
structure MessageFieldsData where
  fieldc : BitVec 8
  fieldsSize : List (BitVec 32)
  fieldsData : List (List Byte)
  deriving DecidableEq, Repr

/-- The data with the given fields. -/
def MessageFieldsData.of (fields : List (List Byte)) : MessageFieldsData where
  fieldc := BitVec.ofNat 8 fields.length
  fieldsSize := fields.map fun f => BitVec.ofNat 32 f.length
  fieldsData := fields

/-- `sizeof(MessageHeader)`: `type` at 0, `session_id` at 2, `fieldc` at 34 and `hash` at 36. -/
def sizeofMessageHeader : ℕ := 40

/-! ## `message_get_fields` -/

/-- `cur_offset` and `next_offset` of a field. -/
def fieldBounds (message : List Byte) (i : ℕ) : Option (BitVec 32 × BitVec 32) := do
  let curOffset ← if i = 0 then some 0 else readDword message (sizeofMessageHeader + 4 * (i - 1))
  let nextOffset ← readDword message (sizeofMessageHeader + 4 * i)
  return (curOffset, nextOffset)

/-- The check of one offset. -/
def offsetOk (message : List Byte) (dataSize : BitVec 32) (i : ℕ) : Option Bool := do
  let (curOffset, nextOffset) ← fieldBounds message i
  let fieldSize := nextOffset - curOffset
  return !(fieldSize < 0 || dataSize < curOffset + fieldSize)

/-- The copy of one field. `data` is where the fields begin. -/
def copyField (message : List Byte) (data i : ℕ) : Option (BitVec 32 × List Byte) := do
  let (curOffset, nextOffset) ← fieldBounds message i
  let fieldSize := nextOffset - curOffset
  let field ← if fieldSize ≠ 0 then read message (data + curOffset.toNat) fieldSize.toNat
    else some []
  return (fieldSize, field)

/-- `message_get_fields`. The inner `none` is the result `false`. -/
def messageGetFields (message : List Byte) (size : BitVec 32) :
    Option (Option MessageFieldsData) := do
  let fieldc := (word (← read message 34 2)).zeroExtend 32
  let dataSize := size - BitVec.ofNat 32 sizeofMessageHeader - 4 * fieldc
  -- `data_size` is an `int32_t`
  if BitVec.slt 0 dataSize then
    if ← (List.range fieldc.toNat).allM (offsetOk message dataSize) then
      let fields ← (List.range fieldc.toNat).mapM
        (copyField message (sizeofMessageHeader + 4 * fieldc.toNat))
      return some
        { fieldc := fieldc.truncate 8
          fieldsSize := fields.map Prod.fst
          fieldsData := fields.map Prod.snd }
    else return none
  else return none

/-- The fields that `message_get_fields` allocated. -/
def MessageFieldsData.allocated (data : MessageFieldsData) : List ℕ :=
  (List.range data.fieldsSize.length).filter fun i => data.fieldsSize[i]? ≠ some 0

/-- The fields that `message_clear_fields` deletes. -/
def messageClearFields (data : MessageFieldsData) : List ℕ :=
  (List.range data.fieldc.toNat).filter fun i => data.fieldsSize[i]? ≠ some 0

/-! ## `message_build` -/

def messageSizeCalc (data : MessageFieldsData) : BitVec 32 :=
  let rv := BitVec.ofNat 32 sizeofMessageHeader + data.fieldc.zeroExtend 32 * 4
  let rv := (data.fieldsSize.take data.fieldc.toNat).foldl (· + ·) rv
  if rv % 4 ≠ 0 then rv + (4 - rv % 4) else rv

/-- The loop that writes the offsets. Its result is the buffer and `offset`. -/
def writeOffsets : List (BitVec 32) → BitVec 32 → BitVec 32 → List Byte →
    Option (List Byte × BitVec 32)
  | [], _, offset, buffer => some (buffer, offset)
  | size :: sizes, fieldOffset, offset, buffer => do
    let fieldOffset := fieldOffset + size
    let buffer ← writeDword buffer offset.toNat fieldOffset
    writeOffsets sizes fieldOffset (offset + 4) buffer

/-- The loop that writes the fields. -/
def writeFields : List (BitVec 32 × List Byte) → BitVec 32 → List Byte → Option (List Byte)
  | [], _, buffer => some buffer
  | (fieldSize, field) :: fields, offset, buffer =>
    if fieldSize ≠ 0 then do
      let buffer ← write buffer offset.toNat (← read field 0 fieldSize.toNat)
      writeFields fields (offset + fieldSize) buffer
    else writeFields fields offset buffer

/-- `message_build`: its result and the buffer. -/
def messageBuild (type : BitVec 16) (data : MessageFieldsData) (buffer : List Byte)
    (bufferSize : BitVec 32) : Option (Bool × List Byte) :=
  if messageSizeCalc data ≤ bufferSize then do
    let buffer ← write buffer 2 (List.replicate 32 0)
    let buffer ← writeDword buffer 36 0
    let buffer ← write buffer 0 (ofWord type)
    let buffer ← write buffer 34 (ofWord (data.fieldc.zeroExtend 16))
    let sizes := data.fieldsSize.take data.fieldc.toNat
    let (buffer, offset) ← writeOffsets sizes 0 (BitVec.ofNat 32 sizeofMessageHeader) buffer
    let buffer ← writeFields (sizes.zip data.fieldsData) offset buffer
    return (true, buffer)
  else return (false, buffer)

end DreamDota
