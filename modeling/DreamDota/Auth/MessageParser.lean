import DreamDota.Auth.Message

/-!
# Received messages

`message_get_fields` reads the header before it looks at the size, takes an offset that is smaller
than the one before it for a large unsigned one, and stores the number of fields in a byte.
`parserOk_iff` says exactly which messages it handles as it should.

1. `offsetOk_eq`, `copyField_eq`: what is checked and what is copied of one field.
2. `slt_dataSize`: the signed test of the size, which wraps around for a short buffer.
3. `messageGetFields_of_accepted`, `messageGetFields_of_not_accepted`: the two results.
4. `messageGetFields_slices`: what is returned when the offsets are in order.
-/

namespace DreamDota

open Bytes

variable {message : List Byte} {i : ℕ}

/-- The number of fields that the header names. -/
def headerFieldc (message : List Byte) : ℕ := (word ((message.drop 34).take 2)).toNat

/-- The boundaries of the fields: 0 and the offsets of the table. -/
def boundary (message : List Byte) : ℕ → BitVec 32
  | 0 => 0
  | i + 1 => dword ((message.drop (sizeofMessageHeader + 4 * i)).take 4)

/-- The length of the header and the table. -/
def dataStart (message : List Byte) : ℕ := sizeofMessageHeader + 4 * headerFieldc message

/-- The size of the data after the table. -/
def dataLength (message : List Byte) : ℕ := message.length - dataStart message

theorem headerFieldc_lt (message : List Byte) : headerFieldc message < 65536 :=
  (word ((message.drop 34).take 2)).isLt

/-! ## One field -/

theorem fieldBounds_eq (h : sizeofMessageHeader + 4 * (i + 1) ≤ message.length) :
    fieldBounds message i = some (boundary message i, boundary message (i + 1)) := by
  have hnext : readDword message (sizeofMessageHeader + 4 * i) = some (boundary message (i + 1)) :=
    readDword_eq (by omega)
  cases i with
  | zero =>
    simp only [fieldBounds, ↓reduceIte, hnext]
    rfl
  | succ i =>
    have hcur : readDword message (sizeofMessageHeader + 4 * i) =
        some (boundary message (i + 1)) :=
      readDword_eq (by omega)
    simp only [fieldBounds, Nat.succ_ne_zero, ↓reduceIte, Nat.add_sub_cancel, hcur, hnext]
    rfl

theorem offsetOk_eq (h : sizeofMessageHeader + 4 * (i + 1) ≤ message.length)
    (dataSize : BitVec 32) :
    offsetOk message dataSize i = some (decide (boundary message (i + 1) ≤ dataSize)) := by
  have hsum : boundary message i + (boundary message (i + 1) - boundary message i) =
      boundary message (i + 1) := by bv_omega
  have hneg : ¬ boundary message (i + 1) - boundary message i < 0 := by bv_omega
  simp only [offsetOk, fieldBounds_eq h, Option.pure_def, Option.bind_eq_bind, Option.bind_some,
    hsum, hneg, decide_false, Bool.false_or]
  refine congrArg some ?_
  rw [← decide_not, decide_eq_decide, BitVec.not_lt]

/-- The bytes between two boundaries. -/
def fieldSlice (message : List Byte) (i : ℕ) : List Byte :=
  (message.drop (dataStart message + (boundary message i).toNat)).take
    ((boundary message (i + 1)).toNat - (boundary message i).toNat)

/-- A field whose end is not before its start, and inside of the data, is copied. -/
theorem copyField_eq (h : sizeofMessageHeader + 4 * (i + 1) ≤ message.length)
    (hle : boundary message i ≤ boundary message (i + 1))
    (hend : dataStart message + (boundary message (i + 1)).toNat ≤ message.length) :
    copyField message (dataStart message) i =
      some (boundary message (i + 1) - boundary message i, fieldSlice message i) := by
  have hsize : (boundary message (i + 1) - boundary message i).toNat =
      (boundary message (i + 1)).toNat - (boundary message i).toNat := by
    bv_omega
  have hle' : (boundary message i).toNat ≤ (boundary message (i + 1)).toNat := hle
  simp only [copyField, fieldBounds_eq h, Option.pure_def, Option.bind_eq_bind, Option.bind_some]
  by_cases h0 : boundary message (i + 1) - boundary message i = 0
  · have hzero : (boundary message (i + 1)).toNat - (boundary message i).toNat = 0 := by
      rw [← hsize, h0]
      rfl
    rw [fieldSlice, hzero, List.take_zero, h0]
    rfl
  · rw [if_pos h0, hsize, read_eq (by omega), Option.bind_some, fieldSlice]

/-! ## The loops -/

theorem allM_eq {α : Type} {p : α → Option Bool} {q : α → Bool} {l : List α}
    (h : ∀ a ∈ l, p a = some (q a)) : l.allM p = some (l.all q) := by
  induction l with
  | nil => rfl
  | cons a l ih =>
    have ihl := ih fun b hb => h b (List.mem_cons_of_mem a hb)
    rw [List.allM_cons, h a List.mem_cons_self, ihl, List.all_cons]
    simp only [Option.bind_eq_bind, Option.bind_some]
    cases q a <;> rfl

theorem mapM_eq {α β : Type} {f : α → Option β} {g : α → β} {l : List α}
    (h : ∀ a ∈ l, f a = some (g a)) : l.mapM f = some (l.map g) := by
  induction l with
  | nil => rfl
  | cons a l ih =>
    have ihl := ih fun b hb => h b (List.mem_cons_of_mem a hb)
    rw [List.mapM_cons, h a List.mem_cons_self, ihl, List.map_cons]
    rfl

/-! ## The size of the data -/

variable {size : BitVec 32}

/-- `data_size`. -/
def dataSize (message : List Byte) (size : BitVec 32) : BitVec 32 :=
  size - BitVec.ofNat 32 sizeofMessageHeader - 4 * (word ((message.drop 34).take 2)).zeroExtend 32

theorem toNat_dataSize (message : List Byte) (size : BitVec 32) :
    (dataSize message size).toNat = (2 ^ 32 + size.toNat - dataStart message) % 2 ^ 32 := by
  have hlt := headerFieldc_lt message
  unfold dataSize dataStart sizeofMessageHeader headerFieldc at *
  generalize word ((message.drop 34).take 2) = fieldc at *
  have htable : (4 * fieldc.zeroExtend 32).toNat = 4 * fieldc.toNat := by
    have hfour : (4 : BitVec 32).toNat = 4 := rfl
    rw [BitVec.toNat_mul, hfour, BitVec.zeroExtend, BitVec.toNat_setWidth]
    omega
  have hs := size.isLt
  rw [BitVec.toNat_sub, BitVec.toNat_sub, htable, BitVec.toNat_ofNat]
  omega

/-- `data_size > 0`, as an `int32_t`. -/
theorem slt_dataSize (hsize : message.length = size.toNat) :
    BitVec.slt 0 (dataSize message size) ↔
      0 < dataLength message ∧ dataLength message < 2 ^ 31 := by
  have hdata := toNat_dataSize message size
  have hlt := headerFieldc_lt message
  have hs := size.isLt
  have hzero : (0 : BitVec 32).toNat = 0 := rfl
  rw [BitVec.slt_iff_toInt_lt, BitVec.toInt_eq_toNat_cond, BitVec.toInt_eq_toNat_cond, hdata, hzero]
  unfold dataLength dataStart sizeofMessageHeader at *
  omega

theorem toNat_dataSize_of_pos (hsize : message.length = size.toNat)
    (hpos : 0 < dataLength message) : (dataSize message size).toNat = dataLength message := by
  have hs := size.isLt
  rw [toNat_dataSize]
  unfold dataLength at *
  omega

/-! ## The parser -/

/-- The size of the data is an `int32_t`, and every offset is inside of the data. -/
structure Accepted (message : List Byte) : Prop where
  pos : 0 < dataLength message
  lt : dataLength message < 2 ^ 31
  inside : ∀ i < headerFieldc message, (boundary message (i + 1)).toNat ≤ dataLength message

theorem table_lt (hpos : 0 < dataLength message) (hi : i < headerFieldc message) :
    sizeofMessageHeader + 4 * (i + 1) ≤ message.length := by
  unfold dataLength dataStart at hpos
  omega

/-- The check of the offsets. -/
theorem allM_offsetOk (hsize : message.length = size.toNat) (hpos : 0 < dataLength message) :
    (List.range (headerFieldc message)).allM (offsetOk message (dataSize message size)) =
      some ((List.range (headerFieldc message)).all fun i =>
        decide ((boundary message (i + 1)).toNat ≤ dataLength message)) := by
  refine allM_eq fun i hi => ?_
  rw [offsetOk_eq (table_lt hpos (List.mem_range.mp hi))]
  refine congrArg some ?_
  rw [decide_eq_decide, BitVec.le_def, toNat_dataSize_of_pos hsize hpos]

/-- The result for a buffer that holds `fieldc`. -/
theorem messageGetFields_eq (size : BitVec 32) (hlen : 36 ≤ message.length) :
    messageGetFields message size =
      if BitVec.slt 0 (dataSize message size) then do
        if ← (List.range (headerFieldc message)).allM
            (offsetOk message (dataSize message size)) then
          let fields ← (List.range (headerFieldc message)).mapM
            (copyField message (dataStart message))
          return some
            { fieldc := BitVec.ofNat 8 (headerFieldc message)
              fieldsSize := fields.map Prod.fst
              fieldsData := fields.map Prod.snd }
        else return none
      else some none := by
  have hfieldc : ((word ((message.drop 34).take 2)).zeroExtend 32).toNat =
      headerFieldc message := by
    have hlt := headerFieldc_lt message
    rw [BitVec.zeroExtend, BitVec.toNat_setWidth]
    exact Nat.mod_eq_of_lt (by unfold headerFieldc at *; omega)
  have htrunc : ((word ((message.drop 34).take 2)).zeroExtend 32).truncate 8 =
      BitVec.ofNat 8 (headerFieldc message) := by
    apply BitVec.eq_of_toNat_eq
    rw [BitVec.truncate, BitVec.toNat_setWidth, hfieldc, BitVec.toNat_ofNat]
  unfold messageGetFields
  rw [read_eq hlen]
  simp only [Option.bind_eq_bind, Option.bind_some, hfieldc, htrunc]
  rfl

/-- What is copied from a buffer that is accepted. -/
theorem messageGetFields_of_accepted (hsize : message.length = size.toNat)
    (hlen : 36 ≤ message.length) (h : Accepted message) :
    messageGetFields message size =
      ((List.range (headerFieldc message)).mapM (copyField message (dataStart message))).map
        fun fields => some
          { fieldc := BitVec.ofNat 8 (headerFieldc message)
            fieldsSize := fields.map Prod.fst
            fieldsData := fields.map Prod.snd } := by
  have hall : ((List.range (headerFieldc message)).all fun i =>
      decide ((boundary message (i + 1)).toNat ≤ dataLength message)) = true := by
    simpa only [List.all_eq_true, List.mem_range, decide_eq_true_iff] using h.inside
  rw [messageGetFields_eq size hlen, if_pos ((slt_dataSize hsize).mpr ⟨h.pos, h.lt⟩),
    allM_offsetOk hsize h.pos, hall]
  simp only [Option.bind_eq_bind, Option.bind_some, ↓reduceIte]
  cases (List.range (headerFieldc message)).mapM (copyField message (dataStart message)) <;> rfl

theorem messageGetFields_of_not_accepted (hsize : message.length = size.toNat)
    (hlen : 36 ≤ message.length) (h : ¬ Accepted message) :
    messageGetFields message size = some none := by
  rw [messageGetFields_eq size hlen]
  by_cases hdata : BitVec.slt 0 (dataSize message size)
  · have ⟨hpos, hlt⟩ := (slt_dataSize hsize).mp hdata
    have hall : ((List.range (headerFieldc message)).all fun i =>
        decide ((boundary message (i + 1)).toNat ≤ dataLength message)) = false := by
      rw [Bool.eq_false_iff]
      intro hall
      simp only [List.all_eq_true, List.mem_range, decide_eq_true_iff] at hall
      exact h ⟨hpos, hlt, hall⟩
    rw [if_pos hdata, allM_offsetOk hsize hpos, hall]
    rfl
  · rw [if_neg hdata]

theorem messageGetFields_eq_none (size : BitVec 32) (hlen : message.length < 36) :
    messageGetFields message size = none := by
  unfold messageGetFields
  rw [read_eq_none.mpr hlen]
  rfl

/-- The data that the slices make up. -/
def slices (message : List Byte) : MessageFieldsData where
  fieldc := BitVec.ofNat 8 (headerFieldc message)
  fieldsSize := (List.range (headerFieldc message)).map fun i =>
    boundary message (i + 1) - boundary message i
  fieldsData := (List.range (headerFieldc message)).map (fieldSlice message)

/-- Every offset is at or after the one before it. -/
def OffsetsOrdered (message : List Byte) : Prop :=
  ∀ i < headerFieldc message, boundary message i ≤ boundary message (i + 1)

theorem messageGetFields_slices (hsize : message.length = size.toNat)
    (hlen : 36 ≤ message.length) (h : Accepted message) (hord : OffsetsOrdered message) :
    messageGetFields message size = some (some (slices message)) := by
  have hcopy : ∀ i ∈ List.range (headerFieldc message),
      copyField message (dataStart message) i =
        some (boundary message (i + 1) - boundary message i, fieldSlice message i) := by
    intro i hi
    rw [List.mem_range] at hi
    have hinside := h.inside i hi
    have hpos := h.pos
    refine copyField_eq (table_lt hpos hi) (hord i hi) ?_
    unfold dataLength at *
    omega
  rw [messageGetFields_of_accepted hsize hlen h, mapM_eq hcopy]
  simp only [Option.map_some, List.map_map, slices]
  rfl

/-! ## What the result must be -/

/-- What a result must say about the message. -/
structure FieldsOk (message : List Byte) (data : MessageFieldsData) : Prop where
  fieldc : data.fieldc.toNat = headerFieldc message
  ordered : OffsetsOrdered message
  inside : ∀ i < headerFieldc message, (boundary message (i + 1)).toNat ≤ dataLength message
  fieldsSize : data.fieldsSize = (List.range (headerFieldc message)).map fun i =>
    boundary message (i + 1) - boundary message i
  fieldsData : data.fieldsData = (List.range (headerFieldc message)).map (fieldSlice message)
  freed : messageClearFields data = data.allocated

/-- Nothing outside of the buffer is read, and a result is what it must be. -/
def ParserOk (message : List Byte) (size : BitVec 32) : Prop :=
  ∃ rv, messageGetFields message size = some rv ∧ ∀ data, rv = some data → FieldsOk message data

theorem fieldsOk_slices (h : Accepted message) (hord : OffsetsOrdered message)
    (hfieldc : headerFieldc message ≤ 255) : FieldsOk message (slices message) := by
  have hnat : (slices message).fieldc.toNat = headerFieldc message := by
    rw [slices, BitVec.toNat_ofNat]
    exact Nat.mod_eq_of_lt (by omega)
  refine ⟨hnat, hord, h.inside, rfl, rfl, ?_⟩
  rw [messageClearFields, MessageFieldsData.allocated, hnat]
  simp only [slices, List.length_map, List.length_range]

/-- The parser does what it must exactly for a buffer that holds `fieldc` and, if the size of its
data and its last offset are accepted, has at most 255 fields and no offset before the last one. -/
theorem parserOk_iff (hsize : message.length = size.toNat) :
    ParserOk message size ↔ 36 ≤ message.length ∧
      (Accepted message → headerFieldc message ≤ 255 ∧ OffsetsOrdered message) := by
  constructor
  · rintro ⟨rv, hrv, hok⟩
    have hlen : 36 ≤ message.length := by
      by_contra hlen
      rw [messageGetFields_eq_none size (by omega)] at hrv
      exact nomatch hrv
    refine ⟨hlen, fun h => ?_⟩
    rw [messageGetFields_of_accepted hsize hlen h, Option.map_eq_some_iff] at hrv
    obtain ⟨fields, -, rfl⟩ := hrv
    have hfields := hok _ rfl
    have hlt := BitVec.isLt (BitVec.ofNat 8 (headerFieldc message))
    have hfieldc := hfields.fieldc
    exact ⟨by omega, hfields.ordered⟩
  · rintro ⟨hlen, himp⟩
    by_cases h : Accepted message
    · have ⟨hfieldc, hord⟩ := himp h
      refine ⟨_, messageGetFields_slices hsize hlen h hord, ?_⟩
      rintro data ⟨⟩
      exact fieldsOk_slices h hord hfieldc
    · refine ⟨_, messageGetFields_of_not_accepted hsize hlen h, ?_⟩
      rintro data ⟨⟩

/-- A message with the given `fieldc`, offsets and data. -/
def rawMessage (fieldc : ℕ) (offsets : List ℕ) (data : List Byte) : List Byte :=
  List.replicate 34 0 ++ ofNat 2 fieldc ++ List.replicate 4 0 ++ offsets.flatMap (ofNat 4) ++ data

/-- Two fields of two bytes. -/
theorem parserOk_two_fields :
    (rawMessage 2 [2, 4] [1, 2, 3, 4]).length = (52#32).toNat ∧
      ParserOk (rawMessage 2 [2, 4] [1, 2, 3, 4]) 52 := by
  refine ⟨by decide, (parserOk_iff (by decide)).mpr ⟨by decide, fun _ => ⟨by decide, ?_⟩⟩⟩
  unfold OffsetsOrdered
  decide

/-- 256 empty fields and one more byte. -/
def emptyFields : List Byte :=
  (List.replicate 34 0 ++ ofNat 2 256 ++ List.replicate 4 0) ++ (List.replicate 1024 0 ++ [1])

theorem length_emptyFields : emptyFields.length = 1065 := by
  simp only [emptyFields, List.length_append, List.length_replicate, length_ofNat,
    List.length_singleton]

theorem boundary_emptyFields (hi : i < 256) : boundary emptyFields (i + 1) = 0 := by
  have hdrop : emptyFields.drop (sizeofMessageHeader + 4 * i) =
      List.replicate (1024 - 4 * i) 0 ++ [1] := by
    have hhead : emptyFields.drop sizeofMessageHeader = List.replicate 1024 0 ++ [1] := rfl
    rw [← List.drop_drop, hhead,
      List.drop_append_of_le_length (by rw [List.length_replicate]; omega), List.drop_replicate]
  rw [boundary, hdrop, List.take_append_of_le_length (by rw [List.length_replicate]; omega),
    List.take_replicate, Nat.min_eq_left (by omega)]
  rfl

/-- An empty buffer, a second offset before the first one, and 256 empty fields. -/
theorem hostile_messages :
    ¬ ParserOk [] 0 ∧ ¬ ParserOk (rawMessage 2 [4, 2] [1, 2, 3, 4]) 52 ∧
      ¬ ParserOk emptyFields 1065 := by
  refine ⟨?_, ?_, ?_⟩
  · rintro ⟨rv, hrv, -⟩
    exact nomatch (show messageGetFields [] 0 = none by decide).symm.trans hrv
  · rintro ⟨rv, hrv, -⟩
    have hnone : messageGetFields (rawMessage 2 [4, 2] [1, 2, 3, 4]) 52 = none := by decide
    exact nomatch hnone.symm.trans hrv
  · have hcount : headerFieldc emptyFields = 256 := by decide
    have hdata : dataLength emptyFields = 1 := by
      rw [dataLength, dataStart, hcount, length_emptyFields]
      rfl
    have hzero : ∀ i ≤ 256, boundary emptyFields i = 0 := by
      rintro (_ | i) hi
      · rfl
      · exact boundary_emptyFields (by omega)
    have hacc : Accepted emptyFields := by
      refine ⟨by omega, by omega, fun i hi => ?_⟩
      rw [hzero (i + 1) (by omega)]
      exact Nat.zero_le _
    have hord : OffsetsOrdered emptyFields := by
      intro i hi
      rw [hzero i (by omega), hzero (i + 1) (by omega)]
      exact BitVec.le_refl 0
    rintro ⟨rv, hrv, hok⟩
    rw [messageGetFields_slices length_emptyFields (by rw [length_emptyFields]; omega) hacc hord]
      at hrv
    have hfieldc := (hok _ (Option.some.inj hrv).symm).fieldc
    have hlt := (slices emptyFields).fieldc.isLt
    omega

end DreamDota
