import DreamDota.Auth.MessageParser
import Mathlib.Algebra.BigOperators.Group.List.Basic

/-!
# Built messages

`message_build` writes cumulative offsets and leaves the padding to the size. A message whose fields
are all empty has no data, and `message_get_fields` refuses it; data of 2 GB is taken for a negative
size. `roundTrip_iff` says that there is no other loss.

1. `messageBuild_encode`: the buffer after a build.
2. `slices_encode`: what the parser finds in it.
-/

namespace DreamDota

open Bytes

variable {type : BitVec 16} {fields : List (List Byte)} {f p r room : List Byte} {acc off i : ℕ}

/-! ## The size -/

/-- The size of the fields. -/
def dataBytes (fields : List (List Byte)) : ℕ := fields.flatten.length

/-- The size of a message, without overflow. -/
def messageSize (fields : List (List Byte)) : ℕ :=
  (sizeofMessageHeader + 4 * fields.length + dataBytes fields + 3) / 4 * 4

@[simp] theorem dataBytes_cons : dataBytes (f :: fields) = f.length + dataBytes fields := by
  rw [dataBytes, List.flatten_cons, List.length_append, dataBytes]

theorem toNat_fieldc (hcount : fields.length ≤ 255) :
    (MessageFieldsData.of fields).fieldc.toNat = fields.length := by
  rw [MessageFieldsData.of, BitVec.toNat_ofNat]
  exact Nat.mod_eq_of_lt (by omega)

theorem take_fieldsSize (hcount : fields.length ≤ 255) :
    (MessageFieldsData.of fields).fieldsSize.take (MessageFieldsData.of fields).fieldc.toNat =
      fields.map fun f => BitVec.ofNat 32 f.length := by
  rw [toNat_fieldc hcount, MessageFieldsData.of, List.take_of_length_le (by rw [List.length_map])]

theorem foldl_sizes (n : ℕ) :
    (fields.map fun f => BitVec.ofNat 32 f.length).foldl (· + ·) (BitVec.ofNat 32 n) =
      BitVec.ofNat 32 (n + dataBytes fields) := by
  induction fields generalizing n with
  | nil => rfl
  | cons f fields ih =>
    rw [List.map_cons, List.foldl_cons, ← BitVec.ofNat_add, ih, dataBytes_cons, Nat.add_assoc]

theorem toNat_padded {rv : BitVec 32} (h : (rv.toNat + 3) / 4 * 4 < 2 ^ 32) :
    (if rv % 4 ≠ 0 then rv + (4 - rv % 4) else rv).toNat = (rv.toNat + 3) / 4 * 4 := by
  have hfour : (4 : BitVec 32).toNat = 4 := rfl
  have hmod : (rv % 4).toNat = rv.toNat % 4 := by rw [BitVec.toNat_umod, hfour]
  split_ifs with hz
  · have hne : (rv % 4).toNat ≠ 0 := fun hne => hz (BitVec.eq_of_toNat_eq hne)
    rw [BitVec.toNat_add, BitVec.toNat_sub, hmod, hfour]
    omega
  · rw [not_not] at hz
    rw [hz] at hmod
    have hzero : (0 : BitVec 32).toNat = 0 := rfl
    omega

theorem zeroExtend_fieldc (hcount : fields.length ≤ 255) (w : ℕ) :
    (MessageFieldsData.of fields).fieldc.zeroExtend w = BitVec.ofNat w fields.length := by
  apply BitVec.eq_of_toNat_eq
  rw [BitVec.zeroExtend, BitVec.toNat_setWidth, toNat_fieldc hcount, BitVec.toNat_ofNat]

theorem messageSizeCalc_of (hcount : fields.length ≤ 255) (hfits : messageSize fields < 2 ^ 32) :
    (messageSizeCalc (MessageFieldsData.of fields)).toNat = messageSize fields := by
  have hstart : BitVec.ofNat 32 sizeofMessageHeader +
      (MessageFieldsData.of fields).fieldc.zeroExtend 32 * 4 =
        BitVec.ofNat 32 (sizeofMessageHeader + 4 * fields.length) := by
    rw [zeroExtend_fieldc hcount 32, BitVec.ofNat_add, Nat.mul_comm,
      BitVec.ofNat_mul]
    rfl
  have hsum : sizeofMessageHeader + 4 * fields.length + dataBytes fields < 2 ^ 32 := by
    unfold messageSize at hfits
    omega
  have hnat := Nat.mod_eq_of_lt hsum
  rw [← BitVec.toNat_ofNat] at hnat
  unfold messageSizeCalc
  simp only [take_fieldsSize hcount, hstart, foldl_sizes]
  rw [toNat_padded (by rw [hnat]; exact hfits), hnat, messageSize]

/-! ## The loops of `message_build` -/

/-- The table of the end offsets of the fields, the first of which begins at `acc`. -/
def offsetTable : ℕ → List (List Byte) → List Byte
  | _, [] => []
  | acc, f :: fields =>
    ofDword (BitVec.ofNat 32 (acc + f.length)) ++ offsetTable (acc + f.length) fields

@[simp] theorem length_offsetTable : (offsetTable acc fields).length = 4 * fields.length := by
  induction fields generalizing acc with
  | nil => rfl
  | cons f fields ih =>
    rw [offsetTable, List.length_append, ih, length_ofDword, List.length_cons]
    omega

theorem toNat_ofNat_of_lt {n : ℕ} (h : n < 2 ^ 32) : (BitVec.ofNat 32 n).toNat = n := by
  rw [BitVec.toNat_ofNat]
  exact Nat.mod_eq_of_lt h

theorem writeOffsets_eq (hp : p.length = off) (hroom : room.length = 4 * fields.length)
    (hoff : off + 4 * fields.length < 2 ^ 32) :
    writeOffsets (fields.map fun f => BitVec.ofNat 32 f.length) (BitVec.ofNat 32 acc)
        (BitVec.ofNat 32 off) (p ++ (room ++ r)) =
      some (p ++ (offsetTable acc fields ++ r), BitVec.ofNat 32 (off + 4 * fields.length)) := by
  induction fields generalizing acc off p room with
  | nil =>
    obtain rfl := List.eq_nil_of_length_eq_zero hroom
    rfl
  | cons f fields ih =>
    rw [List.length_cons] at hroom hoff
    obtain ⟨a, b, rfl, ha, hb⟩ := exists_append (b := room) (k := 4) (by omega)
    have hwrite : writeDword (p ++ (a ++ (b ++ r))) off (BitVec.ofNat 32 (acc + f.length)) =
        some (p ++ (ofDword (BitVec.ofNat 32 (acc + f.length)) ++ (b ++ r))) :=
      write_append hp (by rw [ha, length_ofDword])
    have ih : writeOffsets (fields.map fun f => BitVec.ofNat 32 f.length)
        (BitVec.ofNat 32 (acc + f.length)) (BitVec.ofNat 32 (off + 4))
        (p ++ ofDword (BitVec.ofNat 32 (acc + f.length)) ++ (b ++ r)) =
          some (p ++ ofDword (BitVec.ofNat 32 (acc + f.length)) ++
            (offsetTable (acc + f.length) fields ++ r),
            BitVec.ofNat 32 (off + 4 + 4 * fields.length)) :=
      ih (by rw [List.length_append, length_ofDword, hp]) (by omega) (by omega)
    rw [List.map_cons, writeOffsets, ← BitVec.ofNat_add, toNat_ofNat_of_lt (by omega),
      List.append_assoc, hwrite]
    have hfour : BitVec.ofNat 32 (off + 4) = BitVec.ofNat 32 off + 4 := BitVec.ofNat_add off 4
    rw [List.append_assoc, hfour] at ih
    simp only [Option.bind_eq_bind, Option.bind_some, offsetTable, List.append_assoc,
      List.length_cons] at ih ⊢
    rw [show off + 4 * (fields.length + 1) = off + 4 + 4 * fields.length by omega, ← ih]

theorem ofNat_length_ne_zero (hf : f.length < 2 ^ 32) :
    BitVec.ofNat 32 f.length ≠ 0 ↔ f ≠ [] := by
  rw [not_iff_not, ← List.length_eq_zero_iff]
  constructor
  · intro h
    rw [← toNat_ofNat_of_lt hf, h]
    rfl
  · intro h
    rw [h]
    rfl

theorem writeFields_eq (hp : p.length = off) (hroom : room.length = dataBytes fields)
    (hoff : off + dataBytes fields < 2 ^ 32) :
    writeFields ((fields.map fun f => BitVec.ofNat 32 f.length).zip fields) (BitVec.ofNat 32 off)
        (p ++ (room ++ r)) =
      some (p ++ (fields.flatten ++ r)) := by
  induction fields generalizing off p room with
  | nil =>
    obtain rfl := List.eq_nil_of_length_eq_zero hroom
    rfl
  | cons f fields ih =>
    rw [dataBytes_cons] at hroom hoff
    obtain ⟨a, b, rfl, ha, hb⟩ := exists_append (b := room) (k := f.length) (by omega)
    have ih : writeFields ((fields.map fun f => BitVec.ofNat 32 f.length).zip fields)
        (BitVec.ofNat 32 (off + f.length)) (p ++ f ++ (b ++ r)) =
          some (p ++ f ++ (fields.flatten ++ r)) :=
      ih (by rw [List.length_append, hp]) (by omega) (by omega)
    rw [List.map_cons, List.zip_cons_cons, writeFields]
    by_cases hf : f = []
    · obtain rfl := hf
      obtain rfl := List.eq_nil_of_length_eq_zero ha
      rw [if_neg (by decide)]
      simpa using ih
    · have hread : read f 0 f.length = some f := by
        rw [read_eq (by omega), List.drop_zero, List.take_length]
      have hwrite : write (p ++ (a ++ (b ++ r))) off f = some (p ++ (f ++ (b ++ r))) :=
        write_append hp ha
      rw [if_pos ((ofNat_length_ne_zero (by omega)).mpr hf), toNat_ofNat_of_lt (by omega),
        toNat_ofNat_of_lt (by omega), hread, List.append_assoc, Option.bind_eq_bind,
        Option.bind_some, hwrite, Option.bind_some, ← BitVec.ofNat_add, ← List.append_assoc p, ih,
        List.flatten_cons, List.append_assoc, List.append_assoc]

/-! ## `message_build` -/

/-- A message without its padding. -/
def encode (type : BitVec 16) (fields : List (List Byte)) : List Byte :=
  ofWord type ++ (List.replicate 32 0 ++ (ofWord (BitVec.ofNat 16 fields.length) ++
    (ofDword 0 ++ (offsetTable 0 fields ++ fields.flatten))))

theorem length_encode (type : BitVec 16) (fields : List (List Byte)) :
    (encode type fields).length =
      sizeofMessageHeader + 4 * fields.length + dataBytes fields := by
  simp only [encode, List.length_append, length_ofWord, List.length_replicate, length_ofDword,
    length_offsetTable, dataBytes, sizeofMessageHeader]
  omega

theorem length_encode_le (type : BitVec 16) (fields : List (List Byte)) :
    (encode type fields).length ≤ messageSize fields := by
  rw [length_encode, messageSize]
  omega

/-- The writes of `message_build`, in the parts of the buffer. -/
theorem messageBuild_parts {a b c d e g : List Byte} {bufferSize : BitVec 32}
    (hcount : fields.length ≤ 255) (hfits : messageSize fields < 2 ^ 32)
    (hsize : messageSize fields ≤ bufferSize.toNat) (ha : a.length = 2) (hb : b.length = 32)
    (hc : c.length = 2) (hd : d.length = 4) (he : e.length = 4 * fields.length)
    (hg : g.length = dataBytes fields) :
    messageBuild type (MessageFieldsData.of fields) (a ++ (b ++ (c ++ (d ++ (e ++ (g ++ r))))))
        bufferSize = some (true, encode type fields ++ r) := by
  have hle : messageSizeCalc (MessageFieldsData.of fields) ≤ bufferSize := by
    rw [BitVec.le_def, messageSizeCalc_of hcount hfits]
    exact hsize
  have hsum : sizeofMessageHeader + 4 * fields.length + dataBytes fields < 2 ^ 32 := by
    have hencode := length_encode_le type fields
    rw [length_encode] at hencode
    omega
  have hsession (x : List Byte) : write (a ++ (b ++ x)) 2 (List.replicate 32 0) =
      some (a ++ (List.replicate 32 0 ++ x)) :=
    write_append ha (by rw [hb, List.length_replicate])
  have hhash (x : List Byte) : writeDword
      (a ++ (List.replicate 32 0 ++ (c ++ (d ++ x)))) 36 0 =
        some (a ++ (List.replicate 32 0 ++ (c ++ (ofDword 0 ++ x)))) := by
    have hp : (a ++ (List.replicate 32 (0 : Byte) ++ c)).length = 36 := by
      simp only [List.length_append, ha, List.length_replicate, hc]
    have h := write_append (q := d) (r := x) hp (hd.trans (length_ofDword 0).symm)
    simpa only [List.append_assoc, writeDword] using h
  have htype (x : List Byte) : write (a ++ x) 0 (ofWord type) = some (ofWord type ++ x) :=
    write_append (p := []) rfl ha
  have hfieldc (x : List Byte) (w : BitVec 16) :
      write (ofWord type ++ (List.replicate 32 0 ++ (c ++ x))) 34 (ofWord w) =
        some (ofWord type ++ (List.replicate 32 0 ++ (ofWord w ++ x))) := by
    have hp : (ofWord type ++ List.replicate 32 0).length = 34 := by
      simp only [List.length_append, length_ofWord, List.length_replicate]
    have h := write_append (q := c) (r := x) hp (hc.trans (length_ofWord w).symm)
    simpa only [List.append_assoc] using h
  have hheader : (ofWord type ++ (List.replicate 32 0 ++
      (ofWord (BitVec.ofNat 16 fields.length) ++ ofDword 0))).length = sizeofMessageHeader := rfl
  have htable : (ofWord type ++ (List.replicate 32 0 ++ (ofWord (BitVec.ofNat 16 fields.length) ++
      (ofDword 0 ++ offsetTable 0 fields)))).length = sizeofMessageHeader + 4 * fields.length := by
    simp only [List.length_append, length_ofWord, List.length_replicate, length_ofDword,
      length_offsetTable, sizeofMessageHeader]
    omega
  have hoffsets : writeOffsets (fields.map fun f => BitVec.ofNat 32 f.length) 0
      (BitVec.ofNat 32 sizeofMessageHeader) _ = some (_, _) :=
    writeOffsets_eq (r := g ++ r) hheader he (by omega)
  have hfields := writeFields_eq (r := r) htable hg hsum
  simp only [List.append_assoc] at hoffsets hfields
  unfold messageBuild
  rw [if_pos hle, hsession]
  simp only [Option.bind_eq_bind, Option.bind_some, hhash, htype, zeroExtend_fieldc hcount, hfieldc,
    take_fieldsSize hcount]
  rw [hoffsets]
  simp only [Option.bind_some, MessageFieldsData.of, hfields, encode, List.append_assoc]
  rfl

/-- The buffer after `message_build`. -/
theorem messageBuild_encode (type : BitVec 16) {buffer : List Byte} {bufferSize : BitVec 32}
    (hcount : fields.length ≤ 255) (hfits : messageSize fields < 2 ^ 32)
    (hbuffer : buffer.length = bufferSize.toNat) (hsize : messageSize fields ≤ bufferSize.toNat) :
    messageBuild type (MessageFieldsData.of fields) buffer bufferSize =
      some (true, encode type fields ++ buffer.drop (encode type fields).length) := by
  have hle := length_encode_le type fields
  have hencode := length_encode type fields
  rw [sizeofMessageHeader] at hencode
  obtain ⟨a, r₁, rfl, ha, hr₁⟩ := exists_append (b := buffer) (k := 2) (by omega)
  obtain ⟨b, r₂, rfl, hb, hr₂⟩ := exists_append (b := r₁) (k := 32) (by omega)
  obtain ⟨c, r₃, rfl, hc, hr₃⟩ := exists_append (b := r₂) (k := 2) (by omega)
  obtain ⟨d, r₄, rfl, hd, hr₄⟩ := exists_append (b := r₃) (k := 4) (by omega)
  obtain ⟨e, r₅, rfl, he, hr₅⟩ := exists_append (b := r₄) (k := 4 * fields.length) (by omega)
  obtain ⟨g, r, rfl, hg, -⟩ := exists_append (b := r₅) (k := dataBytes fields) (by omega)
  rw [messageBuild_parts hcount hfits hsize ha hb hc hd he hg, hencode]
  have hparts : (a ++ (b ++ (c ++ (d ++ (e ++ g))))).length =
      40 + 4 * fields.length + dataBytes fields := by
    simp only [List.length_append, ha, hb, hc, hd, he, hg]
    omega
  have hdrop : (a ++ (b ++ (c ++ (d ++ (e ++ g)))) ++ r).drop
      (40 + 4 * fields.length + dataBytes fields) = r :=
    List.drop_left' hparts
  simp only [List.append_assoc] at hdrop
  rw [hdrop]

/-! ## What the parser finds -/

theorem headerFieldc_encode (hcount : fields.length ≤ 255) :
    headerFieldc (encode type fields ++ r) = fields.length := by
  have hdrop : (encode type fields ++ r).drop 34 = ofWord (BitVec.ofNat 16 fields.length) ++
      (ofDword 0 ++ (offsetTable 0 fields ++ (fields.flatten ++ r))) := by
    have h : (ofWord type ++ List.replicate 32 (0 : Byte)).length = 34 := by
      rw [List.length_append, length_ofWord, List.length_replicate]
    simpa only [encode, List.append_assoc] using List.drop_left' h
  rw [headerFieldc, hdrop, List.take_left' (length_ofWord _), word_ofWord, BitVec.toNat_ofNat]
  omega

theorem drop_header (r : List Byte) : (encode type fields ++ r).drop sizeofMessageHeader =
    offsetTable 0 fields ++ (fields.flatten ++ r) := by
  have h : (ofWord type ++ (List.replicate 32 (0 : Byte) ++
      (ofWord (BitVec.ofNat 16 fields.length) ++ ofDword 0))).length = sizeofMessageHeader := by
    simp only [List.length_append, length_ofWord, List.length_replicate, length_ofDword,
      sizeofMessageHeader]
  simpa only [encode, List.append_assoc] using List.drop_left' h

/-- An entry of the table. -/
theorem take_offsetTable (hi : i < fields.length) :
    ((offsetTable acc fields ++ r).drop (4 * i)).take 4 =
      ofDword (BitVec.ofNat 32 (acc + dataBytes (fields.take (i + 1)))) := by
  induction fields generalizing acc i with
  | nil => exact absurd hi (Nat.not_lt_zero i)
  | cons f fields ih =>
    rw [offsetTable, List.append_assoc]
    cases i with
    | zero =>
      rw [Nat.mul_zero, List.drop_zero, List.take_left' (length_ofDword _), List.take_succ_cons,
        List.take_zero, dataBytes_cons]
      rfl
    | succ i =>
      have hi : i < fields.length := Nat.lt_of_succ_lt_succ hi
      rw [Nat.mul_succ, Nat.add_comm, ← List.drop_drop, List.drop_left' (length_ofDword _), ih hi,
        List.take_succ_cons, dataBytes_cons, Nat.add_assoc]

theorem dataBytes_take_le (fields : List (List Byte)) (i : ℕ) :
    dataBytes (fields.take i) ≤ dataBytes fields := by
  have h := congrArg dataBytes (List.take_append_drop i fields)
  unfold dataBytes at *
  rw [List.flatten_append, List.length_append] at h
  omega

theorem dataBytes_take_succ (hi : i < fields.length) :
    dataBytes (fields.take (i + 1)) = dataBytes (fields.take i) + fields[i].length := by
  unfold dataBytes
  rw [List.take_add_one, List.getElem?_eq_getElem hi, List.flatten_append, List.length_append]
  simp only [Option.toList_some, List.flatten_singleton]

theorem boundary_encode (type : BitVec 16) (r : List Byte) (hi : i ≤ fields.length)
    (hdata : dataBytes fields < 2 ^ 32) :
    (boundary (encode type fields ++ r) i).toNat = dataBytes (fields.take i) := by
  have hle := dataBytes_take_le fields i
  cases i with
  | zero => rfl
  | succ i =>
    rw [boundary, ← List.drop_drop, drop_header, take_offsetTable (by omega), dword_ofDword,
      Nat.zero_add, toNat_ofNat_of_lt (by omega)]

/-- A slice is a field. -/
theorem fieldSlice_encode (hcount : fields.length ≤ 255) (hi : i < fields.length)
    (hdata : dataBytes fields < 2 ^ 32) :
    fieldSlice (encode type fields ++ r) i = fields[i] := by
  have hsplit : fields.flatten ++ r =
      (fields.take i).flatten ++ (fields[i] ++ ((fields.drop (i + 1)).flatten ++ r)) := by
    have h := congrArg List.flatten (List.take_append_drop i fields)
    rw [List.drop_eq_getElem_cons hi, List.flatten_append, List.flatten_cons] at h
    rw [← h, List.append_assoc, List.append_assoc]
  have hlen := dataBytes_take_succ hi
  have hstart : dataStart (encode type fields ++ r) =
      sizeofMessageHeader + 4 * fields.length := by
    rw [dataStart, headerFieldc_encode hcount]
  rw [fieldSlice, boundary_encode type r hi hdata, boundary_encode type r hi.le hdata, hlen, hstart,
    ← List.drop_drop, ← List.drop_drop, drop_header, List.drop_left' length_offsetTable, hsplit,
    List.drop_left' (show (fields.take i).flatten.length = dataBytes (fields.take i) from rfl),
    Nat.add_sub_cancel_left, List.take_left' rfl]

theorem dataLength_encode (type : BitVec 16) (hcount : fields.length ≤ 255) :
    dataLength (encode type fields ++ r) = dataBytes fields + r.length := by
  rw [dataLength, dataStart, headerFieldc_encode hcount, List.length_append, length_encode]
  omega

theorem slices_encode (hcount : fields.length ≤ 255) (hdata : dataBytes fields < 2 ^ 32) :
    slices (encode type fields ++ r) = MessageFieldsData.of fields := by
  have hsize : (List.range fields.length).map (fun i =>
      boundary (encode type fields ++ r) (i + 1) - boundary (encode type fields ++ r) i) =
        fields.map fun f => BitVec.ofNat 32 f.length := by
    refine List.ext_getElem (by rw [List.length_map, List.length_range, List.length_map])
      fun i _ hi => ?_
    rw [List.length_map] at hi
    rw [List.getElem_map, List.getElem_map, List.getElem_range]
    have hnext := boundary_encode type r (i := i + 1) hi hdata
    have hcur := boundary_encode type r hi.le hdata
    have hle := dataBytes_take_le fields (i + 1)
    have hlen := dataBytes_take_succ hi
    apply BitVec.eq_of_toNat_eq
    rw [BitVec.toNat_sub, hnext, hcur, toNat_ofNat_of_lt (by omega)]
    omega
  have hfield : (List.range fields.length).map (fieldSlice (encode type fields ++ r)) = fields := by
    refine List.ext_getElem (by rw [List.length_map, List.length_range]) fun i _ hi => ?_
    rw [List.getElem_map, List.getElem_range, fieldSlice_encode hcount hi hdata]
  rw [slices, headerFieldc_encode hcount, hsize, hfield, MessageFieldsData.of]

theorem offsetsOrdered_encode (hcount : fields.length ≤ 255) (hdata : dataBytes fields < 2 ^ 32) :
    OffsetsOrdered (encode type fields ++ r) := by
  intro i hi
  rw [headerFieldc_encode hcount] at hi
  rw [BitVec.le_def, boundary_encode type r hi hdata, boundary_encode type r hi.le hdata,
    dataBytes_take_succ hi]
  omega

theorem accepted_encode_iff (type : BitVec 16) (hcount : fields.length ≤ 255)
    (hdata : dataBytes fields < 2 ^ 32) :
    Accepted (encode type fields ++ r) ↔
      0 < dataBytes fields + r.length ∧ dataBytes fields + r.length < 2 ^ 31 := by
  rw [← dataLength_encode type hcount]
  constructor
  · intro h
    exact ⟨h.pos, h.lt⟩
  · rintro ⟨hpos, hlt⟩
    refine ⟨hpos, hlt, fun i hi => ?_⟩
    rw [headerFieldc_encode hcount] at hi
    have hle := dataBytes_take_le fields (i + 1)
    rw [boundary_encode type r hi hdata, dataLength_encode type hcount]
    exact hle.trans (Nat.le_add_right _ _)

/-- A built message is parsed if its data, with the padding `r`, has a positive size. -/
theorem messageGetFields_encode_iff (type : BitVec 16) {size : BitVec 32}
    (hcount : fields.length ≤ 255) (hsize : (encode type fields ++ r).length = size.toNat) :
    messageGetFields (encode type fields ++ r) size = some (some (MessageFieldsData.of fields)) ↔
      0 < dataBytes fields + r.length ∧ dataBytes fields + r.length < 2 ^ 31 := by
  have hlen : 36 ≤ (encode type fields ++ r).length := by
    rw [List.length_append, length_encode, sizeofMessageHeader]
    omega
  have hdata : dataBytes fields < 2 ^ 32 := by
    have hs := size.isLt
    rw [← hsize, List.length_append, length_encode] at hs
    omega
  rw [← accepted_encode_iff type hcount hdata]
  constructor
  · intro h
    by_contra hacc
    rw [messageGetFields_of_not_accepted hsize hlen hacc] at h
    exact nomatch h
  · intro hacc
    rw [messageGetFields_slices hsize hlen hacc (offsetsOrdered_encode hcount hdata),
      slices_encode hcount hdata]

/-! ## The round trip -/

/-- The message is built inside of its size and parsed back, or the buffer is too small for it. -/
def RoundTrip (type : BitVec 16) (fields : List (List Byte)) (buffer : List Byte)
    (bufferSize : BitVec 32) : Prop :=
  let data := MessageFieldsData.of fields
  let size := messageSizeCalc data
  if size ≤ bufferSize then
    ∃ buffer', messageBuild type data buffer bufferSize = some (true, buffer') ∧
      buffer'.length = buffer.length ∧ buffer'.drop size.toNat = buffer.drop size.toNat ∧
      messageGetFields (buffer'.take size.toNat) size = some (some data)
  else messageBuild type data buffer bufferSize = some (false, buffer)

/-- The round trip fails exactly for a message that is built with no data, or with 2 GB of it. -/
theorem roundTrip_iff {buffer : List Byte} {bufferSize : BitVec 32} (hcount : fields.length ≤ 255)
    (hfits : messageSize fields < 2 ^ 32) (hbuffer : buffer.length = bufferSize.toNat) :
    RoundTrip type fields buffer bufferSize ↔
      (messageSizeCalc (MessageFieldsData.of fields) ≤ bufferSize →
        0 < dataBytes fields ∧ dataBytes fields ≤ 2 ^ 31 - 4) := by
  have hsize := messageSizeCalc_of hcount hfits
  unfold RoundTrip
  by_cases hroom : messageSizeCalc (MessageFieldsData.of fields) ≤ bufferSize
  · have hle : messageSize fields ≤ bufferSize.toNat := by
      rw [← hsize]
      exact hroom
    have hbuild := messageBuild_encode type hcount hfits hbuffer hle
    have hencode := length_encode type fields
    have hencodele := length_encode_le type fields
    obtain ⟨b, rest, rfl, hb, hrest⟩ :=
      exists_append (b := buffer) (k := (encode type fields).length) (by omega)
    obtain ⟨pad, rest, rfl, hpad, -⟩ :=
      exists_append (b := rest) (k := messageSize fields - (encode type fields).length)
        (by rw [hrest]; omega)
    rw [List.drop_left' hb] at hbuild
    have hwhole : (encode type fields ++ pad).length = messageSize fields := by
      rw [List.length_append]
      omega
    have htake : (encode type fields ++ (pad ++ rest)).take (messageSize fields) =
        encode type fields ++ pad := by
      rw [← List.append_assoc, List.take_left' hwhole]
    have hdrop : (encode type fields ++ (pad ++ rest)).drop (messageSize fields) =
        (b ++ (pad ++ rest)).drop (messageSize fields) := by
      rw [← List.append_assoc, List.drop_left' hwhole, ← List.append_assoc,
        List.drop_left' (by rw [List.length_append, hb, ← List.length_append, hwhole])]
    have hparse := messageGetFields_encode_iff type hcount (hwhole.trans hsize.symm)
    have harith : (0 < dataBytes fields + pad.length ∧ dataBytes fields + pad.length < 2 ^ 31) ↔
        0 < dataBytes fields ∧ dataBytes fields ≤ 2 ^ 31 - 4 := by
      rw [hpad, hencode, messageSize, sizeofMessageHeader]
      omega
    simp only [hroom, ↓reduceIte, forall_const, hbuild, hsize]
    rw [← harith, ← hparse]
    constructor
    · rintro ⟨buffer', hbuffer', -, -, hget⟩
      simp only [Option.some.injEq, Prod.mk.injEq, true_and] at hbuffer'
      rw [← hbuffer', htake] at hget
      exact hget
    · intro hget
      refine ⟨_, rfl, ?_, hdrop, ?_⟩
      · simp only [List.length_append, hb]
      · rw [htake]
        exact hget
  · have hfail : messageBuild type (MessageFieldsData.of fields) buffer bufferSize =
        some (false, buffer) := by
      unfold messageBuild
      rw [if_neg hroom]
      rfl
    simp only [hroom, ↓reduceIte, hfail, false_implies]

/-- Two fields, one of them empty, in a buffer of 60 bytes. -/
theorem roundTrip_two_fields :
    RoundTrip 2 [[], [1, 2, 3]] (List.replicate 60 7) 60 :=
  (roundTrip_iff (by decide) (by decide) (by decide)).mpr fun _ => by decide

/-- A message without fields is built, and is not parsed. -/
theorem empty_message : ¬ RoundTrip 2 [] (List.replicate 40 7) 40 := by
  rintro ⟨buffer', hbuild, -, -, hget⟩
  have hparse : (messageBuild 2 (MessageFieldsData.of []) (List.replicate 40 7) 40).map
      (fun built => messageGetFields (built.2.take 40) 40) = some (some none) := by
    decide
  rw [hbuild] at hparse
  have hget : messageGetFields (buffer'.take 40) 40 = some (some (MessageFieldsData.of [])) := hget
  exact nomatch hget.symm.trans (Option.some.inj hparse)

end DreamDota
