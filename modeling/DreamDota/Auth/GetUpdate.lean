import DreamDota.Auth.MessageParser

/-!
# The update response

`ThreadGetUpdate::Work` sends a request, parses the response and takes the fields of the result as
numbers and as text. `workOk_iff` says exactly which responses it handles as it should.

1. `messageGetFields_unordered`: a field that ends before its start is not copied.
2. `messageClearFields_eq_allocated`: all fields are deleted.
3. `useFields_slices`: the fields that are read.
4. `work_unfilled`, `work_filled`: the two cases.

A function that reads outside of a field, or a variable that holds nothing yet, has the result
`none`.
-/

namespace DreamDota

open Bytes

namespace GetUpdate

/-- `MESSAGE_TYPE_UPDATE`. -/
def messageTypeUpdate : BitVec 16 := 6

/-- `GetUpdateMessage`. -/
def getUpdateMessage (sessionId : List Byte) : List Byte := ofWord messageTypeUpdate ++ sessionId

structure UpdateInfo where
  build : BitVec 32
  link : List (BitVec 16)
  linkUtf8 : List Byte
  desc : List (BitVec 16)
  date : BitVec 32
  deriving DecidableEq, Repr

/-- How `Work` ends. Fields are named by their numbers. -/
structure Outcome where
  result : Bool
  info : UpdateInfo
  allocated : List ℕ
  freed : List ℕ
  deriving DecidableEq, Repr

section Work

-- `CP_UTF8`, and no characters if it fails.
variable (multiByteToWideChar : List Byte → List (BitVec 16))

/-- The bytes of a field. -/
def fieldText (data : MessageFieldsData) (i : ℕ) : Option (List Byte) := do
  let field ← data.fieldsData[i]?
  let size ← data.fieldsSize[i]?
  read field 0 size.toNat

/-- The number at the start of a field. -/
def fieldNumber (data : MessageFieldsData) (i : ℕ) : Option (BitVec 32) := do
  let field ← data.fieldsData[i]?
  readDword field 0

/-- What is assigned from `buff`, which ends at the first null character. -/
def assignWide (text : List Byte) (old : List (BitVec 16)) : List (BitVec 16) :=
  let buff := multiByteToWideChar text
  if buff.length ≠ 0 then buff.takeWhile (· ≠ 0) else old

/-- What `Work` does with four fields. -/
def useFields (info : UpdateInfo) (data : MessageFieldsData) : Option UpdateInfo := do
  let desc ← fieldText data 2
  let link ← fieldText data 1
  let build ← fieldNumber data 0
  let date ← fieldNumber data 3
  return {
    build := build
    link := assignWide multiByteToWideChar link info.link
    linkUtf8 := link
    desc := assignWide multiByteToWideChar desc info.desc
    date := date }

/-- The branch for a response: `rv` and the information. -/
def takeResponse (info : UpdateInfo) (data : Option MessageFieldsData) :
    Option (Bool × UpdateInfo) :=
  match data with
  | some data =>
    if data.fieldc = 4 then (useFields multiByteToWideChar info data).map (true, ·)
    else some (false, info)
  | none => some (false, info)

/-- `Work`. `request` is `Connection::Request`. -/
def work (request : List Byte → Option (List Byte)) (sessionId : List Byte) (info : UpdateInfo) :
    Option Outcome :=
  match request (getUpdateMessage sessionId) with
  | some message =>
    if 2 < message.length then do
      -- `data` has no value if `message_get_fields` fails
      let data ← messageGetFields message (BitVec.ofNat 32 message.length)
      let (rv, info) ← takeResponse multiByteToWideChar info data
      let freed ← data.map messageClearFields
      return { result := rv, info, allocated := data.elim [] (·.allocated), freed }
    else return { result := false, info, allocated := [], freed := [] }
  | none => return { result := false, info, allocated := [], freed := [] }

end Work

/-- Exactly four fields, the first and the last of which hold a number. -/
structure FourFields (message : List Byte) : Prop where
  accepted : Accepted message
  ordered : OffsetsOrdered message
  count : headerFieldc message = 4
  first : 4 ≤ (fieldSlice message 0).length
  last : 4 ≤ (fieldSlice message 3).length

/-- Only data that was filled is cleared and only bytes of the fields are read, every field is freed,
and the result tells whether there are four fields. -/
def WorkOk (multiByteToWideChar : List Byte → List (BitVec 16))
    (request : List Byte → Option (List Byte)) (sessionId : List Byte) (info : UpdateInfo) : Prop :=
  ∃ o, work multiByteToWideChar request sessionId info = some o ∧ o.freed = o.allocated ∧
    (o.result = true ↔ ∃ message, request (getUpdateMessage sessionId) = some message ∧
      FourFields message)

/-- The responses that are handled well, of those that are parsed: `fieldc` is stored in a byte. -/
structure Harmless (message : List Byte) : Prop where
  accepted : Accepted message
  ordered : OffsetsOrdered message
  freed : ∀ i, headerFieldc message % 256 ≤ i → i < headerFieldc message →
    fieldSlice message i = []
  fields : headerFieldc message % 256 = 4 → FourFields message

/-! ## The parser -/

section Parser

variable {message : List Byte} {i : ℕ}

theorem mapM_eq_none {α β : Type} {f : α → Option β} {a : α} {l : List α} (ha : a ∈ l)
    (hf : f a = none) : l.mapM f = none := by
  induction l with
  | nil => cases ha
  | cons b l ih =>
    rw [List.mapM_cons]
    cases hb : f b with
    | none => rfl
    | some c =>
      have hne : a ≠ b := fun h => nomatch (h ▸ hf).symm.trans hb
      rw [ih ((List.mem_cons.1 ha).resolve_left hne)]
      rfl

theorem copyField_eq_none (h : sizeofMessageHeader + 4 * (i + 1) ≤ message.length)
    (hlen : message.length < 2 ^ 32) (hlt : boundary message (i + 1) < boundary message i) :
    copyField message (dataStart message) i = none := by
  have hne : boundary message (i + 1) - boundary message i ≠ 0 := by bv_omega
  have hread : read message (dataStart message + (boundary message i).toNat)
      (boundary message (i + 1) - boundary message i).toNat = none := by
    rw [read_eq_none]
    bv_omega
  simp only [copyField, fieldBounds_eq h, Option.bind_eq_bind, Option.bind_some, if_pos hne, hread,
    Option.bind_none]

/-- A field that ends before its start is taken for a huge one. -/
theorem messageGetFields_unordered (hlen : 36 ≤ message.length) (hlt : message.length < 2 ^ 32)
    (h : Accepted message) (hord : ¬ OffsetsOrdered message) :
    messageGetFields message (BitVec.ofNat 32 message.length) = none := by
  have hsize : message.length = (BitVec.ofNat 32 message.length).toNat := by
    rw [BitVec.toNat_ofNat, Nat.mod_eq_of_lt hlt]
  unfold OffsetsOrdered at hord
  obtain ⟨i, h'⟩ := not_forall.1 hord
  obtain ⟨hi, hback⟩ := Classical.not_imp.1 h'
  rw [messageGetFields_of_accepted hsize hlen h,
    mapM_eq_none (List.mem_range.2 hi) (copyField_eq_none (table_lt h.pos hi) hlt
      (BitVec.not_le.1 hback)), Option.map_none]

theorem length_fieldSlice (h : Accepted message) (hi : i < headerFieldc message) :
    (fieldSlice message i).length =
      (boundary message (i + 1)).toNat - (boundary message i).toNat := by
  have hinside := h.inside i hi
  rw [fieldSlice, List.length_take, List.length_drop]
  unfold dataLength at hinside
  omega

theorem fieldSize_eq (h : Accepted message) (hord : OffsetsOrdered message)
    (hi : i < headerFieldc message) :
    boundary message (i + 1) - boundary message i =
      BitVec.ofNat 32 (fieldSlice message i).length := by
  have hle := hord i hi
  rw [length_fieldSlice h hi]
  bv_omega

end Parser

/-! ## The fields that are deleted -/

/-- Only the first `fieldc` fields are deleted. -/
theorem messageClearFields_eq_allocated {data : MessageFieldsData}
    (hle : data.fieldc.toNat ≤ data.fieldsSize.length) :
    messageClearFields data = data.allocated ↔
      ∀ i, data.fieldc.toNat ≤ i → i < data.fieldsSize.length → data.fieldsSize[i]? = some 0 := by
  constructor
  · intro h i hlow hi
    by_contra hne
    have hmem : i ∈ data.allocated :=
      List.mem_filter.2 ⟨List.mem_range.2 hi, decide_eq_true hne⟩
    rw [← h] at hmem
    have hlt := List.mem_range.1 (List.mem_filter.1 hmem).1
    omega
  · intro h
    obtain ⟨k, hk⟩ := Nat.exists_eq_add_of_le hle
    have hrest : ((List.range k).map (data.fieldc.toNat + ·)).filter
        (fun i => data.fieldsSize[i]? ≠ some 0) = [] := by
      rw [List.filter_eq_nil_iff]
      intro i hi
      obtain ⟨j, hj, rfl⟩ := List.mem_map.1 hi
      have hlt := List.mem_range.1 hj
      rw [h _ (Nat.le_add_right _ _) (by omega)]
      exact fun hne => of_decide_eq_true hne rfl
    rw [MessageFieldsData.allocated, hk, List.range_add, List.filter_append, hrest,
      List.append_nil, messageClearFields]

section Slices

variable {message : List Byte} {i : ℕ} {multiByteToWideChar : List Byte → List (BitVec 16)}

theorem fieldsSize_slices (hi : i < headerFieldc message) :
    (slices message).fieldsSize[i]? = some (boundary message (i + 1) - boundary message i) := by
  rw [slices, List.getElem?_map, List.getElem?_range hi, Option.map_some]

theorem fieldsData_slices (hi : i < headerFieldc message) :
    (slices message).fieldsData[i]? = some (fieldSlice message i) := by
  rw [slices, List.getElem?_map, List.getElem?_range hi, Option.map_some]

theorem toNat_fieldc (message : List Byte) :
    (slices message).fieldc.toNat = headerFieldc message % 256 := by
  rw [slices, BitVec.toNat_ofNat]

theorem length_fieldsSize (message : List Byte) :
    (slices message).fieldsSize.length = headerFieldc message := by
  rw [slices, List.length_map, List.length_range]

theorem freed_slices (h : Accepted message) (hord : OffsetsOrdered message) :
    messageClearFields (slices message) = (slices message).allocated ↔
      ∀ i, headerFieldc message % 256 ≤ i → i < headerFieldc message →
        fieldSlice message i = [] := by
  have hle : (slices message).fieldc.toNat ≤ (slices message).fieldsSize.length := by
    rw [toNat_fieldc, length_fieldsSize]
    exact Nat.mod_le _ _
  rw [messageClearFields_eq_allocated hle, toNat_fieldc, length_fieldsSize]
  refine forall_congr' fun i => forall_congr' fun _ => forall_congr' fun hi => ?_
  have hlen := length_fieldSlice h hi
  have hle := hord i hi
  rw [fieldsSize_slices hi, Option.some_inj, ← List.length_eq_zero_iff, hlen]
  bv_omega

/-! ## The fields that are read -/

theorem fieldText_slices (h : Accepted message) (hord : OffsetsOrdered message)
    (hi : i < headerFieldc message) : fieldText (slices message) i = some (fieldSlice message i) := by
  have hlt : (fieldSlice message i).length < 2 ^ 32 := by
    have hlen := length_fieldSlice h hi
    have hlt := (boundary message (i + 1)).isLt
    omega
  have hsize : (BitVec.ofNat 32 (fieldSlice message i).length).toNat =
      (fieldSlice message i).length := by
    rw [BitVec.toNat_ofNat, Nat.mod_eq_of_lt hlt]
  rw [fieldText, fieldsData_slices hi, fieldsSize_slices hi, fieldSize_eq h hord hi]
  simp only [Option.bind_eq_bind, Option.bind_some, hsize]
  rw [read_eq (by omega), List.drop_zero, List.take_length]

theorem fieldNumber_slices (hi : i < headerFieldc message)
    (hfour : 4 ≤ (fieldSlice message i).length) :
    fieldNumber (slices message) i = some (dword ((fieldSlice message i).take 4)) := by
  rw [fieldNumber, fieldsData_slices hi, Option.bind_eq_bind, Option.bind_some,
    readDword_eq (by omega), List.drop_zero]

/-- A field that is too short for a number. -/
theorem fieldNumber_slices_eq_none (hi : i < headerFieldc message)
    (hshort : (fieldSlice message i).length < 4) : fieldNumber (slices message) i = none := by
  rw [fieldNumber, fieldsData_slices hi, Option.bind_eq_bind, Option.bind_some, readDword,
    read_eq_none.2 (by omega), Option.map_none]

theorem useFields_slices (info : UpdateInfo) (h : Accepted message)
    (hord : OffsetsOrdered message) (hcount : 4 ≤ headerFieldc message) :
    (useFields multiByteToWideChar info (slices message)).isSome ↔
      4 ≤ (fieldSlice message 0).length ∧ 4 ≤ (fieldSlice message 3).length := by
  simp only [useFields, fieldText_slices h hord (show 2 < headerFieldc message by omega),
    fieldText_slices h hord (show 1 < headerFieldc message by omega), Option.bind_eq_bind,
    Option.bind_some]
  by_cases hfirst : 4 ≤ (fieldSlice message 0).length
  · by_cases hlast : 4 ≤ (fieldSlice message 3).length
    · rw [fieldNumber_slices (by omega) hfirst, fieldNumber_slices (by omega) hlast]
      exact iff_of_true rfl ⟨hfirst, hlast⟩
    · rw [fieldNumber_slices (by omega) hfirst,
        fieldNumber_slices_eq_none (by omega) (Nat.lt_of_not_le hlast)]
      exact iff_of_false nofun fun h => hlast h.2
  · rw [fieldNumber_slices_eq_none (by omega) (Nat.lt_of_not_le hfirst)]
    exact iff_of_false nofun fun h => hfirst h.1

end Slices

/-! ## Work -/

section Work

variable {multiByteToWideChar : List Byte → List (BitVec 16)}
  {request : List Byte → Option (List Byte)} {sessionId message : List Byte} {info : UpdateInfo}

theorem forty_lt (h : Accepted message) : 40 < message.length := by
  have hpos := h.pos
  unfold dataLength dataStart sizeofMessageHeader at hpos
  omega

/-- What is not parsed ends with `data` that was never filled. -/
theorem work_unfilled (hreq : request (getUpdateMessage sessionId) = some message)
    (htwo : 2 < message.length) (hlt : message.length < 2 ^ 32)
    (hbad : ¬ (Accepted message ∧ OffsetsOrdered message)) :
    work multiByteToWideChar request sessionId info = none := by
  have hsize : message.length = (BitVec.ofNat 32 message.length).toNat := by
    rw [BitVec.toNat_ofNat, Nat.mod_eq_of_lt hlt]
  have hparse : messageGetFields message (BitVec.ofNat 32 message.length) = none ∨
      messageGetFields message (BitVec.ofNat 32 message.length) = some none := by
    by_cases hlen : 36 ≤ message.length
    · by_cases h : Accepted message
      · exact .inl (messageGetFields_unordered hlen hlt h fun hord => hbad ⟨h, hord⟩)
      · exact .inr (messageGetFields_of_not_accepted hsize hlen h)
    · exact .inl (messageGetFields_eq_none _ (Nat.lt_of_not_le hlen))
  simp only [work, hreq, if_pos htwo]
  rcases hparse with hparse | hparse <;> rw [hparse] <;> rfl

/-- What is parsed is used and cleared. -/
theorem work_filled (hreq : request (getUpdateMessage sessionId) = some message)
    (hlt : message.length < 2 ^ 32) (h : Accepted message) (hord : OffsetsOrdered message) :
    work multiByteToWideChar request sessionId info =
      (takeResponse multiByteToWideChar info (some (slices message))).map fun r =>
        { result := r.1, info := r.2, allocated := (slices message).allocated,
          freed := messageClearFields (slices message) } := by
  have hsize : message.length = (BitVec.ofNat 32 message.length).toNat := by
    rw [BitVec.toNat_ofNat, Nat.mod_eq_of_lt hlt]
  have hlen := forty_lt h
  simp only [work, hreq, if_pos (show 2 < message.length by omega)]
  rw [messageGetFields_slices hsize (by omega) h hord, Option.bind_eq_bind, Option.bind_some]
  cases takeResponse multiByteToWideChar info (some (slices message)) <;> rfl

/-- A response that is parsed is handled well exactly if it is harmless. -/
theorem filled_iff (hreq : request (getUpdateMessage sessionId) = some message)
    (hlt : message.length < 2 ^ 32) (h : Accepted message) (hord : OffsetsOrdered message) :
    WorkOk multiByteToWideChar request sessionId info ↔ Harmless message := by
  have hresult : (∃ m, request (getUpdateMessage sessionId) = some m ∧ FourFields m) ↔
      FourFields message := by
    rw [hreq]
    exact ⟨fun ⟨m, hm, hfour⟩ => Option.some.inj hm ▸ hfour, fun hfour => ⟨message, rfl, hfour⟩⟩
  have hcount : (slices message).fieldc = 4 ↔ headerFieldc message % 256 = 4 := by
    rw [← BitVec.toNat_inj, toNat_fieldc]
    rfl
  rw [WorkOk, work_filled hreq hlt h hord, hresult]
  by_cases hfour : headerFieldc message % 256 = 4
  · have huse : (useFields multiByteToWideChar info (slices message)).isSome ↔
        4 ≤ (fieldSlice message 0).length ∧ 4 ≤ (fieldSlice message 3).length :=
      useFields_slices info h hord (show 4 ≤ headerFieldc message by omega)
    rw [takeResponse, if_pos (hcount.2 hfour)]
    cases hinfo : useFields multiByteToWideChar info (slices message) with
    | none =>
      rw [hinfo] at huse
      refine iff_of_false nofun fun hharm => ?_
      exact nomatch huse.2 ⟨(hharm.fields hfour).first, (hharm.fields hfour).last⟩
    | some info' =>
      rw [hinfo] at huse
      constructor
      · rintro ⟨o, ho, hfreed, hrv⟩
        obtain rfl := Option.some.inj ho
        exact ⟨h, hord, (freed_slices h hord).1 hfreed, fun _ => hrv.1 rfl⟩
      · intro hharm
        exact ⟨_, rfl, (freed_slices h hord).2 hharm.freed,
          iff_of_true rfl (hharm.fields hfour)⟩
  · have hnot : ¬ FourFields message := fun hfields => hfour (by rw [hfields.count])
    rw [takeResponse, if_neg fun hc => hfour (hcount.1 hc)]
    constructor
    · rintro ⟨o, ho, hfreed, -⟩
      obtain rfl := Option.some.inj ho
      exact ⟨h, hord, (freed_slices h hord).1 hfreed, fun hc => absurd hc hfour⟩
    · intro hharm
      exact ⟨_, rfl, (freed_slices h hord).2 hharm.freed, iff_of_false nofun hnot⟩

/-- The response is handled as it should exactly if there is none, it has at most 2 bytes, or it is
harmless. -/
theorem workOk_iff (hlt : ∀ message, request (getUpdateMessage sessionId) = some message →
      message.length < 2 ^ 32) :
    WorkOk multiByteToWideChar request sessionId info ↔
      ∀ message, request (getUpdateMessage sessionId) = some message →
        message.length ≤ 2 ∨ Harmless message := by
  have hbranch : (∃ message, request (getUpdateMessage sessionId) = some message ∧
      2 < message.length) ∨
      ∀ message, request (getUpdateMessage sessionId) = some message → message.length ≤ 2 := by
    by_cases h : ∃ message, request (getUpdateMessage sessionId) = some message ∧
        2 < message.length
    · exact .inl h
    · exact .inr fun message hreq => Nat.le_of_not_lt fun htwo => h ⟨message, hreq, htwo⟩
  rcases hbranch with ⟨message, hreq, htwo⟩ | hshort
  · have honly : (∀ m, request (getUpdateMessage sessionId) = some m →
        m.length ≤ 2 ∨ Harmless m) ↔ Harmless message := by
      rw [hreq]
      refine ⟨fun h => (h message rfl).resolve_left (by omega), fun h m hm => .inr ?_⟩
      exact Option.some.inj hm ▸ h
    rw [honly]
    by_cases h : Accepted message ∧ OffsetsOrdered message
    · exact filled_iff hreq (hlt message hreq) h.1 h.2
    · refine iff_of_false ?_ fun hharm => h ⟨hharm.accepted, hharm.ordered⟩
      rintro ⟨o, ho, -⟩
      rw [work_unfilled hreq htwo (hlt message hreq) h] at ho
      exact nomatch ho
  · refine iff_of_true ?_ fun message hreq => .inl (hshort message hreq)
    have hnot : ¬ ∃ message, request (getUpdateMessage sessionId) = some message ∧
        FourFields message := by
      rintro ⟨message, hreq, hfour⟩
      have hlong := forty_lt hfour.accepted
      have hle := hshort message hreq
      omega
    refine ⟨{ result := false, info, allocated := [], freed := [] }, ?_, rfl,
      iff_of_false nofun hnot⟩
    cases hreq : request (getUpdateMessage sessionId) with
    | none => simp only [work, hreq]; rfl
    | some message =>
      have hle := hshort message hreq
      simp only [work, hreq, if_neg (show ¬ 2 < message.length by omega)]
      rfl

end Work

/-- Four fields, the second and third of which are texts. -/
theorem workOk_four_fields : WorkOk (List.map (BitVec.setWidth 16))
    (fun _ => some (rawMessage 4 [4, 6, 7, 11] [1, 0, 0, 0, 104, 105, 33, 5, 0, 0, 0]))
    (List.replicate 32 0) ⟨0, [], [], [], 0⟩ := by
  refine (workOk_iff ?_).2 ?_
  · rintro message ⟨⟩
    decide
  · rintro message ⟨⟩
    refine .inr ?_
    have hacc : Accepted (rawMessage 4 [4, 6, 7, 11] [1, 0, 0, 0, 104, 105, 33, 5, 0, 0, 0]) :=
      ⟨by decide, by decide, by decide⟩
    have hord : OffsetsOrdered
        (rawMessage 4 [4, 6, 7, 11] [1, 0, 0, 0, 104, 105, 33, 5, 0, 0, 0]) := by
      unfold OffsetsOrdered
      decide
    refine ⟨hacc, hord, fun i hlow hi => ?_, fun _ => ⟨hacc, hord, by decide, by decide, by decide⟩⟩
    have hlow' : 4 ≤ i := hlow
    have hi' : i < 4 := hi
    omega

/-- The response has 40 zero bytes: it is not parsed, and `data` is cleared all the same. -/
theorem cleared_unfilled : ¬ WorkOk (List.map (BitVec.setWidth 16))
    (fun _ => some (List.replicate 40 0)) (List.replicate 32 0) ⟨0, [], [], [], 0⟩ := by
  rintro ⟨o, ho, -⟩
  have hnone : work (List.map (BitVec.setWidth 16)) (fun _ => some (List.replicate 40 0))
      (List.replicate 32 0) ⟨0, [], [], [], 0⟩ = none := by decide
  exact nomatch hnone.symm.trans ho

end GetUpdate

end DreamDota
