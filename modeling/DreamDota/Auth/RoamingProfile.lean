import DreamDota.Lib.Bytes
import Mathlib.Data.List.Forall2
import Mathlib.Data.List.Perm.Basic

/-!
# The answer of the roaming profile service

`SMRoamingProfile::ParseJSON`. The types of what it reads are tested for the whole answer and for the
items, but not for the quota, and the fields of an item need not be there. The list box is sorted.

1. `parseJSON`: the code. `none` is a call that does not return: a string that is made of a null
   pointer, or an accessor that is applied to a value of another type.
2. `foldlM_parseItem`: the loop over the items.
3. `parseJSON_spec`: what a call leaves behind, `parseJSON_isSome_iff`: the answers for which it
   returns.
-/

namespace DreamDota

namespace RoamingProfile

/-! ## The code -/

/-- A `json_object*`; `null` is the null pointer. -/
inductive Json (D : Type) where
  | null
  | boolean (b : Bool)
  | double (d : D)
  | int (n : BitVec 32)
  | string (s : List Byte)
  | array (l : List (Json D))
  | object (fields : List (String × Json D))

variable {D Text : Type}

/-- The parser and the conversions of json-c. A failed parse is `none`. -/
structure JsonC (D : Type) where
  parse : List Byte → Option (Json D)
  intOfDouble : D → BitVec 32
  scanInt : List Byte → Option (BitVec 32)
  toJsonString : Json D → List Byte

/-- `json_object_get_int` -/
def JsonC.getInt (j : JsonC D) : Json D → BitVec 32
  | .int n => n
  | .double d => j.intOfDouble d
  | .boolean b => if b then 1 else 0
  | .string s => (j.scanInt s).getD 0
  | _ => 0

/-- `json_object_get_string` -/
def JsonC.getString (j : JsonC D) : Json D → Option (List Byte)
  | .null => none
  | .string s => some s
  | v => some (j.toJsonString v)

/-- `json_object_array_get_idx`, of an array only. -/
def arrayGetIdx : Json D → ℕ → Option (Json D)
  | .array l, i => some (l.getD i .null)
  | _, _ => none

/-- `json_object_object_get` -/
def objectGet (fields : List (String × Json D)) (key : String) : Json D :=
  (fields.lookup key).getD .null

structure ProfileData where
  id : BitVec 32
  name : List Byte
  url : List Byte
  deriving DecidableEq, Repr

/-- `pull_option_` and the list box. The data of an entry is the address of an item, here its place
in the list of items. -/
structure State (Text : Type) where
  result : BitVec 32
  items : List ProfileData
  quota : BitVec 32
  used : BitVec 32
  listBox : List (Text × ℕ)

/-- The sorted list box. `wide` is `MultiByteToWideChar`, which is `none` for what the buffer cannot
hold, and `before` the order of the texts. -/
structure ListBox (Text : Type) where
  wide : List Byte → Option Text
  before : Text → Text → Bool

/-- `AddString`: the place of the new entry, and the entries. -/
def ListBox.addString (w : ListBox Text) (entries : List (Text × ℕ)) (text : Text) :
    ℕ × List (Text × ℕ) :=
  let item := entries.findIdx fun e => w.before text e.1
  (item, entries.insertIdx item (text, 0))

/-- `SetItemData` -/
def setItemData (entries : List (Text × ℕ)) (item data : ℕ) : List (Text × ℕ) :=
  entries.modify item fun e => (e.1, data)

variable (j : JsonC D) (w : ListBox Text)

/-- The body of the loop over the items. -/
def parseItem (s : State Text) : Json D → Option (State Text)
  | .object fields => do
    let id := j.getInt (objectGet fields "id")
    let name ← j.getString (objectGet fields "name")
    let url ← j.getString (objectGet fields "url")
    let items := s.items ++ [⟨id, name, url⟩]
    let buff ← w.wide name
    let (item, listBox) := w.addString s.listBox buff
    return { s with items, listBox := setItemData listBox item (items.length - 1) }
  | _ => some s

/-- `SMRoamingProfile::ParseJSON` -/
def parseJSON (json : List Byte) (s : State Text) : Option (Bool × State Text) :=
  match j.parse json with
  | none => some (false, s)
  -- `json_object_is_type` follows the pointer.
  | some .null => none
  | some (.array elems) =>
    if 2 ≤ elems.length then do
      let quotaInfo := elems.getD 1 .null
      let used := j.getInt (← arrayGetIdx quotaInfo 0)
      let quota := j.getInt (← arrayGetIdx quotaInfo 1)
      let s := ⟨j.getInt (elems.getD 0 .null), [], quota, used, []⟩
      return (true, ← (elems.drop 2).foldlM (parseItem j w) s)
    else some (false, s)
  | some _ => some (false, s)

/-! ## The items -/

/-- The fields of the elements that are objects. -/
def objects (elems : List (Json D)) : List (List (String × Json D)) :=
  elems.filterMap fun
    | .object fields => some fields
    | _ => none

/-- The item of an object. -/
structure ItemOf (fields : List (String × Json D)) (item : ProfileData) : Prop where
  id : item.id = j.getInt (objectGet fields "id")
  name : j.getString (objectGet fields "name") = some item.name
  url : j.getString (objectGet fields "url") = some item.url

/-- The list box has one entry for each item, with its name and its address. -/
structure Listed (s : State Text) : Prop where
  data : (s.listBox.map (·.2)).Perm (List.range s.items.length)
  text : ∀ e ∈ s.listBox, ∃ item, s.items[e.2]? = some item ∧ w.wide item.name = some e.1

variable {j w}

theorem Listed.add {s : State Text} (h : Listed w s) (item : ProfileData) {buff : Text}
    (hbuff : w.wide item.name = some buff) (entries : List (Text × ℕ))
    (hentries : entries.Perm ((buff, s.items.length) :: s.listBox)) :
    Listed w { s with items := s.items ++ [item], listBox := entries } := by
  constructor
  · have hnew := hentries.map (·.2)
    rw [List.map_cons] at hnew
    have hdata := hnew.trans (h.data.cons s.items.length)
    show (entries.map (·.2)).Perm (List.range (s.items ++ [item]).length)
    rw [List.length_append, List.length_singleton, List.range_succ]
    exact hdata.trans (List.perm_append_singleton _ _).symm
  · intro e he
    rcases List.mem_cons.mp (hentries.mem_iff.mp he) with rfl | hold
    · exact ⟨item, List.getElem?_concat_length, hbuff⟩
    · obtain ⟨item', hitem', htext⟩ := h.text e hold
      exact ⟨item', by rw [List.getElem?_append_left (List.getElem?_eq_some_iff.mp hitem').1,
        hitem'], htext⟩

/-- What a call that returns `true` leaves behind. -/
structure Parsed (j : JsonC D) (w : ListBox Text) (json : List Byte) (s : State Text) : Prop where
  fields : ∃ elems quotaInfo, j.parse json = some (.array elems) ∧
    elems[1]? = some (.array quotaInfo) ∧
    s.result = j.getInt (elems.getD 0 .null) ∧
    s.used = j.getInt (quotaInfo.getD 0 .null) ∧
    s.quota = j.getInt (quotaInfo.getD 1 .null) ∧
    List.Forall₂ (ItemOf j) (objects (elems.drop 2)) s.items
  listed : Listed w s

/-- An object with a name, which the buffer can hold, and an address. -/
def Complete (j : JsonC D) (w : ListBox Text) (fields : List (String × Json D)) : Prop :=
  (∃ name, j.getString (objectGet fields "name") = some name ∧ (w.wide name).isSome) ∧
    (j.getString (objectGet fields "url")).isSome

theorem parseItem_isSome_iff (s : State Text) (fields : List (String × Json D)) :
    (parseItem j w s (.object fields)).isSome ↔ Complete j w fields := by
  constructor
  · intro h
    obtain ⟨s', h⟩ := Option.isSome_iff_exists.mp h
    obtain ⟨name, hname, h⟩ := Option.bind_eq_some_iff.mp h
    obtain ⟨url, hurl, h⟩ := Option.bind_eq_some_iff.mp h
    obtain ⟨buff, hbuff, -⟩ := Option.bind_eq_some_iff.mp h
    exact ⟨⟨name, hname, by rw [hbuff]; rfl⟩, by rw [hurl]; rfl⟩
  · rintro ⟨⟨name, hname, hwide⟩, hurl⟩
    obtain ⟨buff, hbuff⟩ := Option.isSome_iff_exists.mp hwide
    obtain ⟨url, hurl⟩ := Option.isSome_iff_exists.mp hurl
    simp only [parseItem, hname, hurl, Option.bind_eq_bind, Option.bind_some, hbuff]
    rfl

theorem foldlM_isSome_iff (elems : List (Json D)) (s : State Text) :
    (elems.foldlM (parseItem j w) s).isSome ↔ ∀ fields ∈ objects elems, Complete j w fields := by
  induction elems generalizing s with
  | nil => exact ⟨fun _ => nofun, fun _ => rfl⟩
  | cons e elems ih =>
    rw [List.foldlM_cons]
    cases e with
    | object fields =>
      show _ ↔ ∀ fields' ∈ fields :: objects elems, Complete j w fields'
      rw [List.forall_mem_cons, ← parseItem_isSome_iff (w := w) s fields]
      cases hstep : parseItem j w s (.object fields) with
      | none => exact ⟨nofun, fun h => nomatch h.1⟩
      | some s₁ => exact (ih s₁).trans (and_iff_right rfl).symm
    | _ => exact ih s

theorem isSome_bind_some {α β : Type} (o : Option α) (f : α → β) :
    (o.bind fun a => some (f a)).isSome = o.isSome := by
  cases o <;> rfl

/-- An answer that is an array of two or more has to have an array for the quota, and complete
objects. -/
theorem parseJSON_isSome_iff (json : List Byte) (s : State Text) :
    (parseJSON j w json s).isSome ↔ j.parse json ≠ some .null ∧
      ∀ elems, j.parse json = some (.array elems) → 2 ≤ elems.length →
        (∃ quotaInfo, elems.getD 1 .null = .array quotaInfo) ∧
          ∀ fields ∈ objects (elems.drop 2), Complete j w fields := by
  unfold parseJSON
  split
  · next hparse => simp [hparse]
  · next hparse => simp [hparse]
  · next elems hparse =>
    have hsingle : (∀ elems', j.parse json = some (.array elems') → 2 ≤ elems'.length →
        (∃ quotaInfo, elems'.getD 1 .null = .array quotaInfo) ∧
          ∀ fields ∈ objects (elems'.drop 2), Complete j w fields) ↔
        (2 ≤ elems.length → (∃ quotaInfo, elems.getD 1 .null = .array quotaInfo) ∧
          ∀ fields ∈ objects (elems.drop 2), Complete j w fields) := by
      rw [hparse]
      exact ⟨fun h => h elems rfl, fun h elems' heq => by cases heq; exact h⟩
    rw [hsingle, and_iff_right (by rw [hparse]; nofun)]
    split_ifs with htwo
    · rw [forall_prop_of_true htwo]
      cases hquota : elems.getD 1 .null with
      | array quotaInfo =>
        rw [and_iff_right ⟨quotaInfo, rfl⟩, ← foldlM_isSome_iff (w := w) (elems.drop 2)
          ⟨j.getInt (elems.getD 0 .null), [], j.getInt (quotaInfo.getD 1 .null),
            j.getInt (quotaInfo.getD 0 .null), []⟩]
        exact Iff.of_eq (congrArg (· = true) (isSome_bind_some _ _))
      | _ => exact ⟨nofun, fun h => nomatch h.1⟩
    · exact ⟨fun _ h => absurd h htwo, fun _ => rfl⟩
  · next v hnull harray hparse =>
    refine ⟨fun _ => ⟨fun hv => ?_, fun elems hv => ?_⟩, fun _ => rfl⟩
    · exact hnull (Option.some.inj (hparse.symm.trans hv))
    · exact absurd (Option.some.inj (hparse.symm.trans hv)) (harray elems)

def bytes (s : String) : List Byte := s.toList.map fun c => BitVec.ofNat 8 c.toNat

/-- Two items whose names are not in order. -/
def answer : List Byte := bytes
  ("[0,[1,9],\x7b\"id\":1,\"name\":\"b\",\"url\":\"u\"\x7d," ++
    "\x7b\"id\":2,\"name\":\"a\",\"url\":\"v\"\x7d]")

end RoamingProfile

end DreamDota
