import DreamDota.Json.LinkHashMap
import DreamDota.Lib.Bytes
import DreamDota.Lib.Decimal

/-!
# The texts of JSON values

`json_object_to_json_string`, which goes through an object in the order of its table, and
`json_escape_str`, which copies what lies between two characters that need an escape at once.

1. `escapeStr_eq`: the escaped text is made character by character.
2. `Json.Ok`: the values that have a text that can be read: the strings end at their null character,
   and the names of an object are distinct, as its table keeps them (`objectAdd_entries`).
3. `Json.depth`: how deep arrays and objects lie in each other.
-/

open Bytes

namespace DreamDota

/-- A C string, without its null character. -/
abbrev Text := List Byte

/-- A character of ASCII. -/
def ch (c : Char) : Byte := BitVec.ofNat 8 c.toNat

def ascii (s : String) : Text := s.toList.map ch

/-- A `json_object*`; `null` is the null pointer. -/
inductive Json (D : Type) where
  | null
  | boolean (b : Bool)
  | double (d : D)
  | int (i : BitVec 32)
  | object (fields : List (Text × Json D))
  | array (elems : List (Json D))
  | string (s : Text)

/-- `sprintf` and `sscanf` with `%lf`. -/
structure DoubleIo (D : Type) where
  print : D → Text
  scan : Text → Option D

namespace Json

variable {D : Type}

/-! ## The code -/

def hexChars : Text := ascii "0123456789abcdef"

def numberChars : Text := ascii "0123456789.+-eE"

/-- The escapes of two characters. -/
def shortEscape (c : Byte) : Option Text :=
  if c = 0x08 then some (ascii "\\b")
  else if c = 0x0A then some (ascii "\\n")
  else if c = 0x0D then some (ascii "\\r")
  else if c = 0x09 then some (ascii "\\t")
  else if c = ch '"' then some (ascii "\\\"")
  else if c = ch '\\' then some (ascii "\\\\")
  else if c = ch '/' then some (ascii "\\/")
  else none

/-- The escape of another control character. -/
def longEscape (c : Byte) : Text :=
  ascii "\\u00" ++ [hexChars.getD (c >>> 4).toNat 0, hexChars.getD (c &&& 0xF).toNat 0]

/-- The loop of `json_escape_str`; `run` is what was passed since `start_offset`. -/
def escapeLoop (pb run : Text) : Text → Text
  | [] => pb ++ run
  | c :: str =>
    match shortEscape c with
    | some e => escapeLoop (pb ++ run ++ e) [] str
    | none =>
      if c < ch ' ' then escapeLoop (pb ++ run ++ longEscape c) [] str
      else escapeLoop pb (run ++ [c]) str

/-- `json_escape_str` -/
def escapeStr (pb str : Text) : Text := escapeLoop pb [] str

/-- `"%d"` -/
def printInt (i : BitVec 32) : Text := (Decimal.ofInt i.toInt).map ch

variable (io : DoubleIo D)

mutual

/-- The `_to_json_string` functions. -/
def toJsonString (pb : Text) : Json D → Text
  | .null => pb ++ ascii "null"
  | .boolean b => pb ++ if b then ascii "true" else ascii "false"
  | .double d => pb ++ io.print d
  | .int i => pb ++ printInt i
  | .object fields => objectLoop (pb ++ ascii "\x7b") 0 fields ++ ascii " \x7d"
  | .array elems => arrayLoop (pb ++ ascii "[") 0 elems ++ ascii " ]"
  | .string s => escapeStr (pb ++ ascii "\"") s ++ ascii "\""

/-- The loop of `json_object_object_to_json_string`. -/
def objectLoop (pb : Text) (i : ℕ) : List (Text × Json D) → Text
  | [] => pb
  | e :: fields => objectLoop (fieldTurn (if i ≠ 0 then pb ++ ascii "," else pb) e) (i + 1) fields

/-- What a turn of this loop writes. -/
def fieldTurn (pb : Text) : Text × Json D → Text
  | (key, val) => toJsonString (escapeStr (pb ++ ascii " \"") key ++ ascii "\": ") val

/-- The loop of `json_object_array_to_json_string`. -/
def arrayLoop (pb : Text) (i : ℕ) : List (Json D) → Text
  | [] => pb
  | val :: elems =>
    arrayLoop (toJsonString (if i ≠ 0 then pb ++ ascii ", " else pb ++ ascii " ") val) (i + 1) elems

end

/-- `json_object_object_add` of the fields in their order. -/
def objectAdd (fields : List (Text × Json D)) (key : Text) (val : Json D) :
    List (Text × Json D) :=
  fields.filter (fun e => e.1 ≠ key) ++ [(key, val)]

/-- What the table holds for a value. -/
def ptr : Json D → Option (Json D)
  | .null => none
  | v => some v

/-- The table of an object keeps this order. -/
theorem objectAdd_entries (fields : List (Text × Json D)) (key : Text) (val : Json D) :
    (objectAdd fields key val).map (Prod.map id ptr) =
      LhTable.erase (fields.map (Prod.map id ptr)) key ++ [(key, ptr val)] := by
  unfold objectAdd LhTable.erase
  rw [List.map_append, List.filter_map]
  rfl

theorem objectAdd_of_notMem {fields : List (Text × Json D)} {key : Text}
    (h : key ∉ fields.map Prod.fst) (val : Json D) :
    objectAdd fields key val = fields ++ [(key, val)] := by
  unfold objectAdd
  rw [List.filter_eq_self.mpr]
  intro e he
  rw [decide_eq_true_eq]
  rintro rfl
  exact h (List.mem_map_of_mem he)

/-! ## Escapes -/

/-- The escaped character. -/
def escapeChar (c : Byte) : Text :=
  match shortEscape c with
  | some e => e
  | none => if c < ch ' ' then longEscape c else [c]

theorem escapeLoop_eq (pb run str : Text) :
    escapeLoop pb run str = pb ++ run ++ str.flatMap escapeChar := by
  induction str generalizing pb run with
  | nil => rw [escapeLoop, List.flatMap_nil, List.append_nil]
  | cons c str ih =>
    rw [List.flatMap_cons, escapeChar]
    unfold escapeLoop
    cases shortEscape c with
    | some e => simp only [ih, List.append_assoc, List.append_nil]
    | none =>
      dsimp only
      split_ifs <;> simp only [ih, List.append_assoc, List.append_nil]

theorem escapeStr_eq (pb str : Text) : escapeStr pb str = pb ++ str.flatMap escapeChar := by
  rw [escapeStr, escapeLoop_eq, List.append_nil]

/-! ## Texts -/

/-- Values are built up from the elements of arrays and the fields of objects. -/
theorem induct {P : Json D → Prop} (null : P .null) (boolean : ∀ b, P (.boolean b))
    (double : ∀ d, P (.double d)) (int : ∀ i, P (.int i))
    (object : ∀ fields : List (Text × Json D), (∀ e ∈ fields, P e.2) → P (.object fields))
    (array : ∀ elems : List (Json D), (∀ v ∈ elems, P v) → P (.array elems))
    (string : ∀ s, P (.string s)) (v : Json D) : P v :=
  match v with
  | .null => null
  | .boolean b => boolean b
  | .double d => double d
  | .int i => int i
  | .object fields => object fields fun e he =>
    have := List.sizeOf_lt_of_mem he
    induct null boolean double int object array string e.2
  | .array elems => array elems fun v hv =>
    have := List.sizeOf_lt_of_mem hv
    induct null boolean double int object array string v
  | .string s => string s
termination_by sizeOf v
decreasing_by
  · cases e
    simp at *
    omega
  · simp
    omega

/-- The text of a value. -/
def text (v : Json D) : Text := toJsonString io [] v

/-- The text of a field. -/
def fieldText (e : Text × Json D) : Text :=
  ascii " \"" ++ (e.1.flatMap escapeChar ++ (ascii "\": " ++ text io e.2))

/-- The fields that follow another one. -/
def moreFields (fields : List (Text × Json D)) : Text :=
  fields.flatMap fun e => ascii "," ++ fieldText io e

def moreElems (elems : List (Json D)) : Text :=
  elems.flatMap fun v => ascii ", " ++ text io v

variable {io}

theorem objectLoop_succ {fields : List (Text × Json D)}
    (h : ∀ e ∈ fields, ∀ pb, toJsonString io pb e.2 = pb ++ text io e.2) (pb : Text) (i : ℕ) :
    objectLoop io pb (i + 1) fields = pb ++ moreFields io fields := by
  induction fields generalizing pb i with
  | nil => rw [objectLoop, moreFields, List.flatMap_nil, List.append_nil]
  | cons e fields ih =>
    obtain ⟨hfirst, hrest⟩ := List.forall_mem_cons.mp h
    rw [objectLoop, ih hrest, if_pos (Nat.succ_ne_zero i), fieldTurn, hfirst, escapeStr_eq]
    simp only [moreFields, List.flatMap_cons, fieldText, List.append_assoc]

theorem arrayLoop_succ {elems : List (Json D)}
    (h : ∀ v ∈ elems, ∀ pb, toJsonString io pb v = pb ++ text io v) (pb : Text) (i : ℕ) :
    arrayLoop io pb (i + 1) elems = pb ++ moreElems io elems := by
  induction elems generalizing pb i with
  | nil => rw [arrayLoop, moreElems, List.flatMap_nil, List.append_nil]
  | cons v elems ih =>
    obtain ⟨hfirst, hrest⟩ := List.forall_mem_cons.mp h
    rw [arrayLoop, ih hrest, if_pos (Nat.succ_ne_zero i), hfirst]
    simp only [moreElems, List.flatMap_cons, List.append_assoc]

/-- The fields of an object, with the closing brace. -/
def fieldsText (io : DoubleIo D) : List (Text × Json D) → Text
  | [] => ascii " \x7d"
  | e :: fields => fieldText io e ++ (moreFields io fields ++ ascii " \x7d")

def elemsText (io : DoubleIo D) : List (Json D) → Text
  | [] => ascii " ]"
  | v :: elems => ascii " " ++ (text io v ++ (moreElems io elems ++ ascii " ]"))

theorem toJsonString_object {fields : List (Text × Json D)}
    (h : ∀ e ∈ fields, ∀ pb, toJsonString io pb e.2 = pb ++ text io e.2) (pb : Text) :
    toJsonString io pb (.object fields) = pb ++ (ascii "\x7b" ++ fieldsText io fields) := by
  cases fields with
  | nil => rw [toJsonString, objectLoop, fieldsText, List.append_assoc]
  | cons e fields =>
    obtain ⟨hfirst, hrest⟩ := List.forall_mem_cons.mp h
    rw [toJsonString, objectLoop, objectLoop_succ hrest, if_neg (not_not_intro rfl), fieldTurn,
      hfirst, escapeStr_eq]
    simp only [fieldsText, fieldText, List.append_assoc]

theorem toJsonString_array {elems : List (Json D)}
    (h : ∀ v ∈ elems, ∀ pb, toJsonString io pb v = pb ++ text io v) (pb : Text) :
    toJsonString io pb (.array elems) = pb ++ (ascii "[" ++ elemsText io elems) := by
  cases elems with
  | nil => rw [toJsonString, arrayLoop, elemsText, List.append_assoc]
  | cons v elems =>
    obtain ⟨hfirst, hrest⟩ := List.forall_mem_cons.mp h
    rw [toJsonString, arrayLoop, arrayLoop_succ hrest, if_neg (not_not_intro rfl), hfirst]
    simp only [elemsText, List.append_assoc]

/-- The text of a value is appended to the buffer. -/
theorem toJsonString_eq (v : Json D) (pb : Text) : toJsonString io pb v = pb ++ text io v := by
  induction v using induct generalizing pb with
  | null | boolean | double | int => simp only [text, toJsonString, List.nil_append]
  | object fields ih =>
    rw [text, toJsonString_object ih, toJsonString_object ih, List.nil_append]
  | array elems ih => rw [text, toJsonString_array ih, toJsonString_array ih, List.nil_append]
  | string s =>
    simp only [text, toJsonString, escapeStr_eq, List.append_assoc, List.nil_append]

theorem text_object (fields : List (Text × Json D)) :
    text io (.object fields) = ascii "\x7b" ++ fieldsText io fields :=
  toJsonString_object (fun e _ => toJsonString_eq e.2) []

theorem text_array (elems : List (Json D)) :
    text io (.array elems) = ascii "[" ++ elemsText io elems :=
  toJsonString_array (fun v _ => toJsonString_eq v) []

theorem text_string (s : Text) :
    text io (.string s : Json D) = ascii "\"" ++ (s.flatMap escapeChar ++ ascii "\"") := by
  simp only [text, toJsonString, escapeStr_eq, List.append_assoc, List.nil_append]

/-! ## What can be read -/

/-- A double that is not changed by its six decimals. -/
structure Printable (io : DoubleIo D) (d : D) : Prop where
  chars : ∀ c ∈ io.print d, c ∈ numberChars
  first : ∃ c s, io.print d = c :: s ∧ (c = ch '-' ∨ c ∈ numberChars.take 10)
  point : ch '.' ∈ io.print d
  scan : io.scan (io.print d) = some d

/-- What an object or an array is made of. -/
inductive Ok (io : DoubleIo D) : Json D → Prop where
  | null : Ok io .null
  | boolean (b : Bool) : Ok io (.boolean b)
  | double {d : D} (h : Printable io d) : Ok io (.double d)
  | int (i : BitVec 32) : Ok io (.int i)
  | object {fields : List (Text × Json D)} (names : (fields.map Prod.fst).Nodup)
      (strings : ∀ e ∈ fields, 0 ∉ e.1) (values : ∀ e ∈ fields, Ok io e.2) : Ok io (.object fields)
  | array {elems : List (Json D)} (values : ∀ v ∈ elems, Ok io v) : Ok io (.array elems)
  | string {s : Text} (h : 0 ∉ s) : Ok io (.string s)

mutual

/-- How deep arrays and objects lie in each other. -/
def depth : Json D → ℕ
  | .object fields => fieldsDepth fields
  | .array elems => elemsDepth elems
  | _ => 0

def fieldsDepth : List (Text × Json D) → ℕ
  | [] => 0
  | e :: fields => max (fieldDepth e) (fieldsDepth fields)

def fieldDepth : Text × Json D → ℕ
  | (_, val) => depth val + 1

def elemsDepth : List (Json D) → ℕ
  | [] => 0
  | val :: elems => max (depth val + 1) (elemsDepth elems)

end

theorem fieldDepth_eq (e : Text × Json D) : fieldDepth e = depth e.2 + 1 := by
  obtain ⟨key, val⟩ := e
  rw [fieldDepth]

end Json

end DreamDota
