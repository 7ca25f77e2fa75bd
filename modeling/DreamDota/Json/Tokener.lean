import DreamDota.Json.Writer

/-!
# The tokener

`json_tokener_parse_ex`, with a level of the stack for every array and object around the current
value. `Config.str` is what is left of the text. A turn handles its first character, and a tight
loop also those behind it; `goto redo_char` is a turn that leaves the text as it is.

A length may be given. Without one a text is read to its null character, and a turn that reads what
lies behind it has no result, nor has one that takes a value for an object or an array that is none.
-/

open Bytes

namespace DreamDota

namespace JsonTokener

open Json

/-- The states without their prefix `json_tokener_state`. -/
inductive State
  | eatws | start | finish | null | commentStart | comment | commentEol | commentEnd | string
  | stringEscape | escapeUnicode | boolean | number | array | arrayAdd | arraySep
  | objectFieldStart | objectField | objectFieldEnd | objectValue | objectValueAdd | objectSep
  deriving DecidableEq, Repr

/-- The values of `json_tokener_error`. -/
inductive Error
  | success | continue | depth | parseEof | parseUnexpected | parseNull | parseBoolean
  | parseNumber | parseArray | parseObjectKeyName | parseObjectKeySep | parseObjectValueSep
  | parseString | parseComment
  deriving DecidableEq, Repr

variable {D : Type}

structure Srec (D : Type) where
  state : State
  savedState : State
  current : Json D
  objFieldName : Option Text

/-- `json_tokener_reset_level` -/
def Srec.reset : Srec D := ⟨.eatws, .start, .null, none⟩

/-- `top` is the level `depth` of the stack. -/
structure Tokener (D : Type) where
  pb : Text
  isDouble : Bool
  stPos : ℕ
  err : Error
  ucsChar : BitVec 32
  quoteChar : Byte
  top : Srec D
  below : List (Srec D)

/-- `JSON_TOKENER_MAX_DEPTH` -/
def maxDepth : ℕ := 32

def Tokener.depth (tok : Tokener D) : ℕ := tok.below.length

/-- `json_tokener_new` -/
def Tokener.new : Tokener D := ⟨[], false, 0, .success, 0, 0, .reset, []⟩

def Tokener.goto (tok : Tokener D) (state : State) : Tokener D :=
  { tok with top := { tok.top with state } }

/-- White space is skipped before `state`. -/
def Tokener.eatBefore (tok : Tokener D) (state : State) : Tokener D :=
  { tok with top := { tok.top with state := .eatws, savedState := state } }

/-- An escape is read, and then `state` goes on. -/
def Tokener.escape (tok : Tokener D) (state : State) : Tokener D :=
  { tok with top := { tok.top with state := .stringEscape, savedState := state } }

/-- The current value is complete. -/
def Tokener.complete (tok : Tokener D) (v : Json D) : Tokener D :=
  { tok with top := { tok.top with state := .eatws, savedState := .finish, current := v } }

def Tokener.setCurrent (tok : Tokener D) (current : Json D) : Tokener D :=
  { tok with top := { tok.top with current } }

def Tokener.setName (tok : Tokener D) (objFieldName : Option Text) : Tokener D :=
  { tok with top := { tok.top with objFieldName } }

def Tokener.fail (tok : Tokener D) (err : Error) : Tokener D := { tok with err }

def Tokener.append (tok : Tokener D) (s : Text) : Tokener D := { tok with pb := tok.pb ++ s }

/-- A new level. -/
def Tokener.push (tok : Tokener D) (state : State) : Tokener D :=
  { tok with top := .reset, below := (tok.goto state).top :: tok.below }

structure Config (D : Type) where
  tok : Tokener D
  obj : Json D
  str : Text

/-- After a turn there is another one, or the jump to `out`; `eof` is whether `c` is null there. -/
inductive Next (D : Type)
  | turn (x : Config D)
  | out (tok : Tokener D) (eof : Bool)

/-! ## Characters -/

/-- `isspace` -/
def isSpace (c : Byte) : Bool := c = ch ' ' ∨ 0x09 ≤ c ∧ c ≤ 0x0D

def toLower (c : Byte) : Byte := if ch 'A' ≤ c ∧ c ≤ ch 'Z' then c + 0x20 else c

/-- `strncasecmp(a, b, n) == 0` of two texts with `n` characters. -/
def strncasecmp (a b : Text) (n : ℕ) : Bool := (a.take n).map toLower = (b.take n).map toLower

/-- `strchr`, which finds the null character of `s` too. -/
def strchr (s : Text) (c : Byte) : Bool := s.contains c || c = 0

/-- `hexdigit` -/
def hexdigit (c : Byte) : BitVec 32 :=
  if c ≤ ch '9' then c.zeroExtend 32 - (ch '0').zeroExtend 32 else (c.zeroExtend 32 &&& 7) + 9

/-- `sscanf` with `%d` -/
def scanInt (s : Text) : Option (BitVec 32) :=
  let s := s.dropWhile isSpace
  let neg := s.head? = some (ch '-')
  let s := if neg ∨ s.head? = some (ch '+') then s.tail else s
  let digits := s.takeWhile fun c => ch '0' ≤ c ∧ c ≤ ch '9'
  let n := digits.foldl (fun n c => 10 * n + (c - ch '0').toNat) 0
  if digits = [] then none
  else some (if neg then - BitVec.ofNat 32 n else BitVec.ofNat 32 n)

/-- The bytes of UTF-8 of a character of the basic plane. -/
def utf8 (ucsChar : BitVec 32) : Text :=
  let low : Byte := 0x80 ||| (ucsChar &&& 0x3F).setWidth 8
  if ucsChar < 0x80 then [ucsChar.setWidth 8]
  else if ucsChar < 0x800 then [0xC0 ||| (ucsChar >>> 6).setWidth 8, low]
  else [0xE0 ||| (ucsChar >>> 12).setWidth 8, 0x80 ||| ((ucsChar >>> 6) &&& 0x3F).setWidth 8, low]

/-- A C string ends at its first null character. -/
def cString (s : Text) : Text := s.takeWhile (· ≠ 0)

theorem strchr_iff {s : Text} {c : Byte} : strchr s c = true ↔ c ∈ s ∨ c = 0 := by
  rw [strchr, Bool.or_eq_true, List.contains_iff_mem, decide_eq_true_eq]

/-! ## The loops -/

/-- How a tight loop ends: in front of a character, behind the null character, or because there is
no more character. -/
inductive Stop
  | here (c : Byte) (str : Text)
  | null
  | exhausted

/-- The characters that a tight loop passes while `p`. -/
def advanceWhile (p : Byte → Bool) : Text → Text × Stop
  | [] => ([], .exhausted)
  | c :: str =>
    if p c then
      if c = 0 then ([c], .null)
      else (c :: (advanceWhile p str).1, (advanceWhile p str).2)
    else ([], .here c str)

variable (len : Bool)

/-- `POP_CHAR` at the end of the text. -/
def popEnd (tok : Tokener D) : Option (Next D) :=
  if len then
    some (.out (tok.fail (if tok.depth = 0 ∧ tok.top.state = .eatws ∧ tok.top.savedState = .finish
      then .success else .continue)) false)
  else none

/-- `ADVANCE_CHAR` past `c`, and the next turn. -/
def advance (tok : Tokener D) (obj : Json D) (c : Byte) (str : Text) : Next D :=
  if c = 0 then .out tok true else .turn ⟨tok, obj, str⟩

/-- What follows a tight loop. -/
def afterLoop (tok : Tokener D) (found : Byte → Text → Option (Next D)) : Stop → Option (Next D)
  | .here c str => found c str
  | .null => some (.out tok true)
  | .exhausted => popEnd len tok

/-- A hexadecimal digit, or the null character. -/
def Tokener.addHex (tok : Tokener D) (c : Byte) : Tokener D :=
  { tok with
    ucsChar := tok.ucsChar + hexdigit c <<< ((3 - tok.stPos) * 4)
    stPos := tok.stPos + 1 }

/-- The loop of `json_tokener_state_escape_unicode`. -/
def unicodeLoop (tok : Tokener D) (obj : Json D) : Text → Option (Next D)
  | [] => popEnd len tok
  | c :: str =>
    if strchr hexChars c then
      let tok := tok.addHex c
      if tok.stPos = 4 then
        some (advance ((tok.append (utf8 tok.ucsChar)).goto tok.top.savedState) obj c str)
      else if c = 0 then some (.out tok true)
      else unicodeLoop tok obj str
    else some (.out (tok.fail .parseString) (c = 0))

variable (io : DoubleIo D)

/-! ## The turns -/

/-- A string, up to the quote or to an escape; `done` is called with its characters. -/
def stringTurn (tok : Tokener D) (obj : Json D) (c : Byte) (str : Text)
    (done : Tokener D → Tokener D) : Option (Next D) :=
  let run := advanceWhile (fun c => c ≠ tok.quoteChar ∧ c ≠ ch '\\') (c :: str)
  let tok' := tok.append run.1
  afterLoop len tok' (fun c str =>
    if c = tok.quoteChar then some (advance (done tok') obj c str)
    else some (advance (tok'.escape tok.top.state) obj c str)) run.2

/-- `json_tokener_state_string_escape` -/
def escapeTurn (tok : Tokener D) (obj : Json D) (c : Byte) (str : Text) : Next D :=
  let back (s : Text) := advance ((tok.append s).goto tok.top.savedState) obj c str
  if c = ch '"' ∨ c = ch '\\' ∨ c = ch '/' then back [c]
  else if c = ch 'b' then back [0x08]
  else if c = ch 'n' then back [0x0A]
  else if c = ch 'r' then back [0x0D]
  else if c = ch 't' then back [0x09]
  else if c = ch 'u' then
    advance { tok with
      ucsChar := 0, stPos := 0, top := { tok.top with state := .escapeUnicode } } obj c str
  else .out (tok.fail .parseString) (c = 0)

/-- `json_tokener_state_number`, where `c` does not belong to the number any more. -/
def numberTurn (tok : Tokener D) (obj : Json D) (c : Byte) (str : Text) : Next D :=
  let found := if tok.isDouble then (io.scan (cString tok.pb)).map .double
    else (scanInt (cString tok.pb)).map .int
  match found with
  | some v => .turn ⟨tok.complete v, obj, c :: str⟩
  | none => .out (tok.fail .parseNumber) (c = 0)

/-- `json_tokener_state_start` -/
def startTurn (tok : Tokener D) (obj : Json D) (c : Byte) (str : Text) : Next D :=
  if c = ch '{' then
    advance ((tok.eatBefore .objectFieldStart).setCurrent (.object [])) obj c str
  else if c = ch '[' then advance ((tok.eatBefore .array).setCurrent (.array [])) obj c str
  else if c = ch 'N' ∨ c = ch 'n' then
    .turn ⟨{ tok.goto .null with pb := [], stPos := 0 }, obj, c :: str⟩
  else if c = ch '"' ∨ c = ch '\'' then
    advance { tok.goto .string with pb := [], quoteChar := c } obj c str
  else if c = ch 'T' ∨ c = ch 't' ∨ c = ch 'F' ∨ c = ch 'f' then
    .turn ⟨{ tok.goto .boolean with pb := [], stPos := 0 }, obj, c :: str⟩
  else if ch '0' ≤ c ∧ c ≤ ch '9' ∨ c = ch '-' then
    .turn ⟨{ tok.goto .number with pb := [], isDouble := false }, obj, c :: str⟩
  else .out (tok.fail .parseUnexpected) (c = 0)

/-- A word is compared as far as it was read. It is complete when one more character is there. -/
def wordTurn (tok : Tokener D) (obj : Json D) (c : Byte) (str : Text) (words : List (Text × Json D))
    (err : Error) : Next D :=
  let tok' := tok.append [c]
  match words.find? fun w => strncasecmp w.1 tok'.pb (min (tok.stPos + 1) w.1.length) with
  | some w =>
    if tok.stPos = w.1.length then .turn ⟨tok'.complete w.2, obj, c :: str⟩
    else advance { tok' with stPos := tok.stPos + 1 } obj c str
  | none => .out (tok'.fail err) (c = 0)

/-- What stands behind a value in an array or in an object. -/
def sepTurn (tok : Tokener D) (obj : Json D) (c : Byte) (str : Text) (close : Byte) (next : State)
    (err : Error) : Next D :=
  if c = close then advance (tok.eatBefore .finish) obj c str
  else if c = ch ',' then advance (tok.eatBefore next) obj c str
  else .out (tok.fail err) (c = 0)

/-- The value of an array or of an object gets a level. -/
def pushTurn (tok : Tokener D) (obj : Json D) (c : Byte) (str : Text) (state : State) : Next D :=
  if tok.depth ≥ maxDepth - 1 then .out (tok.fail .depth) (c = 0)
  else .turn ⟨tok.push state, obj, c :: str⟩

/-- The `switch`. -/
def turn (tok : Tokener D) (obj : Json D) (c : Byte) (str : Text) : Option (Next D) :=
  match tok.top.state with
  | .eatws => afterLoop len tok (fun c str =>
      if c = ch '/' then some (advance ({ tok with pb := [c] }.goto .commentStart) obj c str)
      else some (.turn ⟨tok.goto tok.top.savedState, obj, c :: str⟩))
      (advanceWhile isSpace (c :: str)).2
  | .start => some (startTurn tok obj c str)
  | .finish =>
    match tok.below with
    | [] => some (.out tok (c = 0))
    | top :: below => some (.turn ⟨{ tok with top, below }, tok.top.current, c :: str⟩)
  | .null => some (wordTurn tok obj c str [(ascii "null", .null)] .parseNull)
  | .commentStart =>
    if c = ch '*' then some (advance ((tok.append [c]).goto .comment) obj c str)
    else if c = ch '/' then some (advance ((tok.append [c]).goto .commentEol) obj c str)
    else some (.out (tok.fail .parseComment) (c = 0))
  | .comment =>
    let run := advanceWhile (· ≠ ch '*') (c :: str)
    afterLoop len (tok.append run.1) (fun c str =>
      some (advance (((tok.append run.1).append [c]).goto .commentEnd) obj c str)) run.2
  | .commentEol =>
    let run := advanceWhile (· ≠ 0x0A) (c :: str)
    afterLoop len (tok.append run.1) (fun c str =>
      some (advance ((tok.append run.1).goto .eatws) obj c str)) run.2
  | .commentEnd =>
    some (advance ((tok.append [c]).goto (if c = ch '/' then .eatws else .comment)) obj c str)
  | .string => stringTurn len tok obj c str fun tok => tok.complete (.string (cString tok.pb))
  | .stringEscape => some (escapeTurn tok obj c str)
  | .escapeUnicode => unicodeLoop len tok obj (c :: str)
  | .boolean =>
    some (wordTurn tok obj c str
      [(ascii "true", .boolean true), (ascii "false", .boolean false)] .parseBoolean)
  | .number =>
    let run := advanceWhile (fun c => c ≠ 0 && strchr numberChars c) (c :: str)
    let tok := { tok.append run.1 with
      isDouble := tok.isDouble || run.1.any fun c => c = ch '.' ∨ c = ch 'e' }
    afterLoop len tok (fun c str => some (numberTurn io tok obj c str)) run.2
  | .array =>
    if c = ch ']' then some (advance (tok.eatBefore .finish) obj c str)
    else some (pushTurn tok obj c str .arrayAdd)
  | .arrayAdd =>
    match tok.top.current with
    | .array elems =>
      some (.turn ⟨(tok.eatBefore .arraySep).setCurrent (.array (elems ++ [obj])), obj, c :: str⟩)
    | _ => none
  | .arraySep => some (sepTurn tok obj c str (ch ']') .array .parseArray)
  | .objectFieldStart =>
    if c = ch '}' then some (advance (tok.eatBefore .finish) obj c str)
    else if c = ch '"' ∨ c = ch '\'' then
      some (advance { tok.goto .objectField with pb := [], quoteChar := c } obj c str)
    else some (.out (tok.fail .parseObjectKeyName) (c = 0))
  | .objectField => stringTurn len tok obj c str fun tok =>
      (tok.eatBefore .objectFieldEnd).setName (some (cString tok.pb))
  | .objectFieldEnd =>
    if c = ch ':' then some (advance (tok.eatBefore .objectValue) obj c str)
    else some (.out (tok.fail .parseObjectKeySep) (c = 0))
  | .objectValue => some (pushTurn tok obj c str .objectValueAdd)
  | .objectValueAdd =>
    match tok.top.current, tok.top.objFieldName with
    | .object fields, some name =>
      some (.turn ⟨((tok.eatBefore .objectSep).setCurrent
        (.object (objectAdd fields name obj))).setName none, obj, c :: str⟩)
    | _, _ => none
  | .objectSep => some (sepTurn tok obj c str (ch '}') .objectFieldStart .parseObjectValueSep)

/-- A turn of the loop. -/
def step (x : Config D) : Option (Next D) :=
  match x.str with
  | [] => popEnd len x.tok
  | c :: str => turn len io x.tok x.obj c str

/-- What happens behind `out`. -/
def Tokener.out (tok : Tokener D) (eof : Bool) : Tokener D :=
  if eof ∧ tok.top.state ≠ .finish ∧ tok.top.savedState ≠ .finish then tok.fail .parseEof else tok

/-- The turns, at most `fuel` of them. -/
def run : ℕ → Config D → Option (Tokener D)
  | 0, _ => none
  | fuel + 1, x =>
    match step len io x with
    | none => none
    | some (.turn x) => run fuel x
    | some (.out tok eof) => some (tok.out eof)

/-- `json_tokener_parse_ex`: the error is in the tokener. -/
def parseEx (fuel : ℕ) (tok : Tokener D) (str : Text) : Option (Tokener D × Json D) :=
  (run len io fuel ⟨tok.fail .success, .null, str⟩).map fun tok =>
    (tok, if tok.err = .success then tok.top.current else .null)

/-- `json_tokener_parse` of a C string. -/
def parse (fuel : ℕ) (str : Text) : Option (Except Error (Json D)) :=
  (parseEx false io fuel .new (str ++ [0])).map fun (tok, obj) =>
    if tok.err = .success then .ok obj else .error tok.err

end JsonTokener

end DreamDota
