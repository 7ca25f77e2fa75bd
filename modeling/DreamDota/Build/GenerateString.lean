import DreamDota.Lib.Bytes
import DreamDota.Lib.Files

/-!
# The generator of the string tables

`GenerateString2.py`, with `DEBUG` off. `checkmod.check` compares `Strings.xml` and `Locales.xml`
with the digests of an earlier run, and records the new ones; `Main` generates three files.

1. `Python`, `Disk`: what the script finds. The two inputs are never written by it.
2. `dataCode`, `localeCode`, `stringIdCode`: the texts of the generated files.
3. `main`, `check`, `script`: what a run writes, in this order, and how it ends.
4. `Event`, `event`: a run may be stopped after any of its writes.
-/

namespace DreamDota

namespace GenerateString

/-- A `unicode` string, or a `str` of ASCII characters. -/
abbrev Text := List Char

/-- A `string` of `Strings.xml`: its attribute `id`, and the attribute `lang` and the text of each of
its children. -/
structure StringElement where
  id : Option Text
  values : List (Option Text × Option Text)

/-- A `locale` of `Locales.xml`. -/
structure LocaleElement where
  id : Option Text
  lcid : Option Text
  text : Option Text

/-- The installation of Python, and the key file. `parseStrings` and `parseLocales` are `ET.parse`,
`setOrder` is the order in which a set is iterated after these were added, and `encode` is the
default encoding. Exceptions are `none`. -/
structure Python where
  md5 : List Byte → List Byte
  length_md5 : ∀ content, (md5 content).length = 16
  parseStrings : List Byte → Option (List StringElement)
  parseLocales : List Byte → Option (List LocaleElement)
  setOrder : List (Option Text) → List (Option Text)
  upper : Text → Text
  int : Text → Option ℤ
  encode : Text → Option (List Byte)
  key : Option (List Byte)

/-- The files that the script writes. -/
inductive File
  | stringsMd5
  | localesMd5
  | dataFile
  | initFile
  | stringIdFile
  deriving DecidableEq

abbrev Dir := Files.Dir File Byte

abbrev Write := Files.Write File Byte

structure Disk where
  strings : List Byte
  locales : List Byte
  files : Dir

/-! ## The generated texts -/

/-- `array.array('L', ..)`. -/
def words : List Byte → List (BitVec 32)
  | a :: b :: c :: d :: rest => Bytes.dword [a, b, c, d] :: words rest
  | _ => []

/-- `StringData[lang][sid]` for each assignment of `Init`. -/
structure Entry where
  lang : Option Text
  sid : Option Text
  text : Option Text

/-- The global variables after `Init`. -/
structure Globals where
  keyArray : List (BitVec 32)
  languageSet : List (Option Text)
  stringIdSet : List (Option Text)
  stringData : List Entry

variable (py : Python)

/-- `KeyArray.fromfile(f, 32)`. -/
def keyArray : Option (List (BitVec 32)) :=
  py.key.bind fun b => if 128 ≤ b.length then some (words (b.take 128)) else none

def init (strings : List Byte) : Option Globals := do
  let key ← keyArray py
  let root ← py.parseStrings strings
  let data := root.flatMap fun s => s.values.map fun v => ⟨v.1, s.id, v.2⟩
  return ⟨key, py.setOrder (data.map Entry.lang), py.setOrder (root.map StringElement.id), data⟩

def defaultLanguage : Text := "en-us".toList

/-- The last assignment counts. -/
def lookup (data : List Entry) (lang sid : Option Text) : Option (Option Text) :=
  (data.reverse.find? fun e => decide (e.lang = lang ∧ e.sid = sid)).map Entry.text

/-- The text in the language, or else in the default one. An empty element has the text `None`, which
has no `encode`. -/
def stringText (data : List Entry) (lang sid : Option Text) : Option Text :=
  match lookup data lang sid with
  | some text => text
  | none => (lookup data (some defaultLanguage) sid).join

/-- UTF-8, up to a whole number of words. -/
def padded (s : Text) : List Byte :=
  let b := s.flatMap fun c => (String.utf8EncodeChar c).map UInt8.toBitVec
  if b.length % 4 = 0 then b else b ++ List.replicate (4 - b.length % 4) 0

/-- The offsets of the texts, and that of their end. -/
def offsets : ℕ → List (List Byte) → List ℕ
  | offset, [] => [offset]
  | offset, s :: ss => offset :: offsets (offset + s.length) ss

def arrayXor (key arr : List (BitVec 32)) : List (BitVec 32) :=
  arr.mapIdx fun i v => v ^^^ key.getD (i % 32) 0

/-- `'0x%08X'`. -/
def hex (n : ℕ) : Text :=
  "0x".toList ++ ((Nat.toDigits 16 n).map Char.toUpper).leftpad 8 '0'

/-- `lang.upper().replace('-', '_')`. -/
def identifier (s : Text) : Text := (py.upper s).map fun c => if c = '-' then '_' else c

/-- One pass of the loop over `LanguageSet`. A number that does not fit into the array raises. -/
def languageCode (g : Globals) (lang : Option Text) : Option Text := do
  let name ← lang
  let texts ← g.stringIdSet.mapM fun sid => (stringText g.stringData lang sid).map padded
  let header := g.stringIdSet.length :: offsets 0 texts
  if header.all (· < 2 ^ 32) then
    let outArr := header.map (BitVec.ofNat 32) ++ texts.flatMap words
    let dataList := (arrayXor g.keyArray outArr).map fun v => hex v.toNat
    some ("uint32_t LOCALE_DATA_".toList ++ identifier py name ++ "[] = \x7b".toList ++
      [','].intercalate dataList ++ "\x7d;\n".toList)
  else none

def dataCode (g : Globals) : Option Text :=
  (g.languageSet.mapM (languageCode py g)).map List.flatten

def decimal (z : ℤ) : Text :=
  if z < 0 then '-' :: Nat.toDigits 10 z.natAbs else Nat.toDigits 10 z.natAbs

/-- `'%s'`. -/
def display (s : Option Text) : Text := s.getD "None".toList

def localeLine (l : LocaleElement) : Option Text := do
  let id ← l.id
  let lcid ← l.lcid.bind py.int
  return "DEFINE_LOCALE(".toList ++ identifier py id ++ ", ".toList ++ decimal lcid ++ ", \"".toList ++
    display l.text ++ "\")\n".toList

def localeCode (locales : List Byte) : Option Text := do
  let root ← py.parseLocales locales
  (root.mapM (localeLine py)).map List.flatten

/-- The texts that are written one after another. -/
def stringIdCode (g : Globals) : List Text :=
  ["namespace STR \x7b\n".toList] ++
    g.stringIdSet.mapIdx (fun i sid =>
      "\tconst uint32_t ".toList ++ display sid ++ " = ".toList ++ hex i ++ ";\n".toList) ++
    ["\x7d\n".toList]

/-! ## The script -/

/-- What a part of the script writes, and whether it comes to its end. -/
structure Part where
  writes : List Write
  done : Bool

/-- An exception ends the script. -/
def Part.andThen (p q : Part) : Part := if p.done then ⟨p.writes ++ q.writes, q.done⟩ else p

/-- A file in text mode. -/
def newlines (b : List Byte) : List Byte := b.flatMap fun c => if c = 10 then [13, 10] else [c]

/-- `open(.., 'w')`, the calls of `write`, and `close`. A text that cannot be encoded raises, and
leaves those before it. -/
def saveTexts (f : File) (texts : List Text) : Part :=
  let parts := texts.map py.encode
  ⟨Files.save f (newlines ((parts.takeWhile Option.isSome).filterMap id).flatten),
    parts.all Option.isSome⟩

/-- `Locales.xml` is read when `Locale.inc` has been opened. -/
def saveLocales (locales : List Byte) : Part :=
  match localeCode py locales with
  | none => ⟨Files.save .initFile [], false⟩
  | some code => saveTexts py .initFile [code]

def main (strings locales : List Byte) : Part :=
  match init py strings with
  | none => ⟨[], false⟩
  | some g =>
    match dataCode py g with
    | none => ⟨[], false⟩
    | some code =>
      (saveTexts py .dataFile [code]).andThen
        ((saveLocales py locales).andThen (saveTexts py .stringIdFile (stringIdCode g)))

/-- `checkmod.check`: the digest is recorded in any case. -/
def check (files : Dir) (content : List Byte) (cache : File) : List Write × Bool :=
  (Files.save cache (py.md5 content),
    match files cache with
    | none => true
    | some cachehash => decide (cachehash ≠ py.md5 content))

inductive Outcome
  | skipped
  | finished
  | raised
  deriving DecidableEq

def Part.outcome (p : Part) : Outcome := if p.done then .finished else .raised

/-- What a run writes, and how it ends. `Locales.xml` is checked only when `Strings.xml` has not
changed. -/
def script (d : Disk) : List Write × Outcome :=
  let (writes, changed) := check py d.files d.strings .stringsMd5
  let generate := main py d.strings d.locales
  if changed then (writes ++ generate.writes, generate.outcome)
  else
    let (writes', changed') := check py d.files d.locales .localesMd5
    if changed' then (writes ++ writes' ++ generate.writes, generate.outcome)
    else (writes ++ writes', .skipped)

/-- An edit, or a run that is stopped after `n` writes. A run that makes all of its writes and is not
stopped has a greater `n`. -/
inductive Event
  | editStrings (content : List Byte)
  | editLocales (content : List Byte)
  | run (n : ℕ)

def event (d : Disk) : Event → Disk
  | .editStrings content => { d with strings := content }
  | .editLocales content => { d with locales := content }
  | .run n => { d with files := Files.patch d.files ((script py d).1.take n) }

end GenerateString

end DreamDota
