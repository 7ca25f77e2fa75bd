import DreamDota.Auth.GameInit
import DreamDota.Lib.Rewrite

/-!
# The table of offsets

`Offsets.def` has a column of offsets for each version of the game. Two tools read it.
`GenerateOffsets.py` writes a file for each version, which the server sends to the game;
`GenerateOffsets.js` writes the names into `Offsets.h` and all offsets into `InitMap`, for a module
that needs no server. `GenerateOffsets.py` runs the other tool at its end.

1. `pyMain`: the files of the versions. `none` is an exception.
2. `jsProcess`, `jsSave`: the generated code, `Generated`.
3. `Generated.initMap`: what the generated code does; `none` is code that does not compile.
-/

namespace DreamDota

namespace OffsetTable

open GameInit

abbrev Text := List Char

/-! ## Texts -/

/-- `\s` -/
def isSpace (c : Char) : Bool :=
  c = ' ' || c = '\t' || c = '\n' || c = '\r' || c = '\x0b' || c = '\x0c'

/-- The characters that `.` does not match, in each of the two tools. -/
def pyStop (c : Char) : Bool := c = '\n'

def jsStop (c : Char) : Bool := c = '\n' || c = '\r'

/-- A match of `\/\/.+` begins. -/
def isComment (stop : Char → Bool) : Text → Bool
  | '/' :: '/' :: c :: _ => !stop c
  | _ => false

/-- The matches of `\/\/.+` are taken out. The flag is set within one. -/
def dropComment (stop : Char → Bool) : Bool → Text → Text
  | _, [] => []
  | true, c :: s => if stop c then c :: dropComment stop false s else dropComment stop true s
  | false, c :: s =>
    if isComment stop (c :: s) then dropComment stop true s else c :: dropComment stop false s

def offsetTable : Text := ['O', 'f', 'f', 's', 'e', 't', ' ', 'T', 'a', 'b', 'l', 'e']

/-- The last three replacements. -/
def strip (stop : Char → Bool) (line : Text) : Text :=
  Rewrite.squeeze isSpace '|' false ((dropComment stop false line).dropWhile isSpace)

/-- The four replacements, which are the same in both tools. -/
def clean (stop : Char → Bool) (line : Text) : Text :=
  strip stop (Rewrite.replaceAll offsetTable [] line)

/-! ## Numbers -/

/-- The value of a digit, or a value that no base has. -/
def digit (c : Char) : ℕ :=
  if c.isDigit then c.toNat - '0'.toNat
  else if c.isLower then c.toNat - 'a'.toNat + 10
  else if c.isUpper then c.toNat - 'A'.toNat + 10
  else 36

def ofDigits (base : ℕ) (s : Text) : ℕ := s.foldl (fun n c => base * n + digit c) 0

/-- At least one digit, and nothing else. -/
def allDigits (base : ℕ) (s : Text) : Option ℕ :=
  if s ≠ [] ∧ s.all (fun c => digit c < base) then some (ofDigits base s) else none

def signed (read : Text → Option ℕ) : Text → Option ℤ
  | '-' :: s => (read s).map fun n => -(n : ℤ)
  | '+' :: s => (read s).map Int.ofNat
  | s => (read s).map Int.ofNat

/-- An integer literal of C++. -/
def literal : Text → Option ℕ
  | '0' :: x :: s => if x = 'x' ∨ x = 'X' then allDigits 16 s else allDigits 8 (x :: s)
  | s => allDigits 10 s

/-! ## GenerateOffsets.py -/

/-- `o[key] = value`: a key keeps its place. -/
def assign {V : Type} (o : List (Text × V)) (key : Text) (value : V) : List (Text × V) :=
  match o with
  | [] => [(key, value)]
  | e :: o => if e.1 = key then (key, value) :: o else e :: assign o key value

/-- `Parsed`: of each name, the elements of its line by version. -/
abbrev Parsed := List (Text × List (Text × Option Text))

/-- The generated code: the numbers of `#define`, and the arguments of `OffsetSet`. -/
structure Generated where
  defines : List (Text × ℕ)
  sets : List (Text × Text × Text)

/-- A name stands for its number. -/
def Generated.id (g : Generated) (name : Text) : Option (BitVec 32) :=
  (g.defines.lookup name).map (BitVec.ofNat 32)

/-- The generated `InitMap`. -/
def Generated.initMap (g : Generated) : Option OffsetMap :=
  g.sets.foldlM (fun map s => do
    return offsetSet map (← g.id s.1) (BitVec.ofNat 32 (← literal s.2.1))
      (BitVec.ofNat 32 (← literal s.2.2))) fun _ _ => none

/-! ## The table -/

/-- A line of the file: words, with space around them, and a comment. -/
structure Line where
  lead : Text
  words : List Text
  body : Text
  gap : Text
  comment : Text

def Line.text (l : Line) : Text := l.lead ++ (l.body ++ (l.gap ++ l.comment))

/-- Space within a line. -/
def IsGap (s : Text) : Prop := ∀ c ∈ s, isSpace c = true ∧ c ≠ '\n' ∧ c ≠ '\r'

/-- A word of the table. -/
def IsWord (w : Text) : Prop := ∀ c ∈ w, isSpace c = false ∧ c ≠ '|' ∧ c ≠ '/'

structure Line.Ok (l : Line) : Prop where
  lead : IsGap l.lead
  body : l.words = [] ∧ l.body = [] ∨ Rewrite.Spaced isSpace l.words l.body
  words : ∀ w ∈ l.words, IsWord w
  bodyGap : ∀ c ∈ l.body, c ≠ '\n' ∧ c ≠ '\r'
  gap : IsGap l.gap
  comment : l.comment = [] ∨
    ∃ c s, l.comment = '/' :: '/' :: c :: s ∧ ∀ d ∈ c :: s, jsStop d = false

/-! ## Cleaned lines -/

variable {l : Line} {stop : Char → Bool} {nl s : Text} {c : Char}

/-- The end of a line that is read with it. -/
def IsEnd (nl : Text) : Prop := nl = [] ∨ nl = ['\n']

theorem IsGap.isSpace (h : IsGap s) : ∀ c ∈ s, isSpace c = true := fun c hc => (h c hc).1

theorem IsEnd.isSpace (h : IsEnd nl) : ∀ c ∈ nl, isSpace c = true := by
  rcases h with rfl | rfl
  · exact List.forall_mem_nil _
  · exact List.forall_mem_singleton.mpr rfl

end OffsetTable

end DreamDota
