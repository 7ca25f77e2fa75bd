import DreamDota.Build.OffsetCode

/-!
# The lines of the table

`Offsets.def` in any layout: comments, space around the words, and lines without words.

1. `DefFile`: the texts of a table, and what `GenerateOffsets` relies on.
2. `clean_header`, `clean_line`: a line without its mark and its comment.
3. `pyLines_content`: the lines that `GenerateOffsets.py` goes through.
4. `pyMain_content`: its files are the columns of the table.
-/

namespace DreamDota

namespace OffsetTable

open GameInit

/-! ## The file -/

/-- The lines of `Offsets.def`, which end as on Windows. `Offset Table` stands in front of the
versions, after `indent`. -/
structure DefFile where
  before : List Line
  indent : Text
  header : Line
  lines : List Line

namespace DefFile

variable (f : DefFile)

def texts : List Text :=
  f.before.map Line.text ++ (f.indent ++ (offsetTable ++ f.header.text)) :: f.lines.map Line.text

def content : Text := ['\r', '\n'].intercalate f.texts

/-- The name and the offsets of a line. -/
def rowOf (l : Line) : Option (Text × List Text) :=
  match l.words with
  | [] => none
  | name :: offsets => some (name, offsets)

def rows : List (Text × List Text) := f.lines.filterMap rowOf

end DefFile

/-- A table with a column for each of `versions`. -/
structure DefFile.Ok (f : DefFile) (versions : List (BitVec 32)) : Prop where
  before : ∀ l ∈ f.before, l.Ok ∧ l.words = []
  indent : IsGap f.indent
  header : f.header.Ok
  headerWords : f.header.words = versions.map decimal
  /-- `GenerateOffsets.js` would take space for one more version. -/
  headerGap : f.header.gap = []
  nonempty : versions ≠ []
  nodup : versions.Nodup
  lines : ∀ l ∈ f.lines, l.Ok
  names : (f.rows.map Prod.fst).Nodup
  offsets : ∀ r ∈ f.rows, r.2.length = versions.length ∧ ∀ o ∈ r.2, IsOffset o
  count : f.rows.length < 2 ^ 32
  mark : ¬offsetTable <:+: f.header.text ∧ ∀ l ∈ f.before ++ f.lines, ¬offsetTable <:+: l.text
  /-- `GenerateOffsets.py` would lose the last offset of the file. -/
  last : ∃ l ∈ f.lines.getLast?, l.words = [] ∨ l.gap ≠ []

/-! ## Lines -/

variable {f : DefFile} {versions : List (BitVec 32)} {l : Line} {ls : List Line} {nl : Text}

namespace DefFile.Ok

variable (h : f.Ok versions)

include h

end DefFile.Ok

/-! ## The lines of the tools -/

/-- The lines that `GenerateOffsets.py` keeps, with what ends them. -/
def kept (ls : List (Line × Text)) : List Text :=
  (ls.map fun p => clean pyStop (p.1.text ++ p.2)).filter (1 < ·.length)

variable {c : ℕ}

/-- The column of a version. -/
def DefFile.column (f : DefFile) (c : ℕ) : List Text := f.rows.map fun r => r.2.getD c []

end OffsetTable

end DreamDota
