import NodeLogs.Archive.Header

/-!
Sparse maps: which stretches of a member its data fills. A map is only checked here, since sparse
members are not unpacked.
-/

namespace NodeLogs.Archive

/-- How far the stretches so far reach, and how much data is left for the others. -/
structure SparseMap where
  size : Nat
  reach : Nat
  left : Nat
deriving Repr, DecidableEq

namespace SparseMap

def start (size : Nat) : SparseMap := ⟨size, 0, size⟩

/-- One stretch of the map, as two fields of twelve bytes; a field that starts with a NUL means
that there is none. -/
def add (m : SparseMap) (offset length : Bytes) : Except Error SparseMap := do
  if offset.headD 0 = 0 ∨ length.headD 0 = 0 then return m
  let from_ ← (octalOrBinary offset).mapError fun e => .number e .sparseOffset ""
  let count ← (octalOrBinary length).mapError fun e => .number e .sparseLength ""
  if count ≠ 0 ∧ (m.size - m.left) % blockSize ≠ 0 then throw .sparseAlignment
  if from_ < m.reach then throw .sparseOrder
  if limit ≤ from_ + count then throw .sparseOverflow
  if m.left < count then throw .sparseExcess
  return { m with reach := from_ + count, left := m.left - count }

/-- The stretches of a block, of which each takes 24 bytes. -/
def addAll (m : SparseMap) (count : Nat) (fields : Bytes) : Except Error SparseMap :=
  (List.range count).foldlM
    (fun m i => m.add ((fields.drop (24 * i)).take 12) ((fields.drop (24 * i + 12)).take 12)) m

end SparseMap

end NodeLogs.Archive
