import NodeLogs.Archive.Number
import NodeLogs.Text.Lines

/-!
Extended header records: lines `<length> <key>=<value>`, the length counting the whole line with
its end. They may name the next member and give its size.
-/

namespace NodeLogs.Archive

structure Record where
  key : Bytes
  value : Bytes
deriving Repr, DecidableEq

namespace Record

/-- The text before the first separator and the text after it. -/
def cut? (sep : UInt8) (bs : Bytes) : Option (Bytes × Bytes) :=
  match bs.span (· ≠ sep) with
  | (_, []) => none
  | (before, _ :: after) => some (before, after)

/-- A line without its end; `none` where it is malformed. -/
def ofLine? (line : Bytes) : Option Record := do
  let (digits, pair) ← cut? 0x20 line
  let length ← unsigned? 10 (← Utf8.decode? digits).toList
  guard (length = line.length + 1)
  let (key, value) ← cut? 0x3D pair
  some ⟨key, value⟩

/-- The lines up to the first empty one, each with its record if it is well formed. -/
def ofData (data : Bytes) : List (Option Record) :=
  ((split 0x0A data).takeWhile (· ≠ [])).map ofLine?

/-- The name is the first well-formed record with its key; malformed ones are passed over. -/
def path? (data : Bytes) : Option Bytes :=
  ((ofData data).filterMap id).find? (·.key = Utf8.encode "path") |>.map (·.value)

/-- The size is looked for only before the first malformed record, and only the first record with
its key counts. -/
def size? (data : Bytes) : Option Nat := do
  let sound := ((ofData data).takeWhile Option.isSome).filterMap id
  let record ← sound.find? (·.key = Utf8.encode "size")
  unsigned? 10 (← Utf8.decode? record.value).toList

end Record

end NodeLogs.Archive
