import NodeLogs.ByteSource
import NodeLogs.Archive.Header
import NodeLogs.Archive.Records

/-!
Members of an archive, as a reader comes upon them: the header, what earlier extension members
said about it, and its data as far as the stream held it.
-/

namespace NodeLogs.Archive

/-- What extension members have said about the member to come. -/
structure Extensions where
  longName : Option Bytes
  longLink : Option Bytes
  records : Option Bytes
deriving Repr, DecidableEq

namespace Extensions

def empty : Extensions := ⟨none, none, none⟩

def isEmpty (x : Extensions) : Bool := x = empty

/-- The size that the records give. -/
def size? (x : Extensions) : Option Nat := x.records.bind Record.size?

/-- A long name may end in one NUL that is not part of it. -/
def path? (x : Extensions) : Option Bytes :=
  match x.longName with
  | some name => some (if name.getLast? = some 0 then name.dropLast else name)
  | none => x.records.bind Record.path?

end Extensions

/-- The data of a member, and how the stream stopped where it did not hold all of it. -/
structure Body where
  bytes : Bytes
  cut : Option Ending
deriving Repr, DecidableEq

structure Member where
  header : Header
  extensions : Extensions
  body : Body
deriving Repr, DecidableEq

namespace Member

def kind (m : Member) : Kind := m.header.kind

/-- A long name wins over the records, and both win over the header. -/
def path (m : Member) : Bytes := m.extensions.path?.getD m.header.name

def name (m : Member) : String := Utf8.decodeLossy m.path

end Member

end NodeLogs.Archive
