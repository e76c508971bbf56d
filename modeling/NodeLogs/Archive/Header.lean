import NodeLogs.Archive.Number

/-!
Header blocks: 512 bytes with fields at fixed places. The magic and version fields tell whether
the fields of the later formats are there.
-/

namespace NodeLogs.Archive

def blockSize : Nat := 512

inductive Format where
  | old
  | ustar
  | gnu
deriving Repr, DecidableEq

/-- What a member is, by the type byte of its header. -/
inductive Kind where
  | regular
  | link
  | symlink
  | char
  | block
  | directory
  | fifo
  | contiguous
  | records
  | globalRecords
  | longName
  | longLink
  | sparse
  | other (byte : UInt8)
deriving Repr, DecidableEq

namespace Kind

def ofByte (b : UInt8) : Kind :=
  if b = 0 then .regular
  else match Char.ofNat b.toNat with
    | '0' => .regular
    | '1' => .link
    | '2' => .symlink
    | '3' => .char
    | '4' => .block
    | '5' => .directory
    | '6' => .fifo
    | '7' => .contiguous
    | 'x' => .records
    | 'g' => .globalRecords
    | 'L' => .longName
    | 'K' => .longLink
    | 'S' => .sparse
    | _ => .other b

/-- The name of a kind in warnings. -/
def label : Kind → String
  | .regular => "Regular"
  | .link => "Link"
  | .symlink => "Symlink"
  | .char => "Char"
  | .block => "Block"
  | .directory => "Directory"
  | .fifo => "Fifo"
  | .contiguous => "Continuous"
  | .records => "XHeader"
  | .globalRecords => "XGlobalHeader"
  | .longName => "GNULongName"
  | .longLink => "GNULongLink"
  | .sparse => "GNUSparse"
  | .other b => s!"__Nonexhaustive({b})"

end Kind

structure Header where
  block : Bytes
deriving Repr, DecidableEq

namespace Header

def field (h : Header) (offset length : Nat) : Bytes :=
  (h.block.drop offset).take length

def isBlank (h : Header) : Bool := h.block.all (· == 0)

def format (h : Header) : Format :=
  let magic := h.field 257 8
  if magic = Utf8.encode "ustar\x0000" then .ustar
  else if magic = Utf8.encode "ustar  \x00" then .gnu
  else .old

def kind (h : Header) : Kind :=
  Kind.ofByte ((h.field 156 1).headD 0)

/-- The name as the header alone gives it: in the ustar format the text before it and a slash
belong to it. -/
def name (h : Header) : Bytes :=
  let name := textField (h.field 0 100)
  let before := textField (h.field 345 155)
  if h.format = .ustar ∧ before ≠ [] then before ++ 0x2F :: name else name

def shownName (h : Header) : String := Utf8.decodeLossy h.name

/-- The sum of all bytes, those of the checksum field counted as blanks. -/
def sum (h : Header) : Nat :=
  (h.block.take 148 ++ h.block.drop 156).foldl (fun n b => n + b.toNat) (8 * 32)

def number (h : Header) (f : NumberField) (value : Except NumberError Nat) : Except Error Nat :=
  value.mapError fun e => .number e f h.shownName

/-- Checksum and mode are octal and cut to 32 bits. -/
def checksum (h : Header) : Except Error Nat :=
  (h.number .checksum (octal (h.field 148 8))).map (· % 0x100000000)

def mode (h : Header) : Except Error Nat :=
  (h.number .mode (octal (h.field 100 8))).map (· % 0x100000000)

def size (h : Header) : Except Error Nat :=
  h.number .size (octalOrBinary (h.field 124 12))

def realSize (h : Header) : Except Error Nat :=
  (octalOrBinary (h.field 483 12)).mapError fun e => .number e .realSize
    (Utf8.decodeLossy (textField (h.field 297 32)) ++ ":" ++
      Utf8.decodeLossy (textField (h.field 265 32)))

/-- Refuses a block whose bytes do not add up to its checksum field. -/
def check (h : Header) : Except Error Unit := do
  if (← h.checksum) = h.sum then .ok () else .error .checksum

end Header

end NodeLogs.Archive
