import NodeLogs.Text.Utf8

/-!
Formatted output. The format is used again as long as arguments are left that it takes.
-/

namespace NodeLogs.Shell.Printf

/-- What may be wrong: an argument is no number, or more than one, or there is no such directive. -/
inductive Complaint where
  | notNumber (text : String)
  | leftOver (text : String)
  | noDirective (text : String)
deriving Repr, DecidableEq

/-- What has been put out, the arguments that are left, whether any was taken, what was wrong, and
whether output has been stopped. -/
structure State where
  output : Bytes
  arguments : List String
  taken : Bool
  complaints : List Complaint
  stopped : Bool

def State.add (s : State) (data : Bytes) : State := { s with output := s.output ++ data }

def State.take (s : State) : String × State :=
  match s.arguments with
  | [] => ("", s)
  | a :: rest => (a, { s with arguments := rest, taken := true })

def isOctal (c : Char) : Bool := '0' ≤ c && c ≤ '7'

def octalValue (digits : List Char) : Nat := digits.foldl (fun n c => n * 8 + (c.toNat - 48)) 0

/-- The escape after a backslash: its bytes, the rest, and whether output stops. -/
def escape (octalZero : Bool) : List Char → Bytes × List Char × Bool
  | [] => (Utf8.encode "\\", [], false)
  | c :: rest =>
    let one (n : Nat) : Bytes × List Char × Bool := ([UInt8.ofNat n], rest, false)
    match c with
    | 'a' => one 7
    | 'b' => one 8
    | 'f' => one 12
    | 'n' => one 10
    | 'r' => one 13
    | 't' => one 9
    | 'v' => one 11
    | '\\' => one 92
    | '"' => if octalZero then (Utf8.encode "\\\"", rest, false) else one 34
    | 'c' => ([], [], true)
    | c =>
      if octalZero ∧ c = '0' then
        let digits := (rest.take 3).takeWhile isOctal
        ([UInt8.ofNat (octalValue digits)], rest.drop digits.length, false)
      else if isOctal c ∧ ¬ octalZero then
        let digits := ((c :: rest).take 3).takeWhile isOctal
        ([UInt8.ofNat (octalValue digits)], (c :: rest).drop digits.length, false)
      else (Utf8.encode (String.ofList ['\\', c]), rest, false)

/-- Text with its escapes replaced, and whether it stops output. -/
def unescapeUpTo (octalZero : Bool) : Nat → List Char → Bytes × Bool
  | 0, _ | _, [] => ([], false)
  | n + 1, '\\' :: rest =>
    let (data, rest, stop) := escape octalZero rest
    if stop then (data, true)
    else
      let (more, stop) := unescapeUpTo octalZero n rest
      (data ++ more, stop)
  | n + 1, c :: rest =>
    let (more, stop) := unescapeUpTo octalZero n rest
    (Utf8.encode c.toString ++ more, stop)

def unescape (s : String) : Bytes × Bool := unescapeUpTo true s.length s.toList

def digitValue (c : Char) : Nat :=
  if c.isDigit then c.toNat - 48
  else if c.isLower then c.toNat - 87
  else if c.isUpper then c.toNat - 55
  else 99

/-- The number that text begins with, if it begins with one, and what is left of it. -/
def leading (base : Nat) (cs : List Char) : Option (Nat × List Char) :=
  let isDigit (c : Char) : Bool := digitValue c < base
  let digits := cs.takeWhile isDigit
  if digits.isEmpty then none
  else some (digits.foldl (fun n c => n * base + digitValue c) 0, cs.dropWhile isDigit)

def natural (cs : List Char) : Option (Nat × List Char) :=
  match cs with
  | '0' :: 'x' :: rest | '0' :: 'X' :: rest =>
    (leading 16 rest).orElse fun _ => some (0, 'x' :: rest)
  | '0' :: _ => leading 8 cs
  | cs => leading 10 cs

/-- A number in an argument: decimal, octal or hexadecimal, or the code of a quoted character; and
whether anything is left over. -/
def number? (s : String) : Option (Int × Bool) :=
  match s.toList.dropWhile Char.isWhitespace with
  | [] => if s = "" then some (0, false) else none
  | '\'' :: c :: rest | '"' :: c :: rest => some (c.toNat, !rest.isEmpty)
  | '-' :: rest => (natural rest).map fun (n, rest) => (-n, !rest.isEmpty)
  | '+' :: rest => (natural rest).map fun (n, rest) => (n, !rest.isEmpty)
  | cs => (natural cs).map fun (n, rest) => (n, !rest.isEmpty)

/-- Flags, width and precision of a directive. -/
structure Layout where
  left : Bool
  zero : Bool
  plus : Bool
  space : Bool
  alternate : Bool
  width : Nat
  precision : Option Nat

def pad (l : Layout) (data : Bytes) : Bytes :=
  let fill := List.replicate (l.width - data.length) 32
  if l.left then data ++ fill else fill ++ data

def natText (base : Nat) (n : Nat) : String := String.ofList (Nat.toDigits base n)

/-- A number laid out. Zeros go between its sign and its digits. -/
def numeric (l : Layout) (sign : String) (digits : String) : Bytes :=
  let digits := String.ofList (List.replicate ((l.precision.getD 1) - digits.length) '0') ++ digits
  let zeros := if l.zero ∧ ¬ l.left ∧ l.precision.isNone then
      l.width - sign.length - digits.length else 0
  pad l (Utf8.encode (sign ++ String.ofList (List.replicate zeros '0') ++ digits))

def signed (l : Layout) (n : Int) : Bytes :=
  let sign := if n < 0 then "-" else if l.plus then "+" else if l.space then " " else ""
  numeric l sign (natText 10 n.natAbs)

def unsigned (l : Layout) (base : Nat) (upper : Bool) (n : Int) : Bytes :=
  let n := (n % 0x10000000000000000).toNat
  let lead := if l.alternate ∧ n ≠ 0 then (if base = 16 then (if upper then "0X" else "0x")
    else if base = 8 then "0" else "") else ""
  let digits := natText base n
  numeric l lead (if upper then digits.toUpper else digits)

def State.complain (s : State) (c : Complaint) : State :=
  { s with complaints := s.complaints ++ [c] }

/-- The number of the next argument; what is no number counts as zero and is complained of. -/
def State.takeNumber (s : State) : Int × State :=
  let (a, s) := s.take
  match number? a with
  | some (n, false) => (n, s)
  | some (n, true) => (n, s.complain (.leftOver a))
  | none => (0, s.complain (.notNumber a))

def flags (l : Layout) : List Char → Layout × List Char
  | '-' :: rest => flags { l with left := true } rest
  | '0' :: rest => flags { l with zero := true } rest
  | '+' :: rest => flags { l with plus := true } rest
  | ' ' :: rest => flags { l with space := true } rest
  | '#' :: rest => flags { l with alternate := true } rest
  | rest => (l, rest)

def decimal (cs : List Char) : Nat × List Char :=
  ((cs.takeWhile Char.isDigit).foldl (fun n c => n * 10 + (c.toNat - 48)) 0,
    cs.dropWhile Char.isDigit)

def width (s : State) (l : Layout) : List Char → State × Layout × List Char
  | '*' :: rest =>
    let (n, s) := s.takeNumber
    (s, { l with width := n.natAbs, left := l.left || n < 0 }, rest)
  | cs => (s, { l with width := (decimal cs).1 }, (decimal cs).2)

def precision (s : State) (l : Layout) : List Char → State × Layout × List Char
  | '.' :: '*' :: rest =>
    let (n, s) := s.takeNumber
    (s, { l with precision := if n < 0 then none else some n.toNat }, rest)
  | '.' :: cs => (s, { l with precision := some (decimal cs).1 }, (decimal cs).2)
  | cs => (s, l, cs)

/-- A directive after its percent sign. -/
def directive (s : State) (cs : List Char) : State × List Char :=
  let (l, cs) := flags ⟨false, false, false, false, false, 0, none⟩ cs
  let (s, l, cs) := width s l cs
  let (s, l, cs) := precision s l cs
  let text (data : Bytes) : Bytes := pad l (match l.precision with
    | some n => data.take n
    | none => data)
  match cs with
  | '%' :: rest => (s.add [37], rest)
  | 's' :: rest =>
    let (a, s) := s.take
    (s.add (text (Utf8.encode a)), rest)
  | 'b' :: rest =>
    let (a, s) := s.take
    let (data, stop) := unescape a
    ({ s.add (text data) with stopped := stop }, rest)
  | 'c' :: rest =>
    let (a, s) := s.take
    (s.add (pad l ((Utf8.encode a).take 1)), rest)
  | 'd' :: rest | 'i' :: rest =>
    let (n, s) := s.takeNumber
    (s.add (signed l n), rest)
  | 'u' :: rest =>
    let (n, s) := s.takeNumber
    (s.add (unsigned l 10 false n), rest)
  | 'o' :: rest =>
    let (n, s) := s.takeNumber
    (s.add (unsigned l 8 false n), rest)
  | 'x' :: rest =>
    let (n, s) := s.takeNumber
    (s.add (unsigned l 16 false n), rest)
  | 'X' :: rest =>
    let (n, s) := s.takeNumber
    (s.add (unsigned l 16 true n), rest)
  | c :: rest =>
    ({ s.complain (.noDirective ("%" ++ c.toString)) with stopped := true }, rest)
  | [] => ({ s.complain (.noDirective "%") with stopped := true }, [])

/-- The format once. -/
def once : Nat → State → List Char → State
  | 0, s, _ | _, s, [] => s
  | n + 1, s, c :: rest =>
    if s.stopped then s
    else
      match c with
      | '%' =>
        let (s, rest) := directive s rest
        once n s rest
      | '\\' =>
        let (data, rest, stop) := escape false rest
        once n { s.add data with stopped := stop } rest
      | c => once n (s.add (Utf8.encode c.toString)) rest

/-- The format again and again; every round but the last takes an argument. -/
def rounds : Nat → String → State → State
  | 0, _, s => s
  | n + 1, format, s =>
    let s := once (format.length + 1) { s with taken := false } format.toList
    if s.stopped ∨ ¬ s.taken ∨ s.arguments.isEmpty then s else rounds n format s

def run (format : String) (arguments : List String) : State :=
  rounds (arguments.length + 1) format ⟨[], arguments, false, [], false⟩

end NodeLogs.Shell.Printf
