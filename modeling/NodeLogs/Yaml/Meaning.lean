import NodeLogs.Decimal.Shortest

/-!
What plain scalars mean: some are read as null, as booleans or as numbers, all others are text.
-/

namespace NodeLogs.Yaml

/-- Integers of more than 64 bits are told apart; numbers with a point are told by their text. -/
inductive Meaning where
  | null
  | boolean (b : Bool)
  | integer (n : Int)
  | wideInteger (n : Int)
  | float (text : String)
  | text
deriving Repr, DecidableEq

namespace Meaning

def null? (s : List Char) : Bool :=
  s = [] || ["~", "null", "Null", "NULL"].contains (String.ofList s)

def boolean? (s : List Char) : Option Bool :=
  match String.ofList s with
  | "true" | "True" | "TRUE" => some true
  | "false" | "False" | "FALSE" => some false
  | _ => none

/-- The value of a digit, letters being digits too. -/
def digit? (c : Char) : Option Nat :=
  if c.isDigit then some (c.toNat - 48)
  else if c.isLower then some (c.toNat - 87)
  else if c.isUpper then some (c.toNat - 55)
  else none

/-- At least one digit of this base, and nothing else. -/
def natural? (base : Nat) (s : List Char) : Option Nat :=
  if s = [] then none
  else s.foldlM (fun n c => ((digit? c).filter (· < base)).map (n * base + ·)) 0

def isSign (c : Char) : Bool := c = '+' || c = '-'

/-- Digits with a zero before them, which are no number. -/
def isPadded (s : List Char) : Bool :=
  match if s.head?.any isSign then s.tail else s with
  | '0' :: c :: rest => (c :: rest).all Char.isDigit
  | _ => false

/-- Digits, in base ten or with their base before them. -/
def magnitude? (s : List Char) : Option Nat :=
  match s with
  | '0' :: 'x' :: rest => natural? 16 rest
  | '0' :: 'o' :: rest => natural? 8 rest
  | '0' :: 'b' :: rest => natural? 2 rest
  | _ => if isPadded s then none else natural? 10 s

def integer? : List Char → Option Int
  | '-' :: rest => (magnitude? rest).map fun n => -n
  | '+' :: rest => (magnitude? rest).map fun n => n
  | s => (magnitude? s).map fun n => n

/-- An integer of these many bits; one below zero takes one of them for its sign. -/
def fits (bits : Nat) (n : Int) : Bool :=
  if n < 0 then n.natAbs ≤ Nat.pow 2 (bits - 1) else n.natAbs < Nat.pow 2 bits

/-- A decimal number: its digits, and the power of ten that they count for. -/
def decimal? (s : List Char) : Option (Nat × Int) :=
  let whole := s.takeWhile Char.isDigit
  let rest := s.dropWhile Char.isDigit
  let (places, rest) := match rest with
    | '.' :: rest => (rest.takeWhile Char.isDigit, rest.dropWhile Char.isDigit)
    | rest => ([], rest)
  let exponent? : Option Int := match rest with
    | [] => some 0
    | c :: rest => if c = 'e' || c = 'E' then
        match rest with
        | '-' :: rest => (natural? 10 rest).map fun n => -n
        | '+' :: rest => (natural? 10 rest).map fun n => n
        | rest => (natural? 10 rest).map fun n => n
      else none
  match natural? 10 (whole ++ places), exponent? with
  | some n, some e => some (n, e - places.length)
  | _, _ => none

/-- The text of a number that is not too large. -/
def finite? (s : List Char) : Option String := do
  let (digits, exponent) ← decimal? s
  let b ← Decimal.Binary64.ofDecimal? digits exponent
  return Decimal.Shortest.text b

def isInfinity (s : List Char) : Bool :=
  [".inf", ".Inf", ".INF"].contains (String.ofList s)

/-- Infinity with or without a sign, what is no number at all, or a number. -/
def float? (s : List Char) : Option String :=
  match s with
  | '+' :: rest =>
    if isInfinity rest then some "inf" else if rest.head?.any isSign then none else finite? rest
  | '-' :: rest => if isInfinity rest then some "-inf" else (finite? rest).map ("-" ++ ·)
  | s =>
    if isInfinity s then some "inf"
    else if [".nan", ".NaN", ".NAN"].contains (String.ofList s) then some "NaN"
    else finite? s

def ofPlain (s : List Char) : Meaning :=
  if null? s then .null
  else
    match boolean? s with
    | some b => .boolean b
    | none =>
      match (integer? s).filter (fits 128) with
      | some n => if fits 64 n then .integer n else .wideInteger n
      | none =>
        if isPadded s then .text
        else
          match float? s with
          | some written => .float written
          | none => .text

end Meaning

end NodeLogs.Yaml
