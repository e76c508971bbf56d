import NodeLogs.Decimal.Binary64

/-!
The shortest decimal text of a floating-point number: as few digits as still round to the number,
and of those the nearest to it, with no exponent and at least one digit after the point.
-/

namespace NodeLogs.Decimal.Shortest

/-- Digits times a power of ten. -/
structure Digits where
  digits : Nat
  exponent : Int
deriving Repr, DecidableEq

/-- The numbers that round to `b` lie between these quarters of its last place, counted from zero. A
power of two has its lower neighbour at half the distance. -/
def bounds (b : Binary64) : Nat × Nat :=
  let v := 4 * b.significand
  (if b.significand = power 2 52 ∧ -1074 < b.exponent then v - 1 else v - 2, v + 2)

/-- Digits on a decimal grid, and a number of quarters, over one denominator. -/
def onGrid (exponent : Int) (digits : Nat) (b : Binary64) : Nat :=
  digits * power 10 exponent * power 2 (2 - b.exponent)

def ofQuarters (exponent : Int) (quarters : Nat) (b : Binary64) : Nat :=
  quarters * power 2 (b.exponent - 2) * power 10 (-exponent)

/-- Whether digits on this grid round to the number. The bounds themselves do if its significand is
even. -/
def readsBack (b : Binary64) (exponent : Int) (digits : Nat) : Bool :=
  let d := onGrid exponent digits b
  let low := ofQuarters exponent (bounds b).1 b
  let high := ofQuarters exponent (bounds b).2 b
  if b.significand % 2 = 0 then low ≤ d && d ≤ high else low < d && d < high

/-- The nearer of the two neighbours on the grid that round to the number; of two as near, the upper
one. -/
def onGrid? (b : Binary64) (exponent : Int) : Option Digits :=
  let v := ofQuarters exponent (4 * b.significand) b
  let below := v / onGrid exponent 1 b
  let above := below + 1
  let nearerBelow := v - onGrid exponent below b < onGrid exponent above b - v
  match readsBack b exponent below, readsBack b exponent above with
  | true, true => some ⟨if nearerBelow then below else above, exponent⟩
  | true, false => some ⟨below, exponent⟩
  | false, true => some ⟨above, exponent⟩
  | false, false => none

/-- Finer and finer grids in turn. -/
def search (b : Binary64) (exponent : Int) : Nat → Option Digits
  | 0 => none
  | n + 1 => (onGrid? b exponent).or (search b (exponent - 1) n)

/-- Every number lies below the first grid, and one of 17 digits always tells it. -/
def digits (b : Binary64) : Digits :=
  if b.significand = 0 then ⟨0, 0⟩ else (search b 309 700).getD ⟨0, 0⟩

/-- Digits with a point put in. -/
def positional (d : Digits) : String :=
  let ds := Nat.toDigits 10 d.digits
  if 0 ≤ d.exponent then String.ofList (ds ++ List.replicate d.exponent.toNat '0') ++ ".0"
  else
    let places := (-d.exponent).toNat
    let ds := List.replicate (places + 1 - ds.length) '0' ++ ds
    String.ofList (ds.take (ds.length - places)) ++ "." ++
      String.ofList (ds.drop (ds.length - places))

/-- Zeros at the end of digits are part of the power of ten. -/
def trimmed : Nat → Digits → Digits
  | 0, d => d
  | n + 1, d =>
    if d.digits ≠ 0 ∧ d.digits % 10 = 0 then trimmed n ⟨d.digits / 10, d.exponent + 1⟩ else d

def text (b : Binary64) : String := positional (trimmed 20 (digits b))

end NodeLogs.Decimal.Shortest
