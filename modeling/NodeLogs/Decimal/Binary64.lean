/-!
Binary floating-point numbers of 64 bits, without their sign: the one nearest to a decimal number.
-/

namespace NodeLogs.Decimal

/-- A significand of at most 53 bits, times a power of two. -/
structure Binary64 where
  significand : Nat
  exponent : Int
deriving Repr, DecidableEq

/-- The power with an exponent that is not negative; for others it is one. -/
def power (base : Nat) (exponent : Int) : Nat := Nat.pow base exponent.toNat

namespace Binary64

def zero : Binary64 := ⟨0, -1074⟩

/-- The greatest `k` with `2 ^ k` at most the quotient. -/
def log2 (num den : Nat) : Int :=
  let k : Int := num.log2 - den.log2
  if den * power 2 k ≤ num * power 2 (-k) then k else k - 1

/-- A quotient rounded to the nearest whole number; of two that are as near, the even one. -/
def roundDiv (num den : Nat) : Nat :=
  let n := num / den
  let r := num % den
  if den < 2 * r ∨ (den = 2 * r ∧ n % 2 = 1) then n + 1 else n

/-- The nearest to a quotient, if it is not too large. -/
def nearest? (num den : Nat) : Option Binary64 :=
  let q := max (log2 num den - 52) (-1074)
  let m := roundDiv (num * power 2 (-q)) (den * power 2 q)
  let b : Binary64 := if m = power 2 53 then ⟨power 2 52, q + 1⟩ else ⟨m, q⟩
  if b.exponent ≤ 971 then some b else none

/-- The nearest to digits times a power of ten, if it is not too large. Powers far out of range are
not worked out. -/
def ofDecimal? (digits : Nat) (exponent : Int) : Option Binary64 :=
  let places := exponent + (Nat.toDigits 10 digits).length
  if digits = 0 ∨ places < -330 then some zero
  else if 330 < places then none
  else nearest? (digits * power 10 exponent) (power 10 (-exponent))

end Binary64

end NodeLogs.Decimal
