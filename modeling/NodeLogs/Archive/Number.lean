import NodeLogs.Archive.Error
import NodeLogs.Text.Utf8
import NodeLogs.Text.Lines

/-!
Numbers in header fields: octal digits as text up to a NUL, or, in fields that allow it and when
the first bit is set, the field's last eight bytes with the most significant one first.
-/

namespace NodeLogs.Archive

/-- The numbers of 64 bits are below this bound. -/
def limit : Nat := 0x10000000000000000

/-- What 64 bits keep of a number. -/
def kept (n : Nat) : Nat := n % limit

theorem kept_le (n : Nat) : kept n ≤ n := Nat.mod_le n limit

theorem kept_of_lt {n : Nat} (h : n < limit) : kept n = n := Nat.mod_eq_of_lt h

/-- A text field ends at its first NUL. -/
def textField (field : Bytes) : Bytes :=
  field.takeWhile (· ≠ 0)

/-- Digits below the base, the most significant one first; at least one. -/
def digits? (base : Nat) : List Char → Option Nat
  | [] => none
  | cs => cs.foldl
      (fun n c => n.bind fun n =>
        let d := c.toNat - '0'.toNat
        if '0' ≤ c ∧ d < base then some (n * base + d) else none)
      (some 0)

/-- A number of 64 bits in digits of a base up to ten, with a plus sign or none. -/
def unsigned? (base : Nat) (cs : List Char) : Option Nat :=
  let digits := match cs with
    | '+' :: rest => rest
    | _ => cs
  (digits? base digits).filter (· < limit)

def octal (field : Bytes) : Except NumberError Nat :=
  match Utf8.decode? (textField field) with
  | none => .error (.notText (Utf8.decodeLossy (textField field)))
  | some text =>
    match unsigned? 8 (Text.trimList text.toList) with
    | some n => .ok n
    | none => .error (.notNumber text)

def bigEndian (bs : Bytes) : Nat :=
  bs.foldl (fun n b => n * 256 + b.toNat) 0

/-- A field of twelve bytes that may be binary. -/
def octalOrBinary (field : Bytes) : Except NumberError Nat :=
  match field with
  | b :: _ => if 0x80 ≤ b then .ok (bigEndian (field.drop 4)) else octal field
  | [] => octal field

end NodeLogs.Archive
