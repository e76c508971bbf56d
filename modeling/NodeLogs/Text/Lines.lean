import NodeLogs.Text.Utf8

/-!
Text taken apart. A list cut at a separator has at least one part, and joining the parts with the
separator gives the list back. The lines that a command printed are read as text whatever the bytes
are, without the white space around each line, and without the blank lines.
-/

namespace NodeLogs

variable {α : Type _} [DecidableEq α]

def split (sep : α) : List α → List (List α)
  | [] => [[]]
  | x :: xs =>
    if x = sep then [] :: split sep xs
    else
      match split sep xs with
      | [] => [[x]]
      | part :: parts => (x :: part) :: parts

def join (sep : α) : List (List α) → List α
  | [] => []
  | [part] => part
  | part :: parts => part ++ sep :: join sep parts

theorem split_ne_nil (sep : α) (xs : List α) : split sep xs ≠ [] := by
  induction xs with
  | nil => simp [split]
  | cons x xs ih =>
    rw [split]
    split
    · simp
    · cases h : split sep xs <;> simp

theorem join_split (sep : α) (xs : List α) : join sep (split sep xs) = xs := by
  induction xs with
  | nil => rfl
  | cons x xs ih =>
    have hne := split_ne_nil sep xs
    rw [split]
    split
    · next h => cases hs : split sep xs <;> simp_all [join]
    · cases hs : split sep xs with
      | nil => exact absurd hs hne
      | cons part parts => cases parts <;> simp_all [join]

namespace Text

/-- The parts of a text between separators, in order. -/
def split (sep : Char) (s : String) : List String :=
  (NodeLogs.split sep s.toList).map String.ofList

/-! White space as the Unicode standard lists it -/

/-- The property White_Space. -/
def isBlank (c : Char) : Bool :=
  let n := c.toNat
  (0x9 ≤ n && n ≤ 0xd) || n == 0x20 || n == 0x85 || n == 0xa0 || n == 0x1680 ||
    (0x2000 ≤ n && n ≤ 0x200a) || n == 0x2028 || n == 0x2029 || n == 0x202f || n == 0x205f ||
    n == 0x3000

def trimList (cs : List Char) : List Char :=
  ((cs.dropWhile isBlank).reverse.dropWhile isBlank).reverse

def trim (s : String) : String :=
  String.ofList (trimList s.toList)

/-! Lines -/

def nonblankLines (cs : List Char) : List (List Char) :=
  ((NodeLogs.split '\n' cs).map trimList).filter (· ≠ [])

def outputLines (output : Bytes) : List String :=
  (nonblankLines (Utf8.decodeLossy output).toList).map String.ofList

/-- A place in a text: lines and columns count from zero. -/
structure Position where
  line : Nat
  column : Nat
deriving Repr, DecidableEq

namespace Position

def start : Position := ⟨0, 0⟩

/-- So many columns further on the same line. -/
def right (p : Position) (n : Nat) : Position := { p with column := p.column + n }

end Position

end Text

end NodeLogs
