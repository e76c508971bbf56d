/-!
The kinds of characters that YAML tells apart, and its line breaks.
-/

namespace NodeLogs.Yaml

def nextLine : Char := '\u0085'
def lineSeparator : Char := '\u2028'
def paragraphSeparator : Char := '\u2029'
def byteOrderMark : Char := '\ufeff'

/-- The line breaks that are left once breaks have been unified. -/
def isBreak (c : Char) : Bool :=
  c == '\n' || c == lineSeparator || c == paragraphSeparator

/-- White space within a line. -/
def isSpace (c : Char) : Bool := c == ' ' || c == '\t'

/-- Characters of names. -/
def isWord (c : Char) : Bool := c.isAlphanum || c == '_' || c == '-'

/-- The brackets and commas of collections in flow style. -/
def isFlowMark (c : Char) : Bool := ",[]\x7b\x7d".toList.contains c

/-- Characters that a text may hold. -/
def isReadable (c : Char) : Bool :=
  let n := c.toNat
  n == 0x9 || n == 0xa || n == 0xd || (0x20 ≤ n && n ≤ 0x7e) || n == 0x85 ||
    (0xa0 ≤ n && n ≤ 0xfffd) || 0x10000 ≤ n

/-- Characters that are written as they are. -/
def isPrintable (c : Char) : Bool :=
  let n := c.toNat
  n == 0xa || (0x20 ≤ n && n ≤ 0x7e) || (0xa0 ≤ n && n ≤ 0xfffd && c != byteOrderMark) ||
    0x10000 ≤ n

/-- Whether a word cannot go on here: before white space, or at the end of the text. -/
def atGap : List Char → Bool
  | [] => true
  | c :: _ => isSpace c || isBreak c

/-- Whether a line ends here. -/
def atLineEnd : List Char → Bool
  | [] => true
  | c :: _ => isBreak c

/-- Makes one line feed of each carriage return, with the line feed after it if there is one, and of
each next-line character. -/
def unifyBreaks : List Char → List Char
  | [] => []
  | '\r' :: '\n' :: rest => '\n' :: unifyBreaks rest
  | c :: rest => (if c == '\r' || c == nextLine then '\n' else c) :: unifyBreaks rest

def hexDigit? (c : Char) : Option Nat :=
  if c.isDigit then some (c.toNat - 48)
  else if 'a' ≤ c ∧ c ≤ 'f' then some (c.toNat - 87)
  else if 'A' ≤ c ∧ c ≤ 'F' then some (c.toNat - 55)
  else none

/-- The number that hexadecimal digits stand for. -/
def hexNumber? (digits : List Char) : Option Nat :=
  digits.foldlM (fun n c => (hexDigit? c).map (n * 16 + ·)) 0

end NodeLogs.Yaml
