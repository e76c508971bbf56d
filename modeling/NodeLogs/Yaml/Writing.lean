import NodeLogs.Yaml.Character
import NodeLogs.Yaml.Meaning
import NodeLogs.Yaml.Token

/-!
How text is written as a scalar: without quotes where it can stand so and is not read as something
else, over several lines where it has line feeds, and else in quotes. Double quotes take anything.
-/

namespace NodeLogs.Yaml.Writing

/-- Whether two characters that are next to each other are of these kinds. -/
def hasPair (first second : Char → Bool) : List Char → Bool
  | a :: b :: rest => (first a && second b) || hasPair first second (b :: rest)
  | _ => false

def isSpecial (c : Char) : Bool := !isPrintable c

def isBlank (c : Char) : Bool := c == ' '

/-- Text that no style but double quotes keeps: special characters, and spaces before a break. -/
def needsEscapes (s : List Char) : Bool := s.any isSpecial || hasPair isBlank isBreak s

/-- A character that means something at the beginning of a scalar; some do only when they stand
alone. -/
def isMark (s : List Char) : Bool :=
  match s with
  | [] => false
  | c :: rest =>
    "#,[]\x7b\x7d&*!|>'\"%@`".toList.contains c || ("?:-".toList.contains c && atGap rest) ||
      "---".toList.isPrefixOf s || "...".toList.isPrefixOf s

/-- A colon that ends a word, or a number sign that begins one. -/
def hasInnerMark : List Char → Bool
  | a :: b :: rest =>
    (b == ':' && atGap rest) || (isBlank a && b == '#') || hasInnerMark (b :: rest)
  | _ => false

def fitsPlain (s : List Char) : Bool :=
  !(needsEscapes s || s.any isBreak || s.head?.any isBlank || s.getLast?.any isBlank ||
    isMark s || hasInnerMark s)

def fitsSingle (s : List Char) : Bool := !(needsEscapes s || hasPair isBreak isBlank s)

def fitsLiteral (s : List Char) : Bool := !(needsEscapes s || s.getLast?.any isBlank)

/-- Whether text that stands without quotes is read as it is. -/
def isOnlyText (s : List Char) : Bool := Meaning.ofPlain s = .text && !Meaning.isPadded s

def style (s : List Char) : Style :=
  if s.contains '\n' then (if fitsLiteral s then .literal else .doubleQuoted)
  else if isOnlyText s ∧ fitsPlain s then .plain
  else if fitsSingle s then .singleQuoted
  else .doubleQuoted

/-- Text within a block or in single quotes: every line that is not empty is indented, but for one
that goes on with what is there already. -/
def indented (lineStart : Bool) : List Char → List Char
  | [] => []
  | c :: rest =>
    if isBreak c then c :: indented true rest
    else if lineStart then ' ' :: ' ' :: c :: indented false rest
    else c :: indented false rest

def doubled : List Char → List Char
  | [] => []
  | c :: rest => if c = '\'' then '\'' :: '\'' :: doubled rest else c :: doubled rest

/-- A last line that is empty is indented too. -/
def single (s : List Char) : List Char :=
  let margin := if s.getLast?.any isBreak then [' ', ' '] else []
  '\'' :: indented false (doubled s) ++ margin ++ ['\'']

/-- Hexadecimal digits, as many as these. -/
def hex : Nat → Nat → List Char
  | 0, _ => []
  | digits + 1, n => hex digits (n / 16) ++ [(Nat.digitChar (n % 16)).toUpper]

def numbered (c : Char) : List Char :=
  let n := c.toNat
  if n ≤ 0xff then 'x' :: hex 2 n
  else if n ≤ 0xffff then 'u' :: hex 4 n
  else 'U' :: hex 8 n

/-- What stands for a character after a backslash. -/
def escaped (c : Char) : List Char :=
  match c with
  | '\x00' => ['0']
  | '\x07' => ['a']
  | '\x08' => ['b']
  | '\t' => ['t']
  | '\n' => ['n']
  | '\x0b' => ['v']
  | '\x0c' => ['f']
  | '\r' => ['r']
  | '\x1b' => ['e']
  | '"' => ['"']
  | '\\' => ['\\']
  | '\u0085' => ['N']
  | '\u2028' => ['L']
  | '\u2029' => ['P']
  | c => numbered c

def needsEscape (c : Char) : Bool := isSpecial c || isBreak c || c == '"' || c == '\\'

def double (s : List Char) : List Char :=
  '"' :: s.flatMap (fun c => if needsEscape c then '\\' :: escaped c else [c]) ++ ['"']

/-- What becomes of the breaks at the end: there are none, or one that is kept, or more. A text that
is one break counts as more. -/
def chompMark (s : List Char) : List Char :=
  match s.reverse with
  | [] => ['-']
  | c :: rest =>
    if !isBreak c then ['-']
    else if rest = [] ∨ rest.head?.any isBreak then ['+']
    else []

/-- The indentation must be told where the first line does not show it. -/
def literal (s : List Char) : List Char :=
  let hint := if s.head?.any fun c => isBlank c || isBreak c then ['2'] else []
  '|' :: hint ++ chompMark s ++ '\n' :: indented true s

def scalar (s : List Char) : List Char :=
  match style s with
  | .plain => s
  | .singleQuoted => single s
  | .literal => literal s
  | _ => double s

/-- An entry of a block map that is not indented. What ends with a line break needs no other. -/
def entry (key value : List Char) : List Char :=
  let text := scalar value
  key ++ ':' :: ' ' :: text ++ if text.getLast?.any isBreak then [] else ['\n']

def entries (pairs : List (String × String)) : List Char :=
  pairs.flatMap fun (key, value) => entry key.toList value.toList

end NodeLogs.Yaml.Writing
