/-!
What is left of a script while it is read, and where texts in it end: at a blank, an operator, a
quote or a bracket.
-/

namespace NodeLogs.Shell

/-- What is left of a script, and the line that this begins on. Lines that have been taken out from
behind the present one count when its end is passed. -/
structure Input where
  line : Nat
  rest : List Char
  taken : Nat
deriving Repr

/-- Why a script cannot be read on. -/
structure Problem where
  line : Nat
  text : String
deriving Repr

abbrev Read := Except Problem

namespace Input

/-- Passes so many characters. -/
def skip (i : Input) (n : Nat) : Input :=
  match (i.rest.take n).count '\n' with
  | 0 => { i with rest := i.rest.drop n }
  | lines => ⟨i.line + lines + i.taken, i.rest.drop n, 0⟩

/-- The input where this is left of it. -/
def leaving (i : Input) (rest : List Char) : Input := i.skip (i.rest.length - rest.length)

def fail {α : Type} (i : Input) (text : String) : Except Problem α := .error ⟨i.line, text⟩

end Input

def isNameStart (c : Char) : Bool := c.isAlpha || c == '_'

def isNamePart (c : Char) : Bool := c.isAlphanum || c == '_'

def isName (text : List Char) : Bool := text.head?.any isNameStart && text.all isNamePart

def isOperator (c : Char) : Bool := ";&|<>()\n".toList.contains c

def endsWord (c : Char) : Bool := c == ' ' || c == '\t' || isOperator c

/-- Passes blanks, escaped line ends, and a comment. -/
def passBlanks : List Char → List Char
  | '\\' :: '\n' :: rest => passBlanks rest
  | '#' :: rest => rest.dropWhile (· ≠ '\n')
  | c :: rest => if c = ' ' ∨ c = '\t' then passBlanks rest else c :: rest
  | [] => []

/-- Passes blanks, comments and line ends. -/
def passLines (fuel : Nat) (cs : List Char) : List Char :=
  match fuel, passBlanks cs with
  | fuel + 1, '\n' :: rest => passLines fuel rest
  | _, rest => rest

/-- A text and what follows its end, or why it has no end. -/
abbrev Cut := Except String (List Char × List Char)

def Cut.map (f : List Char → List Char) (cut : Cut) : Cut := do
  let (text, rest) ← cut
  return (f text, rest)

def noQuote : String := "Unterminated quoted string"

def noBracket : String := "end of file unexpected (expecting \")\")"

def noBrace : String := "Missing '\x7d'"

def noBrackets : String := "Missing '))'"

/-- Text up to a quote, which is passed. -/
def upTo (quote : Char) : List Char → Cut
  | [] => .error noQuote
  | c :: rest => if c = quote then .ok ([], rest) else (upTo quote rest).map (c :: ·)

/-- Text up to a bracket that closes one that was opened before; quoted brackets do not count. In
double quotes an apostrophe is no quote. -/
def upToBracket (missing : String) (apostrophes : Bool) (opening closing : Char)
    (quote : Option Char) (depth : Nat) : List Char → Cut
  | [] => .error (if quote.isSome then noQuote else missing)
  | '\\' :: c :: rest =>
    if quote = some '\'' then
      (upToBracket missing apostrophes opening closing quote depth (c :: rest)).map ('\\' :: ·)
    else
      (upToBracket missing apostrophes opening closing quote depth rest).map ('\\' :: c :: ·)
  | c :: rest =>
    let go (quote : Option Char) (depth : Nat) : Cut :=
      (upToBracket missing apostrophes opening closing quote depth rest).map (c :: ·)
    if quote = some c then go none depth
    else if quote.isSome then go quote depth
    else if c = '"' ∨ (c = '\'' ∧ apostrophes) then go (some c) depth
    else if c = opening then go none (depth + 1)
    else if c = closing then (if depth = 0 then .ok ([], rest) else go none (depth - 1))
    else go none depth

/-- Text up to a backquote that is not escaped. -/
def upToBackquote : List Char → Cut
  | [] => .error "EOF in backquote substitution"
  | '\\' :: c :: rest => (upToBackquote rest).map ('\\' :: c :: ·)
  | c :: rest => if c = '\x60' then .ok ([], rest) else (upToBackquote rest).map (c :: ·)

/-- The script between backquotes: a backslash before a backquote, a dollar sign or itself is
dropped. -/
def betweenBackquotes : List Char → List Char
  | '\\' :: c :: rest =>
    if c = '\x60' ∨ c = '$' ∨ c = '\\' then c :: betweenBackquotes rest
    else '\\' :: c :: betweenBackquotes rest
  | c :: rest => c :: betweenBackquotes rest
  | [] => []

/-- What stands behind a dollar sign and a bracket or brace, with the signs around it, if it is
such. -/
def bracketed (quoted : Bool) : List Char → Option (String × Cut × String)
  | '(' :: '(' :: rest =>
    some ("((", match upToBracket noBrackets true '(' ')' none 0 rest with
      | .ok (text, ')' :: rest) => .ok (text, rest)
      | .ok _ | .error _ => .error noBrackets, "))")
  | '(' :: rest => some ("(", upToBracket noBracket true '(' ')' none 0 rest, ")")
  | '\x7b' :: rest =>
    let missing := if quoted then noQuote else noBrace
    some ("\x7b", upToBracket missing (!quoted) '\x7b' '\x7d' none 0 rest, "\x7d")
  | _ => none

end NodeLogs.Shell
