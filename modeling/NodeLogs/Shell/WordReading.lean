import NodeLogs.Shell.Input
import NodeLogs.Shell.Statement

/-!
Reading words. A word goes up to a blank or an operator outside of quotes and brackets; what is to
be put into it is found in its text.
-/

namespace NodeLogs.Shell

/-- The operators that may stand after a name in braces, longer ones first. -/
def alterations : List String :=
  [":-", ":=", ":+", ":?", "##", "%%", "-", "=", "+", "?", "#", "%"]

def isSpecialName (c : Char) : Bool := "@*#?$!-".toList.contains c || c.isDigit

/-- A name after a dollar sign, and the rest. -/
def parameterName : List Char → Option (String × List Char)
  | [] => none
  | c :: rest =>
    if isNameStart c then
      some (String.ofList (c :: rest.takeWhile isNamePart), rest.dropWhile isNamePart)
    else if isSpecialName c then some (c.toString, rest)
    else none

/-- A name in braces may have several digits. -/
def bracedName (cs : List Char) : Option (String × List Char) :=
  match cs with
  | c :: _ =>
    if c.isDigit then
      some (String.ofList (cs.takeWhile Char.isDigit), cs.dropWhile Char.isDigit)
    else parameterName cs
  | [] => none

/-- Text up to a double quote that is not escaped nor within a command. -/
def upToDoubleQuote (fuel : Nat) (cs : List Char) : Cut :=
  match fuel, cs with
  | 0, _ | _, [] => .error noQuote
  | _, '"' :: rest => .ok ([], rest)
  | fuel + 1, '\\' :: c :: rest => (upToDoubleQuote fuel rest).map ('\\' :: c :: ·)
  | fuel + 1, '\x60' :: rest => do
    let (s, rest) ← upToBackquote rest
    (upToDoubleQuote fuel rest).map ('\x60' :: s ++ '\x60' :: ·)
  | fuel + 1, '$' :: rest =>
    match bracketed true rest with
    | none => (upToDoubleQuote fuel rest).map ('$' :: ·)
    | some (opening, cut, closing) => do
      let (s, rest) ← cut
      (upToDoubleQuote fuel rest).map ('$' :: opening.toList ++ s ++ closing.toList ++ ·)
  | fuel + 1, c :: rest => (upToDoubleQuote fuel rest).map (c :: ·)

/-- What stands between braces after a dollar sign: a name alone, one whose value is measured, or
one with an operator and a word. -/
inductive Braced where
  | plain (name : String)
  | measured (name : String)
  | altered (name operator : String) (word : List Char)

def braced (s : List Char) : Option Braced :=
  match s with
  | '#' :: c :: more =>
    match bracedName (c :: more) with
    | some (name, []) => some (.measured name)
    | _ => none
  | s =>
    match bracedName s with
    | none => none
    | some (name, []) => some (.plain name)
    | some (name, rest) =>
      (alterations.find? fun o => o.toList.isPrefixOf rest).map fun o =>
        .altered name o (rest.drop o.length)

/-- Text without its double quotes that are not escaped. -/
def withoutQuotes : List Char → List Char
  | '\\' :: c :: rest => '\\' :: c :: withoutQuotes rest
  | c :: rest => if c = '"' then withoutQuotes rest else c :: withoutQuotes rest
  | [] => []

/-- The pieces of text in which parameters and commands are put, up to the end of the text. In
double quotes blanks and single quotes are text. -/
def pieces (fuel : Nat) (quoted : Bool) (text : List Char) : Except String Word :=
  match fuel, text with
  | _, [] => .ok []
  | 0, _ => .error noQuote
  | fuel + 1, c :: rest =>
    let add (p : Piece) (rest : List Char) : Except String Word := do
      return p :: (← pieces fuel quoted rest)
    match c, rest with
    | '\\', x :: rest =>
      if quoted && !("$\"\\\x60\n".toList.contains x) then add (.text true ['\\', x]) rest
      else if x = '\n' then pieces fuel quoted rest
      else add (.text true [x]) rest
    | '\'', rest =>
      if quoted then add (.text true ['\'']) rest
      else do
        let (s, rest) ← upTo '\'' rest
        add (.text true s) rest
    | '"', rest =>
      if quoted then add (.text true ['"']) rest
      else do
        let (s, rest) ← upToDoubleQuote rest.length rest
        let w ← pieces fuel true s
        return (if w.isEmpty then [.text true []] else w) ++ (← pieces fuel quoted rest)
    | '\x60', rest => do
      let (s, rest) ← upToBackquote rest
      add (.output quoted (betweenBackquotes s)) rest
    | '$', rest =>
      match bracketed quoted rest with
      | some ("((", cut, _) => do
        let (s, rest) ← cut
        add (.arithmetic (← pieces fuel true s)) rest
      | some ("(", cut, _) => do
        let (s, rest) ← cut
        add (.output quoted s) rest
      | some (_, cut, _) => do
        let (s, rest) ← cut
        match braced s with
        | none => add .improper rest
        | some (.plain name) => add (.parameter quoted name) rest
        | some (.measured name) => add (.measured name) rest
        | some (.altered name o word) =>
          add (.altered quoted name o
            (← pieces fuel quoted (if quoted then withoutQuotes word else word))) rest
      | none =>
        match parameterName rest with
        | none => add (.text quoted ['$']) rest
        | some (name, rest) => add (.parameter quoted name) rest
    | c, rest => add (.text quoted [c]) rest

/-- The text of a word, up to a blank or an operator outside of quotes and brackets. -/
def wordText (fuel : Nat) (cs : List Char) : Cut :=
  match fuel, cs with
  | _, [] => .ok ([], [])
  | 0, _ => .error noQuote
  | fuel + 1, c :: rest =>
    let after (start : String) (cut : Cut) (close : String) : Cut := do
      let (s, rest) ← cut
      (wordText fuel rest).map (start.toList ++ s ++ close.toList ++ ·)
    match c, rest with
    | '\\', x :: rest => (wordText fuel rest).map ('\\' :: x :: ·)
    | '\'', rest => after "'" (upTo '\'' rest) "'"
    | '"', rest => after "\"" (upToDoubleQuote rest.length rest) "\""
    | '\x60', rest => after "\x60" (upToBackquote rest) "\x60"
    | '$', rest =>
      match bracketed false rest with
      | some (opening, cut, closing) => after ("$" ++ opening) cut closing
      | none => (wordText fuel rest).map ('$' :: ·)
    | c, rest =>
      if endsWord c then .ok ([], c :: rest) else (wordText fuel rest).map (c :: ·)

def Input.misread {α : Type} (i : Input) (text : String) : Except Problem α :=
  i.fail ("Syntax error: " ++ text)

/-- Where the script ends. -/
def Input.atEnd (i : Input) : Input := i.skip i.rest.length

/-- A word as it is written, which must not be empty, and what it is made of. -/
def word (i : Input) : Read (Option (List Char × Word) × Input) :=
  match wordText (i.rest.length + 1) i.rest with
  | .error problem => (if problem = noBrace then i else i.atEnd).misread problem
  | .ok ([], _) => .ok (none, i)
  | .ok (text, rest) =>
    match pieces (text.length + 1) false text with
    | .error problem => i.misread problem
    | .ok w => .ok (some (text, w), i.leaving rest)

def reserved : List String :=
  ["if", "then", "elif", "else", "fi", "while", "until", "do", "done", "for", "in", "case", "esac",
    "\x7b", "\x7d", "!"]

/-- The word that comes next, if it is made of plain letters alone. -/
def peekPlain (i : Input) : Option String :=
  match wordText (i.rest.length + 1) i.rest with
  | .ok (text, _) =>
    if text ≠ [] ∧ text.all fun c => c.isAlphanum || "_\x7b\x7d![]:.-/".toList.contains c then
      some (String.ofList text)
    else none
  | .error _ => none

/-- What comes next, as it is told in a message. -/
def upcoming (i : Input) : String :=
  match i.rest with
  | [] => "end of file"
  | '\n' :: _ => "newline"
  | ';' :: ';' :: _ => "\";;\""
  | '&' :: '&' :: _ => "\"&&\""
  | '|' :: '|' :: _ => "\"||\""
  | c :: _ =>
    match peekPlain i with
    | some w => if reserved.contains w then "\"" ++ w ++ "\"" else "word"
    | none => if isOperator c then "\"" ++ c.toString ++ "\"" else "word"

def Input.unexpected {α : Type} (i : Input) : Except Problem α :=
  i.misread (upcoming i ++ " unexpected")

/-- Something else must come next. -/
def Input.lacks {α : Type} (i : Input) (wanted : String) : Except Problem α :=
  i.misread (upcoming i ++ " unexpected (expecting " ++ wanted ++ ")")

def quoteWord (w : String) : String := "\"" ++ w ++ "\""

def blanks (i : Input) : Input := i.leaving (passBlanks i.rest)

def lines (i : Input) : Input := i.leaving (passLines i.rest.length i.rest)

/-- Passes this word, which must come next. -/
def expect (w : String) (i : Input) : Except Problem Input :=
  let i := lines i
  if peekPlain i = some w then .ok (i.skip w.length) else i.lacks (quoteWord w)

end NodeLogs.Shell
