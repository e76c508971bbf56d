import NodeLogs.Shell.WordReading

/-!
Reading scripts. Statements are read by descent, which is bounded by the length of the script.
-/

namespace NodeLogs.Shell

/-- The lines up to one that ends a document, and what follows. Tabs at their beginnings may be
passed. -/
def document (tabs : Bool) (last : List Char) : Nat → List Char → List Char × List Char
  | 0, cs => ([], cs)
  | fuel + 1, cs =>
    let line := cs.takeWhile (· ≠ '\n')
    let behind := cs.drop line.length
    let line := if tabs then line.dropWhile (· = '\t') else line
    if line = last then ([], behind.drop 1)
    else
      match behind with
      | [] => (line, [])
      | _ :: rest =>
        let (more, rest) := document tabs last fuel rest
        (line ++ '\n' :: more, rest)

/-- Takes a document out from behind the line that asks for it. What is put into it depends on
whether the word that ends it is quoted. -/
def hereDocument (stream : Nat) (tabs : Bool) (i : Input) : Read (Redirection × Input) :=
  let i := blanks i
  match wordText (i.rest.length + 1) i.rest with
  | .error problem => i.misread problem
  | .ok ([], _) => i.unexpected
  | .ok (text, rest) =>
    let isQuote (c : Char) : Bool := c == '\'' || c == '"' || c == '\\'
    let i := i.leaving rest
    let line := i.rest.takeWhile (· ≠ '\n')
    match i.rest.drop line.length with
    | [] => .ok (⟨stream, .document, []⟩, i)
    | _ :: below =>
      let (body, rest) := document tabs (text.filter (!isQuote ·)) below.length below
      let taken := below.count '\n' - rest.count '\n'
      let i : Input := ⟨i.line, line ++ '\n' :: rest, i.taken + taken⟩
      if text.any isQuote then .ok (⟨stream, .document, [.text true body]⟩, i)
      else
        match pieces (body.length + 1) true body with
        | .error problem => i.misread problem
        | .ok w => .ok (⟨stream, .document, w⟩, i)

/-- The sign of a redirection: what it does, and the stream that it is for as a rule. -/
def redirectionSign : List Char → Option (Direction × Nat × List Char)
  | '>' :: '>' :: rest => some (.append, 1, rest)
  | '>' :: '&' :: rest => some (.duplicate, 1, rest)
  | '>' :: '|' :: rest => some (.write, 1, rest)
  | '>' :: rest => some (.write, 1, rest)
  | '<' :: '<' :: rest => some (.document, 0, rest)
  | '<' :: '&' :: rest => some (.duplicate, 0, rest)
  | '<' :: rest => some (.read, 0, rest)
  | _ => none

/-- A redirection, if one comes here; a digit before it tells the stream. -/
def redirection (i : Input) : Read (Option Redirection × Input) :=
  let (digit, cs) : Option Nat × List Char := match i.rest with
    | c :: x :: rest =>
      if c.isDigit ∧ (x = '<' ∨ x = '>') then (some (c.toNat - 48), x :: rest)
      else (none, c :: x :: rest)
    | cs => (none, cs)
  match redirectionSign cs with
  | none => .ok (none, i)
  | some (.document, usual, rest) => do
    let tabs := rest.head? = some '-'
    let rest := if tabs then rest.drop 1 else rest
    let (r, i) ← hereDocument (digit.getD usual) tabs (i.leaving rest)
    return (some r, i)
  | some (direction, usual, rest) => do
    match ← word (blanks (i.leaving rest)) with
    | (none, i) => i.unexpected
    | (some (_, w), i) => return (some ⟨digit.getD usual, direction, w⟩, i)

/-- Redirections after a compound statement. -/
def redirections (fuel : Nat) (i : Input) : Read (List Redirection × Input) :=
  match fuel with
  | 0 => .ok ([], i)
  | fuel + 1 => do
    match ← redirection (blanks i) with
    | (none, _) => return ([], i)
    | (some r, i) =>
      let (rs, i) ← redirections fuel i
      return (r :: rs, i)

/-- A name and an equals sign at the beginning of a word. -/
def assignment? (text : List Char) : Option (String × List Char) :=
  let name := text.takeWhile isNamePart
  match text.dropWhile isNamePart with
  | '=' :: value =>
    if name.head?.any isNameStart then some (String.ofList name, value) else none
  | _ => none

/-- The words, assignments and redirections of a simple statement. -/
def simpleRest (fuel : Nat) (assignments : List (String × Word)) (words : List Word)
    (rs : List Redirection) (i : Input) :
    Read ((List (String × Word) × List Word × List Redirection) × Input) :=
  match fuel with
  | 0 => .ok ((assignments, words, rs), i)
  | fuel + 1 => do
    let i := blanks i
    match ← redirection i with
    | (some r, i) => simpleRest fuel assignments words (rs ++ [r]) i
    | (none, _) =>
      match ← word i with
      | (none, i) => return ((assignments, words, rs), i)
      | (some (text, w), i) =>
        match if words = [] then assignment? text else none with
        | none => simpleRest fuel assignments (words ++ [w]) rs i
        | some (name, value) =>
          match pieces (value.length + 1) false value with
          | .error problem => i.misread problem
          | .ok v => simpleRest fuel (assignments ++ [(name, v)]) words rs i

/-- The words of a loop, up to the end of the line or a semicolon. -/
def wordsToEnd (fuel : Nat) (words : List Word) (i : Input) : Read (List Word × Input) :=
  match fuel with
  | 0 => .ok (words, i)
  | fuel + 1 => do
    match ← word (blanks i) with
    | (none, i) => return (words, i)
    | (some (_, w), i) => wordsToEnd fuel (words ++ [w]) i

/-- The patterns of an arm, up to the bracket behind them. -/
def patterns (fuel : Nat) (found : List Word) (i : Input) : Read (List Word × Input) :=
  match fuel with
  | 0 => i.unexpected
  | fuel + 1 => do
    match ← word (blanks i) with
    | (none, i) => i.lacks (quoteWord ")")
    | (some (_, w), i) =>
      let i := blanks i
      match i.rest with
      | '|' :: _ => patterns fuel (found ++ [w]) (i.skip 1)
      | ')' :: _ => return (found ++ [w], i.skip 1)
      | _ => i.lacks (quoteWord ")")

/-- Passes a semicolon or line end. -/
def separator (i : Input) : Except Problem Input :=
  let i := blanks i
  match i.rest with
  | ';' :: _ | '\n' :: _ => .ok (i.skip 1)
  | _ => i.lacks (quoteWord "do")

def ends : List String := ["then", "elif", "else", "fi", "do", "done", "esac", "\x7d"]

def withRedirections (s : Statement) (i : Input) : Read (Statement × Input) := do
  let (rs, i) ← redirections i.rest.length i
  return (if rs.isEmpty then s else .redirected s rs, i)

mutual

/-- Statements up to what cannot begin one. Where only a line is wanted, they end with it. -/
def statements (fuel : Nat) (lineOnly : Bool) (i : Input) : Read (List Statement × Input) :=
  match fuel with
  | 0 => i.fail "Syntax error: nesting too deep"
  | fuel + 1 => do
    let i := if lineOnly then blanks i else lines i
    if i.rest.head?.all (";)\n".toList.contains ·) || (peekPlain i).any ends.contains then
      return ([], i)
    let (s, i) ← andOr fuel i
    let i := blanks i
    match i.rest with
    | ';' :: ';' :: _ => return ([s], i)
    | ';' :: _ | '&' :: _ =>
      let (more, i) ← statements fuel lineOnly (i.skip 1)
      return (s :: more, i)
    | '\n' :: _ =>
      if lineOnly then return ([s], i)
      let (more, i) ← statements fuel lineOnly (i.skip 1)
      return (s :: more, i)
    | _ => return ([s], i)

/-- Pipelines with and, or between them, which bind alike from left to right. -/
def andOr (fuel : Nat) (i : Input) : Read (Statement × Input) :=
  match fuel with
  | 0 => i.fail "Syntax error: nesting too deep"
  | fuel + 1 => do
    let (s, i) ← pipeline fuel i
    andOrRest fuel s i

def andOrRest (fuel : Nat) (first : Statement) (i : Input) : Read (Statement × Input) :=
  match fuel with
  | 0 => i.fail "Syntax error: nesting too deep"
  | fuel + 1 => do
    let i := blanks i
    match i.rest with
    | '&' :: '&' :: _ =>
      let (s, i) ← pipeline fuel (lines (i.skip 2))
      andOrRest fuel (.both first s) i
    | '|' :: '|' :: _ =>
      let (s, i) ← pipeline fuel (lines (i.skip 2))
      andOrRest fuel (.either first s) i
    | _ => return (first, i)

def pipeline (fuel : Nat) (i : Input) : Read (Statement × Input) :=
  match fuel with
  | 0 => i.fail "Syntax error: nesting too deep"
  | fuel + 1 => do
    let i := blanks i
    if peekPlain i = some "!" then
      let (s, i) ← pipeline fuel (i.skip 1)
      return (.negated s, i)
    let (s, i) ← command fuel i
    let i := blanks i
    match i.rest with
    | '|' :: '|' :: _ => return (s, i)
    | '|' :: _ =>
      let (more, i) ← pipeline fuel (lines (i.skip 1))
      return (.piped s more, i)
    | _ => return (s, i)

/-- Statements of which there must be some before anything else comes. -/
def someStatements (fuel : Nat) (i : Input) : Read (List Statement × Input) :=
  match fuel with
  | 0 => i.fail "Syntax error: nesting too deep"
  | fuel + 1 => do
    let (s, i) ← statements fuel false i
    if s.isEmpty && !i.rest.isEmpty then i.unexpected else return (s, i)

/-- A body between two words. -/
def body (fuel : Nat) (first last : String) (i : Input) : Read (Statement × Input) :=
  match fuel with
  | 0 => i.fail "Syntax error: nesting too deep"
  | fuel + 1 => do
    let i ← expect first i
    let (s, i) ← someStatements fuel i
    let i ← expect last i
    return (.sequence s, i)

/-- What follows the first word of a choice. -/
def choice (fuel : Nat) (i : Input) : Read (Statement × Input) :=
  match fuel with
  | 0 => i.fail "Syntax error: nesting too deep"
  | fuel + 1 => do
    let (condition, i) ← someStatements fuel i
    let i ← expect "then" i
    let (yes, i) ← someStatements fuel i
    let i := lines i
    match peekPlain i with
    | some "elif" =>
      let (no, i) ← choice fuel (i.skip 4)
      return (.choice (.sequence condition) (.sequence yes) no, i)
    | some "else" =>
      let (no, i) ← someStatements fuel (i.skip 4)
      let i ← expect "fi" i
      return (.choice (.sequence condition) (.sequence yes) (.sequence no), i)
    | _ =>
      let i ← expect "fi" i
      return (.choice (.sequence condition) (.sequence yes) (.sequence []), i)

/-- The arms of a case statement. -/
def arms (fuel : Nat) (i : Input) : Read (List (List Word × Statement) × Input) :=
  match fuel with
  | 0 => i.fail "Syntax error: nesting too deep"
  | fuel + 1 => do
    let i := lines i
    if peekPlain i = some "esac" then return ([], i.skip 4)
    let i := match i.rest with
      | '(' :: _ => i.skip 1
      | _ => i
    let (ps, i) ← patterns (i.rest.length + 1) [] i
    let (s, i) ← statements fuel false i
    let i := lines i
    match i.rest with
    | ';' :: ';' :: _ =>
      let (more, i) ← arms fuel (i.skip 2)
      return ((ps, .sequence s) :: more, i)
    | _ =>
      if peekPlain i = some "esac" then return ([(ps, .sequence s)], i.skip 4)
      else i.lacks (quoteWord ";;")

/-- A compound statement, a function, or a simple statement. -/
def command (fuel : Nat) (i : Input) : Read (Statement × Input) :=
  match fuel with
  | 0 => i.fail "Syntax error: nesting too deep"
  | fuel + 1 => do
    match i.rest, peekPlain i with
    | '(' :: _, _ =>
      let (s, i) ← someStatements fuel (i.skip 1)
      let i := lines i
      if i.rest.head? ≠ some ')' then i.lacks (quoteWord ")")
      else withRedirections (.subshell (.sequence s)) (i.skip 1)
    | _, some "\x7b" =>
      let (s, i) ← body fuel "\x7b" "\x7d" i
      withRedirections s i
    | _, some "if" =>
      let (s, i) ← choice fuel (i.skip 2)
      withRedirections s i
    | _, some "while" =>
      let (condition, i) ← someStatements fuel (i.skip 5)
      let (s, i) ← body fuel "do" "done" i
      withRedirections (.loop true (.sequence condition) s) i
    | _, some "until" =>
      let (condition, i) ← someStatements fuel (i.skip 5)
      let (s, i) ← body fuel "do" "done" i
      withRedirections (.loop false (.sequence condition) s) i
    | _, some "for" =>
      match ← word (blanks (i.skip 3)) with
      | (none, i) => i.misread "Bad for loop variable"
      | (some (name, _), i) =>
        if !isName name then i.misread "Bad for loop variable"
        let name := String.ofList name
        let j := lines i
        if peekPlain j = some "in" then
          let (words, i) ← wordsToEnd j.rest.length [] (j.skip 2)
          let i ← separator i
          let (s, i) ← body fuel "do" "done" i
          withRedirections (.each name words s) i
        else
          let j := blanks i
          let i := match j.rest with
            | ';' :: _ => j.skip 1
            | _ => j
          let (s, i) ← body fuel "do" "done" i
          withRedirections (.each name [[.parameter true "@"]] s) i
    | _, some "case" =>
      match ← word (blanks (i.skip 4)) with
      | (none, i) => i.lacks "word"
      | (some (_, w), i) =>
        let i ← expect "in" i
        let (arms, i) ← arms fuel i
        withRedirections (.cases w arms) i
    | _, plain =>
      let start := i.line
      match ← word i with
      | (some (text, _), j) =>
        let k := blanks j
        if plain.any reserved.contains then i.unexpected
        else if k.rest.head? = some '(' ∧ (assignment? text).isNone then
          let k := blanks (k.skip 1)
          if k.rest.head? ≠ some ')' then k.lacks (quoteWord ")")
          else if !isName text then k.misread "Bad function name"
          else
            let (s, i) ← command fuel (lines (k.skip 1))
            return (.function (String.ofList text) s, i)
        else
          let ((assignments, words, rs), i) ← simpleRest i.rest.length [] [] [] i
          return (.simple start assignments words rs, i)
      | (none, _) =>
        let ((assignments, words, rs), j) ← simpleRest i.rest.length [] [] [] i
        if rs.isEmpty then i.unexpected
        else return (.simple start assignments words rs, j)

end

/-- The lines of a script, each as one statement. -/
def scriptFrom (fuel : Nat) (i : Input) : Script :=
  match fuel with
  | 0 => ⟨[], none⟩
  | fuel + 1 =>
    let i := lines i
    if i.rest = [] then ⟨[], none⟩
    else
      match statements (8 * (i.rest.length + 2)) true i with
      | .error p => ⟨[], some (p.line, p.text)⟩
      | .ok (s, i) =>
        match (blanks i).rest with
        | [] | '\n' :: _ =>
          let more := scriptFrom fuel i
          { more with statements := .sequence s :: more.statements }
        | _ => ⟨[], some (i.line, "Syntax error: " ++ upcoming (blanks i) ++ " unexpected")⟩

def Script.read (text : List Char) : Script := scriptFrom (text.length + 1) ⟨1, text, 0⟩

end NodeLogs.Shell
