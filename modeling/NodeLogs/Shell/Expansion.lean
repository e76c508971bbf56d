import NodeLogs.Shell.Arithmetic
import NodeLogs.Shell.Flow
import NodeLogs.Shell.Pattern

/-!
What words become: values and output are put in, unquoted values fall into several words at their
blanks, and unquoted patterns become the paths that they admit.
-/

namespace NodeLogs.Shell

/-- A part of an expanded word: a character, a blank that separates words unless the word is to stay
whole, or nothing but the fact that there is a word. -/
inductive Atom where
  | mark (m : Mark)
  | gap (c : Char)
  | present
deriving Repr, DecidableEq

def isGap (c : Char) : Bool := c == ' ' || c == '\t' || c == '\n'

namespace Atom

def ofText (quoted : Bool) (s : List Char) : List Atom :=
  if quoted then .present :: s.map fun c => .mark ⟨c, true⟩
  else s.map fun c => if isGap c then .gap c else .mark ⟨c, false⟩

def ofString (quoted : Bool) (s : String) : List Atom := ofText quoted s.toList

/-- Several values, each a word of its own. -/
def ofAll (quoted : Bool) (values : List String) : List Atom :=
  ((values.map (ofString quoted)).intersperse [.gap ' ']).flatten

def wordsFrom (current : Option (List Mark)) : List Atom → List (List Mark)
  | [] => current.toList
  | .mark m :: rest => wordsFrom (some (current.getD [] ++ [m])) rest
  | .present :: rest => wordsFrom (some (current.getD [])) rest
  | .gap _ :: rest => current.toList ++ wordsFrom none rest

/-- The words that the parts make up. -/
def words (atoms : List Atom) : List (List Mark) := wordsFrom none atoms

/-- The parts as one word. -/
def whole (atoms : List Atom) : List Mark :=
  atoms.filterMap fun
    | .mark m => some m
    | .gap c => some ⟨c, false⟩
    | .present => none

end Atom

/-- Expanding goes wrong with a message, which ends the shell. -/
abbrev Expanding := ExceptT String (StateM Session)

/-- What a script prints. It runs in a session of its own, of which the files alone last. -/
def outputOf (perform : Perform) (script : List Char) : StateM Session Bytes := do
  let s ← get
  let sink := Sink.inner s.depth
  let (flow, after) := (perform (.script script)).run
    { s.redirect 1 (some sink) with depth := s.depth + 1 }
  let (data, after) := after.collect sink
  set { s.absorb after with status := (flow.ending after).asStatus }
  return data

/-- Output as a value has no line ends at its end, and no NUL. -/
def outputValue (data : Bytes) : String :=
  let cs := (Utf8.decodeLossy (data.filter (· ≠ 0))).toList
  String.ofList (cs.reverse.dropWhile (· = '\n')).reverse

/-- The shortest or the longest beginning of a text that a pattern admits, with what is left. -/
def withoutStart (longest : Bool) (pattern : List Mark) (s : List Char) : List Char :=
  let cuts := List.range (s.length + 1)
  let cuts := if longest then cuts.reverse else cuts
  match cuts.find? fun n => Pattern.admits pattern (s.take n) with
  | some n => s.drop n
  | none => s

def withoutEnd (longest : Bool) (pattern : List Mark) (s : List Char) : List Char :=
  let cuts := List.range (s.length + 1)
  let cuts := if longest then cuts else cuts.reverse
  match cuts.find? fun n => Pattern.admits pattern (s.drop n) with
  | some n => s.take n
  | none => s

/-- The value of a parameter. One that is not set is empty, unless the shell is told to mind. -/
def valueOf (name : String) : Expanding String := do
  match (← get).parameter? name with
  | some v => return v
  | none =>
    if (← get).options.contains 'u' ∧ name ≠ "@" ∧ name ≠ "*" then
      throw (name ++ ": parameter not set")
    return ""

/-- What stands for a parameter that is altered: its value, a word, or nothing. -/
inductive Alteration where
  | value
  | word
  | assign
  | refuse
  | nothing
  | cut (start longest : Bool)
deriving Repr, DecidableEq

/-- Operators with a colon take an empty value for none. -/
def alteration (operator : String) (value : Option String) : Alteration :=
  let isSet := if operator.toList.head? = some ':' then value.any (· ≠ "") else value.isSome
  match operator with
  | ":-" | "-" => if isSet then .value else .word
  | ":=" | "=" => if isSet then .value else .assign
  | ":?" | "?" => if isSet then .value else .refuse
  | ":+" | "+" => if isSet then .word else .nothing
  | "#" => .cut true false
  | "##" => .cut true true
  | "%" => .cut false false
  | _ => .cut false true

mutual

def expandPiece (perform : Perform) : Piece → Expanding (List Atom)
  | .text quoted s => return Atom.ofText quoted s
  | .improper => throw "Bad substitution"
  | .parameter quoted name => do
    let parameters := (← get).parameters
    match name, quoted with
    | "@", quoted => return Atom.ofAll quoted parameters
    | "*", false => return Atom.ofAll false parameters
    | name, quoted => return Atom.ofString quoted (← valueOf name)
  | .measured name => do
    match name with
    | "@" | "*" => return Atom.ofString false (← get).parameters.length.repr
    | name => return Atom.ofString false (← valueOf name).utf8ByteSize.repr
  | .output quoted script => do
    return Atom.ofString quoted (outputValue (← outputOf perform script))
  | .arithmetic word => do
    let text := (Atom.whole (← expandAll perform word)).map (·.char)
    let s ← get
    match Arithmetic.evaluate s.value? s.fixed.contains text with
    | .ok (n, given) =>
      set (given.foldr (fun (name, value) s => s.set name value) s)
      return Atom.ofString false (toString n)
    | .error problem => throw problem
  | .altered quoted name operator word => do
    let value := (← get).parameter? name
    match alteration operator value with
    | .value =>
      if name = "@" then return Atom.ofAll quoted (← get).parameters
      return Atom.ofString quoted (value.getD "")
    | .word => expandAll perform word
    | .nothing => return if quoted then [.present] else []
    | .assign =>
      let text := String.ofList ((Atom.whole (← expandAll perform word)).map (·.char))
      if (← get).fixed.contains name then throw (name ++ ": is read only")
      modify fun s => s.set name text
      return Atom.ofString quoted text
    | .refuse =>
      let text := String.ofList ((Atom.whole (← expandAll perform word)).map (·.char))
      let reason := if text ≠ "" then text
        else if operator = "?" then "parameter not set" else "parameter not set or null"
      throw (name ++ ": " ++ reason)
    | .cut start longest =>
      let pattern := Atom.whole (← expandAll perform word)
      let s := (value.getD "").toList
      return Atom.ofText quoted
        (if start then withoutStart longest pattern s else withoutEnd longest pattern s)

def expandAll (perform : Perform) : List Piece → Expanding (List Atom)
  | [] => return []
  | p :: rest => do
    let atoms ← expandPiece perform p
    return atoms ++ (← expandAll perform rest)

end

/-- A tilde at the beginning of a word, before its end or a slash, stands for where the user
lives. -/
def settle : Word → Word
  | [.text false ['~']] => [.parameter true "HOME"]
  | .text false ['~'] :: .text false ['/'] :: rest =>
    .parameter true "HOME" :: .text false ['/'] :: rest
  | w => w

/-- The word as one, with what was quoted in it. -/
def expandWhole (perform : Perform) (w : Word) : Expanding (List Mark) := do
  return Atom.whole (← expandAll perform (settle w))

def expandText (perform : Perform) (w : Word) : Expanding String := do
  return String.ofList ((← expandWhole perform w).map (·.char))

/-- The names in a directory that a pattern admits, in order. One that begins with a dot must be
asked for with a dot. -/
def namesIn (t : FileTree) (dir : String) (pattern : List Mark) : List String :=
  match t.stat ⟨if dir = "" then "." else dir⟩ with
  | .ok (loc, .dir _) =>
    let names := t.entries.filterMap fun (l, _) =>
      if l.length = loc.length + 1 ∧ loc.isPrefixOf l then l.getLast? else none
    (names.filter fun n =>
      Pattern.admits pattern n.toList &&
        (n.toList.head? != some '.' || pattern.head?.any (·.char == '.'))).mergeSort (· ≤ ·)
  | _ => []

/-- Text up to a slash, and what follows it. -/
def splitAtSlash (marks : List Mark) : List Mark × Option (List Mark) :=
  (marks.takeWhile (·.char ≠ '/'),
    match marks.dropWhile (·.char ≠ '/') with
    | [] => none
    | _ :: rest => some rest)

/-- The paths that a pattern admits, after what has been found of them. -/
def pathsUpTo (t : FileTree) : Nat → String → List Mark → List String
  | 0, _, _ => []
  | n + 1, dir, marks =>
    let (part, more) := splitAtSlash marks
    let names := if Pattern.isPlain part then [String.ofList (Pattern.text part)]
      else namesIn t dir part
    match more with
    | none => (names.map (dir ++ ·)).filter fun p => t.exists_ ⟨p⟩
    | some rest => names.flatMap fun name => pathsUpTo t n (dir ++ name ++ "/") rest

/-- A pattern that admits no path stands for itself. -/
def paths (t : FileTree) (marks : List Mark) : List String :=
  if Pattern.isPlain marks then [String.ofList (Pattern.text marks)]
  else
    match pathsUpTo t (marks.length + 1) "" marks with
    | [] => [String.ofList (Pattern.text marks)]
    | found => found

/-- The words that words become. -/
def expandWords (perform : Perform) : List Word → Expanding (List String)
  | [] => return []
  | w :: rest => do
    let atoms ← expandAll perform (settle w)
    let t := (← get).tree
    return (Atom.words atoms).flatMap (paths t) ++ (← expandWords perform rest)

end NodeLogs.Shell
