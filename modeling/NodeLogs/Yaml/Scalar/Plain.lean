import NodeLogs.Yaml.Scalar.Gap

/-!
Scalars without quotes. They end before a colon or a comment, before a bracket or comma in flow
style, and where a line is not indented as far as it must be.
-/

namespace NodeLogs.Yaml.Plain

open Text (Position)

/-- Whether a scalar ends before what comes here. -/
def atEnd (flow : Bool) : List Char → Bool
  | [] => true
  | c :: rest => (c == ':' && atGap rest) || (flow && isFlowMark c)

/-- A colon attached to what follows it, where a collection in flow style would have to go on. -/
def atLooseColon : List Char → Bool
  | ':' :: c :: _ => c == '?' || isFlowMark c
  | _ => false

/-- Whether a scalar ends before a word that comes after white space. -/
def endsBeforeWord (flow : Bool) (margin : Nat) (p : Position) (rest : List Char) : Bool :=
  (!flow && p.column < margin) || atDocumentMark p rest || rest.head? == some '#'

/-- The text of a scalar, whether a line break was passed after its last word, and how far that was
read. -/
structure Reading where
  text : List Char
  broken : Bool
  cursor : Cursor
deriving Repr, DecidableEq

/-- Puts a gap and a character before the rest of the text. -/
def after (gap : Gap) (c : Char) (r : Reading) : Reading :=
  { r with text := gap.folded ++ c :: r.text }

/-- Reads the rest of a scalar; the gap is what has been passed since its last word. -/
def read (flow : Bool) (margin : Nat) (gap : Option Gap) (p : Position) :
    List Char → Option Reading
  | [] => some ⟨[], (gap.getD .none).broken, ⟨p, []⟩⟩
  | c :: rest =>
    let g := gap.getD .none
    if isSpace c then
      if g.broken && p.column < margin && c == '\t' then none
      else read flow margin (some (g.addSpace c)) (past p c) rest
    else if isBreak c then read flow margin (some (g.addBreak c)) (past p c) rest
    else if gap.isSome && endsBeforeWord flow margin p (c :: rest) then
      some ⟨[], g.broken, ⟨p, c :: rest⟩⟩
    else if flow && atLooseColon (c :: rest) then none
    else if atEnd flow (c :: rest) then some ⟨[], g.broken, ⟨p, c :: rest⟩⟩
    else (read flow margin none (past p c) rest).map (after g c)

theorem length_read_le (flow : Bool) (margin : Nat) (gap : Option Gap) (p : Position)
    (cs : List Char) (r : Reading) (h : read flow margin gap p cs = some r) :
    r.cursor.rest.length ≤ cs.length := by
  fun_induction read flow margin gap p cs generalizing r <;>
    grind [after, Option.map_eq_some_iff]

end NodeLogs.Yaml.Plain
