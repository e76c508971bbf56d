import NodeLogs.Yaml.Scalar.Gap

/-!
Scalars in quotes. In single quotes only the quote itself is special and is written twice; in
double quotes a backslash begins an escape, or hides a line break.
-/

namespace NodeLogs.Yaml.Quoted

open Text (Position)

/-- The characters that stand for others after a backslash. -/
def escape? (c : Char) : Option Char :=
  match c with
  | '0' => some '\x00'
  | 'a' => some '\x07'
  | 'b' => some '\x08'
  | 't' | '\t' => some '\t'
  | 'n' => some '\n'
  | 'v' => some '\x0b'
  | 'f' => some '\x0c'
  | 'r' => some '\r'
  | 'e' => some '\x1b'
  | ' ' | '"' | '/' | '\\' => some c
  | 'N' => some nextLine
  | '_' => some '\u00a0'
  | 'L' => some lineSeparator
  | 'P' => some paragraphSeparator
  | _ => none

/-- The character of a code point, if there is one. -/
def ofCode? (n : Nat) : Option Char := if n.isValidChar then some (Char.ofNat n) else none

/-- The character of a code point in so many hexadecimal digits, and how many they are. -/
def ofHex? (digits : Nat) (rest : List Char) : Option (Char × Nat) :=
  if rest.length < digits then none
  else ((hexNumber? (rest.take digits)).bind ofCode?).map fun c => (c, digits + 1)

/-- The character that an escape stands for, and how many characters come for it after the
backslash. -/
def escapeAt? : List Char → Option (Char × Nat)
  | [] => none
  | 'x' :: rest => ofHex? 2 rest
  | 'u' :: rest => ofHex? 4 rest
  | 'U' :: rest => ofHex? 8 rest
  | c :: _ => (escape? c).map fun c => (c, 1)

/-- Puts a gap and a character before the rest of the text. -/
def after (gap : Gap) (c : Char) (r : List Char × Cursor) : List Char × Cursor :=
  (gap.folded ++ c :: r.1, r.2)

/-- The text up to the closing quote, and how far that was read. -/
def single (gap : Gap) (p : Position) : List Char → Option (List Char × Cursor)
  | [] => none
  | c :: rest =>
    if isSpace c then single (gap.addSpace c) (past p c) rest
    else if isBreak c then single (gap.addBreak c) (past p c) rest
    else if atDocumentMark p (c :: rest) then none
    else if c = '\'' then
      match rest with
      | '\'' :: rest => (single .none (p.right 2) rest).map (after gap '\'')
      | _ => some (gap.folded, ⟨p.right 1, rest⟩)
    else (single .none (past p c) rest).map (after gap c)

def double (gap : Gap) (p : Position) : List Char → Option (List Char × Cursor)
  | [] => none
  | c :: rest =>
    if isSpace c then double (gap.addSpace c) (past p c) rest
    else if isBreak c then double (gap.addBreak c) (past p c) rest
    else if atDocumentMark p (c :: rest) then none
    else if c = '"' then some (gap.folded, ⟨p.right 1, rest⟩)
    else if c = '\\' then
      if rest ≠ [] ∧ atLineEnd rest then
        (double .escaped ⟨p.line + 1, 0⟩ (rest.drop 1)).map fun r => (gap.folded ++ r.1, r.2)
      else
        match escapeAt? rest with
        | none => none
        | some (x, n) => (double .none (p.right (n + 1)) (rest.drop n)).map (after gap x)
    else (double .none (past p c) rest).map (after gap c)
termination_by cs => cs.length
decreasing_by all_goals simp +arith

theorem length_single_le (gap : Gap) (p : Position) (cs text : List Char) (cursor : Cursor)
    (h : single gap p cs = some (text, cursor)) : cursor.rest.length ≤ cs.length := by
  fun_induction single gap p cs generalizing text cursor <;>
    grind [after, Option.map_eq_some_iff]

theorem length_double_le (gap : Gap) (p : Position) (cs text : List Char) (cursor : Cursor)
    (h : double gap p cs = some (text, cursor)) : cursor.rest.length ≤ cs.length := by
  fun_induction double gap p cs generalizing text cursor <;>
    grind [after, Option.map_eq_some_iff]

end NodeLogs.Yaml.Quoted
