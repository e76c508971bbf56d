import NodeLogs.Text.Lines
import NodeLogs.Yaml.Character

/-!
How far a text has been read.
-/

namespace NodeLogs.Yaml

open Text (Position)

/-- The place just after a character. -/
def past (p : Position) (c : Char) : Position :=
  if isBreak c then ⟨p.line + 1, 0⟩ else p.right 1

structure Cursor where
  position : Position
  rest : List Char
deriving Repr, DecidableEq

namespace Cursor

def column (c : Cursor) : Nat := c.position.column

/-- Passes so many characters of the line. -/
def skip (c : Cursor) (n : Nat) : Cursor := ⟨c.position.right n, c.rest.drop n⟩

/-- Passes the characters of a kind that no line break is of. -/
def span (p : Char → Bool) (c : Cursor) : List Char × Cursor :=
  (c.rest.takeWhile p, ⟨c.position.right (c.rest.takeWhile p).length, c.rest.dropWhile p⟩)

/-- Goes on at the end of the line, whatever is left of it. -/
def toLineEnd (c : Cursor) : Cursor := (c.span fun x => !isBreak x).2

/-- Passes the white space of the line, and a comment if one comes then. -/
def pastComment (c : Cursor) : Cursor :=
  let c := (c.span isSpace).2
  if c.rest.head? = some '#' then c.toLineEnd else c

/-- Passes the line break that comes here, if one does. -/
def pastBreak (c : Cursor) : Cursor :=
  match c.rest with
  | [] => c
  | x :: rest => if isBreak x then ⟨past c.position x, rest⟩ else c

theorem length_skip (c : Cursor) (n : Nat) : (c.skip n).rest.length = c.rest.length - n := by
  simp [skip]

theorem length_span_le (p : Char → Bool) (c : Cursor) :
    (c.span p).2.rest.length ≤ c.rest.length :=
  (List.dropWhile_sublist p).length_le

theorem length_toLineEnd_le (c : Cursor) : c.toLineEnd.rest.length ≤ c.rest.length :=
  length_span_le ..

theorem length_pastComment_le (c : Cursor) : c.pastComment.rest.length ≤ c.rest.length := by
  have h := length_span_le isSpace c
  simp only [pastComment]
  split
  · exact Nat.le_trans (length_toLineEnd_le _) h
  · exact h

theorem length_pastBreak_le (c : Cursor) : c.pastBreak.rest.length ≤ c.rest.length := by
  unfold pastBreak
  split
  · simp
  · split <;> simp [*]

end Cursor

/-- Whether a line begins here with three of these characters and nothing attached to them. -/
def atLineMark (mark : Char) (p : Position) (rest : List Char) : Bool :=
  p.column == 0 && [mark, mark, mark].isPrefixOf rest && atGap (rest.drop 3)

/-- Whether a line begins here with what starts or ends a document. -/
def atDocumentMark (p : Position) (rest : List Char) : Bool :=
  atLineMark '-' p rest || atLineMark '.' p rest

end NodeLogs.Yaml
