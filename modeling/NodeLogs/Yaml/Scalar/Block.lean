import NodeLogs.Yaml.Scalar.Gap

/-!
Block scalars: a header, and below it lines that are indented alike. Their line breaks are kept as
they are, or folded between lines that begin with no white space.
-/

namespace NodeLogs.Yaml.Block

open Text (Position)

/-- What becomes of the line breaks at the end: all are dropped, the first is kept, all are kept. -/
inductive Chomp where
  | strip
  | clip
  | keep
deriving Repr, DecidableEq

structure Header where
  chomp : Chomp
  indent : Option Nat
deriving Repr, DecidableEq

def Chomp.ofChar? : Char → Option Chomp
  | '-' => some .strip
  | '+' => some .keep
  | _ => none

/-- Passes a chomping mark, if one comes here. -/
def chomp (c : Cursor) : Option Chomp × Cursor :=
  match c.rest.head?.bind Chomp.ofChar? with
  | some mark => (some mark, c.skip 1)
  | none => (none, c)

/-- Passes an indentation digit, if one comes here; there is no indentation by nothing. -/
def indent (c : Cursor) : Option (Option Nat × Cursor) :=
  match c.rest with
  | x :: _ =>
    if x = '0' then none
    else if x.isDigit then some (some (x.toNat - 48), c.skip 1)
    else some (none, c)
  | [] => some (none, c)

/-- The marks of the header, in either order. -/
def marks (c : Cursor) : Option (Header × Cursor) :=
  let early := chomp c
  match indent early.2 with
  | none => none
  | some (none, c) => some (⟨early.1.getD .clip, none⟩, c)
  | some (some n, c) =>
    match early.1 with
    | some mark => some (⟨mark, some n⟩, c)
    | none => some (⟨(chomp c).1.getD .clip, some n⟩, (chomp c).2)

/-- The header, up to the line below it. -/
def header (c : Cursor) : Option (Header × Cursor) :=
  match marks c with
  | none => none
  | some (h, c) => if atLineEnd c.pastComment.rest then some (h, c.pastComment.pastBreak) else none

/-- Passes empty lines, with whatever they are indented by, and the indentation of the first line
that is not empty; tells the line breaks passed and the widest indentation. -/
def leading (widest : Nat) (p : Position) : List Char → Option (List Char × Nat × Cursor)
  | [] => some ([], max widest p.column, ⟨p, []⟩)
  | c :: rest =>
    if c = ' ' then leading widest (past p c) rest
    else if c = '\t' then none
    else if isBreak c then
      (leading (max widest p.column) (past p c) rest).map fun r => (c :: r.1, r.2)
    else some ([], max widest p.column, ⟨p, c :: rest⟩)

/-- Where reading stands: within a line, or after one, having passed line breaks since. -/
inductive Place where
  | inLine
  | between (gap : Gap)
deriving Repr, DecidableEq

/-- The text of a scalar without its end, the line breaks at its end, and how far it was read. -/
structure Reading where
  text : List Char
  tail : Gap
  cursor : Cursor
deriving Repr, DecidableEq

def Reading.prepend (cs : List Char) (r : Reading) : Reading := { r with text := cs ++ r.text }

/-- What the line breaks between two lines stand for. -/
def joined (literal : Bool) (spacedBefore spacedAfter : Bool) (gap : Gap) : List Char :=
  if literal || spacedBefore || spacedAfter then gap.breaks else gap.folded

/-- Reads on; `spaced` tells whether the last line began with white space. -/
def read (literal : Bool) (margin : Nat) (spaced : Bool) (place : Place) (p : Position) :
    List Char → Option Reading
  | [] =>
    match place with
    | .inLine => some ⟨[], .escaped, ⟨p, []⟩⟩
    | .between gap => some ⟨[], gap, ⟨p, []⟩⟩
  | c :: rest =>
    match place with
    | .inLine =>
      if isBreak c then read literal margin spaced (.between (Gap.none.addBreak c)) (past p c) rest
      else (read literal margin spaced .inLine (past p c) rest).map (.prepend [c])
    | .between gap =>
      if p.column < margin ∧ c = ' ' then read literal margin spaced (.between gap) (past p c) rest
      else if p.column < margin ∧ c = '\t' then none
      else if isBreak c then
        read literal margin spaced (.between (gap.addBreak c)) (past p c) rest
      else if p.column = margin then
        (read literal margin (isSpace c) .inLine (past p c) rest).map
          (.prepend (joined literal spaced (isSpace c) gap ++ [c]))
      else some ⟨[], gap, ⟨p, c :: rest⟩⟩

def Reading.chomped (r : Reading) : Chomp → List Char
  | .strip => r.text
  | .clip => r.text ++ r.tail.first
  | .keep => r.text ++ r.tail.breaks

/-- A scalar after the mark that it begins with, in a collection whose contents keep to a margin. -/
def scalar (literal : Bool) (margin : Nat) (c : Cursor) : Option (List Char × Cursor) := do
  let (header, c) ← header c
  match header.indent with
  | some n =>
    let r ← read literal (margin - 1 + n) false (.between .escaped) c.position c.rest
    return (r.chomped header.chomp, r.cursor)
  | none =>
    let (breaks, widest, c) ← leading 0 c.position c.rest
    let r ← read literal (max widest (max margin 1)) false
      (.between { Gap.escaped with more := breaks }) c.position c.rest
    return (r.chomped header.chomp, r.cursor)

theorem length_chomp_le (c : Cursor) : (chomp c).2.rest.length ≤ c.rest.length := by
  unfold chomp
  split <;> simp [Cursor.skip]

theorem length_indent_le (c c' : Cursor) (n : Option Nat) (h : indent c = some (n, c')) :
    c'.rest.length ≤ c.rest.length := by
  unfold indent at h
  grind [Cursor.skip]

theorem length_marks_le (c c' : Cursor) (h : Header) (eq : marks c = some (h, c')) :
    c'.rest.length ≤ c.rest.length := by
  have hc := length_chomp_le
  have hi := length_indent_le
  grind [marks]

theorem length_header_le (c c' : Cursor) (h : Header) (eq : header c = some (h, c')) :
    c'.rest.length ≤ c.rest.length := by
  have hm := length_marks_le c
  have hb := Cursor.length_pastBreak_le
  have hp := Cursor.length_pastComment_le
  grind [header]

theorem length_leading_le (widest n : Nat) (p : Position) (cs breaks : List Char) (c : Cursor)
    (h : leading widest p cs = some (breaks, n, c)) : c.rest.length ≤ cs.length := by
  fun_induction leading widest p cs generalizing breaks n c <;>
    grind [Option.map_eq_some_iff]

theorem length_read_le (literal : Bool) (margin : Nat) (spaced : Bool) (place : Place)
    (p : Position) (cs : List Char) (r : Reading)
    (h : read literal margin spaced place p cs = some r) :
    r.cursor.rest.length ≤ cs.length := by
  fun_induction read literal margin spaced place p cs generalizing r <;>
    grind [Reading.prepend, Option.map_eq_some_iff]

theorem length_scalar_le (literal : Bool) (margin : Nat) (c c' : Cursor) (text : List Char)
    (h : scalar literal margin c = some (text, c')) : c'.rest.length ≤ c.rest.length := by
  simp only [scalar, bind, Option.bind_eq_some_iff] at h
  obtain ⟨⟨hd, c₁⟩, h₁, h⟩ := h
  refine Nat.le_trans ?_ (length_header_le _ _ _ h₁)
  split at h
  · obtain ⟨r, hr, h⟩ := Option.bind_eq_some_iff.1 h
    cases h
    exact length_read_le _ _ _ _ _ _ _ hr
  · obtain ⟨⟨breaks, widest, c₂⟩, h₂, h⟩ := Option.bind_eq_some_iff.1 h
    obtain ⟨r, hr, h⟩ := Option.bind_eq_some_iff.1 h
    cases h
    exact Nat.le_trans (length_read_le _ _ _ _ _ _ _ hr) (length_leading_le _ _ _ _ _ _ h₂)

end NodeLogs.Yaml.Block
