import NodeLogs.Yaml.Cursor
import NodeLogs.Yaml.Token

/-!
Names in a text: anchors, and tags with their handles. Tags are made of the characters of resource
identifiers; others come as percent escapes, and each octet of an escape is kept as a character.
-/

namespace NodeLogs.Yaml.Tag

def isIdentifier (brackets : Bool) (c : Char) : Bool :=
  isWord c || ";/?:@&=+$.!~*'()".toList.contains c || (brackets && ",[]".toList.contains c)

/-- How many octets a character has that begins with this one. -/
def octets (n : Nat) : Option Nat :=
  if n < 0x80 then some 1
  else if n < 0xC0 then none
  else if n < 0xE0 then some 2
  else if n < 0xF0 then some 3
  else if n < 0xF8 then some 4
  else none

/-- How many octets are still owed after one more; an octet that goes on with a character is told
by its highest bits. -/
def owing (owed n : Nat) : Option Nat :=
  if owed = 0 then (octets n).map (· - 1)
  else if n / 0x40 = 2 then some (owed - 1) else none

/-- Reads identifier characters, and what comes after them. An escaped character is not cut
short. -/
def identifier (brackets : Bool) (owed : Nat) : List Char → Option (List Char × List Char)
  | [] => if owed = 0 then some ([], []) else none
  | '%' :: a :: b :: rest =>
    match (hexNumber? [a, b]).bind fun n => (owing owed n).map fun owed => (n, owed) with
    | none => none
    | some (n, owed) => (identifier brackets owed rest).map fun r => (Char.ofNat n :: r.1, r.2)
  | c :: rest =>
    if owed ≠ 0 ∨ c = '%' then none
    else if isIdentifier brackets c then
      (identifier brackets 0 rest).map fun r => (c :: r.1, r.2)
    else some ([], c :: rest)

theorem length_identifier_le (brackets : Bool) (owed : Nat) (cs text rest : List Char)
    (h : identifier brackets owed cs = some (text, rest)) : rest.length ≤ cs.length := by
  fun_induction identifier brackets owed cs generalizing text rest <;>
    grind [Option.map_eq_some_iff]

/-- The cursor on its line where this is left. -/
def leaving (c : Cursor) (rest : List Char) : Cursor :=
  ⟨c.position.right (c.rest.length - rest.length), rest⟩

/-- A tag in full, between angle brackets. -/
def verbatim (c : Cursor) : Option (TagName × Cursor) :=
  match identifier true 0 c.rest with
  | some (x :: text, '>' :: rest) => some (⟨"", String.ofList (x :: text)⟩, leaving c rest)
  | _ => none

/-- A tag with a handle of its own between exclamation marks, or with the short handle. A mark
alone is a tag in full. -/
def shorthand (c : Cursor) : Option (TagName × Cursor) :=
  match c.rest.dropWhile isWord with
  | '!' :: rest =>
    match identifier false 0 rest with
    | some (x :: text, rest) =>
      some (⟨"!" ++ String.ofList (c.rest.takeWhile isWord) ++ "!", String.ofList (x :: text)⟩,
        leaving c rest)
    | _ => none
  | _ =>
    match identifier false 0 c.rest with
    | some ([], rest) => some (⟨"", "!"⟩, leaving c rest)
    | some (text, rest) => some (⟨"!", String.ofList text⟩, leaving c rest)
    | none => none

/-- A tag after the mark that it begins with; nothing may be attached to it, but for a comma in flow
style. -/
def read (flow : Bool) (c : Cursor) : Option (TagName × Cursor) :=
  let tag := if c.rest.head? = some '<' then verbatim (c.skip 1) else shorthand c
  tag.filter fun r => atGap r.2.rest || (flow && r.2.rest.head? == some ',')

/-- Whether a name may end before what comes here. -/
def endsName (rest : List Char) : Bool :=
  atGap rest || rest.head?.any "?:,]\x7d%@`".toList.contains

/-- The name of an anchor or alias after its mark, up to white space or a mark. -/
def anchorName (c : Cursor) : Option (String × Cursor) :=
  let name := c.span isWord
  if name.1 ≠ [] ∧ endsName name.2.rest then
    some (String.ofList name.1, name.2)
  else none

theorem length_verbatim_le (c c' : Cursor) (name : TagName) (h : verbatim c = some (name, c')) :
    c'.rest.length ≤ c.rest.length := by
  have hi := length_identifier_le
  grind [verbatim, leaving]

theorem length_shorthand_le (c c' : Cursor) (name : TagName) (h : shorthand c = some (name, c')) :
    c'.rest.length ≤ c.rest.length := by
  have hi := length_identifier_le
  have hd := (List.dropWhile_sublist isWord (l := c.rest)).length_le
  grind [shorthand, leaving]

theorem length_read_le (flow : Bool) (c c' : Cursor) (name : TagName)
    (h : read flow c = some (name, c')) : c'.rest.length ≤ c.rest.length := by
  have hv := length_verbatim_le (c.skip 1)
  have hs := length_shorthand_le c
  have hc := Cursor.length_skip c 1
  grind [read, Option.filter_eq_some_iff]

theorem length_anchorName_le (c c' : Cursor) (name : String)
    (h : anchorName c = some (name, c')) : c'.rest.length ≤ c.rest.length := by
  have := Cursor.length_span_le isWord c
  grind [anchorName]

end NodeLogs.Yaml.Tag
