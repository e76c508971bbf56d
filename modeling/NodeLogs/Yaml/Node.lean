import NodeLogs.Yaml.Lexer

/-!
Nodes: scalars, aliases and collections, with the anchor and the tag that may stand before them. Of
a collection no more is told here than that it begins.
-/

namespace NodeLogs.Yaml

inductive Content where
  | scalar (style : Style) (text : String)
  | alias (number : Nat)
  | sequence
  | map
deriving Repr, DecidableEq

/-- A node that is anchored has a number by which aliases call it. -/
structure Node where
  position : Text.Position
  tag : Option String
  number : Option Nat
  content : Content
deriving Repr, DecidableEq

/-- What names stand for: tag handles for the beginning of tags, anchors for numbers. -/
structure Names where
  handles : List (String × String)
  numbers : List (String × Nat)
deriving Repr, DecidableEq

namespace Names

/-- A name is given the number of names so far, also when it is given anew. -/
def give (names : Names) (name : String) : Names :=
  { names with
    numbers := (name, names.numbers.length) :: names.numbers.filter (·.1 ≠ name) }

/-- A tag in full, if its handle is known. -/
def tag? (names : Names) (t : TagName) : Option String :=
  if t.handle = "" then some t.suffix
  else (names.handles.lookup t.handle).map (· ++ t.suffix)

end Names

namespace Node

/-- A node that is left out. -/
def blank (p : Text.Position) : Node := ⟨p, none, none, .scalar .plain ""⟩

def isCollection (n : Node) : Bool := n.content = .sequence || n.content = .map

/-- The anchor and the tag before a node, and the tokens after them. -/
structure Properties where
  anchor : Option String
  tag : Option TagName
  rest : List Token
deriving Repr, DecidableEq

/-- The properties at the beginning of tokens, in either order. -/
def properties : List Token → Properties
  | ⟨.anchor a, _⟩ :: ⟨.tag t, _⟩ :: rest => ⟨some a, some t, rest⟩
  | ⟨.tag t, _⟩ :: ⟨.anchor a, _⟩ :: rest => ⟨some a, some t, rest⟩
  | ⟨.anchor a, _⟩ :: rest => ⟨some a, none, rest⟩
  | ⟨.tag t, _⟩ :: rest => ⟨none, some t, rest⟩
  | rest => ⟨none, none, rest⟩

def Properties.named (p : Properties) : Bool := p.anchor.isSome || p.tag.isSome

/-- What a node holds. In flow style there are no blocks, and what is left out after properties is
an empty scalar. The first token of a collection is left. -/
def contentOf (block named : Bool) (t : Token) (rest : List Token) :
    Option (Content × List Token) :=
  match t.kind with
  | .scalar style text => some (.scalar style text, rest)
  | .flowSequenceStart => some (.sequence, t :: rest)
  | .flowMapStart => some (.map, t :: rest)
  | kind =>
    if block && (kind == .blockSequenceStart || kind == .blockEntry) then
      some (.sequence, t :: rest)
    else if block && kind == .blockMapStart then some (.map, t :: rest)
    else if named then some (.scalar .plain "", t :: rest)
    else none

/-- The number of an anchored node, and the names after that. -/
def anchored (names : Names) : Option String → Option Nat × Names
  | none => (none, names)
  | some a => (some names.numbers.length, names.give a)

/-- The tag of a node, in full. One that only says that a scalar is no more than text tells
nothing. -/
def tagOf (names : Names) (content : Content) : Option TagName → Option (Option String)
  | none => some none
  | some t =>
    (names.tag? t).map fun tag =>
      match content with
      | .scalar .. => if tag = "!" then none else some tag
      | _ => some tag

/-- A node that is not an alias, with its properties. -/
def readProper (block : Bool) (names : Names) (tokens : List Token) :
    Option (Node × Names × List Token) := do
  let first ← tokens.head?
  let p := properties tokens
  let next ← p.rest.head?
  let (content, rest) ← contentOf block p.named next p.rest.tail
  let tag ← tagOf names content p.tag
  let (number, names) := anchored names p.anchor
  return (⟨first.position, tag, number, content⟩, names, rest)

/-- A node at the beginning of tokens, the names after it, and the tokens that are left. -/
def read (block : Bool) (names : Names) (tokens : List Token) :
    Option (Node × Names × List Token) :=
  match tokens with
  | ⟨.alias name, p⟩ :: rest =>
    (names.numbers.lookup name).map fun n => (⟨p, none, none, .alias n⟩, names, rest)
  | tokens => readProper block names tokens

theorem length_properties_le (tokens : List Token) :
    (properties tokens).rest.length ≤ tokens.length := by
  unfold properties
  split <;> simp +arith

theorem length_contentOf_le {block named : Bool} {t : Token} {rest rest' : List Token}
    {content : Content} (h : contentOf block named t rest = some (content, rest')) :
    rest'.length ≤ rest.length + 1 := by
  grind [contentOf]

theorem length_readProper_le {block : Bool} {names names' : Names} {tokens rest : List Token}
    {n : Node} (h : readProper block names tokens = some (n, names', rest)) :
    rest.length ≤ tokens.length := by
  obtain ⟨first, -, h⟩ := Option.bind_eq_some_iff.1 h
  obtain ⟨next, hn, h⟩ := Option.bind_eq_some_iff.1 h
  obtain ⟨⟨content, rest'⟩, hc, h⟩ := Option.bind_eq_some_iff.1 h
  obtain ⟨tag, -, h⟩ := Option.bind_eq_some_iff.1 h
  cases h
  have hp := length_properties_le tokens
  have hc := length_contentOf_le hc
  have : 0 < (properties tokens).rest.length := by grind
  rw [List.length_tail] at hc
  omega

theorem length_read_le {block : Bool} {names names' : Names} {tokens rest : List Token}
    {n : Node} (h : read block names tokens = some (n, names', rest)) :
    rest.length ≤ tokens.length := by
  unfold read at h
  split at h
  · obtain ⟨_, -, h⟩ := Option.map_eq_some_iff.1 h
    cases h
    simp
  · exact length_readProper_le h

end Node

end NodeLogs.Yaml
