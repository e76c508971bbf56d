import NodeLogs.Yaml.Node

/-!
The first document of a text, as far as it is a map of scalars: its root, and if that is a map, the
keys and values in turn. Reading stops at a collection within the map.
-/

namespace NodeLogs.Yaml

/-- What comes after what was read: nothing that could be told, the end of the text, or more. -/
inductive Outlook where
  | broken
  | last
  | followed
deriving Repr, DecidableEq

structure Document where
  nodes : List Node
  outlook : Outlook
deriving Repr, DecidableEq

namespace Document

def broken : Document := ⟨[], .broken⟩

def prepend (nodes : List Node) (d : Document) : Document := { d with nodes := nodes ++ d.nodes }

/-- What comes after a document whose tokens have been taken. -/
def outlookOf (tokens : List Token) : Outlook :=
  if tokens = [] then .broken
  else
    match tokens.dropWhile (·.kind = .documentEnd) with
    | ⟨.streamEnd, _⟩ :: _ => .last
    | _ => .followed

def ending (tokens : List Token) : Document := ⟨[], outlookOf tokens⟩

/-- What ends a node, so that it is left out if this comes at once. -/
def endsNode (block asKey : Bool) : Token.Kind → Bool
  | .value => block || asKey
  | .key | .blockEnd => block
  | .flowEntry | .flowMapEnd => !block
  | _ => false

/-- A node that may be left out; it stands here then, or where the next token does. -/
def nodeOrBlank (block asKey : Bool) (here : Option Text.Position) (names : Names)
    (tokens : List Token) : Option (Node × Names × List Token) :=
  match tokens with
  | [] => none
  | t :: rest =>
    if endsNode block asKey t.kind then some (.blank (here.getD t.position), names, t :: rest)
    else Node.read block names (t :: rest)

/-- The key of an entry. In a block all keys are marked. -/
def key (block : Bool) (names : Names) (tokens : List Token) :
    Option (Node × Names × List Token) :=
  match tokens with
  | ⟨.key, p⟩ :: rest =>
    nodeOrBlank block true (if block then some (p.right 1) else none) names rest
  | tokens => if block then none else Node.read block names tokens

/-- The value of an entry, after the key. -/
def value (block : Bool) (names : Names) (tokens : List Token) :
    Option (Node × Names × List Token) :=
  match tokens with
  | [] => none
  | ⟨.value, _⟩ :: rest => nodeOrBlank block false none names rest
  | t :: rest => some (.blank t.position, names, t :: rest)

/-- The nodes of an entry, and where to go on unless reading stops here. -/
structure Entry where
  nodes : List Node
  onward : Option (Names × List Token)

def entry (block : Bool) (names : Names) (tokens : List Token) : Entry :=
  match key block names tokens with
  | none => ⟨[], none⟩
  | some (k, names, rest) =>
    if k.isCollection then ⟨[k], none⟩
    else
      match value block names rest with
      | none => ⟨[k], none⟩
      | some (v, names, rest) => ⟨[k, v], if v.isCollection then none else some (names, rest)⟩

theorem length_nodeOrBlank_le {block asKey : Bool} {here : Option Text.Position}
    {names names' : Names} {tokens rest : List Token} {n : Node}
    (h : nodeOrBlank block asKey here names tokens = some (n, names', rest)) :
    rest.length ≤ tokens.length := by
  unfold nodeOrBlank at h
  split at h
  · cases h
  · have hr := @Node.length_read_le block
    grind

theorem length_key_le {block : Bool} {names names' : Names} {tokens rest : List Token} {n : Node}
    (h : key block names tokens = some (n, names', rest)) : rest.length ≤ tokens.length := by
  have hr := @Node.length_read_le block
  have hn := @length_nodeOrBlank_le block true
  unfold key at h
  split at h <;> grind

theorem length_key_lt {names names' : Names} {tokens rest : List Token} {n : Node}
    (h : key true names tokens = some (n, names', rest)) : rest.length < tokens.length := by
  have hn := @length_nodeOrBlank_le true true
  unfold key at h
  split at h <;> grind

theorem length_value_le {block : Bool} {names names' : Names} {tokens rest : List Token}
    {n : Node} (h : value block names tokens = some (n, names', rest)) :
    rest.length ≤ tokens.length := by
  have hn := @length_nodeOrBlank_le block false none
  unfold value at h
  split at h <;> grind

theorem length_entry_le {block : Bool} {names names' : Names} {tokens rest : List Token}
    (h : (entry block names tokens).onward = some (names', rest)) :
    rest.length ≤ tokens.length := by
  have hk := @length_key_le block
  have hv := @length_value_le block
  grind [entry]

theorem length_entry_lt {names names' : Names} {tokens rest : List Token}
    (h : (entry true names tokens).onward = some (names', rest)) :
    rest.length < tokens.length := by
  have hk := @length_key_lt
  have hv := @length_value_le true
  grind [entry]

/-- The entries of a block, up to its end. -/
def blockEntries (names : Names) (tokens : List Token) : Document :=
  match tokens with
  | ⟨.blockEnd, _⟩ :: rest => ending rest
  | tokens =>
    match _h : (entry true names tokens).onward with
    | none => ⟨(entry true names tokens).nodes, .broken⟩
    | some (names', rest) => (blockEntries names' rest).prepend (entry true names tokens).nodes
termination_by tokens.length
decreasing_by exact length_entry_lt _h

mutual

/-- An entry of a map in flow style, and those after it. -/
def flowEntries (names : Names) (tokens : List Token) : Document :=
  match _h : (entry false names tokens).onward with
  | none => ⟨(entry false names tokens).nodes, .broken⟩
  | some (names', rest) => (flowRest names' rest).prepend (entry false names tokens).nodes
termination_by (tokens.length, 1)
decreasing_by
  have := length_entry_le _h
  rcases Nat.lt_or_eq_of_le this with h | h
  · exact .left _ _ h
  · rw [h]; exact .right _ Nat.one_pos

/-- What follows an entry: the end, or a comma and more. A comma may come before the end. -/
def flowRest (names : Names) (tokens : List Token) : Document :=
  match tokens with
  | ⟨.flowMapEnd, _⟩ :: rest => ending rest
  | ⟨.flowEntry, _⟩ :: ⟨.flowMapEnd, _⟩ :: rest => ending rest
  | ⟨.flowEntry, _⟩ :: rest => flowEntries names rest
  | _ => broken
termination_by (tokens.length, 0)
decreasing_by exact .left _ _ (by simp)

end

/-- The entries of a map, from the token on that it begins with. -/
def entries (names : Names) (tokens : List Token) : Document :=
  match tokens with
  | ⟨.blockMapStart, _⟩ :: rest => blockEntries names rest
  | ⟨.flowMapStart, _⟩ :: ⟨.flowMapEnd, _⟩ :: rest => ending rest
  | ⟨.flowMapStart, _⟩ :: rest => flowEntries names rest
  | _ => broken

/-- A root and what is in it. -/
def ofRoot (root : Node) (names : Names) (rest : List Token) : Document :=
  match root.content with
  | .map => (entries names rest).prepend [root]
  | .sequence => ⟨[root], .broken⟩
  | .scalar .. | .alias _ => (ending rest).prepend [root]

def root (names : Names) (tokens : List Token) : Document :=
  match Node.read true names tokens with
  | none => broken
  | some (root, names, rest) => ofRoot root names rest

/-- What may stand in place of the root of a document that is marked but empty. -/
def endsEmpty : Token.Kind → Bool
  | .version .. | .tagHandle .. | .documentStart | .documentEnd | .streamEnd => true
  | _ => false

/-- A document after the mark of its start. -/
def marked (names : Names) (tokens : List Token) : Document :=
  match tokens with
  | [] => broken
  | t :: rest =>
    if endsEmpty t.kind then ofRoot (.blank t.position) names (t :: rest)
    else root names (t :: rest)

/-- Tag handles that need no directive. -/
def standardHandles : List (String × String) := [("!", "!"), ("!!", "tag:yaml.org,2002:")]

/-- A document with directives before it: the version at most once, and one that can be read; and no
handle twice. -/
def directed (versioned : Bool) (handles : List (String × String)) : List Token → Document
  | ⟨.version major minor, _⟩ :: rest =>
    if versioned ∨ major ≠ 1 ∨ (minor ≠ 1 ∧ minor ≠ 2) then broken else directed true handles rest
  | ⟨.tagHandle handle text, _⟩ :: rest =>
    if (handles.lookup handle).isSome then broken
    else directed versioned (handles ++ [(handle, text)]) rest
  | ⟨.documentStart, _⟩ :: rest => marked ⟨handles ++ standardHandles, []⟩ rest
  | _ => broken

/-- The first document among tokens; where there is none, it has no nodes. -/
def ofTokens (tokens : List Token) : Document :=
  match tokens with
  | [] => broken
  | ⟨.streamEnd, _⟩ :: _ => ⟨[], .last⟩
  | t :: rest =>
    match t.kind with
    | .version .. | .tagHandle .. | .documentStart => directed false [] (t :: rest)
    | _ => root ⟨standardHandles, []⟩ (t :: rest)

def ofText (text : List Char) : Document := ofTokens (Tokens.ofText text).list

/-- The node that an alias stands for: the last with its number. -/
def target? (d : Document) (number : Nat) : Option Node :=
  d.nodes.reverse.find? (·.number = some number)

end Document

end NodeLogs.Yaml
