import NodeLogs.Text.Lines

/-!
What a text is made of: marks, names and scalars. The beginning of a block collection, its end and
the beginning of a key are tokens too, although nothing needs to stand in the text for them.
-/

namespace NodeLogs.Yaml

inductive Style where
  | plain
  | singleQuoted
  | doubleQuoted
  | literal
  | folded
deriving Repr, DecidableEq

/-- A tag as it is written: the shorthand that stands for its beginning, and what follows. -/
structure TagName where
  handle : String
  suffix : String
deriving Repr, DecidableEq

namespace Token

inductive Kind where
  | streamEnd
  | version (major minor : Nat)
  | tagHandle (handle text : String)
  | documentStart
  | documentEnd
  | blockSequenceStart
  | blockMapStart
  | blockEnd
  | flowSequenceStart
  | flowSequenceEnd
  | flowMapStart
  | flowMapEnd
  | blockEntry
  | flowEntry
  | key
  | value
  | alias (name : String)
  | anchor (name : String)
  | tag (name : TagName)
  | scalar (style : Style) (text : String)
deriving Repr, DecidableEq

end Token

structure Token where
  kind : Token.Kind
  position : Text.Position
deriving Repr, DecidableEq

end NodeLogs.Yaml
