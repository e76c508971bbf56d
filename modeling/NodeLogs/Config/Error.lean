import NodeLogs.Text.Lines
import NodeLogs.Text.Quoted

/-!
Why a text is no configuration.
-/

namespace NodeLogs.Config

open Text (Position)

/-- A value of another kind than the one called for. -/
inductive Found where
  | sequence
  | map
  | null
  | boolean (b : Bool)
  | integer (n : Int)
  | wideInteger (n : Int)
  | float (text : String)
  | string (s : String)
deriving Repr, DecidableEq

namespace Found

/-- Integers that take more than 64 bits are told with the width of their kind. -/
def text : Found → String
  | .sequence => "sequence"
  | .map => "map"
  | .null => "unit value"
  | .boolean b => s!"boolean `{b}`"
  | .integer n => s!"integer `{n}`"
  | .wideInteger n => s!"integer `{n}` as " ++ (if n < 0 then "i128" else "u128")
  | .float text => "floating point `" ++ text ++ "`"
  | .string s => "string " ++ Text.quoted s

end Found

inductive Error where
  | malformed
  | severalDocuments
  | wrongRoot (found : Found) (at_ : Position)
  | wrongKey (found : Found) (at_ : Position)
  | wrongValue (field : String) (found : Found) (at_ : Position)
  | unknownField (name : String) (at_ : Position)
  | repeatedField (name : String) (at_ : Position)
deriving Repr, DecidableEq

/-- Where it happened, but for the very start of a text. -/
def placeText (p : Position) : String :=
  if p = .start then "" else s!" at line {p.line + 1} column {p.column + 1}"

/-- What is malformed in a text is not told. -/
def Error.message : Error → String
  | .malformed => "<yaml>"
  | .severalDocuments =>
    "deserializing from YAML containing more than one document is not supported"
  | .wrongRoot found p =>
    "invalid type: " ++ found.text ++ ", expected struct CollectionConfig" ++ placeText p
  | .wrongKey found p =>
    "invalid type: " ++ found.text ++ ", expected field identifier" ++ placeText p
  | .wrongValue field found p =>
    field ++ ": invalid type: " ++ found.text ++ ", expected a string" ++ placeText p
  | .unknownField name p =>
    "unknown field `" ++ name ++
      "`, expected one of `cluster`, `provider`, `remote_log_dir`, `version_file`" ++ placeText p
  | .repeatedField name p => "duplicate field `" ++ name ++ "`" ++ placeText p

end NodeLogs.Config
