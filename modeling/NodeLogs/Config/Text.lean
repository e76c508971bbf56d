import NodeLogs.Config.Basic
import NodeLogs.Config.Error
import NodeLogs.Yaml.Document
import NodeLogs.Yaml.Writing

/-!
A configuration as text: a map from field names to values. Fields that are left out have their
standard values. Of several things that are wrong, the first in the text is told; what is wrong
with the text behind the map comes last.
-/

namespace NodeLogs.Config

open Yaml (Node Document)

/-- The node itself, or the one that it stands for. -/
def aliased (d : Document) (n : Node) : Node :=
  match n.content with
  | .alias number => (d.target? number).getD n
  | _ => n

def isAlias (n : Node) : Bool :=
  match n.content with
  | .alias _ => true
  | _ => false

/-- Any scalar counts as the text it is written with; else what there is instead. -/
def scalarText (n : Node) : Except Found String :=
  match n.content with
  | .scalar _ text => .ok text
  | .sequence => .error .sequence
  | .map | .alias _ => .error .map

/-- The fields of a map whose keys and values are these in turn. -/
def readFields (d : Document) (root : Node) (seen : List String) (c : Config) :
    List Node → Except Error Config
  | [] => if d.outlook = .broken then .error .malformed else .ok c
  | key :: rest =>
    let k := aliased d key
    match scalarText k with
    | .error found => .error (.wrongKey found k.position)
    | .ok name =>
      if name ∉ fieldNames then .error (.unknownField name k.position)
      else if name ∈ seen then .error (.repeatedField name root.position)
      else
        match rest with
        | [] => .error .malformed
        | value :: rest =>
          let v := aliased d value
          match scalarText v with
          | .error found =>
            .error (.wrongValue (if isAlias key then "?" else name) found v.position)
          | .ok text => readFields d root (name :: seen) (c.set name text) rest

def ofMeaning (text : String) : Yaml.Meaning → Found
  | .null => .null
  | .boolean b => .boolean b
  | .integer n => .integer n
  | .wideInteger n => .wideInteger n
  | .float text => .float text
  | .text => .string text

/-- What a plain scalar is read as. -/
def ofPlain (text : String) : Found := ofMeaning text (Yaml.Meaning.ofPlain text.toList)

/-- What a scalar is that has one of the standard tags. One that does not fit is malformed. -/
def ofTag? (tag text : String) : Option (Except Error Found) :=
  let s := text.toList
  let checked (found : Option Found) : Option (Except Error Found) :=
    some (found.elim (.error .malformed) .ok)
  match tag with
  | "tag:yaml.org,2002:bool" => checked ((Yaml.Meaning.boolean? s).map .boolean)
  | "tag:yaml.org,2002:int" =>
    checked (((Yaml.Meaning.integer? s).filter (Yaml.Meaning.fits 128)).map fun n =>
      if Yaml.Meaning.fits 64 n then .integer n else .wideInteger n)
  | "tag:yaml.org,2002:float" => checked ((Yaml.Meaning.float? s).map .float)
  | "tag:yaml.org,2002:null" => checked (if Yaml.Meaning.null? s ∧ s ≠ [] then some .null else none)
  | _ => none

/-- What a scalar is. Without a tag, or with one that is private to the text, that is up to how it
is written; with any other tag it is a string. -/
def ofScalar (tag : Option String) (style : Yaml.Style) (text : String) : Except Error Found :=
  let written : Found := if style = .plain then ofPlain text else .string text
  match tag with
  | none => .ok written
  | some tag =>
    match ofTag? tag text with
    | some found => found
    | none => .ok (if tag.toList.head? = some '!' then written else .string text)

/-- A document that holds nothing is one with nothing set. -/
def ofRoot (d : Document) : List Node → Except Error Config
  | [] => if d.outlook = .broken then .error .malformed else .ok standard
  | root :: rest =>
    match root.content with
    | .map => readFields d root [] standard rest
    | .alias _ => .error .malformed
    | .sequence => .error (.wrongRoot .sequence root.position)
    | .scalar style text =>
      if text = "" ∧ style = .plain then
        if d.outlook = .broken then .error .malformed else .ok standard
      else do throw (.wrongRoot (← ofScalar root.tag style text) root.position)

def ofDocument (d : Document) : Except Error Config := do
  let c ← ofRoot d d.nodes
  if d.outlook = .followed then throw .severalDocuments
  return c

def ofText (text : String) : Except Error Config := ofDocument (.ofText text.toList)

def toText (c : Config) : String := String.ofList (Yaml.Writing.entries c.fields)

end NodeLogs.Config
