import NodeLogs.Text.Lines

/-!
Paths on the host, kept as the text they were given in, since messages show them so. Joining,
taking the parent and following a path down look at the text alone.
-/

namespace NodeLogs

structure HostPath where
  text : String
deriving Repr, DecidableEq

namespace HostPath

def isRooted (p : HostPath) : Bool := p.text.toList.head? == some '/'

/-- The parts between slashes, empty ones included. -/
def parts (p : HostPath) : List String := Text.split '/' p.text

/-- A rooted path replaces the one it is joined to; any other follows it after one slash. -/
def join (p : HostPath) (sub : String) : HostPath :=
  if isRooted ⟨sub⟩ then ⟨sub⟩
  else if p.text = "" ∨ p.text.toList.getLast? = some '/' then ⟨p.text ++ sub⟩
  else ⟨p.text ++ "/" ++ sub⟩

/-- Empty parts say nothing, and neither do dots except at the very start. -/
def isIdle (first : Bool) (part : String) : Bool :=
  part = "" || (part = "." && !first)

/-- The parts of a path without the idle ones at its end, given in reverse. -/
def trimParts : List String → List String
  | [] => []
  | part :: before => if isIdle before.isEmpty part then trimParts before else part :: before

/-- The path without its last part, and without what is idle before that; the root and the empty
path have no parent. -/
def parent? (p : HostPath) : Option HostPath :=
  match trimParts p.parts.reverse with
  | [] => none
  | _ :: before =>
    match trimParts before with
    | [] => some ⟨if p.isRooted then "/" else ""⟩
    | parts => some ⟨"/".intercalate parts.reverse⟩

/-- Parts that stay where they are. -/
def Idle (part : String) : Prop := part = "" ∨ part = "."

instance (part : String) : Decidable (Idle part) := inferInstanceAs (Decidable (_ ∨ _))

/-- What a path is made of. -/
inductive Component where
  | root
  | current
  | parent
  | normal (name : String)
deriving Repr, DecidableEq

/-- The component that a part stands for behind the start of a path. -/
def Component.ofPart? (part : String) : Option Component :=
  if Idle part then none
  else if part = ".." then some .parent
  else some (.normal part)

/-- The components of a path. A dot counts only where a path begins with it. -/
def components (p : HostPath) : List Component :=
  (if p.isRooted then [.root] else if p.parts.head? = some "." then [.current] else []) ++
    p.parts.filterMap Component.ofPart?

/-- One component further down. There is no way to the root, and none upwards. -/
def descend? (p : HostPath) : Component → Option HostPath
  | .normal name => some (p.join name)
  | .current => some p
  | .root | .parent => none

/-- A path followed down from nothing. -/
def descent? (p : HostPath) : Option HostPath := p.components.foldlM descend? ⟨""⟩

end HostPath

end NodeLogs
