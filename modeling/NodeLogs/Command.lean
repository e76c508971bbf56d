/-!
Commands: a program with its arguments, run on the host or inside a node.
-/

namespace NodeLogs

inductive Target where
  | host
  | node (name : String)
deriving Repr, DecidableEq

structure Command where
  target : Target
  program : String
  args : List String
deriving Repr, DecidableEq

namespace Command

def onHost (program : String) (args : List String) : Command := ⟨.host, program, args⟩

def onNode (node program : String) (args : List String) : Command := ⟨.node node, program, args⟩

/-- Program and arguments with blanks between them, nothing quoted. -/
def line (c : Command) : String := " ".intercalate (c.program :: c.args)

/-- The line, after the node's name in brackets where the command runs on a node. -/
def display (c : Command) : String :=
  match c.target with
  | .host => c.line
  | .node name => "[" ++ name ++ "] " ++ c.line

end Command

end NodeLogs
