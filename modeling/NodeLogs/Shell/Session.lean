import NodeLogs.FileTree.Access
import NodeLogs.Shell.Statement

/-!
A running shell: its variables, where its streams lead, what has been written, and the files that it
works on.
-/

namespace NodeLogs.Shell

/-- Where what is written to a stream goes. -/
inductive Sink where
  | out
  | err
  | inner (depth : Nat)
  | file (loc : Location)
deriving Repr, DecidableEq

/-- How a program ends. -/
inductive End where
  | status (n : Nat)
  | signal (n : Nat)
deriving Repr, DecidableEq

/-- What is written is kept with the newest first. A stream without a sink is closed. The variables
of a function that is running, if one is, are kept apart with what they held before it. Traps tell
what is to be done at a signal, or at the end. -/
structure Session where
  tree : FileTree
  bindings : List (String × String)
  exported : List String
  functions : List (String × Statement)
  locals : Option (List (String × Option String))
  fixed : List String
  traps : List (String × String)
  loops : Nat
  name : String
  parameters : List String
  options : List Char
  sinks : List (Nat × Sink)
  input : Bytes
  written : List (Sink × Bytes)
  status : Nat
  depth : Nat
  line : Nat

namespace Session

/-- The number that a shell has among the programs that run. -/
def number : String := "4242"

/-- A session for a program, with an environment. -/
def start (tree : FileTree) (environment : List (String × String)) : Session :=
  { tree := tree
    bindings := environment
    exported := environment.map (·.1)
    functions := []
    locals := none
    fixed := []
    traps := []
    loops := 0
    name := "sh"
    parameters := []
    options := []
    sinks := [(1, .out), (2, .err)]
    input := []
    written := []
    status := 0
    depth := 0
    line := 1 }

def setEntry (key value : String) : List (String × String) → List (String × String)
  | [] => [(key, value)]
  | (k, v) :: rest => if k = key then (key, value) :: rest else (k, v) :: setEntry key value rest

def set (s : Session) (name value : String) : Session :=
  { s with bindings := setEntry name value s.bindings }

def unset (s : Session) (name : String) : Session :=
  { s with bindings := s.bindings.filter (·.1 ≠ name) }

def value? (s : Session) (name : String) : Option String := s.bindings.lookup name

def environment (s : Session) : List (String × String) :=
  s.bindings.filter fun v => s.exported.contains v.1

/-- The value of a parameter, if it is set. -/
def parameter? (s : Session) (name : String) : Option String :=
  match name with
  | "#" => some s.parameters.length.repr
  | "?" => some s.status.repr
  | "$" => some number
  | "0" => some s.name
  | "-" => some (String.ofList s.options)
  | "!" => none
  | "@" | "*" => if s.parameters.isEmpty then none else some (" ".intercalate s.parameters)
  | name =>
    match name.toNat? with
    | some n => s.parameters[n - 1]?
    | none => s.value? name

def redirect (s : Session) (stream : Nat) (sink : Option Sink) : Session :=
  let others := s.sinks.filter (·.1 ≠ stream)
  { s with
    sinks := match sink with
      | some sink => (stream, sink) :: others
      | none => others }

/-- Whether a stream takes what is written to it. -/
def takes (s : Session) (stream : Nat) (data : Bytes) : Bool :=
  match s.sinks.lookup stream with
  | none => data.isEmpty
  | some (.file loc) => (s.tree.write loc data).toOption.isSome
  | some _ => true

/-- Writes to a stream. -/
def write (s : Session) (stream : Nat) (data : Bytes) : Session :=
  match s.sinks.lookup stream with
  | none => s
  | some (.file loc) =>
    match s.tree.write loc data with
    | .ok change => { s with tree := s.tree.apply change }
    | .error _ => s
  | some sink => if data.isEmpty then s else { s with written := (sink, data) :: s.written }

def say (s : Session) (stream : Nat) (text : String) : Session := s.write stream (Utf8.encode text)

/-- Complains as a program of this name does. -/
def complain (s : Session) (name text : String) : Session := s.say 2 (name ++ ": " ++ text ++ "\n")

/-- Complains as the shell itself does, with the line that it is at. -/
def report (s : Session) (text : String) : Session :=
  s.complain (s.name ++ ": " ++ s.line.repr) text

/-- What was written to this sink, and the session without it. -/
def collect (s : Session) (sink : Sink) : Bytes × Session :=
  ((s.written.filter (·.1 = sink)).reverse.flatMap (·.2),
    { s with written := s.written.filter (·.1 ≠ sink) })

/-- The session of a program that this one starts, with an environment of its own. -/
def child (s : Session) (environment : List (String × String)) : Session :=
  { Session.start s.tree environment with
    sinks := s.sinks
    input := s.input
    written := s.written
    depth := s.depth }

/-- Takes over the lasting effects of what another session did for this one. Where it works is its
own affair. -/
def absorb (s other : Session) : Session :=
  { s with
    tree := { other.tree with workingDir := s.tree.workingDir }
    written := other.written
    input := other.input }

end Session

end NodeLogs.Shell
