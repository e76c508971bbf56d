import NodeLogs.Runner
import NodeLogs.Shell.Run
import NodeLogs.Streaming
import NodeLogs.Text.Lines

/-!
A runner that runs programs on the host. A command for a node is handed to the program that manages
the containers, which runs it there.

The programs of a host are no part of collecting. They are here, as the shell and the tools it
starts, so that a collection can be run as a whole; whatever is proved of one is proved for every
runner, and rests on nothing that is done here or in the shell.
-/

namespace NodeLogs

/-- What programs find around them: an environment, and whether whoever ends is forgotten at once,
so that nobody can wait for it. -/
structure Machine where
  environment : List (String × String)
  forgetsChildren : Bool
deriving Repr, DecidableEq

namespace Machine

def standard : Machine :=
  ⟨[("HOME", "/root"), ("LC_ALL", "C"), ("PATH", Shell.standardPath)], false⟩

/-- Where files go that nobody keeps. -/
def temporary (m : Machine) : HostPath := ⟨(m.environment.lookup "TMPDIR").getD "/tmp"⟩

end Machine

namespace Runner.Local

/-- The program and arguments that a command comes to. -/
def wordsOf (provider : String) (c : Command) : List String :=
  match c.target with
  | .host => c.program :: c.args
  | .node name => [provider, "exec", "--privileged", name, c.program] ++ c.args

def statusOf : Shell.End → ExitStatus
  | .status n => .exited (UInt8.ofNat n)
  | .signal n => .signaled (UInt8.ofNat n)

def writeOf (w : Shell.Sink × Bytes) : Option (Stream × Bytes) :=
  match w.1 with
  | .out => some (.output, w.2)
  | .err => some (.errors, w.2)
  | _ => none

def childOf (s : Shell.Session) (e : Shell.End) : Child :=
  ⟨s.written.reverse.filterMap writeOf, statusOf e⟩

/-- Runs the program of a command to its end. -/
def spawn (provider : String) (c : Command) : Hosted Machine (Except IoError Child) := do
  let h ← get
  let words := wordsOf provider c
  if words.any (·.contains '\x00') then
    return .error (.other "nul byte found in provided data")
  let environment := h.runner.environment
  match words with
  | [] => return .error (.os .noEntry)
  | name :: args =>
    match Shell.find h.tree (environment.lookup "PATH") name args with
    | .error e => return .error (.os e)
    | .ok l =>
      let (s, e) := Shell.launch h.tree environment l
      set { h with tree := { s.tree with workingDir := h.tree.workingDir } }
      return .ok (childOf s e)

def notExecuted (c : Command) (e : IoError) : Failure :=
  (Failure.ofCause (.io e)).context ("Failed to execute \"" ++ c.display ++ "\"")

def notAwaited (c : Command) : Failure :=
  (Failure.ofCause (.io (.os .noChild))).context ("Failed to wait for \"" ++ c.display ++ "\"")

/-- Runs a command and waits for it: nothing is known of it if that is not possible. -/
def await (provider : String) (c : Command) : Hosted Machine (Bytes × Outcome Child) := do
  modify (Host.note (.debug ("Running: " ++ c.display)))
  match ← spawn provider c with
  | .error e => return ([], .error (notExecuted c e))
  | .ok child =>
    if (← get).runner.forgetsChildren then
      return (child.written, .error (notExecuted c (.os .noChild)))
    return (child.written, .ok child)

end Runner.Local

open Runner.Local in
/-- Commands as programs on the host, with this one to reach the nodes. -/
def Runner.onHost (provider : String) : Runner Machine where
  run c := do
    match ← await provider c with
    | (_, .error f) => return .error f
    | (_, .ok child) => return child.outcome c (child.writtenTo .errors)
  capture c := do
    match ← await provider c with
    | (data, .error f) => return (data, .error f)
    | (data, .ok child) => return (data, child.outcome c [])
  lines c := do
    match ← await provider c with
    | (_, .error f) => return .error f
    | (_, .ok child) =>
      return (child.outcome c (child.writtenTo .errors)).map fun () =>
        Text.outputLines (child.writtenTo .output)
  stream c := do
    modify (Host.note (.debug ("Streaming stdout of: " ++ c.display)))
    match ← spawn provider c with
    | .error e => return .refused (notExecuted c e)
    | .ok child =>
      let outcome := if (← get).runner.forgetsChildren then .error (notAwaited c)
        else child.outcome c (child.writtenTo .errors)
      return .started (.ofBytes (child.writtenTo .output)) outcome

end NodeLogs
