import NodeLogs.Archive.Error
import NodeLogs.Config.Error
import NodeLogs.ExitStatus
import NodeLogs.HostPath
import NodeLogs.Text.Lines

/-!
Failures. A failure has one cause and the contexts that were put around it on its way up. Many
failures are kept together in an aggregate, which is flat: joining aggregates gives all the
failures in them, in order, and what was put around an aggregate is dropped.
-/

namespace NodeLogs

inductive Cause where
  | commandFailed (command : String) (status : ExitStatus) (stderr : String)
  | stagingOutput (output : String)
  | sizeMismatch (path : HostPath) (written expected : Nat)
  | unsafeName (name : String)
  | io (e : IoError)
  | archive (e : Archive.Error)
  | config (e : Config.Error)
  | plain (text : String)
deriving Repr, DecidableEq

/-- What a failed command wrote is told if there is more in it than white space. -/
def Cause.message : Cause → String
  | .commandFailed command status stderr =>
    "command \"" ++ command ++ "\" failed with " ++ status.text ++
      (if Text.trim stderr = "" then "" else ": " ++ Text.trim stderr)
  | .stagingOutput output => "invalid output from mktemp -d: " ++ Text.quoted output
  | .sizeMismatch path written expected =>
    s!"only wrote {written} bytes to " ++ path.text ++ s!"; expected {expected}"
  | .unsafeName name =>
    "refusing to unpack entry " ++ Text.quoted name ++ " outside of the destination directory"
  | .io e => e.message
  | .archive e => e.message
  | .config e => e.message
  | .plain text => text

/-- One thing that went wrong, with the contexts around it, the outermost first. -/
structure Fault where
  contexts : List String
  cause : Cause
deriving Repr, DecidableEq

namespace Fault

def chain (f : Fault) : List String := f.contexts ++ [f.cause.message]

def message (f : Fault) : String := ": ".intercalate f.chain

end Fault

/-- At least one fault. -/
structure Aggregate where
  first : Fault
  others : List Fault
deriving Repr, DecidableEq

namespace Aggregate

def faults (a : Aggregate) : List Fault := a.first :: a.others

def ofFaults? : List Fault → Option Aggregate
  | [] => none
  | f :: fs => some ⟨f, fs⟩

def length (a : Aggregate) : Nat := a.faults.length

/-- Keeps the first of equal texts. -/
def distinct : List String → List String
  | [] => []
  | s :: rest => s :: (distinct rest).filter (· ≠ s)

/-- The messages without repetitions: a single one as it is, several as a list. -/
def message (a : Aggregate) : String :=
  match distinct (a.faults.map Fault.message) with
  | [only] => only
  | messages => "[" ++ ", ".intercalate messages ++ "]"

end Aggregate

inductive Failure where
  | single (f : Fault)
  | many (contexts : List String) (a : Aggregate)
deriving Repr, DecidableEq

namespace Failure

def ofCause (c : Cause) : Failure := .single ⟨[], c⟩

def ofMessage (text : String) : Failure := ofCause (.plain text)

/-- Puts a context around a failure. -/
def context (text : String) : Failure → Failure
  | .single f => .single { f with contexts := text :: f.contexts }
  | .many contexts a => .many (text :: contexts) a

/-- The texts from the outermost context to the cause. -/
def chain : Failure → List String
  | .single f => f.chain
  | .many contexts a => contexts ++ [a.message]

def message (f : Failure) : String := ": ".intercalate f.chain

/-- The faults in a failure: an aggregate has lost what was around it. -/
def faults : Failure → List Fault
  | .single f => [f]
  | .many _ a => a.faults

end Failure

/-- All the faults in failures, in order; none when there are no failures. -/
def Aggregate.ofFailures? (failures : List Failure) : Option Aggregate :=
  Aggregate.ofFaults? (failures.flatMap Failure.faults)

abbrev Outcome (α : Type) := Except Failure α

namespace Outcome

variable {α : Type}

def context (text : String) (r : Outcome α) : Outcome α := r.mapError (Failure.context text)

/-- The failure of an operation wins over that of cleaning up after it. -/
def keepFirst (result : Outcome α) (cleanup : Outcome Unit) : Outcome α :=
  match result, cleanup with
  | .error e, _ => .error e
  | .ok _, .error e => .error e
  | .ok a, .ok () => .ok a

def failure? : Outcome α → Option Failure
  | .ok _ => none
  | .error e => some e

end Outcome

end NodeLogs
