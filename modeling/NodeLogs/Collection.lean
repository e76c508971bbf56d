import NodeLogs.Capture
import NodeLogs.Staging

/-!
A collection: first every node's log directory is copied, one node after the other, then all
captures run side by side. Nothing that fails stops what comes after it, and the report holds all
failures: those of the copies in the order of the nodes, then those of the captures in the order
of the plan.
-/

namespace NodeLogs

structure Report where
  faults : List Fault
deriving Repr, DecidableEq

namespace Report

def ofFailures (failures : List Failure) : Report := ⟨failures.flatMap Failure.faults⟩

def length (r : Report) : Nat := r.faults.length

def isEmpty (r : Report) : Bool := r.faults.isEmpty

def result (r : Report) : Outcome Unit :=
  match Aggregate.ofFaults? r.faults with
  | none => .ok ()
  | some a => .error (.many [] a)

def text (r : Report) : String :=
  if r.isEmpty then "all collection actions succeeded"
  else s!"{r.length} collection action(s) failed"

end Report

namespace Collection

variable {σ : Type}

/-- Copies the log directories of the nodes; the failures of those that could not be copied. -/
def copyAll (r : Runner σ) (config : Config) (dir : HostPath) :
    List String → Hosted σ (List Failure)
  | [] => return []
  | node :: rest => do
    let result ← Staging.copy r node config.remoteLogDir (dir.join node)
    let failures ← copyAll r config dir rest
    match result with
    | .ok () => return failures
    | .error f =>
      return f.context ("Failed to copy " ++ config.remoteLogDir ++ " from " ++ node) :: failures

/-- The capture of the host, and the captures of each node as one action. -/
def plan (r : Runner σ) (config : Config) (dir : HostPath) (nodes : List String) :
    List (Action (Host σ)) :=
  (Capture.ofHost config dir).action r ::
    nodes.map fun node =>
      Capture.together ((Capture.ofNode config node (dir.join node)).map (Capture.action r))

/-- Collects everything about the nodes into a directory. -/
def collect (r : Runner σ) (config : Config) (nodes : List String) (dir : HostPath) :
    Hosted σ Report := do
  let copying ← copyAll r config dir nodes
  let actions := plan r config dir nodes
  modify (Host.note (.info s!"Running {actions.length} collection action(s)"))
  let h ← get
  let (h, capturing) := (Capture.together actions).run [] h
  set h
  return .ofFailures (copying ++ (Outcome.failure? capturing).toList)

end Collection

end NodeLogs
