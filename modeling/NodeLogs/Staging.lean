import NodeLogs.NodePath
import NodeLogs.Runner
import NodeLogs.Streaming
import NodeLogs.Unpack

/-!
Copying a directory of a node. The directory is first copied on the node into a staging directory
that nobody else writes to, and an archive of that is then sent to the host. Once there is a
staging directory, it is removed whatever happens.
-/

namespace NodeLogs.Staging

variable {σ : Type}

def makeCommand (node : String) : Command := .onNode node "mktemp" ["-d"]

def fillCommand (node nodeDir staging : String) : Command :=
  .onNode node "rsync" ["--archive", NodePath.clean nodeDir ++ "/", staging]

def sendCommand (node staging : String) : Command :=
  .onNode node "tar" ["--hard-dereference", "-C", staging, "-chf", "-", "."]

def removeCommand (node staging : String) : Command := .onNode node "rm" ["-rf", staging]

/-- Makes the staging directory; its path is the one line that the command prints. -/
def make (r : Runner σ) (node : String) : Hosted σ (Outcome String) := do
  match ← r.lines (makeCommand node) with
  | .error f => return .error f
  | .ok [path] => return .ok path
  | .ok lines => return .error (.ofCause (.stagingOutput ("\n".intercalate lines)))

/-- Unpacks what a command streams. -/
def receive (r : Runner σ) (c : Command) (nodeDir : String) (dest : HostPath) :
    Hosted σ (Outcome Unit) := do
  match ← r.stream c with
  | .refused f => return .error f
  | .started output outcome =>
    let h ← get
    let e := unpack output dest h.tree
    set { h.change e.changes with log := h.log ++ e.log }
    let result := Outcome.context ("Untarring " ++ Text.quoted nodeDir) e.result
    return Streaming.outcome c (.ofOutcome result) outcome

def transfer (r : Runner σ) (node nodeDir staging : String) (dest : HostPath) :
    Hosted σ (Outcome Unit) := do
  match ← r.run (fillCommand node nodeDir staging) with
  | .error f => return .error f
  | .ok () => receive r (sendCommand node staging) nodeDir dest

/-- Copies a node's directory to the host. -/
def copy (r : Runner σ) (node nodeDir : String) (dest : HostPath) : Hosted σ (Outcome Unit) := do
  match ← make r node with
  | .error f => return .error f
  | .ok staging =>
    modify (Host.note (.debug ("Staging " ++ node ++ ":" ++ nodeDir ++ " in " ++ staging)))
    let transferred ← transfer r node nodeDir staging dest
    let removed ← r.run (removeCommand node staging)
    match transferred.keepFirst removed with
    | .error f => return .error f
    | .ok () =>
      modify (Host.note (.info ("Copied " ++ node ++ ":" ++ nodeDir ++ " to " ++ dest.text)))
      return .ok ()

end NodeLogs.Staging
