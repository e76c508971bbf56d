import NodeLogs.Action
import NodeLogs.Config.Basic
import NodeLogs.Runner

/-!
Captures: commands whose output goes into a file each. One describes the host, six describe a node.
-/

namespace NodeLogs

structure Capture where
  command : Command
  path : HostPath
deriving Repr, DecidableEq

namespace Capture

variable {σ : Type}

def ofHost (config : Config) (dir : HostPath) : Capture :=
  ⟨.onHost config.provider ["info"], dir.join "docker-info.txt"⟩

def journal (node : String) (args : List String) : Command :=
  .onNode node "journalctl" ("--no-pager" :: args)

def ofNode (config : Config) (node : String) (nodeDir : HostPath) : List Capture :=
  [⟨.onHost config.provider ["inspect", node], nodeDir.join "inspect.json"⟩,
    ⟨.onHost config.provider ["logs", node], nodeDir.join "serial.log"⟩,
    ⟨.onNode node "cat" [config.versionFile], nodeDir.join "kubernetes-version.txt"⟩,
    ⟨journal node [], nodeDir.join "journal.log"⟩,
    ⟨journal node ["-u", "kubelet.service"], nodeDir.join "kubelet.log"⟩,
    ⟨journal node ["-u", "containerd.service"], nodeDir.join "containerd.log"⟩]

def ioFailure (context : String) (e : IoError) : Outcome Unit :=
  .error ((Failure.ofCause (.io e)).context context)

/-- Makes the directory above the file. -/
def makeParent (path : HostPath) (h : Host σ) : Host σ × Outcome Unit :=
  match path.parent? with
  | none => (h, .ok ())
  | some above =>
    match h.tree.makeDirs 0o777 above with
    | (changes, .ok ()) => (h.change changes, .ok ())
    | (changes, .error e) =>
      (h.change changes, ioFailure ("Failed to create directory " ++ above.text) e)

/-- Creates the file, or empties it. -/
def createFile (path : HostPath) (h : Host σ) : Host σ × Except Failure Location :=
  match h.tree.openForWriting 0o666 path with
  | .error e =>
    (h, .error ((Failure.ofCause (.io e)).context ("Failed to create " ++ path.text)))
  | .ok (loc, opened) => (h.change [opened], .ok loc)

/-- Runs the command and puts what it prints into the file. -/
def fillFile (r : Runner σ) (c : Command) (loc : Location) (h : Host σ) : Host σ × Outcome Unit :=
  let ((output, outcome), h) := (r.capture c).run h
  match h.tree.write loc output with
  | .error e => (h, .error (.ofCause (.io e)))
  | .ok written => (h.change [written], outcome)

/-- A step that may fail, and what follows when it does not. -/
def attempt {α : Type} (f : Host σ → Host σ × Outcome α) (next : α → Action (Host σ)) :
    Action (Host σ) :=
  .step (fun h => (f h).1) fun h =>
    match (f h).2 with
    | .error e => .finish (.failed e)
    | .ok a => next a

/-- A capture in its steps. -/
def action (r : Runner σ) (c : Capture) : Action (Host σ) :=
  attempt (makeParent c.path) fun () =>
    attempt (createFile c.path) fun loc =>
      attempt (fillFile r c.command loc) fun () => .finish .succeeded

/-- Gathers actions, which is noted in the log. -/
def together (actions : List (Action (Host σ))) : Action (Host σ) :=
  .step (Host.note (.debug s!"Running {actions.length} action(s) concurrently"))
    fun _ => .gather [] actions

end Capture

end NodeLogs
