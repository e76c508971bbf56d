import NodeLogs.Collection
import NodeLogs.Config.File
import NodeLogs.Node
import NodeLogs.Options.Help

/-!
The program: it takes its options and its configuration, finds the nodes, and collects everything
about them into a directory, whose path is the one thing that it prints. It leaves with 0 if all
went well, with 1 if anything failed, and with 2 if it was not called as it should be.
-/

namespace NodeLogs

/-- What the program leaves behind beside its log: its status and the lines that it prints. -/
structure Exit where
  code : Nat
  output : List String
  errors : List String
deriving Repr, DecidableEq

/-- A cause, with a number if there are several; its further lines stand below its first. -/
def causeLines (number : Option Nat) (text : String) : List String :=
  let (lead, below) := match number with
    | none => ("    ", "    ")
    | some n =>
      (String.ofList (List.replicate (5 - n.repr.length) ' ') ++ n.repr ++ ": ", "       ")
  match Text.split '\n' text with
  | [] => []
  | first :: rest => (lead ++ first) :: rest.map (below ++ ·)

def numberedCauses (n : Nat) : List String → List String
  | [] => []
  | text :: rest => causeLines (some n) text ++ numberedCauses (n + 1) rest

/-- What is printed of a failure that ends the program: the outermost text, and below it the
causes. -/
def Failure.lines (f : Failure) : List String :=
  match f.chain with
  | [] => []
  | top :: causes =>
    Text.split '\n' ("Error: " ++ top) ++
      match causes with
      | [] => []
      | [cause] => ["", "Caused by:"] ++ causeLines none cause
      | causes => ["", "Caused by:"] ++ numberedCauses 0 causes

namespace Export

variable {σ : Type}

/-- The configuration of the file, with what the options put in its place. -/
def settings (o : Options) : Hosted σ (Outcome Config) := do
  return (← Config.loadOrCreate (o.config.map HostPath.mk)).map fun c =>
    { c with
      cluster := o.name.getD c.cluster
      provider := o.provider.getD c.provider }

/-- Where everything goes unless the options tell: a directory named for the cluster and the
moment. -/
def destination (o : Options) (c : Config) (above : HostPath) (moment : String) : HostPath :=
  match o.output with
  | some path => ⟨path⟩
  | none => above.join (c.cluster ++ "-logs-" ++ moment)

/-- The nodes that the options name, or else those of the cluster; there must be some. -/
def nodes (r : Runner σ) (o : Options) (c : Config) : Hosted σ (Outcome (List String)) := do
  let found ← if o.nodes.isEmpty then Node.list r c.provider c.cluster else pure (.ok o.nodes)
  return match found with
    | .ok [] => .error (.ofMessage ("no nodes found for cluster " ++ Text.quoted c.cluster))
    | found => found

def makeDestination (dir : HostPath) : Hosted σ (Outcome Unit) := do
  let (changes, result) := (← get).tree.makeDirs 0o777 dir
  modify (Host.change changes)
  return Outcome.context ("Failed to create output directory " ++ dir.text)
    (result.mapError fun e => .ofCause (.io e))

/-- Collects, and notes in the log what failed and what it came to. -/
def collect (r : Runner σ) (c : Config) (nodes : List String) (dir : HostPath) :
    Hosted σ Report := do
  modify (Host.note (.info ("Exporting logs for cluster " ++ Text.quoted c.cluster ++
    s!" ({nodes.length} node(s)) to: " ++ dir.text)))
  let report ← Collection.collect r c nodes dir
  modify fun h => { h with log := h.log ++ report.faults.map fun f => .error f.message }
  modify (Host.note (.info report.text))
  return report

/-- The program once its options are known. The runner may depend on the program that manages the
containers. -/
def run (runner : String → Runner σ) (o : Options) (above : HostPath) (moment : String) :
    Hosted σ Exit := do
  match ← settings o with
  | .error f => return ⟨1, [], f.lines⟩
  | .ok c =>
    let r := runner c.provider
    match ← nodes r o c with
    | .error f => return ⟨1, [], f.lines⟩
    | .ok nodes =>
      let dir := destination o c above moment
      match ← makeDestination dir with
      | .error f => return ⟨1, [], f.lines⟩
      | .ok () =>
        let report ← collect r c nodes dir
        return ⟨if report.isEmpty then 0 else 1, Text.split '\n' dir.text, []⟩

/-- What is said where the arguments are not taken. -/
def refused : Options.Refusal → Exit
  | .help long => ⟨0, Options.help long, []⟩
  | _ => ⟨2, [], [Options.usage]⟩

/-- The program with its arguments; the log leaves out the finest lines unless they are asked
for. -/
def invoke (runner : String → Runner σ) (args : List String) (above : HostPath) (moment : String) :
    Hosted σ Exit :=
  match Options.parse args with
  | .error refusal => return refused refusal
  | .ok o => do
    let exit ← run runner o above moment
    unless o.verbose do
      modify fun h => { h with log := h.log.filter (·.level ≠ .debug) }
    return exit

end Export

end NodeLogs
