import NodeLogs.Runner

/-!
The nodes of a cluster, as the program that manages the containers tells them, in the order of
their names.
-/

namespace NodeLogs.Node

variable {σ : Type}

def clusterLabel : String := "io.x-k8s.kind.cluster"

def listCommand (provider cluster : String) : Command :=
  .onHost provider
    ["ps", "-a", "--filter", "label=" ++ clusterLabel ++ "=" ++ cluster, "--format",
      "\x7b\x7b.Names\x7d\x7d"]

def list (r : Runner σ) (provider cluster : String) : Hosted σ (Outcome (List String)) := do
  match ← r.lines (listCommand provider cluster) with
  | .error f =>
    return .error (f.context ("Failed to list nodes for cluster " ++ Text.quoted cluster))
  | .ok lines =>
    let names := lines.mergeSort fun a b => a ≤ b
    modify (Host.note (.debug
      (s!"Found {names.length} node(s) for cluster " ++ Text.quoted cluster)))
    return .ok names

end NodeLogs.Node
