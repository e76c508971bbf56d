import NodeLogs.Options

/-!
The help texts. The short one has a line per argument; the long one tells more and sets every
explanation on a line of its own.
-/

namespace NodeLogs.Options

structure Explained where
  spelling : String
  meaning : String
deriving Repr, DecidableEq

def positionals : List Explained :=
  [⟨"[OUTPUT]", "Output directory (default: <tmp>/<cluster>-logs-<timestamp>)"⟩]

/-- The help option tells where the other help text is. -/
def explained (other : String) : List Explained :=
  [⟨"-n, --name <NAME>", "Cluster name used to discover node containers"⟩,
    ⟨"    --nodes <NODES>", "Explicit node names (comma-separated); skips discovery"⟩,
    ⟨"    --provider <PROVIDER>",
      "Container runtime binary used to reach nodes (docker, podman)"⟩,
    ⟨"-c, --config <CONFIG>", "Path to configuration YAML file"⟩,
    ⟨"-v, --verbose", "Verbose logging"⟩,
    ⟨"-h, --help", "Print help (" ++ other ++ ")"⟩]

def usage : String := "Usage: cluster-logs [OPTIONS] [OUTPUT]"

/-- Explanations in one column, two blanks right of the longest spelling. -/
def columns (rows : List Explained) : List String :=
  let width := (rows.map (·.spelling.length)).foldl max 0
  rows.map fun r =>
    "  " ++ r.spelling ++ String.ofList (List.replicate (width - r.spelling.length + 2) ' ') ++
      r.meaning

/-- Explanations below their spellings, with blank lines between. -/
def spread (rows : List Explained) : List String :=
  ((rows.map fun r => ["  " ++ r.spelling, "          " ++ r.meaning]).intersperse [""]).flatten

def help (long : Bool) : List String :=
  if long then
    ["Command-line arguments for the log collector.", "",
      "Values given here take precedence over the configuration file.", "", usage, "",
      "Arguments:"] ++ spread positionals ++ ["", "Options:"] ++
      spread (explained "see a summary with '-h'")
  else
    ["Export diagnostic logs from cluster nodes", "", usage, "", "Arguments:"] ++
      columns positionals ++ ["", "Options:"] ++ columns (explained "see more with '--help'")

end NodeLogs.Options
