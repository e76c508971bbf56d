import NodeLogs.ByteSource
import NodeLogs.Command
import NodeLogs.Failure
import NodeLogs.FileTree.Access
import NodeLogs.Log

/-!
The host that a collection runs on, and how it gets commands run. A runner may answer by what it was
asked before, and what it runs may change the host's files. Collecting takes any runner there is:
one that starts programs on the host, one that answers from a script, or one of which nothing is
known.
-/

namespace NodeLogs

/-- The files, the log so far, and the state of the runner. -/
structure Host (σ : Type) where
  tree : FileTree
  log : List LogLine
  runner : σ

abbrev Hosted (σ : Type) := StateM (Host σ)

namespace Host

variable {σ : Type}

def note (line : LogLine) (h : Host σ) : Host σ := { h with log := h.log ++ [line] }

def change (changes : List FileTree.Change) (h : Host σ) : Host σ :=
  { h with tree := h.tree.applyAll changes }

end Host

/-- The output of a command whose end is not awaited: it did not start, or its output comes as a
stream, and the outcome is known once that was consumed without failure. -/
inductive Streamed where
  | refused (f : Failure)
  | started (output : ByteSource) (outcome : Outcome Unit)

/-- Ways to run a command: for its outcome alone, for what it prints (also when it fails), for the
lines it prints, and for its output as a stream. -/
structure Runner (σ : Type) where
  run : Command → Hosted σ (Outcome Unit)
  capture : Command → Hosted σ (Bytes × Outcome Unit)
  lines : Command → Hosted σ (Outcome (List String))
  stream : Command → Hosted σ Streamed

end NodeLogs
