import NodeLogs.Command
import NodeLogs.Failure
import NodeLogs.Text.Utf8

/-!
Programs that were run for a command: what they wrote to their two streams, in order, and how they
ended.
-/

namespace NodeLogs

inductive Stream where
  | output
  | errors
deriving Repr, DecidableEq

structure Child where
  writes : List (Stream × Bytes)
  status : ExitStatus
deriving Repr, DecidableEq

namespace Child

/-- Everything that was written, to whichever stream. -/
def written (c : Child) : Bytes := c.writes.flatMap (·.2)

def writtenTo (c : Child) (s : Stream) : Bytes := (c.writes.filter (·.1 = s)).flatMap (·.2)

/-- A command fails unless its program ends with success; what was written to the error stream,
where it is kept apart, goes into the failure. -/
def outcome (c : Child) (command : Command) (errors : Bytes) : Outcome Unit :=
  if c.status.isSuccess then .ok ()
  else .error (.ofCause (.commandFailed command.display c.status (Utf8.decodeLossy errors)))

end Child

end NodeLogs
