import NodeLogs.Action
import NodeLogs.Child

/-!
Streaming what a program prints to a consumer. The consumer reads as it likes and then ends; if all
is well with it, the rest of the output is passed over, so that the program can always go on to its
end. What is wrong with the consumer counts more than what is wrong with the program.
-/

namespace NodeLogs

inductive Consumer where
  | finish (f : Finish)
  | read (most : Nat) (next : Bytes → Consumer)

namespace Consumer

/-- Reads a given output, as much at a time as is asked for; at its end nothing is read. -/
def run : Consumer → Bytes → Finish
  | finish f, _ => f
  | read most next, data => (next (data.take most)).run (data.drop most)

end Consumer

namespace Streaming

def brokenConsumer (c : Command) : String :=
  "stdout consumer for \"" ++ c.display ++ "\" panicked"

/-- How a streamed command comes out when its consumer, a task of this number, has ended so and its
program so. -/
def outcome (c : Command) (consumer : Finish) (program : Outcome Unit) (task : Nat := 0) :
    Outcome Unit :=
  match consumer with
  | .succeeded => program
  | .failed f => .error f
  | .brokeDown payload =>
    .error ((Failure.ofMessage (breakdown task payload)).context (brokenConsumer c))

/-- Streams the output of a program to a consumer, a task of this number. -/
def run (c : Command) (child : Child) (consumer : Consumer) (task : Nat := 0) : Outcome Unit :=
  outcome c (consumer.run (child.writtenTo .output))
    (child.outcome c (child.writtenTo .errors)) task

end Streaming

end NodeLogs
