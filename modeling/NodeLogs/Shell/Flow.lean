import NodeLogs.Shell.Session

/-!
What a shell has to do, and how it goes on when that is done. Whoever carries out a piece of work
leaves its parts to a performer, so that only the performer recurses.
-/

namespace NodeLogs.Shell

/-- A program that can be run, by the name of the tool that it is in the end, with what it is called
and its arguments. -/
structure Launch where
  tool : String
  called : String
  args : List String
deriving Repr, DecidableEq

/-- How a shell goes on. Leaving a loop and going on with its next round may concern a loop further
out. -/
inductive Flow where
  | next
  | leave
  | killed (signal : Nat)
  | returned
  | broke (loops : Nat)
  | continued (loops : Nat)
deriving Repr, DecidableEq

/-- The status of a statement that is tested is no reason to leave. -/
inductive Job where
  | statement (s : Statement) (tested : Bool)
  | script (text : List Char)
  | program (launch : Launch)

abbrev Perform := Job → StateM Session Flow

/-- How a program has ended. -/
def Flow.ending (flow : Flow) (s : Session) : End :=
  match flow with
  | .killed signal => .signal signal
  | _ => .status (s.status % 256)

/-- The status that a shell sees of a program that has ended. -/
def End.asStatus : End → Nat
  | .status n => n
  | .signal n => 128 + n

def setStatus (n : Nat) : StateM Session Unit := modify fun s => { s with status := n }

def finishWith (n : Nat) : StateM Session Flow := do
  setStatus n
  return .next

end NodeLogs.Shell
