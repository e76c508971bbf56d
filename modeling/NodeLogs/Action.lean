import NodeLogs.Failure

/-!
Actions that run side by side on a shared state. An action takes steps, and may gather others; a
gathering waits for all its parts, whatever becomes of each, and fails with all their failures in
the order of the parts. A part that breaks down counts as one failure.
-/

namespace NodeLogs

/-- An action is told from all others by its place in the gatherings around it, from the outermost
in. -/
abbrev Place := List Nat

/-- What the runtime tells of a task that broke down. It hands a number to every task of the program
as it is started, so the number says nothing about the action; what the task broke down with is told
if it is a text. -/
def breakdown (task : Nat) (payload : Option String) : String :=
  "task " ++ task.repr ++ " panicked" ++
    match payload with
    | some text => " with message " ++ Text.quoted text
    | none => ""

/-- How an action ends. -/
inductive Finish where
  | succeeded
  | failed (f : Failure)
  | brokeDown (payload : Option String)

namespace Finish

/-- What becomes of an action that ended so, as a task of this number. -/
def outcome (task : Nat) : Finish → Outcome Unit
  | .succeeded => .ok ()
  | .failed f => .error f
  | .brokeDown payload =>
    .error (.ofMessage ("collection action did not complete: " ++ breakdown task payload))

def ofOutcome : Outcome Unit → Finish
  | .ok () => .succeeded
  | .error f => .failed f

end Finish

/-- A step changes the state and goes on from what it was before. -/
inductive Action (σ : Type) where
  | finish (f : Finish)
  | step (effect : σ → σ) (next : σ → Action σ)
  | gather (contexts : List String) (parts : List (Action σ))

instance {σ : Type} : Inhabited (Action σ) := ⟨.finish .succeeded⟩

/-- All the failures among the results, flat and in order. -/
def Aggregate.ofResults? (results : List (Outcome Unit)) : Option Aggregate :=
  Aggregate.ofFailures? (results.filterMap Outcome.failure?)

namespace Action

variable {σ : Type}

/-- What a gathering comes to when its parts have ended so. -/
def gathered (contexts : List String) (results : List (Outcome Unit)) : Outcome Unit :=
  match Aggregate.ofResults? results with
  | none => .ok ()
  | some a => .error (.many contexts a)

mutual

/-- Runs an action to its end, the parts of a gathering one after the other. Each is a task of the
number that it has among them. -/
def run (place : Place) : Action σ → σ → σ × Outcome Unit
  | .finish f, s => (s, f.outcome (place.getLastD 0))
  | .step effect next, s => (next s).run place (effect s)
  | .gather contexts parts, s =>
    let (s, results) := runAll place 0 parts s
    (s, gathered contexts results)

/-- Runs the parts of a gathering, the first of them being the one of this number. -/
def runAll (place : Place) (n : Nat) : List (Action σ) → σ → σ × List (Outcome Unit)
  | [], s => (s, [])
  | a :: rest, s =>
    let (s, result) := a.run (place ++ [n]) s
    let (s, results) := runAll place (n + 1) rest s
    (s, result :: results)

end

/-- A step that leaves the state to what comes next. -/
def yield (n : Nat) (a : Action σ) : Action σ :=
  match n with
  | 0 => a
  | n + 1 => .step id fun _ => yield n a

end Action

end NodeLogs
