import NodeLogs.Runner
import NodeLogs.Text.Lines

/-!
A runner that answers from a script and keeps the commands it was given. For each command the
first rule applies whose text occurs in the command's display form.
-/

namespace NodeLogs.Runner

structure Rule where
  text : String
  failure : Command → Option Failure
  lines : Option (List String)
  output : Bytes
  chunk : Option Nat
  ending : Ending

/-- The commands so far: those whose output was captured apart from all others. -/
structure History where
  calls : List Command
  captures : List Command

def History.start : History := ⟨[], []⟩

def occurs (part : List Char) : List Char → Bool
  | [] => part.isEmpty
  | c :: cs => part.isPrefixOf (c :: cs) || occurs part cs

namespace Rule

def appliesTo (r : Rule) (c : Command) : Bool := occurs r.text.toList c.display.toList

/-- What the command prints under the rule. -/
def data (r : Rule) : Bytes :=
  match r.lines with
  | some lines => Utf8.encode ("\n".intercalate lines)
  | none => r.output

def source (r : Rule) : ByteSource :=
  match r.chunk with
  | some size => .chunked size r.data r.ending
  | none => ⟨[r.data], r.ending⟩

def outcome (r : Rule) (c : Command) : Outcome Unit :=
  match r.failure c with
  | some f => .error f
  | none => .ok ()

end Rule

def ruleFor? (rules : List Rule) (c : Command) : Option Rule := rules.find? (·.appliesTo c)

def recordCall (c : Command) : Hosted History Unit :=
  modify fun h => { h with runner := { h.runner with calls := h.runner.calls ++ [c] } }

def recordCapture (c : Command) : Hosted History Unit :=
  modify fun h => { h with runner := { h.runner with captures := h.runner.captures ++ [c] } }

/-- Without a rule a command succeeds; where its output is captured it then prints its own display
form, and else nothing. -/
def script (rules : List Rule) : Runner History where
  run c := do
    recordCall c
    return match ruleFor? rules c with
      | some r => r.outcome c
      | none => .ok ()
  capture c := do
    recordCapture c
    return match ruleFor? rules c with
      | some r => (r.data, r.outcome c)
      | none => (Utf8.encode (c.display ++ "\n"), .ok ())
  lines c := do
    recordCall c
    return match ruleFor? rules c with
      | some r => (r.outcome c).map fun _ => r.lines.getD (Text.outputLines r.output)
      | none => .ok []
  stream c := do
    recordCall c
    return match ruleFor? rules c with
      | some r => .started r.source (r.outcome c)
      | none => .started (.ofBytes []) (.ok ())

end NodeLogs.Runner
