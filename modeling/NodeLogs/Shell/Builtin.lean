import NodeLogs.ExitStatus
import NodeLogs.Shell.Lookup
import NodeLogs.Shell.Redirecting
import NodeLogs.Shell.Tools

/-!
What the shell does itself when it is asked for by name. Some of these names are special: variables
that are set before them stay, and where they fail the shell ends.
-/

namespace NodeLogs.Shell.Builtin

abbrev Work := Perform → List String → StateM Session Flow

def plain (tool : StateM Session Nat) : StateM Session Flow := do finishWith (← tool)

def report (text : String) : StateM Session Unit := modify fun s => s.report text

/-- Fails with a complaint. -/
def fail (status : Nat) (text : String) : StateM Session Flow := do
  report text
  finishWith status

/-- Fails with a complaint, which ends the shell. -/
def abandon (status : Nat) (text : String) : StateM Session Flow := do
  report text
  setStatus status
  return .leave

/-- A number without a sign. -/
def natural? (s : String) : Option Nat := if s.toList.all Char.isDigit then s.toNat? else none

/-- An optional number as argument. -/
def withNumber (name : String) (usual : Nat) (args : List String) (f : Nat → StateM Session Flow) :
    StateM Session Flow :=
  match args with
  | [] => f usual
  | arg :: _ =>
    match natural? arg with
    | some n => f n
    | none => abandon 2 (name ++ ": Illegal number: " ++ arg)

def exit : Work := fun _ args => do
  withNumber "exit" (← get).status args fun n => do
    setStatus (n % 256)
    return .leave

def return_ : Work := fun _ args => do
  withNumber "return" (← get).status args fun n => do
    setStatus (n % 256)
    return .returned

/-- Leaves a loop, or more of those that the shell is in. Outside of loops nothing happens. -/
def escaping (name : String) (flow : Nat → Flow) : Work := fun _ args =>
  withNumber name 1 args fun n => do
    setStatus 0
    if n = 0 then abandon 2 (name ++ ": Illegal number: 0")
    else
      let n := min n (← get).loops
      return if n = 0 then .next else flow n

def shift : Work := fun _ args => withNumber "shift" 1 args fun n => do
  if n ≤ (← get).parameters.length then
    modify fun s => { s with parameters := s.parameters.drop n }
    finishWith 0
  else abandon 2 "shift: can't shift that many"

/-- Puts options on and takes them off; after them come new parameters. -/
def set_ : Work := fun _ args =>
  let rec go (always : Bool) : List String → StateM Session Flow
    | [] => finishWith 0
    | arg :: rest =>
      match arg.toList with
      | ['-', '-'] => do
        modify fun s => { s with parameters := rest }
        finishWith 0
      | '-' :: c :: letters => do
        modify fun s => { s with options := s.options ++ c :: letters }
        go false rest
      | '+' :: c :: letters => do
        modify fun s => { s with options := s.options.filter fun o => !(c :: letters).contains o }
        go false rest
      | _ => do
        if always || !rest.isEmpty || arg ≠ "" then
          modify fun s => { s with parameters := arg :: rest }
        finishWith 0
  go true args

/-- A name with the value that stands behind an equals sign, if there is one. -/
def nameAndValue (arg : String) : String × Option String :=
  let name := String.ofList (arg.toList.takeWhile (· ≠ '='))
  match arg.toList.dropWhile (· ≠ '=') with
  | [] => (name, none)
  | _ :: value => (name, some (String.ofList value))

/-- Gives a variable a value. One that is fixed must keep its own. -/
def assign (who name value : String) (next : StateM Session Flow) : StateM Session Flow := do
  if (← get).fixed.contains name then abandon 2 (who ++ name ++ ": is read only")
  else
    modify fun s => s.set name value
    next

/-- Does something for each name, after it has got the value that stands with it. -/
def defining (who : String) (prepare finish : String → Session → Session) :
    List String → StateM Session Flow
  | [] => finishWith 0
  | arg :: rest => do
    let (name, value) := nameAndValue arg
    modify (prepare name)
    let next : StateM Session Flow := do
      modify (finish name)
      defining who prepare finish rest
    match value with
    | some value => assign who name value next
    | none => next

/-- A value between apostrophes, as the shell would read it. -/
def quoted (value : String) : String :=
  "'" ++ String.join (value.toList.map fun c =>
    if c = '\'' then "'\"'\"'" else c.toString) ++ "'"

/-- Tells of variables by name. -/
def list (who : String) (names : List String) : StateM Session Flow := do
  modify fun s => s.say 1 (String.join ((names.eraseDups.mergeSort (· ≤ ·)).map fun name =>
    who ++ " " ++ name ++ (match s.value? name with
      | some value => "=" ++ quoted value
      | none => "") ++ "\n"))
  finishWith 0

def marking (who : String) (names : Session → List String) (mark : String → Session → Session) :
    Work := fun _ args => do
  let s ← get
  match args with
  | [] | ["-p"] => list who (names s)
  | args => defining (who ++ ": ") (fun _ s => s) mark args

def export_ : Work :=
  marking "export" (·.exported) fun name s => { s with exported := name :: s.exported }

def readonly : Work :=
  marking "readonly" (·.fixed) fun name s => { s with fixed := name :: s.fixed }

def local_ : Work := fun _ args => do
  if (← get).locals.isNone then abandon 2 "local: not in a function"
  else
    defining "local: " (fun name s =>
      { s with locals := s.locals.map fun known => (name, s.value? name) :: known })
      (fun _ s => s) args

def unset : Work := fun _ args => do
  match args with
  | "-f" :: names =>
    modify fun s => { s with functions := s.functions.filter fun f => !names.contains f.1 }
    finishWith 0
  | args =>
    let names := if args.head? = some "-v" then args.drop 1 else args
    match names.find? (← get).fixed.contains with
    | some name => abandon 2 ("unset: " ++ name ++ ": is read only")
    | none =>
      modify fun s => names.foldl Session.unset s
      finishWith 0

def cd : Work := fun _ args => do
  let s ← get
  let dir := args.headD ((s.value? "HOME").getD "/")
  match s.tree.stat ⟨dir⟩ with
  | .ok (loc, .dir _) =>
    modify fun s => { s with tree := { s.tree with workingDir := loc } }
    modify fun s => s.set "PWD" ("/" ++ "/".intercalate loc)
    finishWith 0
  | _ => fail 2 ("cd: can't cd to " ++ dir)

def eval : Work := fun perform args =>
  if args.isEmpty then finishWith 0
  else perform (.script (" ".intercalate args).toList)

def source : Work := fun perform args => do
  match args with
  | [] => finishWith 0
  | file :: _ =>
    match (← get).tree.contents ⟨file⟩ with
    | .error e => abandon 2 (".: " ++ openProblem false file e)
    | .ok data =>
      match ← perform (.script (Utf8.decodeLossy data).toList) with
      | .returned => return .next
      | flow => return flow

/-- The number of a signal, from its number or name. -/
def signal? (s : String) : Option Nat :=
  match natural? s with
  | some n => if s ≠ "" ∧ n < 65 then some n else none
  | none =>
    (ExitStatus.signalNames.findIdx? fun name =>
      name = s ∨ name = "SIG" ++ s).map (· + 1)

/-- Signals that do not end a program that takes no heed of them: those that are ignored, and those
that make it stop or go on. -/
def isHarmless (n : Nat) : Bool := [0, 17, 18, 19, 20, 21, 22, 23, 28].contains n

/-- The name under which a trap for a signal is kept; the end counts as one. -/
def trapName (signal : Nat) : String :=
  if signal = 0 then "EXIT" else
    match ExitStatus.signalNames[signal - 1]? with
    | some name => String.ofList (name.toList.drop 3)
    | none => signal.repr

/-- Does what a trap asks for, which leaves the status as it was. -/
def spring (perform : Perform) (action : String) : StateM Session Flow := do
  let status := (← get).status
  match ← perform (.script action.toList) with
  | .next =>
    setStatus status
    return .next
  | flow => return flow

/-- A signal comes to the shell. It ends the shell, unless it is harmless or a trap is set for
it. -/
def deliver (perform : Perform) (signal : Nat) : StateM Session Flow := do
  setStatus 0
  let s ← get
  match s.traps.lookup (if signal = 9 then "" else trapName signal) with
  | some "" => return .next
  | some action => spring perform action
  | none => return if isHarmless signal then .next else .killed signal

/-- The end of a shell, at which a trap may be set. One that leaves again says with what status. -/
def ending (perform : Perform) : StateM Session Unit := do
  match (← get).traps.lookup "EXIT" with
  | some action =>
    modify fun s => { s with traps := s.traps.filter (·.1 ≠ "EXIT") }
    let _ ← spring perform action
  | none => return

/-- Sets a trap for each signal, or takes it away. -/
def setTraps (action : Option String) : List String → StateM Session Flow
  | [] => finishWith 0
  | name :: rest => do
    match if name = "EXIT" then some 0 else signal? name with
    | none =>
      modify fun s => s.complain "trap" (name ++ ": bad trap")
      finishWith 1
    | some n =>
      let others := (← get).traps.filter (·.1 ≠ trapName n)
      modify fun s => { s with
        traps := others ++ (action.map fun action => (trapName n, action)).toList }
      setTraps action rest

def trap : Work := fun _ args =>
  match Tools.withoutDashes args with
  | [] => do
    modify fun s => s.say 1 (String.join (s.traps.map fun (name, action) =>
      "trap -- " ++ quoted action ++ " " ++ name ++ "\n"))
    finishWith 0
  | [name] => setTraps none [name]
  | action :: names =>
    if action = "-" then setTraps none names
    else if (natural? action).isSome ∧ action ≠ "" then setTraps none (action :: names)
    else setTraps (some action) names

def send (perform : Perform) (signal : Nat) (targets : List String) : StateM Session Flow := do
  if targets.contains Session.number then deliver perform signal
  else
    match targets with
    | [] => fail 2 ("kill: Usage: kill [-s sigspec | -signum | -sigspec] [pid | job]... or\n" ++
        "kill -l [exitstatus]")
    | target :: _ =>
      if (natural? target).isSome then fail 1 "kill: No such process\n"
      else fail 2 ("kill: Illegal number: " ++ target)

def kill : Work := fun perform args =>
  match args with
  | "-s" :: name :: targets =>
    match signal? name with
    | some n => send perform n targets
    | none => fail 2 ("kill: invalid signal number or name: " ++ name)
  | ["-s"] => fail 2 "kill: No arg for -s option"
  | "-l" :: number :: _ => do
    match natural? number with
    | some n =>
      modify fun s => s.say 1 (trapName (n % 128) ++ "\n")
      finishWith 0
    | none => fail 2 ("kill: Illegal number: " ++ number)
  | "--" :: targets => send perform 15 targets
  | arg :: targets =>
    match arg.toList with
    | '-' :: name =>
      match signal? (String.ofList name) with
      | some n => send perform n targets
      | none => fail 2 ("kill: Illegal option " ++ String.ofList (('-' :: name).take 2))
    | _ => send perform 15 (arg :: targets)
  | [] => send perform 15 []

/-- Takes a line off the input; a last one may lack its end. -/
def takeLine : StateM Session (Bytes × Bool) := do
  let input := (← get).input
  let line := input.takeWhile (· ≠ 10)
  modify fun s => { s with input := input.drop (line.length + 1) }
  return (line, line.length < input.length)

/-- A word at the start of text, and what follows the blanks behind it. -/
def firstWord (s : List Char) : List Char × List Char :=
  let s := s.dropWhile isGap
  (s.takeWhile (!isGap ·), (s.dropWhile (!isGap ·)).dropWhile isGap)

/-- The words of a line for these names; the last gets all that is left. -/
def share (s : List Char) : List String → List (String × String)
  | [] => []
  | [name] =>
    let text := (s.dropWhile isGap).reverse.dropWhile isGap
    [(name, String.ofList text.reverse)]
  | name :: rest => (name, String.ofList (firstWord s).1) :: share (firstWord s).2 rest

def unescapeLine : List Char → List Char
  | '\\' :: c :: rest => c :: unescapeLine rest
  | c :: rest => c :: unescapeLine rest
  | [] => []

def read : Work := fun _ args => do
  let raw := args.head? = some "-r"
  let names := if raw then args.drop 1 else args
  if names.isEmpty then return ← fail 2 "read: arg count"
  let (line, ended) ← takeLine
  let text := (Utf8.decodeLossy line).toList
  let shares := share (if raw then text else unescapeLine text) names
  match names.find? (← get).fixed.contains with
  | some name => fail 2 ("read: " ++ name ++ ": is read only")
  | none =>
    modify fun s => shares.foldl (fun s (name, value) => s.set name value) s
    finishWith (if ended then 0 else 1)

/-- Puts out what the shell itself has to say. -/
def put (name : String) (status : Nat) (data : Bytes) : StateM Session Flow := do
  if (← get).takes 1 data then
    modify fun s => s.write 1 data
    finishWith status
  else fail (max 1 status) (name ++ ": " ++ name ++ ": I/O error")

def wrongInFormat : Printf.Complaint → String
  | .notNumber text => text ++ ": expected numeric value"
  | .leftOver text => text ++ ": not completely converted"
  | .noDirective text => text ++ ": invalid directive"

def isNoDirective : Printf.Complaint → Bool
  | .noDirective _ => true
  | _ => false

def printf : Work := fun _ args => do
  match Tools.withoutDashes args with
  | [] => fail 2 "printf: usage: printf format [arg ...]"
  | format :: args =>
    let done := Printf.run format args
    for wrong in done.complaints do report ("printf: " ++ wrongInFormat wrong)
    put "printf"
      (if done.complaints.any isNoDirective then 2
        else if done.complaints.isEmpty then 0 else 1) done.output

def echo : Work := fun _ args =>
  match args with
  | "-n" :: words => put "echo" 0 (Tools.said true false words)
  | words => put "echo" 0 (Tools.said true true words)

/-- The permissions that new files are denied. -/
def umask : Work := fun _ args => do
  if args.isEmpty then
    modify fun s =>
      let digits := Nat.toDigits 8 s.tree.umask
      s.say 1 (String.ofList (List.replicate (4 - digits.length) '0' ++ digits) ++ "\n")
  finishWith 0

def condition (name : String) : Work := fun _ args =>
  plain (Tools.judge (name = "[") (fun text => report (name ++ ": " ++ text)) args)

def done : Work := fun _ _ => finishWith 0

/-- The names that are special. -/
def special? : String → Option Work
  | ":" => some done
  | "." => some source
  | "break" => some (escaping "break" .broke)
  | "continue" => some (escaping "continue" .continued)
  | "eval" => some eval
  | "exit" => some exit
  | "export" => some export_
  | "readonly" => some readonly
  | "return" => some return_
  | "set" => some set_
  | "shift" => some shift
  | "trap" => some trap
  | "unset" => some unset
  | _ => none

def ordinary? : String → Option Work
  | "true" => some done
  | "false" => some fun _ _ => finishWith 1
  | "echo" => some echo
  | "printf" => some printf
  | "test" => some (condition "test")
  | "[" => some (condition "[")
  | "read" => some read
  | "cd" => some cd
  | "pwd" => some fun _ args => plain (Tools.pwd "pwd" args)
  | "kill" => some kill
  | "local" => some local_
  | "wait" => some done
  | "umask" => some umask
  | _ => none

end NodeLogs.Shell.Builtin
