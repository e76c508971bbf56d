import NodeLogs.Shell.Builtin
import NodeLogs.Shell.Reading

/-!
Running scripts and programs. Every kind of statement says how it is carried out by a performer of
its parts; the performer for all of them is built up level by level, so that it may be nested so
deep and no deeper.

This is what the runner on the host starts. A shell is what it is by its own manual and not by what
collects the logs, so it is there to be run, and no result is about it or uses it.
-/

namespace NodeLogs.Shell

/-- Leaves with a complaint about a word. -/
def abandoned (problem : String) : StateM Session Flow := Builtin.abandon 2 problem

/-- What is expanded, or how the shell goes on where that goes wrong. -/
def expanding {α : Type} (e : Expanding α) (next : α → StateM Session Flow) :
    StateM Session Flow := do
  match ← e.run with
  | .ok a => next a
  | .error problem => abandoned problem

/-- Leaves after a failure that nobody tests, if the shell was told to. -/
def minding (tested : Bool) (flow : Flow) : StateM Session Flow := do
  let s ← get
  if flow = .next ∧ s.status ≠ 0 ∧ ¬ tested ∧ s.options.contains 'e' then return .leave
  return flow

/-- Does work to its end: unless a signal has ended it, what is to be done at the end comes after
it. -/
def finally_ (perform : Perform) (work : StateM Session Flow) : StateM Session Flow := do
  match ← work with
  | .killed n => return .killed n
  | _ =>
    Builtin.ending perform
    return .leave

/-- Does something in a session of its own. A signal to the shell reaches it from there too. -/
def apart (perform : Perform) (prepare : Session → Session) (work : StateM Session Flow) :
    StateM Session Flow := do
  let s ← get
  let (flow, after) := (finally_ perform work).run
    { prepare s with traps := s.traps.filter (·.1 ≠ "EXIT") }
  set { s.absorb after with status := (flow.ending after).asStatus }
  match flow with
  | .killed n => return .killed n
  | _ => return .next

/-- What a program that was killed is told to have died of. -/
def deathNotice (signal : Nat) : String :=
  match signal with
  | 1 => "Hangup"
  | 3 => "Quit"
  | 4 => "Illegal instruction"
  | 5 => "Trace/breakpoint trap"
  | 6 => "Aborted"
  | 7 => "Bus error"
  | 8 => "Floating point exception"
  | 9 => "Killed"
  | 10 => "User defined signal 1"
  | 11 => "Segmentation fault"
  | 12 => "User defined signal 2"
  | 14 => "Alarm clock"
  | 15 => "Terminated"
  | n => "Signal " ++ n.repr

/-- Runs a program in its own session, or in place of the shell. -/
def runProgram (perform : Perform) (launch : Launch) (environment : List (String × String))
    (inPlace : Bool) : StateM Session Flow := do
  let s ← get
  let (flow, after) := (perform (.program launch)).run (s.child environment)
  let ending := flow.ending after
  set { s.absorb after with status := ending.asStatus }
  match ending with
  | .status _ => return .next
  | .signal n =>
    if inPlace then return .killed n
    if n ≠ 2 ∧ n ≠ 13 then modify fun s => s.say 2 (deathNotice n ++ "\n")
    return .next

/-- The status of a program that cannot be run. -/
def lookupStatus (e : OsError) : Nat :=
  if e = .noEntry ∨ e = .notDirectory ∨ e = .nameTooLong ∨ e = .tooManyLinks then 127 else 126

/-- A program by its name, in its own session or in place of the shell. A file that is no program is
taken for a script. -/
def external (perform : Perform) (assigned : List (String × String)) (name : String)
    (args : List String) (inPlace : Bool) : StateM Session Flow := do
  let s ← get
  let environment := assigned.foldl (fun e (k, v) => Session.setEntry k v e) s.environment
  match find s.tree (environment.lookup "PATH") name args with
  | .ok launch => runProgram perform launch environment inPlace
  | .error e =>
    if e = .badExecutable then
      runProgram perform ⟨"sh", s.name, name :: args⟩ environment inPlace
    else
      let reason := if e = .noEntry ∨ e = .notDirectory then "not found" else e.text
      Builtin.report ((if inPlace then "exec: " else "") ++ name ++ ": " ++ reason)
      finishWith (lookupStatus e)

/-- Variables as they were before, for these names. -/
def restoreVariables (before : Session) (names : List String) : StateM Session Unit :=
  modify fun s => names.foldl (fun s name => match before.value? name with
    | some v => s.set name v
    | none => s.unset name) s

/-- A function works on the session that calls it, with parameters and variables of its own. -/
def callFunction (perform : Perform) (body : Statement) (args : List String) (tested : Bool) :
    StateM Session Flow := do
  let before ← get
  set { before with parameters := args, locals := some [], loops := 0 }
  let flow ← perform (.statement body tested)
  modify fun s =>
    let s := (s.locals.getD []).foldl (fun s (name, value) => match value with
      | some v => s.set name v
      | none => s.unset name) s
    { s with parameters := before.parameters, locals := before.locals, loops := before.loops }
  return if flow = .returned then .next else flow

/-- The kinds of things that a name may stand for. -/
inductive Meaning where
  | special (work : Builtin.Work)
  | function (body : Statement)
  | builtin (work : Builtin.Work)
  | program

def meaning (s : Session) (functions : Bool) (name : String) : Meaning :=
  match Builtin.special? name, if functions then s.functions.lookup name else none with
  | some work, _ => .special work
  | none, some body => .function body
  | none, none =>
    match Builtin.ordinary? name with
    | some work => .builtin work
    | none => .program

/-- Runs what a name stands for, passing functions over if that is wanted. Variables that were set
for it alone are put back, unless it is special. -/
def callNamed (perform : Perform) (functions : Bool) (before : Session)
    (assigned : List (String × String)) (name : String) (args : List String) (tested : Bool) :
    StateM Session Flow := do
  match meaning before functions name with
  | .special work => work perform args
  | .function body =>
    let flow ← callFunction perform body args tested
    restoreVariables before (assigned.map (·.1))
    return flow
  | .builtin work =>
    let flow ← work perform args
    restoreVariables before (assigned.map (·.1))
    return flow
  | .program =>
    let flow ← external perform assigned name args false
    restoreVariables before (assigned.map (·.1))
    return flow

/-- What a name stands for, for whoever asks: just what would be run, or in words. -/
def describe (inWords : Bool) (name : String) : StateM Session Flow := do
  let s ← get
  let tell (short long : String) : StateM Session Flow := do
    modify fun s => s.say 1 ((if inWords then name ++ long else short) ++ "\n")
    finishWith 0
  if reserved.contains name then tell name " is a shell keyword"
  else if name = "exec" then tell name " is a special shell builtin"
  else if name = "type" ∨ name = "command" then tell name " is a shell builtin"
  else
    match meaning s true name with
    | .special _ => tell name " is a special shell builtin"
    | .function _ => tell name " is a shell function"
    | .builtin _ => tell name " is a shell builtin"
    | .program =>
      match find s.tree (s.value? "PATH") name [] with
      | .ok launch =>
        let path := (launch.args.head?).getD ("/usr/bin/" ++ launch.tool)
        tell path (" is " ++ path)
      | .error _ =>
        if inWords then modify fun s => s.say 1 (name ++ ": not found\n")
        finishWith 127

def describeAll : List String → StateM Session Flow
  | [] => finishWith 0
  | [name] => describe true name
  | name :: rest => do
    let _ ← describe true name
    let status := (← get).status
    let flow ← describeAll rest
    if status ≠ 0 then setStatus status
    return flow

/-- Puts a program in the place of the shell. -/
def replace (perform : Perform) (assigned : List (String × String)) (name : String)
    (args : List String) : StateM Session Flow := do
  match ← external perform assigned name args true with
  | .killed n => return .killed n
  | _ =>
    modify fun s => { s with traps := [] }
    return .leave

def callWords (perform : Perform) (before : Session) (assigned : List (String × String))
    (words : List String) (tested : Bool) : StateM Session Flow :=
  match words with
  | [] => return .next
  | ["exec"] => finishWith 0
  | "exec" :: name :: args => replace perform assigned name args
  | "type" :: names => describeAll names
  | ["command"] => finishWith 0
  | "command" :: "-v" :: name :: _ => describe false name
  | "command" :: "-V" :: name :: _ => describe true name
  | "command" :: name :: args => callNamed perform false before assigned name args tested
  | name :: args => callNamed perform true before assigned name args tested

/-- Sets variables in turn, so that values may tell of those before them. -/
def assignAll (perform : Perform) : List (String × Word) → Expanding (List (String × String))
  | [] => return []
  | (name, w) :: rest => do
    let value ← expandText perform w
    if (← get).fixed.contains name then throw (name ++ ": is read only")
    modify fun s => s.set name value
    return (name, value) :: (← assignAll perform rest)

def hasOutput (w : Word) : Bool :=
  w.any fun
    | .output .. => true
    | _ => false

/-- Shows what is about to be run, if the shell was told to, where errors went before. -/
def trace (before : Session) (assigned : List (String × String)) (words : List String) :
    StateM Session Unit :=
  modify fun s =>
    if s.options.contains 'x' then
      let shown := assigned.map (fun (name, value) => name ++ "=" ++ value) ++ words
      let told := { s with sinks := before.sinks }.say 2 ("+ " ++ " ".intercalate shown ++ "\n")
      { told with sinks := s.sinks }
    else s

/-- A simple statement: words are expanded, streams led elsewhere, and then what the first word
names is run. Without words the status is that of a script in the values, if there is one. -/
def runSimple (perform : Perform) (line : Nat) (assignments : List (String × Word))
    (words : List Word) (rs : List Redirection) (tested : Bool) : StateM Session Flow := do
  modify fun s => { s with line := line }
  expanding (expandWords perform words) fun words => do
    let before ← get
    match ← (redirectAll perform rs).run with
    | .error problem =>
      modify (restoreStreams before rs)
      Builtin.report problem
      setStatus 2
      return if words.head?.any fun name => name = "exec" || (Builtin.special? name).isSome
        then .leave else .next
    | .ok () =>
      if words.isEmpty ∧ ¬ assignments.any (hasOutput ·.2) then setStatus 0
      expanding (assignAll perform assignments) fun assigned => do
        trace before assigned words
        let flow ← callWords perform before assigned words tested
        if words ≠ ["exec"] then modify (restoreStreams before rs)
        return flow

def runSequence (perform : Perform) (tested : Bool) : List Statement → StateM Session Flow
  | [] => return .next
  | s :: rest => do
    match ← perform (.statement s tested) with
    | .next => runSequence perform tested rest
    | flow => return flow

/-- How a loop goes on after a round: with the next one, or as told. -/
def afterRound : Flow → Option Flow
  | .next | .continued 0 | .continued 1 => none
  | .continued (n + 1) => some (.continued n)
  | .broke 0 | .broke 1 => some .next
  | .broke (n + 1) => some (.broke n)
  | flow => some flow

/-- Rounds of a loop while its condition has the expected result; its status is that of the last
round. -/
def runLoop (perform : Perform) (expected : Bool) (condition body : Statement) (tested : Bool) :
    Nat → Nat → StateM Session Flow
  | 0, _ => abandoned "loop without end"
  | rounds + 1, status => do
    match ← perform (.statement condition true) with
    | .next =>
      if ((← get).status == 0) = expected then
        match afterRound (← perform (.statement body tested)) with
        | none => runLoop perform expected condition body tested rounds (← get).status
        | some flow => return flow
      else finishWith status
    | flow => return (afterRound flow).getD .next

def runEach (perform : Perform) (name : String) (body : Statement) (tested : Bool) :
    List String → StateM Session Flow
  | [] => return .next
  | word :: rest => Builtin.assign "" name word do
    match afterRound (← perform (.statement body tested)) with
    | none => runEach perform name body tested rest
    | some flow => return flow

/-- The rounds of a loop are in one loop more. -/
def inLoop (work : StateM Session Flow) : StateM Session Flow := do
  let loops := (← get).loops
  modify fun s => { s with loops := loops + 1 }
  let flow ← work
  modify fun s => { s with loops := loops }
  return flow

/-- Whether one of the patterns admits the text. -/
def anyAdmits (perform : Perform) (text : List Char) : List Word → Expanding Bool
  | [] => return false
  | w :: rest => do
    if Pattern.admits (← expandWhole perform w) text then return true
    anyAdmits perform text rest

def firstArm (perform : Perform) (text : List Char) :
    List (List Word × Statement) → Expanding (Option Statement)
  | [] => return none
  | (patterns, body) :: rest => do
    if ← anyAdmits perform text patterns then return some body
    firstArm perform text rest

/-- A pipeline: what one prints is the input of the other. Each has a session of its own. -/
def runPiped (perform : Perform) (first second : Statement) : StateM Session Flow := do
  let s ← get
  let sink := Sink.inner s.depth
  match ← apart perform (fun s => { s.redirect 1 (some sink) with depth := s.depth + 1 })
    (perform (.statement first true)) with
  | .next =>
    let (data, after) := (← get).collect sink
    set after
    let input := after.input
    let flow ← apart perform (fun s => { s with input := data }) (perform (.statement second true))
    modify fun s => { s with input := input }
    return flow
  | flow => return flow

def runStatement (perform : Perform) (tested : Bool) : Statement → StateM Session Flow
  | .simple line assignments words rs => do
    minding tested (← runSimple perform line assignments words rs tested)
  | .sequence parts => runSequence perform tested parts
  | .both first second => do
    match ← perform (.statement first true) with
    | .next =>
      if (← get).status = 0 then perform (.statement second tested) else return .next
    | flow => return flow
  | .either first second => do
    match ← perform (.statement first true) with
    | .next =>
      if (← get).status = 0 then return .next else perform (.statement second tested)
    | flow => return flow
  | .negated body => do
    match ← perform (.statement body true) with
    | .next => finishWith (if (← get).status = 0 then 1 else 0)
    | flow => return flow
  | .piped first second => do minding tested (← runPiped perform first second)
  | .choice condition yes no => do
    match ← perform (.statement condition true) with
    | .next =>
      if (← get).status = 0 then perform (.statement yes tested)
      else
        setStatus 0
        perform (.statement no tested)
    | flow => return flow
  | .loop expected condition body =>
    inLoop (runLoop perform expected condition body tested 100000 0)
  | .each name words body =>
    expanding (expandWords perform words) fun words => do
      if words.isEmpty then setStatus 0
      inLoop (runEach perform name body tested words)
  | .cases w arms =>
    expanding (expandText perform w) fun text =>
      expanding (firstArm perform text.toList arms) fun
        | some body => do
          setStatus 0
          perform (.statement body tested)
        | none => finishWith 0
  | .subshell body => do
    minding tested (← apart perform id (perform (.statement body tested)))
  | .redirected body rs => do
    let before ← get
    match ← (redirectAll perform rs).run with
    | .error problem =>
      modify (restoreStreams before rs)
      Builtin.report problem
      finishWith 2
    | .ok () =>
      let flow ← perform (.statement body tested)
      modify (restoreStreams before rs)
      return flow
  | .function name body => do
    modify fun s => { s with functions := (name, body) :: s.functions }
    finishWith 0

/-- The statements of a script in turn. What cannot be read ends the shell, after all before it. -/
def runScript (perform : Perform) (script : Script) : StateM Session Flow := do
  match ← runSequence perform false script.statements with
  | .next =>
    match script.problem with
    | none => return .next
    | some (line, problem) =>
      modify fun s => { s with line := line }
      abandoned problem
  | flow => return flow

def runWhole (perform : Perform) (text : List Char) : StateM Session Flow :=
  finally_ perform (perform (.script text))

/-- The options of the shell, up to the first argument that is none. -/
def shellOptions : List String → List Char × List String
  | [] => ([], [])
  | arg :: rest =>
    match arg.toList with
    | ['-', '-'] => ([], rest)
    | '-' :: c :: letters =>
      let (options, rest) := shellOptions rest
      (c :: letters ++ options, rest)
    | _ => ([], arg :: rest)

/-- The shell as a program: it runs the text that it is given, a file, or its input. -/
def runShell (perform : Perform) (called : String) (args : List String) : StateM Session Flow := do
  let (options, args) := shellOptions args
  modify fun s => { s with name := called, options := options.filter (· ≠ 'c') }
  if options.contains 'c' then
    match args with
    | [] =>
      modify fun s => s.complain (called ++ ": 0") "-c requires an argument"
      setStatus 2
      return .leave
    | text :: args =>
      modify fun s => { s with name := args.headD called, parameters := args.drop 1 }
      runWhole perform text.toList
  else
    match args with
    | [] =>
      let data := (← get).input
      modify fun s => { s with input := [] }
      runWhole perform (Utf8.decodeLossy data).toList
    | file :: args =>
      match (← get).tree.contents ⟨file⟩ with
      | .error e =>
        modify fun s => s.complain (called ++ ": 0") (openProblem false file e)
        setStatus 2
        return .leave
      | .ok data =>
        modify fun s => { s with name := file, parameters := args }
        runWhole perform (Utf8.decodeLossy data).toList

/-- Tells the environment, or runs a program in an altered one. -/
def runEnvironment (perform : Perform) (called : String) : List String → StateM Session Flow
  | "-u" :: name :: rest => do
    modify fun s => s.unset name
    runEnvironment perform called rest
  | [] => do
    modify fun s => s.say 1 (String.join (s.environment.map fun (k, v) => k ++ "=" ++ v ++ "\n"))
    setStatus 0
    return .leave
  | arg :: rest => do
    match arg, Builtin.nameAndValue arg with
    | "-i", _ | "-", _ =>
      modify fun s => { s with bindings := [], exported := [] }
      runEnvironment perform called rest
    | _, (name, some value) =>
      modify fun s => { s.set name value with exported := name :: s.exported }
      runEnvironment perform called rest
    | _, (_, none) =>
      let s ← get
      match find s.tree (s.value? "PATH") arg rest with
      | .ok launch => perform (.program launch)
      | .error e =>
        modify fun s => s.complain called ("'" ++ arg ++ "': " ++ e.text)
        setStatus (lookupStatus e)
        return .leave

def runTool (perform : Perform) (launch : Launch) : StateM Session Flow := do
  match launch.tool with
  | "sh" | "dash" => runShell perform launch.called launch.args
  | "env" => runEnvironment perform launch.called launch.args
  | name =>
    match Tools.named? name with
    | some tool =>
      setStatus (← tool launch.called launch.args)
      return .leave
    | none => return .leave

/-- The performer that may nest work so deep. -/
def performUpTo : Nat → Perform
  | 0, _ => abandoned "nested too deep"
  | n + 1, .statement s tested => runStatement (performUpTo n) tested s
  | n + 1, .script text => runScript (performUpTo n) (Script.read text)
  | n + 1, .program launch => runTool (performUpTo n) launch

def depthLimit : Nat := 2000

/-- Runs a program in an environment: what it has left behind, and how it ended. -/
def launch (t : FileTree) (environment : List (String × String)) (l : Launch) : Session × End :=
  let (flow, s) := (performUpTo depthLimit (.program l)).run (.start t environment)
  (s, flow.ending s)

end NodeLogs.Shell
