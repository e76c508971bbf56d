import NodeLogs.FileTree.Layout
import NodeLogs.Shell.Condition
import NodeLogs.Shell.Flow
import NodeLogs.Shell.Printf

/-!
The tools that do their work alone. Each is given what it is called, which its complaints begin
with, and its arguments, and tells its status.
-/

namespace NodeLogs.Shell.Tools

abbrev Tool := String → List String → StateM Session Nat

def lineOf (words : List String) : String := " ".intercalate words

/-- What is said of some words. Escapes count if they are asked for, or as a matter of course in the
shell. -/
def said (escapes newline : Bool) (words : List String) : Bytes :=
  let (data, stopped) :=
    if escapes then Printf.unescape (lineOf words) else (Utf8.encode (lineOf words), false)
  if newline && !stopped then data ++ [10] else data

def complaint (name text : String) : StateM Session Unit := modify fun s => s.complain name text

/-- Puts out what a tool has to say. -/
def put (called : String) (data : Bytes) : StateM Session Nat := do
  if (← get).takes 1 data then
    modify fun s => s.write 1 data
    return 0
  complaint called "write error: Bad file descriptor"
  return 1

/-- Options are letters from these after one dash. -/
def isEchoOption (word : String) : Bool :=
  match word.toList with
  | '-' :: c :: rest => (c :: rest).all ['n', 'e', 'E'].contains
  | _ => false

def echo : Tool := fun called words =>
  let options := (words.takeWhile isEchoOption).flatMap fun w => w.toList.drop 1
  let last := options.reverse.find? (· ≠ 'n')
  put called (said (last = some 'e') (!options.contains 'n') (words.dropWhile isEchoOption))

def wrongInFormat : Printf.Complaint → String
  | .notNumber text => "'" ++ text ++ "': expected a numeric value"
  | .leftOver text => "'" ++ text ++ "': value not completely converted"
  | .noDirective text => text ++ ": invalid conversion specification"

/-- The arguments after two dashes that stand before them. -/
def withoutDashes : List String → List String
  | "--" :: rest => rest
  | args => args

def printf : Tool := fun called args => do
  match withoutDashes args with
  | [] =>
    complaint called
      ("missing operand\nTry '" ++ called ++ " --help' for more information.")
    return 1
  | format :: args =>
    let done := Printf.run format args
    for wrong in done.complaints do complaint called (wrongInFormat wrong)
    let status ← put called done.output
    return if done.complaints.isEmpty then status else 1

/-- Takes all that is left of the input. -/
def takeInput : StateM Session Bytes := do
  let data := (← get).input
  modify fun s => { s with input := [] }
  return data

/-- What a file holds, or the input for a dash. -/
def contentsOf (called file : String) : StateM Session (Option Bytes) := do
  if file = "-" then return some (← takeInput)
  match (← get).tree.contents ⟨file⟩ with
  | .ok data => return some data
  | .error (.os e) =>
    complaint called (file ++ ": " ++ e.text)
    return none
  | .error e =>
    complaint called (file ++ ": " ++ e.message)
    return none

/-- Writes of each file what a selection leaves of it. -/
def select (pick : Bytes → Bytes) (called : String) : List String → StateM Session Nat
  | [] => return 0
  | file :: rest => do
    let data ← contentsOf called file
    modify fun s => s.write 1 (pick (data.getD []))
    let status ← select pick called rest
    return if data.isNone then 1 else status

def files (args : List String) : List String := if args.isEmpty then ["-"] else args

def cat : Tool := fun called args => select id called (files (args.filter (· ≠ "-u")))

/-- Lines with their ends. -/
def linesOf (current : Bytes) : Bytes → List Bytes
  | [] => if current.isEmpty then [] else [current]
  | b :: rest =>
    if b = 10 then (current ++ [b]) :: linesOf [] rest else linesOf (current ++ [b]) rest

def lastOf {α : Type} (n : Nat) (xs : List α) : List α := xs.drop (xs.length - n)

/-- How much of a file is wanted: so many lines or bytes, and of which files. -/
def amount (bytes : Bool) (n : Nat) : List String → Bool × Nat × List String
  | "-n" :: k :: rest => amount false (k.toNat?.getD n) rest
  | "-c" :: k :: rest => amount true (k.toNat?.getD n) rest
  | arg :: rest =>
    match arg.toList with
    | '-' :: 'n' :: k => amount false ((String.ofList k).toNat?.getD n) rest
    | '-' :: 'c' :: k => amount true ((String.ofList k).toNat?.getD n) rest
    | '-' :: c :: k =>
      if c.isDigit then amount false ((String.ofList (c :: k)).toNat?.getD n) rest
      else (bytes, n, arg :: rest)
    | _ => (bytes, n, arg :: rest)
  | [] => (bytes, n, [])

def head : Tool := fun called args =>
  let (bytes, n, rest) := amount false 10 args
  select (fun data => if bytes then data.take n else ((linesOf [] data).take n).flatten) called
    (files rest)

def tail : Tool := fun called args =>
  let (bytes, n, rest) := amount false 10 args
  select (fun data => if bytes then lastOf n data else (lastOf n (linesOf [] data)).flatten) called
    (files rest)

/-- How often words begin. -/
def wordCount (inWord : Bool) : Bytes → Nat
  | [] => 0
  | b :: rest =>
    let blank := b == 32 || (9 ≤ b && b ≤ 13)
    (if !blank && !inWord then 1 else 0) + wordCount (!blank) rest

def counts (options : List Char) (data : Bytes) : List Nat :=
  (if options.contains 'l' then [data.count 10] else []) ++
    (if options.contains 'w' then [wordCount false data] else []) ++
    (if options.contains 'c' then [data.length] else [])

def wc : Tool := fun called args => do
  let isOption (a : String) : Bool := a.toList.head? == some '-' && a ≠ "-"
  let options := (args.filter isOption).flatMap fun a => a.toList.drop 1
  let options := if options.isEmpty then ['l', 'w', 'c'] else options
  let files := args.filter (!isOption ·)
  let fill (width : Nat) (n : Nat) : String :=
    String.ofList (List.replicate (width - n.repr.length) ' ') ++ n.repr
  match files with
  | [] =>
    let ns := counts options (← takeInput)
    modify fun s => s.say 1 (lineOf (ns.map (fill (if ns.length = 1 then 1 else 7))) ++ "\n")
    return 0
  | file :: _ =>
    match ← contentsOf called file with
    | none => return 1
    | some data =>
      let ns := counts options data
      let width := if ns.length = 1 then 1 else data.length.repr.length
      modify fun s => s.say 1 (lineOf (ns.map (fill width) ++ [file]) ++ "\n")
      return 0

/-- The numbers from one to another by a step, so many at most. -/
def numbers (first step last : Int) : Nat → List Int
  | 0 => []
  | n + 1 =>
    if (0 < step ∧ first ≤ last) ∨ (step < 0 ∧ last ≤ first) then
      first :: numbers (first + step) step last n
    else []

def seq : Tool := fun called args => do
  let put (first step last : Int) : StateM Session Nat := do
    if step = 0 then
      complaint called "invalid Zero increment value: '0'"
      return 1
    let ns := numbers first step last ((last - first).natAbs / step.natAbs + 1)
    modify fun s => s.say 1 (String.join (ns.map fun n => toString n ++ "\n"))
    return 0
  match args.map String.toInt? with
  | [some last] => put 1 1 last
  | [some first, some last] => put first 1 last
  | [some first, some step, some last] => put first step last
  | _ =>
    complaint called "missing operand"
    return 1

/-- Judges a condition. Behind an opening bracket the last argument must close it. -/
def judge (bracket : Bool) (complain : String → StateM Session Unit) (args : List String) :
    StateM Session Nat := do
  let condition? := if bracket then
      (if args.getLast? = some "]" then some args.dropLast else none)
    else some args
  match condition?.map (Condition.holds (← get).tree) with
  | none =>
    complain "missing ]"
    return 2
  | some (.error e) =>
    complain e
    return 2
  | some (.ok b) => return if b then 0 else 1

def test (bracket : Bool) : Tool := fun called args => judge bracket (complaint called) args

/-- Makes directories, those above them too if that is asked for. -/
def mkdir : Tool := fun called args => do
  let parents := args.contains "-p"
  let rec go : List String → StateM Session Nat
    | [] => return 0
    | path :: rest => do
      let t := (← get).tree
      let (changes, result) := if parents then t.makeDirs 0o777 ⟨path⟩
        else match t.makeDir 0o777 ⟨path⟩ with
          | .ok c => ([c], .ok ())
          | .error e => ([], .error e)
      modify fun s => { s with tree := s.tree.applyAll changes }
      let status ← go rest
      match result with
      | .ok () => return status
      | .error (.os e) =>
        complaint called ("cannot create directory '" ++ path ++ "': " ++ e.text)
        return 1
      | .error e =>
        complaint called ("cannot create directory '" ++ path ++ "': " ++ e.message)
        return 1
  go (args.filter (· ≠ "-p"))

/-- Creates files that are missing. -/
def touch : Tool := fun called args => do
  let rec go : List String → StateM Session Nat
    | [] => return 0
    | path :: rest => do
      match (← get).tree.openForWriting 0o666 ⟨path⟩ with
      | .ok (_, .createFile loc mode) =>
        modify fun s => { s with tree := s.tree.apply (.createFile loc mode) }
        go rest
      | .error (.os e) =>
        if e = .isDirectory then go rest
        else
          complaint called ("cannot touch '" ++ path ++ "': " ++ e.text)
          let _ ← go rest
          return 1
      | _ => go rest
  go args

/-- Mode bits after a change that is given as octal digits, or as what everybody may or may not do
from now on. -/
def changedMode (change : String) (mode : Nat) : Option Nat :=
  let bits (letters : List Char) : Nat := letters.foldl (fun n c =>
    n ||| (if c = 'r' then 0o444 else if c = 'w' then 0o200 else if c = 'x' then 0o111 else 0)) 0
  match change.toList with
  | '+' :: letters | 'a' :: '+' :: letters => some (mode ||| bits letters)
  | '-' :: letters | 'a' :: '-' :: letters => some (mode &&& (0o7777 ^^^ bits letters))
  | digits =>
    if digits.all Printf.isOctal && !digits.isEmpty then some (Printf.octalValue digits % 0o10000)
    else none

def chmod : Tool := fun called args => do
  match args with
  | change :: files =>
    let rec go : List String → StateM Session Nat
      | [] => return 0
      | path :: rest => do
        let t := (← get).tree
        let old? : Option Nat := match t.stat ⟨path⟩ with
          | .ok (_, .file mode _) | .ok (_, .dir mode) => some mode
          | _ => none
        match old? with
        | none =>
          complaint called ("cannot access '" ++ path ++ "': No such file or directory")
          let _ ← go rest
          return 1
        | some old =>
          match changedMode change old with
          | none =>
            complaint called ("invalid mode: '" ++ change ++ "'")
            return 1
          | some mode =>
            modify fun s => { s with tree := s.tree.chmod ⟨path⟩ mode }
            go rest
    go files
  | [] =>
    complaint called "missing operand"
    return 1

/-- Removes files and links, and directories with all that is in them if that is asked for. -/
def rm : Tool := fun called args => do
  let isOption (a : String) : Bool := a.toList.head? == some '-' && a ≠ "-"
  let options := (args.filter isOption).flatMap fun a => a.toList.drop 1
  let deep := options.contains 'r' || options.contains 'R'
  let rec go : List String → StateM Session Nat
    | [] => return 0
    | path :: rest => do
      let problem? : Option String ← match (← get).tree.find false ⟨path⟩ with
        | .ok (.taken loc (.dir _)) =>
          if deep then
            modify fun s => { s with tree := s.tree.remove loc }
            pure none
          else pure (some "Is a directory")
        | .ok (.taken loc _) =>
          modify fun s => { s with tree := s.tree.remove loc }
          pure none
        | _ => pure (if options.contains 'f' then none else some "No such file or directory")
      match problem? with
      | none => go rest
      | some problem =>
        complaint called ("cannot remove '" ++ path ++ "': " ++ problem)
        let _ ← go rest
        return 1
  go (args.filter (!isOption ·))

def pwd : Tool := fun _ _ => do
  modify fun s => s.say 1 ("/" ++ "/".intercalate s.tree.workingDir ++ "\n")
  return 0

def status (n : Nat) : Tool := fun _ _ => return n

/-- The tools that do not run others. -/
def named? : String → Option Tool
  | "echo" => some echo
  | "printf" => some printf
  | "cat" => some cat
  | "true" => some (status 0)
  | "false" => some (status 1)
  | "test" => some (test false)
  | "[" => some (test true)
  | "sleep" => some (status 0)
  | "head" => some head
  | "tail" => some tail
  | "wc" => some wc
  | "seq" => some seq
  | "pwd" => some pwd
  | "mkdir" => some mkdir
  | "touch" => some touch
  | "chmod" => some chmod
  | "rm" => some rm
  | _ => none

end NodeLogs.Shell.Tools
