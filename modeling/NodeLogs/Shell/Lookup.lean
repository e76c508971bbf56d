import NodeLogs.Shell.Flow

/-!
How a program is found and what it is: one of the tools that every host has, or a file that tells
in its first line what runs it.
-/

namespace NodeLogs.Shell

/-- The tools that every host has. -/
def toolNames : List String :=
  ["sh", "dash", "env", "echo", "printf", "cat", "true", "false", "test", "[", "sleep", "head",
    "tail", "wc", "seq", "pwd", "mkdir", "touch", "chmod", "rm"]

def toolDirs : List String := ["/bin/", "/usr/bin/"]

/-- The tool at a path. -/
def toolAt? (path : String) : Option String :=
  toolNames.find? fun name => toolDirs.any fun dir => dir ++ name = path

def isExecutable (mode : Nat) : Bool := mode &&& 0o111 != 0

/-- The program that a first line names, and its one argument if it has any. -/
def interpreter? (data : Bytes) : Option (String × Option String) :=
  match data with
  | 35 :: 33 :: rest =>
    let isBlank (c : Char) : Bool := c == ' ' || c == '\t'
    let line := (Utf8.decodeLossy ((rest.take 253).takeWhile (· ≠ 10))).toList.dropWhile isBlank
    let line := (line.reverse.dropWhile isBlank).reverse
    let name := line.takeWhile fun c => !isBlank c
    let more := (line.dropWhile fun c => !isBlank c).dropWhile isBlank
    if name.isEmpty then none
    else some (String.ofList name, if more.isEmpty then none else some (String.ofList more))
  | _ => none

/-- What running the file at a path comes to. A program named in a first line may itself be run by
another, so many times. -/
def loadUpTo (t : FileTree) : Nat → String → String → List String → Except OsError Launch
  | n, path, called, args =>
    match toolAt? path with
    | some tool => .ok ⟨tool, called, args⟩
    | none =>
      match t.stat ⟨path⟩ with
      | .error (.os e) => .error e
      | .error _ => .error .noEntry
      | .ok (_, .file mode data) =>
        if !isExecutable mode then .error .accessDenied
        else
          match interpreter? data, n with
          | none, _ => .error .badExecutable
          | some _, 0 => .error .tooManyLinks
          | some (name, option), n + 1 => loadUpTo t n name name (option.toList ++ path :: args)
      | .ok _ => .error .accessDenied

def load (t : FileTree) (path called : String) (args : List String) : Except OsError Launch :=
  loadUpTo t 5 path called args

/-- Searches directories for a program. A file that may not be run is told of only if no other is
found. -/
def search (t : FileTree) (name : String) (args : List String) (denied : Bool) :
    List String → Except OsError Launch
  | [] => .error (if denied then .accessDenied else .noEntry)
  | dir :: rest =>
    match load t (if dir = "" then name else dir ++ "/" ++ name) name args with
    | .ok launch => .ok launch
    | .error e =>
      if e = .accessDenied then search t name args true rest
      else if e = .noEntry ∨ e = .notDirectory then search t name args denied rest
      else .error e

def standardPath : String := "/usr/local/sbin:/usr/local/bin:/usr/sbin:/usr/bin:/sbin:/bin"

/-- Finds a program by its name; a name with a slash is a path. -/
def find (t : FileTree) (path : Option String) (name : String) (args : List String) :
    Except OsError Launch :=
  if name = "" then .error .noEntry
  else if name.contains '/' then load t name name args
  else if FileTree.longestName < name.utf8ByteSize then .error .nameTooLong
  else search t name args false (Text.split ':' (path.getD "/bin:/usr/bin"))

end NodeLogs.Shell
