import NodeLogs.FileTree.Walk

/-!
What programs do with files and directories: look, read, create, fill. An operation that changes
the tree tells the changes; applying them is up to whoever asked. Files and directories are the
caller's own. Of what their modes can forbid, writing to a file is forbidden here; that directories
may be entered and filled, and files be read, goes without a check.
-/

namespace NodeLogs.FileTree

def stat (t : FileTree) (p : HostPath) : Except IoError (Location × Entry) := do
  match ← t.find true p with
  | .taken loc e => .ok (loc, e)
  | .free .. => .error (.os .noEntry)

def exists_ (t : FileTree) (p : HostPath) : Bool :=
  (t.stat p).toOption.isSome

def isDir (t : FileTree) (p : HostPath) : Bool :=
  match t.stat p with
  | .ok (_, .dir _) => true
  | _ => false

def contents (t : FileTree) (p : HostPath) : Except IoError Bytes := do
  match ← t.stat p with
  | (_, .file _ data) => .ok data
  | (_, .device _) => .ok []
  | (_, .dir _) => .error (.os .isDirectory)
  | (_, .symlink _) => .error (.os .noEntry)

/-- The parts of a path without the empty ones at its end. -/
def unslashed (parts : List String) : List String :=
  (parts.reverse.dropWhile (· = "")).reverse

/-- A name in a directory that does not hold it yet. A new directory in one with the set-group bit
takes that bit over. -/
def makeDir (t : FileTree) (mode : Nat) (p : HostPath) : Except IoError Change := do
  checkPath p
  match ← t.walkParts false p (unslashed p.parts) with
  | .taken .. => .error (.os .exists_)
  | .free dir name =>
    let above := match t.at? dir with
      | some (.dir m) => m &&& 0o2000
      | _ => 0
    .ok (.makeDir (dir ++ [name]) (t.masked mode ||| above))

/-- Makes a directory, after making the one above it if that is what is missing. A directory that is
there already is no error. So many levels up are tried. -/
def makeDirsUpTo (mode : Nat) : Nat → FileTree → HostPath → List Change × Except IoError Unit
  | levels, t, p =>
    if p.text = "" then ([], .ok ())
    else
      match t.makeDir mode p with
      | .ok c => ([c], .ok ())
      | .error (.os e) =>
        if e = .noEntry then
          match levels, p.parent? with
          | levels + 1, some above =>
            match makeDirsUpTo mode levels t above with
            | (changes, .error e) => (changes, .error e)
            | (changes, .ok ()) =>
              let t := t.applyAll changes
              match t.makeDir mode p with
              | .ok c => (changes ++ [c], .ok ())
              | .error e => (changes, if t.isDir p then .ok () else .error e)
          | _, _ => ([], .error (.os e))
        else ([], if t.isDir p then .ok () else .error (.os e))
      | .error e => ([], if t.isDir p then .ok () else .error e)

def makeDirs (t : FileTree) (mode : Nat) (p : HostPath) : List Change × Except IoError Unit :=
  makeDirsUpTo mode p.parts.length t p

/-- Opens a file to write it from its start: an old one is emptied and keeps its mode, a missing one
is created, and whoever creates a file may write it whatever its mode. A path that ends in a slash
can only name a directory. -/
def openForWriting (t : FileTree) (mode : Nat) (p : HostPath) :
    Except IoError (Location × Change) := do
  checkPath p
  if p.text.toList.getLast? = some '/' then
    match ← t.walkParts true p (unslashed p.parts).dropLast with
    | .taken _ (.dir _) => .error (.os .isDirectory)
    | .taken .. => .error (.os .notDirectory)
    | .free .. => .error (.os .noEntry)
  else
    match ← t.walkParts true p p.parts with
    | .taken loc (.file m _) =>
      if t.mayWrite m then .ok (loc, .truncate loc) else .error (.os .accessDenied)
    | .taken loc (.device _) => .ok (loc, .truncate loc)
    | .taken _ (.dir _) => .error (.os .isDirectory)
    | .taken _ (.symlink _) => .error (.os .tooManyLinks)
    | .free dir name => .ok (dir ++ [name], .createFile (dir ++ [name]) (t.masked mode))

/-- Writes at the end of an open file. A full device takes nothing, so that only writing nothing to
it succeeds. -/
def write (t : FileTree) (loc : Location) (data : Bytes) : Except IoError Change :=
  if t.at? loc = some (.device .full) ∧ data ≠ [] then .error (.os .noSpace)
  else .ok (.append loc data)

/-- Puts data into a file, in place of what it held. An emptied file stays so where writing
fails. -/
def writeFile (t : FileTree) (p : HostPath) (data : Bytes) : List Change × Except IoError Unit :=
  match t.openForWriting 0o666 p with
  | .error e => ([], .error e)
  | .ok (loc, opened) =>
    match (t.apply opened).write loc data with
    | .error e => ([opened], .error e)
    | .ok written => ([opened, written], .ok ())

end NodeLogs.FileTree
