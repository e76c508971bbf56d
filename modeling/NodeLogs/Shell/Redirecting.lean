import NodeLogs.Shell.Expansion

/-!
Leading streams to files and to each other. What a stream led to before is kept by whoever asks for
it, and put back afterwards.
-/

namespace NodeLogs.Shell

/-- Why a path cannot be opened, as the shell puts it. -/
def openProblem (creating : Bool) (path : String) (e : IoError) : String :=
  let reason := match e with
    | .os e =>
      if e = .noEntry ∨ e = .notDirectory then
        (if creating then "Directory nonexistent" else "No such file")
      else e.text
    | e => e.message
  (if creating then "cannot create " else "cannot open ") ++ path ++ ": " ++ reason

def openedForWriting (stream : Nat) (path : String) (keep : Bool) : Expanding Unit := do
  let s ← get
  match path with
  | "/dev/stdout" => set (s.redirect stream (s.sinks.lookup 1))
  | "/dev/stderr" => set (s.redirect stream (s.sinks.lookup 2))
  | path =>
    match s.tree.openForWriting 0o666 ⟨path⟩ with
    | .error e => throw (openProblem true path e)
    | .ok (loc, opened) =>
      let s := match opened with
        | .truncate _ => if keep then s else { s with tree := s.tree.apply opened }
        | opened => { s with tree := s.tree.apply opened }
      set (s.redirect stream (some (.file loc)))

/-- Leads a stream elsewhere. -/
def redirectOne (perform : Perform) (r : Redirection) : Expanding Unit := do
  let target ← expandText perform r.target
  match r.direction with
  | .write => openedForWriting r.stream target false
  | .append => openedForWriting r.stream target true
  | .read =>
    match (← get).tree.contents ⟨target⟩ with
    | .error e => throw (openProblem false target e)
    | .ok data => modify fun s => { s with input := data }
  | .document => modify fun s => { s with input := Utf8.encode target }
  | .duplicate =>
    if target = "-" then modify fun s => s.redirect r.stream none
    else
      match target.toNat? with
      | none => throw "Syntax error: Bad fd number"
      | some n =>
        match n, (← get).sinks.lookup n with
        | 0, _ => return
        | _, some sink => modify fun s => s.redirect r.stream (some sink)
        | n, none => throw (n.repr ++ ": Bad file descriptor")

def redirectAll (perform : Perform) : List Redirection → Expanding Unit
  | [] => return
  | r :: rest => do
    redirectOne perform r
    redirectAll perform rest

/-- Streams as they were before. -/
def restoreStreams (before : Session) (rs : List Redirection) (s : Session) : Session :=
  { s with
    sinks := before.sinks
    input := if rs.any fun r => r.direction = .read || r.direction = .document
      then before.input else s.input }

end NodeLogs.Shell
