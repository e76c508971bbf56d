import NodeLogs.Archive.Reader
import NodeLogs.Failure
import NodeLogs.FileTree.Access
import NodeLogs.Log

/-!
Unpacking an archive into a directory. Members are handled in stream order: regular files and
directories are made, members without a name are passed over, and all others are told in a
warning. The first failure ends the unpacking, and what earlier members did stays.
-/

namespace NodeLogs.Unpack

open FileTree (Change)

/-- What handling one member, or several, has changed and written to the log. -/
structure Effect where
  changes : List Change
  log : List LogLine
  result : Outcome Unit

def readingError : String := "tar reading error"

def failed (changes : List Change) (f : Failure) : Effect := ⟨changes, [], .error f⟩

/-- The failures of reading an archive are all told in one context. -/
def readingFailure (e : Archive.Error) : Failure :=
  (Failure.ofCause (.archive e)).context readingError

/-- A directory that is to exist, unless something is there already. -/
def directory (t : FileTree) (path : HostPath) : Effect :=
  match t.stat path with
  | .ok _ => ⟨[], [], .ok ()⟩
  | .error _ =>
    match t.makeDirs 0o755 path with
    | (changes, .ok ()) => ⟨changes, [], .ok ()⟩
    | (changes, .error e) =>
      failed changes
        ((Failure.ofCause (.io e)).context ("Failed to create directory " ++ path.text))

/-- What an open file gets of a member's data, and how writing it failed, if it did. -/
def fill (t : FileTree) (loc : Location) (body : Archive.Body) : List Change × Option IoError :=
  match t.write loc body.bytes with
  | .error e => ([], some e)
  | .ok written =>
    match body.cut with
    | some (.failed e) => ([written], some e)
    | _ => ([written], none)

/-- A file with a member's data and mode. The mode is set after the data was written, also when the
data broke off; a file shorter or longer than the header says is a failure. -/
def file (t : FileTree) (path : HostPath) (mode expected : Nat) (body : Archive.Body) : Effect :=
  match t.openForWriting mode path with
  | .error e =>
    failed [] ((Failure.ofCause (.io e)).context ("Failed to create " ++ path.text))
  | .ok (loc, opened) =>
    let (written, error?) := fill (t.apply opened) loc body
    let changes := opened :: written ++ [.setMode loc (mode &&& 0o7777)]
    match error? with
    | some e =>
      failed changes ((Failure.ofCause (.io e)).context ("error writing to " ++ path.text))
    | none =>
      if body.bytes.length = expected then
        ⟨changes, [.debug ("Unpacked " ++ path.text ++ s!" ({expected} bytes)")], .ok ()⟩
      else failed changes (.ofCause (.sizeMismatch path body.bytes.length expected))

/-- One member. Its name is looked at before its other fields. -/
def member (t : FileTree) (dest : HostPath) (m : Archive.Member) : Effect :=
  if m.name = "" then ⟨[], [], .ok ()⟩
  else
    match HostPath.descent? ⟨m.name⟩ with
    | none => failed [] (.ofCause (.unsafeName m.name))
    | some sub =>
      let path := dest.join sub.text
      match m.kind with
      | .regular =>
        match m.header.size, m.header.mode with
        | .error e, _ => failed [] (readingFailure e)
        | .ok _, .error e => failed [] (readingFailure e)
        | .ok size, .ok mode => file t path mode size m.body
      | .directory => directory t path
      | kind =>
        ⟨[], [.warn ("tar file entry " ++ m.name ++ " contained unsupported file type " ++
          kind.label)], .ok ()⟩

/-- The members in order up to the first failure, then the failure of reading, if any. -/
def members (t : FileTree) (dest : HostPath) (ending : Except Archive.Error Unit) :
    List Archive.Member → Effect
  | [] => ⟨[], [], ending.mapError readingFailure⟩
  | m :: rest =>
    let e := member t dest m
    match e.result with
    | .error f => ⟨e.changes, e.log, .error f⟩
    | .ok () =>
      let after := members (t.applyAll e.changes) dest ending rest
      ⟨e.changes ++ after.changes, e.log ++ after.log, after.result⟩

end Unpack

/-- Unpacks the archive that a stream holds into a directory. -/
def unpack (source : ByteSource) (dest : HostPath) (t : FileTree) : Unpack.Effect :=
  let listing := Archive.list source
  Unpack.members t dest listing.ending listing.members

end NodeLogs
