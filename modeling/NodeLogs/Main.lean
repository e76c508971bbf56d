import NodeLogs.Export
import NodeLogs.Moment
import NodeLogs.Runner.Local
import Std.Time.DateTime.Timestamp

/-!
The command line. The files that programs find on the host come as an archive on the input.
-/

namespace NodeLogs

partial def readToEnd (input : IO.FS.Stream) (data : ByteArray) : IO ByteArray := do
  let more ← input.read 65536
  if more.isEmpty then return data else readToEnd input (data ++ more)

/-- The files of an archive, as far as it can be unpacked, beside those that every host has. -/
def hostFiles (archive : Bytes) : FileTree :=
  FileTree.bare.applyAll (unpack (.ofBytes archive) ⟨"/"⟩ FileTree.bare).changes

/-- The variables that programs are given, where they are set. -/
def environment : IO (List (String × String)) :=
  ["PATH", "HOME", "TMPDIR"].filterMapM fun name => do
    return (← IO.getEnv name).map fun value => (name, value)

def printLog (log : List LogLine) : IO Unit :=
  log.forM fun l =>
    let line := "[" ++ l.level.label ++ "] " ++ l.text
    if l.level = .error then IO.eprintln line else IO.println line

end NodeLogs

open NodeLogs in
def main (args : List String) : IO UInt32 := do
  let archive ← readToEnd (← IO.getStdin) .empty
  let machine : Machine := ⟨← environment, false⟩
  let now ← Std.Time.Timestamp.now
  let moment : Moment := ⟨now.toSecondsSinceUnixEpoch.val.toNat⟩
  let (exit, h) := (Export.invoke Runner.onHost args machine.temporary moment.text).run
    ⟨hostFiles archive.toList, [], machine⟩
  printLog h.log
  exit.output.forM IO.println
  exit.errors.forM IO.eprintln
  return UInt32.ofNat exit.code
