import NodeLogs.FileTree.Basic
import NodeLogs.HostPath

/-!
Where a path leads in a tree. The parts of a path are followed one after the other from the root
or the working directory; a symbolic link stands for the path it holds.
-/

namespace NodeLogs.FileTree

/-- The end of a path: an entry, or a name that is free in a directory. -/
inductive Spot where
  | taken (loc : Location) (e : Entry)
  | free (dir : Location) (name : String)
deriving Repr, DecidableEq

def longestName : Nat := 255
def longestPath : Nat := 4095
def mostLinks : Nat := 40

/-- Follows the parts of a path from a directory. Only so many links are followed; the last part,
where it is a link, is followed if the caller wants that or a slash comes after it. What a slash
comes after is missing where nothing stands. -/
def walk (t : FileTree) (followLast : Bool) (links : Nat) (loc : Location) :
    List String → Except OsError Spot
  | [] =>
    match t.at? loc with
    | some e => .ok (.taken loc e)
    | none => .error .noEntry
  | part :: rest =>
    if part = "" ∨ part = "." then t.walk followLast links loc rest
    else if part = ".." then t.walk followLast links loc.dropLast rest
    else if longestName < part.utf8ByteSize then .error .nameTooLong
    else
      match t.at? (loc ++ [part]) with
      | none => if rest = [] then .ok (.free loc part) else .error .noEntry
      | some (.dir mode) =>
        if rest = [] then .ok (.taken (loc ++ [part]) (.dir mode))
        else t.walk followLast links (loc ++ [part]) rest
      | some (.file mode data) =>
        if rest = [] then .ok (.taken (loc ++ [part]) (.file mode data)) else .error .notDirectory
      | some (.device d) =>
        if rest = [] then .ok (.taken (loc ++ [part]) (.device d)) else .error .notDirectory
      | some (.symlink target) =>
        if rest = [] ∧ followLast = false then .ok (.taken (loc ++ [part]) (.symlink target))
        else if target = "" then .error .noEntry
        else
          match links with
          | 0 => .error .tooManyLinks
          | links + 1 =>
            t.walk followLast links (if HostPath.isRooted ⟨target⟩ then [] else loc)
              (HostPath.parts ⟨target⟩ ++ rest)
termination_by parts => (links, parts.length)

/-- A path that can be asked for: not empty, not too long, and without a NUL. -/
def checkPath (p : HostPath) : Except IoError Unit :=
  if p.text.contains '\x00' then .error .nulInPath
  else if p.text = "" then .error (.os .noEntry)
  else if longestPath < p.text.utf8ByteSize then .error (.os .nameTooLong)
  else .ok ()

def walkParts (t : FileTree) (followLast : Bool) (p : HostPath) (parts : List String) :
    Except IoError Spot :=
  (t.walk followLast mostLinks (if p.isRooted then [] else t.workingDir) parts).mapError .os

def find (t : FileTree) (followLast : Bool) (p : HostPath) : Except IoError Spot := do
  checkPath p
  t.walkParts followLast p p.parts

end NodeLogs.FileTree
