import NodeLogs.FileTree.Access

/-!
Laying out a tree item by item, and listing what is below a place.
-/

namespace NodeLogs.FileTree

inductive Item where
  | file (path : HostPath) (data : Bytes) (mode : Nat)
  | dir (path : HostPath) (mode : Option Nat)
  | symlink (path : HostPath) (target : String)
deriving Repr, DecidableEq

/-- Sets the mode of what a path leads to. -/
def chmod (t : FileTree) (p : HostPath) (mode : Nat) : FileTree :=
  match t.stat p with
  | .ok (loc, .file _ data) => t.put loc (.file mode data)
  | .ok (loc, .dir _) => t.put loc (.dir mode)
  | _ => t

/-- Adds an item. The directories above a file or directory are made where they are missing; what
cannot be made is left out. -/
def lay (t : FileTree) : Item → FileTree
  | .file path data mode =>
    let t := match path.parent? with
      | some above => t.applyAll (t.makeDirs 0o777 above).1
      | none => t
    (t.applyAll (t.writeFile path data).1).chmod path mode
  | .dir path mode =>
    let t := t.applyAll (t.makeDirs 0o777 path).1
    match mode with
    | some mode => t.chmod path mode
    | none => t
  | .symlink path target =>
    match t.find false path with
    | .ok (.free dir name) => t.put (dir ++ [name]) (.symlink target)
    | _ => t

/-- Takes away the file or link that a path leads to; a link at its end is not followed. -/
def unlink (t : FileTree) (p : HostPath) : FileTree :=
  match t.find false p with
  | .ok (.taken _ (.dir _)) => t
  | .ok (.taken loc _) => t.remove loc
  | _ => t

/-- What is below a place, by the path from there, in the order of these paths. -/
def listing (t : FileTree) (below : Location) : List (String × Entry) :=
  (t.entries.filterMap fun (loc, e) =>
    if below.isPrefixOf loc ∧ loc ≠ below then
      some ("/".intercalate (loc.drop below.length), e)
    else none).mergeSort fun a b => a.1 ≤ b.1

end NodeLogs.FileTree
