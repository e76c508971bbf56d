import NodeLogs.OsError
import NodeLogs.Text.Utf8

/-!
File trees: what stands at each place below the root, and the single changes that a place may
undergo. A place is the list of names that lead to it from the root, links not counted.
-/

namespace NodeLogs

abbrev Location := List String

/-- A device that takes whatever is written to it, and one that is always full. -/
inductive Device where
  | null
  | full
deriving Repr, DecidableEq

inductive Entry where
  | device (d : Device)
  | file (mode : Nat) (data : Bytes)
  | dir (mode : Nat)
  | symlink (target : String)
deriving Repr, DecidableEq

/-- Whoever works on a tree: where paths that are not rooted start, which mode bits nothing new
gets, and whether files may be written whatever their modes say. -/
structure Caller where
  workingDir : Location := []
  umask : Nat := 0o022
  privileged : Bool := true
deriving Repr, DecidableEq

namespace Caller

/-- The permission bits that something new gets. -/
def masked (c : Caller) (mode : Nat) : Nat := mode &&& 0o7777 &&& (0o7777 ^^^ (c.umask &&& 0o777))

theorem masked_standard {c : Caller} (h : c.umask = 0o022) : c.masked 0o755 = 0o755 := by
  rw [masked, h]
  rfl

/-- Whether a file of the caller's own with this mode may be written. -/
def mayWrite (c : Caller) (mode : Nat) : Bool := c.privileged || mode &&& 0o200 != 0

end Caller

structure FileTree extends Caller where
  entries : List (Location × Entry)
deriving Repr, DecidableEq

namespace FileTree

/-- The directories that every host has, with the devices in one of them. -/
def bare : FileTree where
  entries :=
    [(["dev"], .dir 0o755), (["dev", "null"], .device .null), (["dev", "full"], .device .full),
      (["tmp"], .dir 0o1777), (["bin"], .dir 0o755), (["usr"], .dir 0o755),
      (["usr", "bin"], .dir 0o755)]

/-- The root is a directory that is always there. -/
def at? (t : FileTree) (loc : Location) : Option Entry :=
  if loc = [] then some (.dir 0o755) else t.entries.lookup loc

def insertEntry (loc : Location) (e : Entry) :
    List (Location × Entry) → List (Location × Entry)
  | [] => [(loc, e)]
  | (l, old) :: rest => if l = loc then (loc, e) :: rest else (l, old) :: insertEntry loc e rest

def put (t : FileTree) (loc : Location) (e : Entry) : FileTree :=
  { t with entries := insertEntry loc e t.entries }

def remove (t : FileTree) (loc : Location) : FileTree :=
  { t with entries := t.entries.filter fun (l, _) => !loc.isPrefixOf l }

theorem lookup_insertEntry (loc l : Location) (e : Entry) (es : List (Location × Entry)) :
    (insertEntry loc e es).lookup l = if l = loc then some e else es.lookup l := by
  induction es with
  | nil => simp only [insertEntry, List.lookup_cons, List.lookup_nil]; grind
  | cons p es ih =>
    obtain ⟨l', old⟩ := p
    simp only [insertEntry]
    split <;> simp only [List.lookup_cons, ih] <;> grind

theorem at?_put (t : FileTree) (loc l : Location) (e : Entry) (h : loc ≠ []) :
    (t.put loc e).at? l = if l = loc then some e else t.at? l := by
  simp only [at?, put, lookup_insertEntry]
  grind

/-- One change at one place. A file alone keeps what is written to it. -/
inductive Change where
  | makeDir (loc : Location) (mode : Nat)
  | createFile (loc : Location) (mode : Nat)
  | truncate (loc : Location)
  | append (loc : Location) (bytes : Bytes)
  | setMode (loc : Location) (mode : Nat)
deriving Repr, DecidableEq

def apply (t : FileTree) : Change → FileTree
  | .makeDir loc mode => t.put loc (.dir mode)
  | .createFile loc mode => t.put loc (.file mode [])
  | .truncate loc =>
    match t.at? loc with
    | some (.file mode _) => t.put loc (.file mode [])
    | _ => t
  | .append loc bytes =>
    match t.at? loc with
    | some (.file mode data) => t.put loc (.file mode (data ++ bytes))
    | _ => t
  | .setMode loc mode =>
    match t.at? loc with
    | some (.file _ data) => t.put loc (.file mode data)
    | _ => t

def applyAll (t : FileTree) (changes : List Change) : FileTree := changes.foldl apply t

end FileTree

end NodeLogs
