import NodeLogs.Shell.Session

/-!
Conditions: what files are, whether texts are equal, how numbers compare.
-/

namespace NodeLogs.Shell.Condition

def number (s : String) : Except String Int :=
  let text := s.trimAscii.toString
  match text.toInt? with
  | some n => .ok n
  | none => .error ("Illegal number: " ++ s)

def isUnary (o : String) : Bool :=
  ["-n", "-z", "-e", "-f", "-d", "-r", "-w", "-x", "-s", "-h", "-L"].contains o

def isBinary (o : String) : Bool :=
  ["=", "!=", "-eq", "-ne", "-lt", "-le", "-gt", "-ge"].contains o

def unary (t : FileTree) (o x : String) : Bool :=
  match o with
  | "-n" => x ≠ ""
  | "-z" => x = ""
  | "-h" | "-L" =>
    match t.find false ⟨x⟩ with
    | .ok (.taken _ (.symlink _)) => true
    | _ => false
  | o =>
    match t.stat ⟨x⟩ with
    | .error _ => false
    | .ok (_, e) =>
      match o, e with
      | "-f", .file .. => true
      | "-f", _ => false
      | "-d", .dir _ => true
      | "-d", _ => false
      | "-s", .file _ data => !data.isEmpty
      | "-x", .file mode _ => mode &&& 0o111 != 0
      | _, _ => true

def binary (o a b : String) : Except String Bool :=
  match o with
  | "=" => .ok (a = b)
  | "!=" => .ok (a ≠ b)
  | o => do
    let a ← number a
    let b ← number b
    return match o with
      | "-eq" => a = b
      | "-ne" => a ≠ b
      | "-lt" => a < b
      | "-le" => a ≤ b
      | "-gt" => b < a
      | _ => b ≤ a

/-- A condition with no and, or in it. -/
def simple (t : FileTree) : List String → Except String Bool
  | [] => .ok false
  | [x] => .ok (x ≠ "")
  | [o, x] =>
    if o = "!" then .ok (x = "")
    else if isUnary o then .ok (unary t o x)
    else .error (o ++ ": unexpected operator")
  | [a, o, b] =>
    if isBinary o then binary o a b
    else if a = "!" then (simple t [o, b]).map (!·)
    else if a = "(" ∧ b = ")" then simple t [o]
    else .error (a ++ ": unexpected operator")
  | a :: rest =>
    if a = "!" then (simple t rest).map (!·)
    else .error (rest.headD a ++ ": unexpected operator")

/-- The parts between an operator. -/
def splitAt (o : String) : List String → List (List String)
  | [] => [[]]
  | x :: rest =>
    match splitAt o rest with
    | part :: parts => if x = o then [] :: part :: parts else (x :: part) :: parts
    | [] => [[x]]

/-- Whether a condition holds; an or binds less than an and. -/
def holds (t : FileTree) (args : List String) : Except String Bool :=
  if args.length ≤ 3 then simple t args
  else
    (splitAt "-o" args).foldlM (fun found part => do
      let here ← (splitAt "-a" part).foldlM (fun all p => do return all && (← simple t p)) true
      return found || here) false

end NodeLogs.Shell.Condition
