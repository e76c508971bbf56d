/-!
Arithmetic on whole numbers of 64 bits, as it is written in scripts. Text is cut into tokens, which
are read as an expression; its value may depend on what names hold, and it may give values to names.
-/

namespace NodeLogs.Shell.Arithmetic

/-- An expression. The second part of an and, or or choice counts only where it is needed. -/
inductive Expr where
  | number (n : Int)
  | name (s : String)
  | unary (operator : String) (e : Expr)
  | binary (operator : String) (a b : Expr)
  | both (a b : Expr)
  | either (a b : Expr)
  | choice (condition yes no : Expr)
  | assign (name : String) (operator : Option String) (e : Expr)
deriving Repr, DecidableEq

inductive Token where
  | number (n : Int)
  | name (s : String)
  | operator (s : String)
  | other
deriving Repr, DecidableEq

/-- What is wrong, in the expression or by itself. -/
inductive Problem where
  | within (text : String)
  | alone (text : String)
deriving Repr, DecidableEq

/-- The operators, longer ones first. -/
def operators : List String :=
  ["<<=", ">>=", "||", "&&", "==", "!=", "<=", ">=", "<<", ">>", "+=", "-=", "*=", "/=", "%=", "&=",
    "|=", "^=", "|", "^", "&", "<", ">", "+", "-", "*", "/", "%", "!", "~", "(", ")", "?", ":", "="]

/-- The operators that give a value to a name, each with what it does to the old value first. -/
def assigning : List (String × Option String) :=
  [("=", none), ("<<=", some "<<"), (">>=", some ">>"), ("+=", some "+"), ("-=", some "-"),
    ("*=", some "*"), ("/=", some "/"), ("%=", some "%"), ("&=", some "&"), ("|=", some "|"),
    ("^=", some "^")]

def isNamePart (c : Char) : Bool := c.isAlphanum || c == '_'

def digitValue (c : Char) : Nat :=
  if c.isDigit then c.toNat - 48
  else if c.isLower then c.toNat - 87
  else if c.isUpper then c.toNat - 55
  else 99

def largest : Int := 0x7fffffffffffffff

/-- The number that text begins with, its base told by how it begins, and what follows. -/
def leadingNumber (cs : List Char) : Int × List Char :=
  let digits (base : Nat) (cs : List Char) : Int × List Char :=
    let isDigit (c : Char) : Bool := digitValue c < base
    let n : Nat := (cs.takeWhile isDigit).foldl (fun n c => n * base + digitValue c) 0
    (min largest n, cs.dropWhile isDigit)
  match cs with
  | '0' :: x :: c :: rest =>
    if (x = 'x' ∨ x = 'X') ∧ digitValue c < 16 then digits 16 (c :: rest) else digits 8 cs
  | '0' :: _ => digits 8 cs
  | cs => digits 10 cs

def tokensUpTo : Nat → List Char → List Token
  | 0, _ | _, [] => []
  | n + 1, c :: rest =>
    if c.isWhitespace then tokensUpTo n rest
    else if c.isDigit then
      let (v, rest) := leadingNumber (c :: rest)
      .number v :: tokensUpTo n rest
    else if isNamePart c then
      let name := String.ofList ((c :: rest).takeWhile isNamePart)
      .name name :: tokensUpTo n (rest.dropWhile isNamePart)
    else
      match operators.find? fun o => o.toList.isPrefixOf (c :: rest) with
      | some o => .operator o :: tokensUpTo n ((c :: rest).drop o.length)
      | none => .other :: tokensUpTo n rest

def tokens (text : List Char) : List Token := tokensUpTo text.length text

/-- The operators that join two operands, those that bind least first. -/
def levels : List (List String) :=
  [["||"], ["&&"], ["|"], ["^"], ["&"], ["==", "!="], ["<=", ">=", "<", ">"], ["<<", ">>"],
    ["+", "-"], ["*", "/", "%"]]

def join (operator : String) (a b : Expr) : Expr :=
  match operator with
  | "||" => .either a b
  | "&&" => .both a b
  | o => .binary o a b

mutual

/-- A value with its signs, or an expression in brackets. -/
def primary (fuel : Nat) (ts : List Token) : Except String (Expr × List Token) :=
  match fuel with
  | 0 => .error "expecting primary"
  | fuel + 1 =>
    match ts with
    | .number n :: rest => .ok (.number n, rest)
    | .name s :: rest => .ok (.name s, rest)
    | .operator "(" :: rest => do
      match ← assignment fuel rest with
      | (e, .operator ")" :: rest) => return (e, rest)
      | _ => throw "expecting ')'"
    | .operator o :: rest =>
      if ["-", "+", "!", "~"].contains o then do
        let (e, rest) ← primary fuel rest
        return (.unary o e, rest)
      else .error "expecting primary"
    | _ => .error "expecting primary"

/-- Operands that the operators of a level join from left to right. -/
def level (fuel : Nat) (ls : List (List String)) (ts : List Token) :
    Except String (Expr × List Token) :=
  match fuel with
  | 0 => .error "expecting primary"
  | fuel + 1 =>
    match ls with
    | [] => primary fuel ts
    | these :: tighter => do
      let (e, rest) ← level fuel tighter ts
      joined fuel these tighter e rest

def joined (fuel : Nat) (these : List String) (tighter : List (List String)) (a : Expr)
    (ts : List Token) : Except String (Expr × List Token) :=
  match fuel with
  | 0 => .error "expecting primary"
  | fuel + 1 =>
    match ts with
    | .operator o :: rest =>
      if these.contains o then do
        let (b, rest) ← level fuel tighter rest
        joined fuel these tighter (join o a b) rest
      else .ok (a, ts)
    | _ => .ok (a, ts)

def conditional (fuel : Nat) (ts : List Token) : Except String (Expr × List Token) :=
  match fuel with
  | 0 => .error "expecting primary"
  | fuel + 1 => do
    match ← level fuel levels ts with
    | (condition, .operator "?" :: rest) =>
      match ← assignment fuel rest with
      | (yes, .operator ":" :: rest) =>
        let (no, rest) ← conditional fuel rest
        return (.choice condition yes no, rest)
      | _ => throw "expecting ':'"
    | found => return found

def assignment (fuel : Nat) (ts : List Token) : Except String (Expr × List Token) :=
  match fuel with
  | 0 => .error "expecting primary"
  | fuel + 1 =>
    match ts with
    | .name s :: .operator o :: rest =>
      match assigning.lookup o with
      | some operator => do
        let (e, rest) ← assignment fuel rest
        return (.assign s operator e, rest)
      | none => conditional fuel ts
    | ts => conditional fuel ts

end

/-- Reads an expression, which must be all that there is. -/
def read (ts : List Token) : Except String Expr := do
  match ← assignment (16 * (ts.length + 1)) ts with
  | (e, []) => return e
  | _ => throw "expecting EOF"

def ofBool (b : Bool) : Int := if b then 1 else 0

/-- The number of 64 bits that a whole number falls on. -/
def wrap (n : Int) : Int := Int.bmod n 0x10000000000000000

def bits (n : Int) : Nat := (n % 0x10000000000000000).toNat

/-- What an operator makes of two numbers; nothing can be divided by zero. -/
def apply (operator : String) (a b : Int) : Except Problem Int :=
  match operator with
  | "|" => .ok (wrap (bits a ||| bits b))
  | "^" => .ok (wrap (bits a ^^^ bits b))
  | "&" => .ok (wrap (bits a &&& bits b))
  | "==" => .ok (ofBool (a = b))
  | "!=" => .ok (ofBool (a ≠ b))
  | "<=" => .ok (ofBool (a ≤ b))
  | ">=" => .ok (ofBool (b ≤ a))
  | "<" => .ok (ofBool (a < b))
  | ">" => .ok (ofBool (b < a))
  | "<<" => .ok (wrap (bits a <<< (b % 64).toNat))
  | ">>" => .ok (a.fdiv (Nat.pow 2 (b % 64).toNat))
  | "+" => .ok (wrap (a + b))
  | "-" => .ok (wrap (a - b))
  | "*" => .ok (wrap (a * b))
  | "/" => if b = 0 then .error (.within "division by zero") else .ok (wrap (a.tdiv b))
  | _ => if b = 0 then .error (.within "division by zero") else .ok (a.tmod b)

def applyUnary (operator : String) (n : Int) : Int :=
  match operator with
  | "-" => wrap (-n)
  | "!" => ofBool (n = 0)
  | "~" => -n - 1
  | _ => n

/-- The number that a value is. -/
def numberOf (text : String) : Except Problem Int :=
  let (negative, digits) := match text.toList.dropWhile Char.isWhitespace with
    | '-' :: digits => (true, digits)
    | '+' :: digits => (false, digits)
    | digits => (false, digits)
  match digits with
  | c :: _ =>
    let (n, rest) := leadingNumber digits
    if c.isDigit && rest.all Char.isWhitespace then .ok (if negative then -n else n)
    else .error (.alone ("Illegal number: " ++ text))
  | [] => if text = "" then .ok 0 else .error (.alone ("Illegal number: " ++ text))

/-- What names hold: some have been given values, the others hold what they did. Some are fixed. -/
structure Store where
  old : String → Option String
  isFixed : String → Bool
  given : List (String × String)

def Store.value (s : Store) (name : String) : Except Problem Int :=
  match (s.given.lookup name).orElse fun _ => s.old name with
  | none => .ok 0
  | some text => numberOf text

def Store.give (s : Store) (name : String) (n : Int) : Except Problem Store :=
  if s.isFixed name then .error (.alone (name ++ ": is read only"))
  else .ok { s with given := (name, toString n) :: s.given }

/-- The value of an expression, with what names hold afterwards. -/
def Expr.value (s : Store) : Expr → Except Problem (Int × Store)
  | .number n => .ok (n, s)
  | .name x => do return (← s.value x, s)
  | .unary o e => do
    let (n, s) ← e.value s
    return (applyUnary o n, s)
  | .binary o a b => do
    let (m, s) ← a.value s
    let (n, s) ← b.value s
    return (← apply o m n, s)
  | .both a b => do
    let (m, s) ← a.value s
    if m = 0 then return (0, s)
    let (n, s) ← b.value s
    return (ofBool (n ≠ 0), s)
  | .either a b => do
    let (m, s) ← a.value s
    if m ≠ 0 then return (1, s)
    let (n, s) ← b.value s
    return (ofBool (n ≠ 0), s)
  | .choice c a b => do
    let (m, s) ← c.value s
    if m ≠ 0 then a.value s else b.value s
  | .assign x o e => do
    let (n, s) ← e.value s
    let n ← match o with
      | none => pure n
      | some o => apply o (← s.value x) n
    return (n, ← s.give x n)

/-- The message about a problem in an expression. -/
def Problem.message (expression : List Char) : Problem → String
  | .alone text => text
  | .within text =>
    "arithmetic expression: " ++ text ++ ": \"" ++ String.ofList expression ++ "\""

/-- The value of what is written, and the values that names have been given, the newest first. -/
def evaluate (old : String → Option String) (isFixed : String → Bool) (text : List Char) :
    Except String (Int × List (String × String)) :=
  match tokens text with
  | [] => .ok (0, [])
  | ts =>
    match read ts with
    | .error problem => .error (Problem.message text (.within problem))
    | .ok e =>
      match e.value ⟨old, isFixed, []⟩ with
      | .error problem => .error (problem.message text)
      | .ok (n, s) => .ok (n, s.given)

end NodeLogs.Shell.Arithmetic
