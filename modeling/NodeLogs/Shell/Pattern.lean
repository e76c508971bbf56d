/-!
Patterns of the shell: a star stands for any text, a question mark for any character, brackets for
one of several characters.
-/

namespace NodeLogs.Shell

/-- A character, and whether it was quoted. -/
structure Mark where
  char : Char
  quoted : Bool
deriving Repr, DecidableEq

namespace Pattern

inductive Item where
  | char (c : Char)
  | any
  | star
  | oneOf (negated : Bool) (ranges : List (Char × Char))
deriving Repr, DecidableEq

/-- The ranges between brackets. The first character does not close them. -/
def ranges (first : Bool) : List Mark → Option (List (Char × Char) × List Mark)
  | [] => none
  | a :: ⟨'-', false⟩ :: b :: rest =>
    if a = ⟨']', false⟩ ∧ ¬ first then some ([], ⟨'-', false⟩ :: b :: rest)
    else if b = ⟨']', false⟩ then some ([(a.char, a.char), ('-', '-')], rest)
    else (ranges false rest).map fun r => ((a.char, b.char) :: r.1, r.2)
  | a :: rest =>
    if a = ⟨']', false⟩ ∧ ¬ first then some ([], rest)
    else (ranges false rest).map fun r => ((a.char, a.char) :: r.1, r.2)

def bracket : List Mark → Option (Item × List Mark)
  | ⟨'!', false⟩ :: rest => (ranges true rest).map fun r => (.oneOf true r.1, r.2)
  | rest => (ranges true rest).map fun r => (.oneOf false r.1, r.2)

/-- The items of a pattern; every item takes at least one character. -/
def itemsUpTo : Nat → List Mark → List Item
  | 0, _ | _, [] => []
  | n + 1, ⟨c, quoted⟩ :: rest =>
    if quoted then .char c :: itemsUpTo n rest
    else if c = '*' then .star :: itemsUpTo n rest
    else if c = '?' then .any :: itemsUpTo n rest
    else if c = '[' then
      match bracket rest with
      | some (item, rest) => item :: itemsUpTo n rest
      | none => .char c :: itemsUpTo n rest
    else .char c :: itemsUpTo n rest

def items (marks : List Mark) : List Item := itemsUpTo marks.length marks

def Item.accepts (c : Char) : Item → Bool
  | .char x => x == c
  | .any | .star => true
  | .oneOf negated ranges => (ranges.any fun (a, b) => a ≤ c && c ≤ b) != negated

def fits : List Item → List Char → Bool
  | [], s => s.isEmpty
  | .star :: rest, s => fitsTail rest s
  | _ :: _, [] => false
  | item :: rest, c :: s => item.accepts c && fits rest s
where
  /-- Whether the items fit the text or any end of it. -/
  fitsTail (rest : List Item) : List Char → Bool
    | [] => fits rest []
    | c :: s => fits rest (c :: s) || fitsTail rest s

def admits (marks : List Mark) (s : List Char) : Bool := fits (items marks) s

/-- Whether anything in it is more than a character. -/
def isPlain (marks : List Mark) : Bool :=
  marks.all fun m => m.quoted || !("*?[".toList.contains m.char)

/-- The text that a pattern is written with. -/
def text (marks : List Mark) : List Char := marks.map (·.char)

end Pattern

end NodeLogs.Shell
