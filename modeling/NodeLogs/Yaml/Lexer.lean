import NodeLogs.Yaml.Token.Reading

/-!
The tokens of a text in order. Whether a token begins a key is known only when a colon comes after
it, so a token that may begin one is held back, with all that come after it, until that is settled:
a key is one line at most and not too long. Tokens that are held back when reading comes to an
error are lost.
-/

namespace NodeLogs.Yaml

open Text (Position)

/-- A token that may begin a key. Where a line begins a new entry of a block, it must. -/
structure Candidate where
  position : Position
  required : Bool
deriving Repr, DecidableEq

def longestKey : Nat := 1024

/-- Whether it is too late for a key. -/
def Candidate.isStale (k : Candidate) (p : Position) : Bool :=
  k.position.line < p.line || k.position.column + longestKey < p.column

/-- The tokens between two brackets: those in place, a candidate, and the tokens from it on. -/
structure Level where
  settled : List Token
  candidate : Option Candidate
  since : List Token
deriving Repr, DecidableEq

namespace Level

def empty : Level := ⟨[], none, []⟩

def tokens (l : Level) : List Token := l.settled ++ l.since

def push (l : Level) (t : Token) : Level :=
  match l.candidate with
  | some _ => { l with since := l.since ++ [t] }
  | none => { l with settled := l.settled ++ [t] }

def pushAll (l : Level) (ts : List Token) : Level := ts.foldl push l

/-- The candidate begins no key. -/
def drop (l : Level) : Level := ⟨l.tokens, none, []⟩

def isRequired (l : Level) : Bool := l.candidate.any (·.required)

/-- Gives up the candidate, unless it must begin a key. -/
def release (l : Level) : Option Level := if l.isRequired then none else some l.drop

/-- Gives up the candidate if it is too late for it. -/
def refresh (p : Position) (l : Level) : Option Level :=
  if l.candidate.any (·.isStale p) then l.release else some l

/-- Puts tokens before the candidate, which begins a key. -/
def insert (l : Level) (ts : List Token) : Level := ⟨l.settled ++ ts ++ l.since, none, []⟩

end Level

/-- The margin of the innermost block is the column behind its own; outside of all blocks it is
zero. -/
structure Lexer where
  cursor : Cursor
  margin : Nat
  outerMargins : List Nat
  keyAllowed : Bool
  level : Level
  outerLevels : List Level
deriving Repr, DecidableEq

namespace Lexer

def start (c : Cursor) : Lexer := ⟨c, 0, [], true, .empty, []⟩

def inFlow (l : Lexer) : Bool := !l.outerLevels.isEmpty

def column (l : Lexer) : Nat := l.cursor.column

def push (l : Lexer) (kind : Token.Kind) : Lexer :=
  { l with level := l.level.push ⟨kind, l.cursor.position⟩ }

/-- The tokens that are not held back, of levels from the outermost in. -/
def releasedFrom : List Level → List Token
  | [] => []
  | l :: inner => l.settled ++ if l.candidate.isSome then [] else releasedFrom inner

def released (l : Lexer) : List Token := releasedFrom (l.outerLevels.reverse ++ [l.level])

/-- Passes white space, comments and line breaks. In a block a new line may begin a key, and tabs
are no indentation. -/
def passGap (flow comment keyAllowed : Bool) (p : Position) : List Char → Bool × Cursor
  | [] => (keyAllowed, ⟨p, []⟩)
  | c :: rest =>
    if isBreak c then passGap flow false (keyAllowed || !flow) (past p c) rest
    else if comment || c == ' ' || (c == '\t' && (flow || !keyAllowed)) then
      passGap flow comment keyAllowed (past p c) rest
    else if c = '#' then passGap flow true keyAllowed (past p c) rest
    else (keyAllowed, ⟨p, c :: rest⟩)

def toToken (l : Lexer) : Lexer :=
  let r := passGap l.inFlow false l.keyAllowed l.cursor.position l.cursor.rest
  { l with keyAllowed := r.1, cursor := r.2 }

def refresh (l : Lexer) : Option Lexer := do
  let level ← l.level.refresh l.cursor.position
  let outer ← l.outerLevels.mapM (Level.refresh l.cursor.position)
  return { l with level := level, outerLevels := outer }

def release (l : Lexer) : Option Lexer :=
  l.level.release.map fun level => { l with level := level }

/-- How many blocks end before a token whose column is before this depth, and the margins then. -/
def ended (depth : Nat) : Nat → List Nat → Nat × Nat × List Nat
  | margin, [] => (0, margin, [])
  | margin, m :: ms =>
    if depth < margin then
      let r := ended depth m ms
      (r.1 + 1, r.2)
    else (0, margin, m :: ms)

/-- Ends the blocks whose margins are beyond this depth. -/
def unroll (depth : Nat) (l : Lexer) : Lexer :=
  if l.inFlow then l
  else
    let r := ended depth l.margin l.outerMargins
    { l with
      margin := r.2.1
      outerMargins := r.2.2
      level := l.level.pushAll (List.replicate r.1 ⟨.blockEnd, l.cursor.position⟩) }

/-- Whether an entry at this column begins a block of its own. -/
def opensBlock (l : Lexer) (column : Nat) : Bool := !l.inFlow && l.margin ≤ column

def indent (l : Lexer) (column : Nat) : Lexer :=
  { l with margin := column + 1, outerMargins := l.margin :: l.outerMargins }

/-- Begins a block with the entry that comes here, if it belongs to none that is open. -/
def roll (kind : Token.Kind) (l : Lexer) : Lexer :=
  if l.opensBlock l.column then (l.push kind).indent l.column else l

/-- Makes the token that comes here the candidate for a key, if there may be one. -/
def saveKey (l : Lexer) : Option Lexer :=
  if l.keyAllowed then do
    let l ← l.release
    let k := ⟨l.cursor.position, !l.inFlow && l.margin == l.column + 1⟩
    return { l with level := { l.level with candidate := some k } }
  else some l

def allowKey (allowed : Bool) (l : Lexer) : Lexer := { l with keyAllowed := allowed }

/-- An entry of a block must be where a line could also begin a key. -/
def checkEntry (l : Lexer) : Option Lexer := if l.inFlow || l.keyAllowed then some l else none

/-- A colon: the candidate becomes a key, or there is none and the key is empty. -/
def enterValue (l : Lexer) : Option Lexer :=
  match l.level.candidate with
  | some k =>
    let key : Token := ⟨.key, k.position⟩
    let opening := if l.opensBlock k.position.column then [⟨.blockMapStart, k.position⟩] else []
    let l' := if l.opensBlock k.position.column then l.indent k.position.column else l
    some (({ l' with level := l.level.insert (opening ++ [key]) }.allowKey false).push .value)
  | none => do
    let l ← l.checkEntry
    return ((l.roll .blockMapStart).allowKey (!l.inFlow)).push .value

def openLevel (kind : Token.Kind) (l : Lexer) : Option Lexer := do
  let l ← l.saveKey
  let l := l.push kind
  return { l with level := .empty, outerLevels := l.level :: l.outerLevels, keyAllowed := true }

def closeLevel (kind : Token.Kind) (l : Lexer) : Option Lexer := do
  let l ← l.release
  let l := match l.outerLevels with
    | [] => l
    | outer :: more => { l with level := outer.pushAll l.level.tokens, outerLevels := more }
  return (l.allowKey false).push kind

/-- What ends all blocks. -/
def outside (kind : Token.Kind) (l : Lexer) : Option Lexer := do
  let l ← (l.unroll 0).release
  return (l.allowKey false).push kind

/-- A token that may begin a key, or be part of one. -/
def enterContent (broken : Bool) (kind : Token.Kind) (l : Lexer) : Option Lexer := do
  let l ← l.saveKey
  return (l.allowKey broken).push kind

/-- Enters a token that begins here; plain scalars may have been followed by a line break. -/
def enter (broken : Bool) (kind : Token.Kind) (l : Lexer) : Option Lexer :=
  match kind with
  | .flowSequenceStart | .flowMapStart => l.openLevel kind
  | .flowSequenceEnd | .flowMapEnd => l.closeLevel kind
  | .flowEntry => do return ((← l.release).allowKey true).push kind
  | .blockEntry => do
    let l ← l.checkEntry
    let l ← (l.roll .blockSequenceStart).release
    return (l.allowKey true).push kind
  | .key => do
    let l ← l.checkEntry
    let l ← (l.roll .blockMapStart).release
    return (l.allowKey (!l.inFlow)).push kind
  | .value => l.enterValue
  | .scalar .literal _ | .scalar .folded _ => do return ((← l.release).allowKey true).push kind
  | .alias _ | .anchor _ | .tag _ | .scalar .. => l.enterContent broken kind
  | _ => l.outside kind

/-- The end of the text counts as the beginning of a line. -/
def finish (l : Lexer) : Option Lexer :=
  let p := l.cursor.position
  let p := if p.column = 0 then p else ⟨p.line + 1, 0⟩
  ({ l with cursor := ⟨p, []⟩ }.outside .streamEnd).bind refresh

/-- Goes on to where a token begins or the text ends. -/
def arrive (l : Lexer) : Option Lexer :=
  l.toToken.refresh.map fun l => l.unroll (l.column + 1)

/-- Takes a token. -/
def take (l : Lexer) (r : Token.Reading) : Option Lexer :=
  (l.enter r.broken r.kind).bind fun l => { l with cursor := r.cursor }.refresh

end Lexer

/-- The tokens of a text as far as they can be told, and whether that is all of it. -/
structure Tokens where
  list : List Token
  complete : Bool
deriving Repr, DecidableEq

namespace Lexer

theorem length_passGap_le (flow comment keyAllowed : Bool) (p : Position) (cs : List Char) :
    (passGap flow comment keyAllowed p cs).2.rest.length ≤ cs.length := by
  fun_induction passGap flow comment keyAllowed p cs <;> grind

theorem cursor_refresh {l l' : Lexer} (h : l.refresh = some l') : l'.cursor = l.cursor := by
  obtain ⟨_, -, h⟩ := Option.bind_eq_some_iff.1 h
  obtain ⟨_, -, h⟩ := Option.bind_eq_some_iff.1 h
  cases h
  rfl

theorem cursor_unroll (depth : Nat) (l : Lexer) : (l.unroll depth).cursor = l.cursor := by
  unfold unroll
  split <;> rfl

theorem length_arrive_le {l l' : Lexer} (h : l.arrive = some l') :
    l'.cursor.rest.length ≤ l.cursor.rest.length := by
  obtain ⟨l₁, h₁, rfl⟩ := Option.map_eq_some_iff.1 h
  rw [cursor_unroll, cursor_refresh h₁]
  exact length_passGap_le ..

theorem cursor_take {l l' : Lexer} {r : Token.Reading} (h : l.take r = some l') :
    l'.cursor = r.cursor := by
  obtain ⟨l₁, -, h⟩ := Option.bind_eq_some_iff.1 h
  exact cursor_refresh h

/-- Takes the next token, or comes to the end of the text, which is told. -/
def next (l : Lexer) : Option (Bool × Lexer) := do
  let l ← l.arrive
  if l.cursor.rest = [] then return (true, ← l.finish)
  let r ← Token.Reading.next l.inFlow l.margin l.cursor
  return (false, ← l.take r)

theorem length_next_lt {l l' : Lexer} (h : l.next = some (false, l')) :
    l'.cursor.rest.length < l.cursor.rest.length := by
  obtain ⟨l₁, h₁, h⟩ := Option.bind_eq_some_iff.1 h
  split at h
  · obtain ⟨_, -, h⟩ := Option.bind_eq_some_iff.1 h
    cases h
  · obtain ⟨r, hr, h⟩ := Option.bind_eq_some_iff.1 h
    obtain ⟨l₂, h₂, h⟩ := Option.bind_eq_some_iff.1 h
    cases h
    rw [cursor_take h₂]
    exact Nat.lt_of_lt_of_le (Token.Reading.goesOn_next hr) (length_arrive_le h₁)

/-- Reads on to the end, or until something is wrong. -/
def run (l : Lexer) : Tokens :=
  match _h : l.next with
  | none => ⟨l.released, false⟩
  | some (true, l) => ⟨l.released, true⟩
  | some (false, l) => l.run
termination_by l.cursor.rest.length
decreasing_by exact length_next_lt _h

end Lexer

/-- The tokens of a text. A byte order mark at its start takes up a column. -/
def Tokens.ofText (text : List Char) : Tokens :=
  if text.all isReadable then
    match unifyBreaks text with
    | c :: rest =>
      if c = byteOrderMark then (Lexer.start ⟨Position.start.right 1, rest⟩).run
      else (Lexer.start ⟨.start, c :: rest⟩).run
    | [] => (Lexer.start ⟨.start, []⟩).run
  else ⟨[], false⟩

end NodeLogs.Yaml
