import NodeLogs.Text.Lines

/-!
The command line's arguments. A value may follow its option as the next argument or be attached to
it; after `--` everything is positional. What an argument gives is settled when the next one is
looked at, so that an option left without its value is found then, but an unknown argument is
reported before that.
-/

namespace NodeLogs

structure Options where
  output : Option String
  name : Option String
  nodes : List String
  provider : Option String
  config : Option String
  verbose : Bool
deriving Repr, DecidableEq

namespace Options

def unset : Options := ⟨none, none, [], none, none, false⟩

/-- Why arguments are not taken: help was asked for (the longer one or the shorter), or they are
wrong. -/
inductive Refusal where
  | help (long : Bool)
  | unknownArgument
  | conflict
  | invalidValue
  | tooManyValues
deriving Repr, DecidableEq

inductive Parameter where
  | output
  | name
  | nodes
  | provider
  | config
  | verbose
  | help
deriving Repr, DecidableEq

namespace Parameter

def takesValue : Parameter → Bool
  | .verbose | .help => false
  | _ => true

def ofLong? : String → Option Parameter
  | "name" => some .name
  | "nodes" => some .nodes
  | "provider" => some .provider
  | "config" => some .config
  | "verbose" => some .verbose
  | "help" => some .help
  | _ => none

def ofShort? : Char → Option Parameter
  | 'n' => some .name
  | 'c' => some .config
  | 'v' => some .verbose
  | 'h' => some .help
  | _ => none

end Parameter

/-- An option that has come up and is not settled yet, with its value if that has come too. -/
structure Pending where
  parameter : Parameter
  value : Option String
deriving Repr, DecidableEq

/-- What has been settled, what is pending, and whether the one positional argument has come. -/
structure State where
  options : Options
  pending : Option Pending
  positional : Bool
deriving Repr, DecidableEq

/-- A single value may be given once. -/
def once {α : Type} (old : Option α) (value : α) : Except Refusal (Option α) :=
  if old.isSome then .error .conflict else .ok (some value)

/-- A path is not empty. -/
def oncePath (old : Option String) (value : String) : Except Refusal (Option String) := do
  let path ← once old value
  if value = "" then .error .invalidValue else .ok path

/-- Enters a value; node names are separated by commas and add up. -/
def enter (o : Options) (value : String) : Parameter → Except Refusal Options
  | .output => do return { o with output := ← oncePath o.output value }
  | .name => do return { o with name := ← once o.name value }
  | .nodes => .ok { o with nodes := o.nodes ++ Text.split ',' value }
  | .provider => do return { o with provider := ← once o.provider value }
  | .config => do return { o with config := ← oncePath o.config value }
  | .verbose => if o.verbose then .error .conflict else .ok { o with verbose := true }
  | .help => .error (.help true)

namespace State

def start : State := ⟨unset, none, false⟩

/-- Settles what is pending; a value that has not come is missing. -/
def settle (s : State) : Except Refusal State :=
  match s.pending with
  | none => .ok s
  | some ⟨_, none⟩ => .error .invalidValue
  | some ⟨p, some value⟩ => do
    return { s with options := ← s.options.enter value p, pending := none }

def flag (s : State) (p : Parameter) : Except Refusal State := do
  let s ← s.settle
  return { s with options := ← s.options.enter "" p }

/-- An option with the value attached to it, or else with one to come. -/
def valued (s : State) (p : Parameter) (attached : Option String) : Except Refusal State := do
  let s ← s.settle
  match attached with
  | some value => return { s with options := ← s.options.enter value p }
  | none => return { s with pending := some ⟨p, none⟩ }

def awaiting? (s : State) : Option Parameter :=
  match s.pending with
  | some ⟨p, none⟩ => some p
  | _ => none

/-- Only one argument may be positional. -/
def place (s : State) (arg : String) : Except Refusal State := do
  if s.positional then throw .unknownArgument
  let s ← s.settle
  return { s with pending := some ⟨.output, some arg⟩, positional := true }

/-- An argument after two dashes, with what follows an equals sign as its value. -/
def long (s : State) (body : List Char) : Except Refusal State :=
  let name := String.ofList (body.takeWhile (· ≠ '='))
  let attached := match body.dropWhile (· ≠ '=') with
    | [] => none
    | _ :: value => some (String.ofList value)
  match Parameter.ofLong? name, attached with
  | none, _ => .error .unknownArgument
  | some p, attached =>
    if p.takesValue then s.valued p attached
    else if attached.isSome then .error .tooManyValues
    else s.flag p

/-- Letters after one dash: flags, up to one that takes the rest as its value. -/
def short (s : State) : List Char → Except Refusal State
  | [] => .ok s
  | c :: rest =>
    match Parameter.ofShort? c with
    | none => .error .unknownArgument
    | some p =>
      if p.takesValue then
        match rest with
        | [] => s.valued p none
        | '=' :: value => s.valued p (some (String.ofList value))
        | value => s.valued p (some (String.ofList value))
      else if p = .help then do
        let _ ← s.settle
        .error (.help false)
      else do
        let s ← s.flag p
        s.short rest

end State

/-- The arguments in turn; `trailing` once two dashes have been passed. -/
def parseFrom (s : State) (trailing : Bool) : List String → Except Refusal State
  | [] => s.settle
  | arg :: rest => do
    if trailing then parseFrom (← s.place arg) true rest
    else match arg.toList with
      | ['-', '-'] => parseFrom s true rest
      | '-' :: '-' :: body => parseFrom (← s.long body) false rest
      | '-' :: c :: body => parseFrom (← s.short (c :: body)) false rest
      | _ =>
        match s.awaiting? with
        | some p => parseFrom { s with pending := some ⟨p, some arg⟩ } false rest
        | none => parseFrom (← s.place arg) false rest

def parse (args : List String) : Except Refusal Options :=
  (parseFrom .start false args).map State.options

end Options

end NodeLogs
