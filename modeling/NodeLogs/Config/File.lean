import NodeLogs.Config.Text
import NodeLogs.Runner

/-!
Configurations in files. A file that is named but missing is made, with the standard configuration.
-/

namespace NodeLogs.Config

variable {σ : Type}

/-- What a file holds as text. -/
def readText (t : FileTree) (p : HostPath) : Except IoError String := do
  match Utf8.decode? (← t.contents p) with
  | none => throw .notText
  | some text => return text

def load (p : HostPath) : Hosted σ (Outcome Config) := do
  match readText (← get).tree p with
  | .error e =>
    return .error ((Failure.ofCause (.io e)).context ("Failed to read config file: " ++ p.text))
  | .ok text =>
    match ofText text with
    | .error e =>
      return .error ((Failure.ofCause (.config e)).context "Failed to parse YAML config")
    | .ok c =>
      modify (Host.note (.debug ("Loaded configuration from " ++ p.text)))
      return .ok c

def save (c : Config) (p : HostPath) : Hosted σ (Outcome Unit) := do
  let (changes, result) := (← get).tree.writeFile p (Utf8.encode c.toText)
  modify (Host.change changes)
  match result with
  | .error e =>
    return .error ((Failure.ofCause (.io e)).context ("Failed to write config to " ++ p.text))
  | .ok () =>
    modify (Host.note (.info ("Saved configuration to " ++ p.text)))
    return .ok ()

/-- The configuration of a file, or the standard one if none is named or the named one is
missing. -/
def loadOrCreate : Option HostPath → Hosted σ (Outcome Config)
  | none => return .ok standard
  | some p => do
    if (← get).tree.exists_ p then load p
    else
      modify (Host.note (.info ("Config file " ++ p.text ++ " not found, creating default")))
      return (← save standard p).map fun () => standard

end NodeLogs.Config
