/-!
Log lines, in the order in which they are written.
-/

namespace NodeLogs

inductive Level where
  | error
  | warn
  | info
  | debug
deriving Repr, DecidableEq

namespace Level

def label : Level → String
  | .error => "ERROR"
  | .warn => "WARN"
  | .info => "INFO"
  | .debug => "DEBUG"

end Level

structure LogLine where
  level : Level
  text : String
deriving Repr, DecidableEq

namespace LogLine

def warn (text : String) : LogLine := ⟨.warn, text⟩
def info (text : String) : LogLine := ⟨.info, text⟩
def debug (text : String) : LogLine := ⟨.debug, text⟩
def error (text : String) : LogLine := ⟨.error, text⟩

end LogLine

/-- The texts of the warnings. -/
def warnings (log : List LogLine) : List String :=
  (log.filter (·.level = .warn)).map (·.text)

end NodeLogs
