/-!
How a command ended, as the word that waiting for it yields: it exited with a code, a signal ended
it, or (of no use to a caller that waits for the end) it stopped or went on.
-/

namespace NodeLogs

structure ExitStatus where
  word : UInt32
deriving Repr, DecidableEq

namespace ExitStatus

def exited (code : UInt8) : ExitStatus := ⟨code.toUInt32 <<< 8⟩

def signaled (signal : UInt8) : ExitStatus := ⟨signal.toUInt32⟩

def isSuccess (s : ExitStatus) : Bool := s.word == 0

def signalNames : List String :=
  ["SIGHUP", "SIGINT", "SIGQUIT", "SIGILL", "SIGTRAP", "SIGABRT", "SIGBUS", "SIGFPE", "SIGKILL",
   "SIGUSR1", "SIGSEGV", "SIGUSR2", "SIGPIPE", "SIGALRM", "SIGTERM", "SIGSTKFLT", "SIGCHLD",
   "SIGCONT", "SIGSTOP", "SIGTSTP", "SIGTTIN", "SIGTTOU", "SIGURG", "SIGXCPU", "SIGXFSZ",
   "SIGVTALRM", "SIGPROF", "SIGWINCH", "SIGIO", "SIGPWR", "SIGSYS"]

/-- The name of a signal, in brackets after a blank; signals past the last named one have none. -/
def signalSuffix (n : Nat) : String :=
  match n with
  | 0 => ""
  | n + 1 =>
    match signalNames[n]? with
    | some name => " (" ++ name ++ ")"
    | none => ""

/-- The word as a signed number. -/
def signedWord (s : ExitStatus) : Int := s.word.toInt32.toInt

/-- What the word says: its low seven bits tell an exit (0), an end by a signal, or, when all are
set, a stop. -/
def text (s : ExitStatus) : String :=
  let n := s.word.toNat
  let low := n % 128
  let high := n / 256 % 256
  if low = 0 then s!"exit status: {high}"
  else if low < 127 then
    let core := if n / 128 % 2 = 1 then " (core dumped)" else ""
    s!"signal: {low}" ++ signalSuffix low ++ core
  else if n % 256 = 127 then s!"stopped (not terminated) by signal: {high}" ++ signalSuffix high
  else if n = 0xFFFF then "continued (WIFCONTINUED)"
  else s!"unrecognised wait status: {s.signedWord} 0x" ++ String.ofList (Nat.toDigits 16 n)

end ExitStatus

end NodeLogs
