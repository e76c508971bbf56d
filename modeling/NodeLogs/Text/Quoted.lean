import NodeLogs.Text.Printable

/-!
Text in quotes, for messages that must show every character: quotes and backslashes are escaped,
and characters that could not be seen, or would melt into the one before, stand as code points.
-/

namespace NodeLogs.Text

/-- The shortest lower-case hexadecimal text of a number. -/
def hex (n : Nat) : List Char :=
  Nat.toDigits 16 n

def escape (c : Char) : List Char :=
  if c = '"' then ['\\', '"']
  else if c = '\\' then ['\\', '\\']
  else if c = '\n' then ['\\', 'n']
  else if c = '\r' then ['\\', 'r']
  else if c = '\t' then ['\\', 't']
  else if c = '\x00' then ['\\', '0']
  else if isExtender c || isHidden c then ['\\', 'u', '{'] ++ hex c.toNat ++ ['}']
  else [c]

def quoted (s : String) : String :=
  String.ofList ('"' :: s.toList.flatMap escape ++ ['"'])

end NodeLogs.Text
