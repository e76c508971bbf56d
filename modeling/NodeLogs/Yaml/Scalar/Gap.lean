import NodeLogs.Yaml.Cursor

/-!
White space between the words of a scalar that may go over several lines. Within a line it counts
as it is. Where lines meet, one line feed counts as a space, and is dropped when more line breaks
come after it; other breaks stay.
-/

namespace NodeLogs.Yaml

/-- White space so far: spaces, until the first line break; that break; and the breaks after it.
A break that is escaped counts, but is not kept. -/
structure Gap where
  spaces : List Char
  broken : Bool
  first : List Char
  more : List Char
deriving Repr, DecidableEq

namespace Gap

def none : Gap := ⟨[], false, [], []⟩

/-- A line break that is escaped. -/
def escaped : Gap := ⟨[], true, [], []⟩

def addSpace (g : Gap) (c : Char) : Gap :=
  if g.broken then g else { g with spaces := g.spaces ++ [c] }

def addBreak (g : Gap) (c : Char) : Gap :=
  if g.broken then { g with more := g.more ++ [c] } else ⟨[], true, [c], []⟩

/-- All line breaks as they are. -/
def breaks (g : Gap) : List Char := g.first ++ g.more

/-- What a gap between words stands for. -/
def folded (g : Gap) : List Char :=
  if g.broken then
    if g.first = ['\n'] then (if g.more = [] then [' '] else g.more) else g.breaks
  else g.spaces

end Gap

end NodeLogs.Yaml
