import NodeLogs.Text.Lines

/-!
Paths on a node, cleaned without looking at the node: empty and dot segments go, and `..` takes
back the segment before it. A rooted path has nothing above its root; a relative one keeps the
`..` that lead out of it.
-/

namespace NodeLogs.NodePath

/-- One more segment on the segments so far, the last one first. -/
def push (rooted : Bool) (stack : List String) (segment : String) : List String :=
  if segment = "" ∨ segment = "." then stack
  else if segment = ".." then
    match stack with
    | [] => if rooted then [] else [".."]
    | last :: below => if last = ".." then (if rooted then stack else ".." :: stack) else below
  else segment :: stack

def isRooted (path : String) : Bool :=
  path.toList.head? == some '/'

def cleanSegments (path : String) : List String :=
  ((Text.split '/' path).foldl (push (isRooted path)) []).reverse

/-- The cleaned path: `/` stays the root, and a path that leads nowhere is `.`. -/
def clean (path : String) : String :=
  let joined := "/".intercalate (cleanSegments path)
  if isRooted path then "/" ++ joined
  else if joined = "" then "."
  else joined

end NodeLogs.NodePath
