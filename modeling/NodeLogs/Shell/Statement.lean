/-!
Scripts in the language of the shell, as they have been read: words with what is to be put into
them, and the statements that they make up.
-/

namespace NodeLogs.Shell

/-- A part of a word. What is quoted is not split into several words, and none of its characters is
a pattern. What is improper is refused when its value is wanted. -/
inductive Piece where
  | text (quoted : Bool) (s : List Char)
  | parameter (quoted : Bool) (name : String)
  | measured (name : String)
  | altered (quoted : Bool) (name operator : String) (word : List Piece)
  | output (quoted : Bool) (script : List Char)
  | arithmetic (word : List Piece)
  | improper
deriving Repr

abbrev Word := List Piece

inductive Direction where
  | read
  | write
  | append
  | duplicate
  | document
deriving Repr, DecidableEq

/-- Where a stream comes from or goes to instead; a document is text that stands in the script. -/
structure Redirection where
  stream : Nat
  direction : Direction
  target : Word
deriving Repr

inductive Statement where
  | simple (line : Nat) (assignments : List (String × Word)) (words : List Word)
      (redirections : List Redirection)
  | sequence (parts : List Statement)
  | both (first second : Statement)
  | either (first second : Statement)
  | negated (body : Statement)
  | piped (first second : Statement)
  | choice (condition yes no : Statement)
  | loop (expected : Bool) (condition body : Statement)
  | each (name : String) (words : List Word) (body : Statement)
  | cases (word : Word) (arms : List (List Word × Statement))
  | subshell (body : Statement)
  | redirected (body : Statement) (redirections : List Redirection)
  | function (name : String) (body : Statement)

/-- Statements, each complete where a line ends, and what is wrong after the last of them. -/
structure Script where
  statements : List Statement
  problem : Option (Nat × String)

end NodeLogs.Shell
