import NodeLogs.Yaml.Tag

/-!
Directives, which come before a document on lines of their own: the version of the language, and
what tag handles stand for.
-/

namespace NodeLogs.Yaml.Directive

/-- A number of up to nine digits. -/
def number (c : Cursor) : Option (Nat × Cursor) :=
  let digits := c.span Char.isDigit
  if digits.1 ≠ [] ∧ digits.1.length ≤ 9 then
    some (digits.1.foldl (fun n d => n * 10 + (d.toNat - 48)) 0, digits.2)
  else none

/-- Passes this character, if it comes here. -/
def expect (x : Char) (c : Cursor) : Option Cursor :=
  if c.rest.head? = some x then some (c.skip 1) else none

def version (c : Cursor) : Option (Token.Kind × Cursor) := do
  let (major, c) ← number (c.span isSpace).2
  let c ← expect '.' c
  let (minor, c) ← number c
  return (.version major minor, c)

/-- A handle: an exclamation mark, or a name between two. -/
def handle (c : Cursor) : Option (String × Cursor) := do
  let c ← expect '!' c
  let (name, c) := c.span isWord
  match expect '!' c with
  | some c => return ("!" ++ String.ofList name ++ "!", c)
  | none => if name = [] then return ("!", c) else none

def tagHandle (c : Cursor) : Option (Token.Kind × Cursor) := do
  let (handle, c) ← handle (c.span isSpace).2
  let (spaces, c) := c.span isSpace
  if spaces = [] then none
  let (text, rest) ← Tag.identifier true 0 c.rest
  if text = [] ∨ ¬ atGap rest then none
  return (.tagHandle handle (String.ofList text), Tag.leaving c rest)

def named (name : String) (c : Cursor) : Option (Token.Kind × Cursor) :=
  match name with
  | "YAML" => version c
  | "TAG" => tagHandle c
  | _ => none

/-- The end of a line that may hold a comment. -/
def finish (kind : Token.Kind) (c : Cursor) : Option (Token.Kind × Cursor) :=
  if atLineEnd c.pastComment.rest then some (kind, c.pastComment.pastBreak) else none

/-- A directive after the mark that it begins with, and its line to the end. -/
def read (c : Cursor) : Option (Token.Kind × Cursor) :=
  let name := c.span isWord
  if atGap name.2.rest then
    (named (String.ofList name.1) name.2).bind fun r => finish r.1 r.2
  else none

theorem length_number_le (c c' : Cursor) (n : Nat) (h : number c = some (n, c')) :
    c'.rest.length ≤ c.rest.length := by
  have := Cursor.length_span_le Char.isDigit c
  grind [number]

theorem length_expect_le (x : Char) (c c' : Cursor) (h : expect x c = some c') :
    c'.rest.length ≤ c.rest.length := by
  have := Cursor.length_skip c 1
  grind [expect]

theorem length_version_le (c c' : Cursor) (kind : Token.Kind) (h : version c = some (kind, c')) :
    c'.rest.length ≤ c.rest.length := by
  obtain ⟨⟨_, c₁⟩, h₁, h⟩ := Option.bind_eq_some_iff.1 h
  obtain ⟨c₂, h₂, h⟩ := Option.bind_eq_some_iff.1 h
  obtain ⟨⟨_, c₃⟩, h₃, h⟩ := Option.bind_eq_some_iff.1 h
  cases h
  have hs := Cursor.length_span_le isSpace c
  have h₁ := length_number_le _ _ _ h₁
  have h₂ := length_expect_le _ _ _ h₂
  have h₃ := length_number_le _ _ _ h₃
  omega

theorem length_handle_le (c c' : Cursor) (name : String) (h : handle c = some (name, c')) :
    c'.rest.length ≤ c.rest.length := by
  obtain ⟨c₁, h₁, h⟩ := Option.bind_eq_some_iff.1 h
  have h₁ := length_expect_le _ _ _ h₁
  have hs := Cursor.length_span_le isWord c₁
  have he := length_expect_le '!' (c₁.span isWord).2
  grind

theorem length_tagHandle_le (c c' : Cursor) (kind : Token.Kind)
    (h : tagHandle c = some (kind, c')) : c'.rest.length ≤ c.rest.length := by
  obtain ⟨⟨_, c₁⟩, h₁, h⟩ := Option.bind_eq_some_iff.1 h
  have h₁ := length_handle_le _ _ _ h₁
  have hs := Cursor.length_span_le isSpace c
  have hs₁ := Cursor.length_span_le isSpace c₁
  have hi := Tag.length_identifier_le true 0 (c₁.span isSpace).2.rest
  grind [Tag.leaving, Option.bind_eq_some_iff]

theorem length_named_le (name : String) (c c' : Cursor) (kind : Token.Kind)
    (h : named name c = some (kind, c')) : c'.rest.length ≤ c.rest.length := by
  unfold named at h
  split at h
  · exact length_version_le _ _ _ h
  · exact length_tagHandle_le _ _ _ h
  · cases h

theorem length_finish_le (c c' : Cursor) (kind kind' : Token.Kind)
    (h : finish kind c = some (kind', c')) : c'.rest.length ≤ c.rest.length := by
  have hb := Cursor.length_pastBreak_le
  have hp := Cursor.length_pastComment_le
  grind [finish]

theorem length_read_le (c c' : Cursor) (kind : Token.Kind) (h : read c = some (kind, c')) :
    c'.rest.length ≤ c.rest.length := by
  have hs := Cursor.length_span_le isWord c
  simp only [read, Option.ite_none_right_eq_some, Option.bind_eq_some_iff] at h
  obtain ⟨-, ⟨k, c₁⟩, h₁, h₂⟩ := h
  have h₁ := length_named_le _ _ _ _ h₁
  have h₂ := length_finish_le _ _ _ _ h₂
  exact Nat.le_trans h₂ (Nat.le_trans h₁ hs)

end NodeLogs.Yaml.Directive
