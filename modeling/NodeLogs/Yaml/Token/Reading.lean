import NodeLogs.Yaml.Directive
import NodeLogs.Yaml.Scalar.Block
import NodeLogs.Yaml.Scalar.Plain
import NodeLogs.Yaml.Scalar.Quoted

/-!
Which token comes at a place in a text, and how far it reaches. That depends on whether a collection
in flow style is open, and on the margin that contents of the innermost block keep to. Every token
takes at least one character.
-/

namespace NodeLogs.Yaml.Token

/-- A token as it stands in the text. After a plain scalar it counts whether it was followed by a
line break. -/
structure Reading where
  kind : Kind
  broken : Bool
  cursor : Cursor
deriving Repr, DecidableEq

namespace Reading

def of (kind : Kind) (c : Cursor) : Reading := ⟨kind, false, c⟩

/-- A mark of so many characters. -/
def mark (kind : Kind) (n : Nat) (c : Cursor) : Option Reading := some (of kind (c.skip n))

def plain (flow : Bool) (margin : Nat) (c : Cursor) : Option Reading :=
  match c.rest with
  | [] => none
  | x :: rest =>
    (Plain.read flow margin none (past c.position x) rest).map fun r =>
      ⟨.scalar .plain (String.ofList (x :: r.text)), r.broken, r.cursor⟩

def quoted (style : Style) (read : Gap → Text.Position → List Char → Option (List Char × Cursor))
    (c : Cursor) : Option Reading :=
  (read .none (c.skip 1).position (c.skip 1).rest).map fun r =>
    of (.scalar style (String.ofList r.1)) r.2

def block (style : Style) (margin : Nat) (c : Cursor) : Option Reading :=
  (Block.scalar (style = .literal) margin (c.skip 1)).map fun r =>
    of (.scalar style (String.ofList r.1)) r.2

def directive (c : Cursor) : Option Reading :=
  (Directive.read (c.skip 1)).map fun r => of r.1 r.2

def name (kind : String → Kind) (c : Cursor) : Option Reading :=
  (Tag.anchorName (c.skip 1)).map fun r => of (kind r.1) r.2

def tag (flow : Bool) (c : Cursor) : Option Reading :=
  (Tag.read flow (c.skip 1)).map fun r => of (.tag r.1) r.2

/-- The token that begins with this character, where no line mark comes. -/
def beginning (flow : Bool) (margin : Nat) (c : Cursor) (x : Char) (rest : List Char) :
    Option Reading :=
  match x with
  | '[' => mark .flowSequenceStart 1 c
  | ']' => mark .flowSequenceEnd 1 c
  | '{' => mark .flowMapStart 1 c
  | '}' => mark .flowMapEnd 1 c
  | ',' => mark .flowEntry 1 c
  | '-' => if atGap rest then mark .blockEntry 1 c else plain flow margin c
  | '?' => if flow || atGap rest then mark .key 1 c else plain flow margin c
  | ':' => if flow || atGap rest then mark .value 1 c else plain flow margin c
  | '*' => name .alias c
  | '&' => name .anchor c
  | '!' => tag flow c
  | '\'' => quoted .singleQuoted Quoted.single c
  | '"' => quoted .doubleQuoted Quoted.double c
  | '|' => if flow then none else block .literal margin c
  | '>' => if flow then none else block .folded margin c
  | '#' | '%' | '@' | '\x60' => none
  | x => if isSpace x then none else plain flow margin c

/-- The token that comes here. -/
def next (flow : Bool) (margin : Nat) (c : Cursor) : Option Reading :=
  match c.rest with
  | [] => none
  | x :: rest =>
    if c.column = 0 ∧ x = '%' then directive c
    else if atLineMark '-' c.position (x :: rest) then mark .documentStart 3 c
    else if atLineMark '.' c.position (x :: rest) then mark .documentEnd 3 c
    else beginning flow margin c x rest

/-- Whether a reading goes past this place. -/
def goesOn (c : Cursor) (r : Reading) : Prop := r.cursor.rest.length < c.rest.length

theorem goesOn_mark {n : Nat} {c : Cursor} (hn : 0 < n) (hc : c.rest ≠ []) {kind : Kind}
    {r : Reading} (h : mark kind n c = some r) : goesOn c r := by
  cases h
  have := List.length_pos_iff.2 hc
  simp only [goesOn, of, Cursor.length_skip]
  omega

theorem goesOn_plain {flow : Bool} {margin : Nat} {c : Cursor} {r : Reading}
    (h : plain flow margin c = some r) : goesOn c r := by
  unfold plain at h
  split at h
  · cases h
  · next x rest hc =>
    obtain ⟨p, hp, rfl⟩ := Option.map_eq_some_iff.1 h
    have := Plain.length_read_le _ _ _ _ _ _ hp
    simp only [goesOn, hc, List.length_cons]
    omega

/-- What goes on from behind the first character goes past it. -/
theorem lt_of_le_skip {c : Cursor} {n : Nat} (hc : c.rest ≠ []) (h : n ≤ (c.skip 1).rest.length) :
    n < c.rest.length := by
  have := List.length_pos_iff.2 hc
  rw [Cursor.length_skip] at h
  omega

theorem goesOn_single {c : Cursor} {r : Reading} (hc : c.rest ≠ [])
    (h : quoted .singleQuoted Quoted.single c = some r) : goesOn c r := by
  obtain ⟨⟨text, c'⟩, ht, rfl⟩ := Option.map_eq_some_iff.1 h
  exact lt_of_le_skip hc (Quoted.length_single_le _ _ _ _ _ ht)

theorem goesOn_double {c : Cursor} {r : Reading} (hc : c.rest ≠ [])
    (h : quoted .doubleQuoted Quoted.double c = some r) : goesOn c r := by
  obtain ⟨⟨text, c'⟩, ht, rfl⟩ := Option.map_eq_some_iff.1 h
  exact lt_of_le_skip hc (Quoted.length_double_le _ _ _ _ _ ht)

theorem goesOn_block {style : Style} {margin : Nat} {c : Cursor} {r : Reading} (hc : c.rest ≠ [])
    (h : block style margin c = some r) : goesOn c r := by
  obtain ⟨⟨text, c'⟩, ht, rfl⟩ := Option.map_eq_some_iff.1 h
  exact lt_of_le_skip hc (Block.length_scalar_le _ _ _ _ _ ht)

theorem goesOn_directive {c : Cursor} {r : Reading} (hc : c.rest ≠ [])
    (h : directive c = some r) : goesOn c r := by
  obtain ⟨⟨kind, c'⟩, ht, rfl⟩ := Option.map_eq_some_iff.1 h
  exact lt_of_le_skip hc (Directive.length_read_le _ _ _ ht)

theorem goesOn_name {kind : String → Kind} {c : Cursor} {r : Reading} (hc : c.rest ≠ [])
    (h : name kind c = some r) : goesOn c r := by
  obtain ⟨⟨text, c'⟩, ht, rfl⟩ := Option.map_eq_some_iff.1 h
  exact lt_of_le_skip hc (Tag.length_anchorName_le _ _ _ ht)

theorem goesOn_tag {flow : Bool} {c : Cursor} {r : Reading} (hc : c.rest ≠ [])
    (h : tag flow c = some r) : goesOn c r := by
  obtain ⟨⟨text, c'⟩, ht, rfl⟩ := Option.map_eq_some_iff.1 h
  exact lt_of_le_skip hc (Tag.length_read_le _ _ _ _ ht)

theorem goesOn_beginning {flow : Bool} {margin : Nat} {c : Cursor} {x : Char} {rest : List Char}
    {r : Reading} (hc : c.rest ≠ []) (h : beginning flow margin c x rest = some r) :
    goesOn c r := by
  have hm := @goesOn_mark 1 c Nat.one_pos hc
  unfold beginning at h
  split at h <;> grind [goesOn_plain, goesOn_name, goesOn_tag, goesOn_single, goesOn_double,
    goesOn_block]

theorem goesOn_next {flow : Bool} {margin : Nat} {c : Cursor} {r : Reading}
    (h : next flow margin c = some r) : goesOn c r := by
  unfold next at h
  split at h
  · cases h
  · next x rest hc =>
    have hc : c.rest ≠ [] := by simp [hc]
    have hm := @goesOn_mark 3 c (by omega) hc
    grind [goesOn_directive, goesOn_beginning]

end Reading

end NodeLogs.Yaml.Token
