import NodeLogs.Proofs.Yaml.Printing
import NodeLogs.Yaml.Document

/-!
The document that is read for a map of scalars: its root, and a key and a value for each entry.
-/

namespace NodeLogs.Yaml

open Text (Position)

/-- A scalar with neither an anchor nor a tag. -/
def Node.ofScalar (p : Position) (style : Style) (text : String) : Node :=
  ⟨p, none, none, .scalar style text⟩

/-- Keys and values in turn, where they are no more than text. Every key begins a line. -/
inductive Nodes : Nat → List (String × String) → List Node → Prop
  | nil (line : Nat) : Nodes line [] []
  | cons {pairs : List (String × String)} {nodes : List Node} {key value : String} {line : Nat}
      (q : Position) (style : Style)
      (h : Nodes (line + lineCount (Writing.entry key.toList value.toList)) pairs nodes) :
      Nodes line ((key, value) :: pairs)
        (Node.ofScalar ⟨line, 0⟩ .plain key :: Node.ofScalar q style value :: nodes)

namespace Document

theorem entry_of_tokens (names : Names) (key value : String) (line : Nat) (style : Style)
    (p : Position) (rest : List Token) :
    entry true names (Token.entry key value line style p ++ rest) =
      ⟨[Node.ofScalar ⟨line, 0⟩ .plain key, Node.ofScalar p style value], some (names, rest)⟩ := rfl

theorem blockEntries_of_entry (names : Names) (key value : String) (line : Nat) (style : Style)
    (p : Position) (rest : List Token) :
    blockEntries names (Token.entry key value line style p ++ rest) =
      (blockEntries names rest).prepend
        [Node.ofScalar ⟨line, 0⟩ .plain key, Node.ofScalar p style value] := by
  rw [blockEntries.eq_def]
  split
  · next hend => cases hend
  · split
    · next hstop => rw [entry_of_tokens] at hstop; cases hstop
    · next hmore =>
      rw [entry_of_tokens] at hmore
      cases hmore
      rw [entry_of_tokens]

theorem blockEntries_of_entries {line : Nat} {pairs : List (String × String)} {tokens : List Token}
    (h : Token.Entries line pairs tokens) (names : Names) (p : Position) :
    ∃ nodes, Nodes line pairs nodes ∧
      blockEntries names (tokens ++ [⟨.blockEnd, p⟩, ⟨.streamEnd, p⟩]) = ⟨nodes, .last⟩ := by
  induction h with
  | nil line =>
    refine ⟨[], .nil line, ?_⟩
    rw [List.nil_append, blockEntries.eq_def]
    rfl
  | cons style q _ ih =>
    obtain ⟨nodes, hnodes, hread⟩ := ih
    refine ⟨_, .cons q style hnodes, ?_⟩
    rw [List.append_assoc, blockEntries_of_entry, hread]
    rfl

theorem ofTokens_map (p : Position) (tokens : List Token) :
    ofTokens (⟨.blockMapStart, p⟩ :: tokens) =
      (blockEntries ⟨standardHandles, []⟩ tokens).prepend [⟨p, none, none, .map⟩] := rfl

/-- The entries of a map are read as they were written, and nothing comes after them. -/
theorem ofText_entries {pairs : List (String × String)} (hsome : pairs ≠ [])
    (hkeys : ∀ pair ∈ pairs, IsKey pair.1) :
    ∃ nodes, Nodes 0 pairs nodes ∧
      ofText (Writing.entries pairs) = ⟨⟨.start, none, none, .map⟩ :: nodes, .last⟩ := by
  obtain ⟨pair, more, rfl⟩ := List.exists_cons_of_ne_nil hsome
  obtain ⟨tokens, p, htokens, hrun⟩ := run_map hkeys
  obtain ⟨nodes, hnodes, hread⟩ := blockEntries_of_entries htokens ⟨standardHandles, []⟩ p
  refine ⟨nodes, hnodes, ?_⟩
  rw [ofText, ofText_of_printed (.entries hkeys), hrun, List.cons_append, ofTokens_map, hread]
  rfl

end Document

end NodeLogs.Yaml
