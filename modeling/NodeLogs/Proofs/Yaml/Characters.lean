import NodeLogs.Yaml.Cursor
import NodeLogs.Yaml.Writing

/-!
How the kinds of characters go together: what is white space, what breaks a line, and what stands
where the next key begins.
-/

namespace NodeLogs.Yaml

open Text (Position)
open Writing (isBlank isSpecial hasPair)

/-- What may follow an entry of a block map: nothing, or the first character of the next key. -/
def StartsKey : List Char → Prop
  | [] => True
  | c :: _ => c.isAlpha ∨ c = '_'

/-- The line break that is put after a text, unless it ends with one. -/
def lineEnd (text : List Char) : List Char := if text.getLast?.any isBreak then [] else ['\n']

theorem isBreak_newline : isBreak '\n' = true := rfl

theorem not_isSpace_of_isBreak {c : Char} (h : isBreak c = true) : isSpace c = false := by
  simp only [isBreak, Bool.or_eq_true, beq_iff_eq] at h
  rcases h with (rfl | rfl) | rfl <;> decide

theorem isBlank_iff {c : Char} : isBlank c = true ↔ c = ' ' := by
  rw [isBlank, beq_iff_eq]

theorem isSpace_of_isBlank {c : Char} (h : isBlank c = true) : isSpace c = true := by
  obtain rfl := isBlank_iff.mp h
  decide

/-- A tab is a special character. -/
theorem isSpace_of_not_isSpecial {c : Char} (h : isSpecial c = false) :
    isSpace c = isBlank c := by
  have htab : c ≠ '\t' := by
    rintro rfl
    revert h
    decide
  simp [isSpace, isBlank, htab]

theorem past_of_isBreak (p : Position) {c : Char} (h : isBreak c = true) :
    past p c = ⟨p.line + 1, 0⟩ := by
  rw [past, if_pos h]

theorem past_of_not_isBreak (p : Position) {c : Char} (h : isBreak c = false) :
    past p c = p.right 1 := by
  rw [past, if_neg (by rw [h]; exact Bool.false_ne_true)]

theorem not_atDocumentMark {p : Position} (h : 0 < p.column) (rest : List Char) :
    atDocumentMark p rest = false := by
  have hcolumn : (p.column == 0) = false := by
    rw [beq_eq_false_iff_ne]
    omega
  simp [atDocumentMark, atLineMark, hcolumn]

theorem StartsKey.of_cons {c : Char} {rest : List Char} (h : StartsKey (c :: rest)) :
    isSpace c = false ∧ isBreak c = false ∧ c ≠ '#' ∧ c ≠ ' ' ∧ c ≠ '\t' := by
  have hne (d : Char) (hd : ¬ (d.isAlpha ∨ d = '_')) : c ≠ d := by
    rintro rfl
    exact hd h
  have hspace : c ≠ ' ' := hne ' ' (by decide)
  have htab : c ≠ '\t' := hne '\t' (by decide)
  have hline : c ≠ '\n' := hne '\n' (by decide)
  have hls : c ≠ lineSeparator := hne lineSeparator (by decide)
  have hps : c ≠ paragraphSeparator := hne paragraphSeparator (by decide)
  exact ⟨by simp [isSpace, hspace, htab], by simp [isBreak, hline, hls, hps], hne '#' (by decide),
    hspace, htab⟩

theorem hasPair_cons {first second : Char → Bool} {a : Char} {s : List Char}
    (h : hasPair first second (a :: s) = false) :
    (first a = true → ∀ b, s.head? = some b → second b = false) ∧
      hasPair first second s = false := by
  cases s with
  | nil => exact ⟨nofun, rfl⟩
  | cons b rest =>
    simp only [hasPair, Bool.or_eq_false_iff, Bool.and_eq_false_iff] at h
    refine ⟨?_, h.2⟩
    rintro ha _ ⟨⟩
    rcases h.1 with hfirst | hsecond
    · rw [ha] at hfirst
      cases hfirst
    · exact hsecond

end NodeLogs.Yaml
