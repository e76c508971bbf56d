import NodeLogs.Proofs.Yaml.Characters
import NodeLogs.Yaml.Scalar.Plain

/-!
Scalars without quotes read back: the text of a value up to the end of its line, and a key up to its
colon.
-/

namespace NodeLogs.Yaml.Plain

open Text (Position)
open Writing (isBlank isSpecial)

theorem atGap_append_newline (s t : List Char) : atGap (s ++ '\n' :: t) = atGap s := by
  cases s <;> rfl

/-- A gap within a line. -/
def spacesOf (gap : Option Gap) : List Char := (gap.getD .none).spaces

/-- Behind the line break a scalar goes on no further. -/
theorem read_lineEnd {t : List Char} (ht : StartsKey t) (gap : Option Gap) (p : Position) :
    read false 1 gap p ('\n' :: t) = some ⟨[], true, ⟨⟨p.line + 1, 0⟩, t⟩⟩ := by
  have hbroken : ((gap.getD .none).addBreak '\n').broken = true := by
    unfold Gap.addBreak
    split <;> simp [*]
  rw [read, if_neg (by decide), if_pos isBreak_newline, past_of_isBreak p isBreak_newline]
  cases t with
  | nil => rw [read, Option.getD_some, hbroken]
  | cons c rest =>
    obtain ⟨hspace, hbreak, -⟩ := ht.of_cons
    rw [read, if_neg (by simp [hspace]), if_neg (by simp [hbreak]), if_pos, Option.getD_some,
      hbroken]
    simp [endsBeforeWord]

/-- Within a line only the sign of a comment ends a scalar before its next word. -/
theorem not_endsBeforeWord {c : Char} {p : Position} (hcolumn : 0 < p.column) (hsharp : c ≠ '#')
    (rest : List Char) : endsBeforeWord false 1 p (c :: rest) = false := by
  have hmargin : ¬ p.column < 1 := by omega
  simp [endsBeforeWord, not_atDocumentMark hcolumn, hsharp, hmargin]

/-- The rest of a text that may stand without quotes, after this character of it. -/
theorem read_text {t : List Char} (ht : StartsKey t) (s : List Char) (a : Char) (gap : Option Gap)
    (p : Position) (hcolumn : 0 < p.column) (hbreaks : ∀ c ∈ s, isBreak c = false)
    (hspecial : ∀ c ∈ s, isSpecial c = false) (hlast : (a :: s).getLast?.any isBlank = false)
    (hmark : Writing.hasInnerMark (a :: s) = false) (hgap : (gap.getD .none).broken = false)
    (hgapped : gap.isSome = true → isBlank a = true)
    (hempty : isBlank a = false → spacesOf gap = []) :
    read false 1 gap p (s ++ '\n' :: t) =
      some ⟨spacesOf gap ++ s, true, ⟨⟨p.line + 1, 0⟩, t⟩⟩ := by
  induction s generalizing a gap p with
  | nil =>
    have ha : isBlank a = false := by simpa using hlast
    rw [List.nil_append, read_lineEnd ht, hempty ha]
    rfl
  | cons c s ih =>
    have hbreak := hbreaks c List.mem_cons_self
    have hspace := isSpace_of_not_isSpecial (hspecial c List.mem_cons_self)
    have hbreaks' (d : Char) (hd : d ∈ s) := hbreaks d (List.mem_cons_of_mem c hd)
    have hspecial' (d : Char) (hd : d ∈ s) := hspecial d (List.mem_cons_of_mem c hd)
    have hlast' : (c :: s).getLast?.any isBlank = false := by
      rwa [List.getLast?_cons_cons] at hlast
    simp only [Writing.hasInnerMark, Bool.or_eq_false_iff, Bool.and_eq_false_iff] at hmark
    obtain ⟨⟨hcolon, hsign⟩, hmark'⟩ := hmark
    have hpast := past_of_not_isBreak p hbreak
    have hcolumn' : 0 < (p.right 1).column := Nat.succ_pos _
    rw [List.cons_append, read, hspace, hpast]
    by_cases hblank : isBlank c = true
    · rw [if_pos hblank, if_neg (by simp [hgap])]
      have hadd : (gap.getD .none).addSpace c =
          { gap.getD .none with spaces := spacesOf gap ++ [c] } := by
        rw [Gap.addSpace, if_neg (by simp [hgap])]
        rfl
      rw [ih c _ (p.right 1) hcolumn' hbreaks' hspecial' hlast' hmark' (by rw [hadd]; exact hgap)
        (fun _ => hblank) (fun h => absurd hblank (by rw [h]; exact Bool.false_ne_true)), hadd]
      simp [spacesOf, Position.right]
    · have hnot : isBlank c = false := Bool.eq_false_iff.mpr hblank
      have hends : (gap.isSome && endsBeforeWord false 1 p (c :: (s ++ '\n' :: t))) = false := by
        cases hsome : gap.isSome with
        | false => rfl
        | true =>
          have hsharp : c ≠ '#' := by
            rintro rfl
            rcases hsign with h | h
            · rw [hgapped hsome] at h
              cases h
            · cases h
          exact not_endsBeforeWord hcolumn hsharp _
      have hend : atEnd false (c :: (s ++ '\n' :: t)) = false := by
        rw [atEnd, atGap_append_newline, Bool.false_and, Bool.or_false, Bool.and_eq_false_iff]
        exact hcolon
      rw [if_neg (by simp [hnot]), if_neg (by simp [hbreak]), if_neg (by simp [hends]),
        if_neg (by simp), if_neg (by simp [hend]),
        ih c none (p.right 1) hcolumn' hbreaks' hspecial' hlast' hmark' rfl nofun (fun _ => rfl)]
      have hfolded : (gap.getD .none).folded = spacesOf gap := if_neg (by simp [hgap])
      rw [Option.map_some, after, hfolded]
      rfl

/-- A word is read up to the colon behind it. -/
theorem read_word (margin : Nat) (s rest : List Char) (p : Position)
    (hs : ∀ c ∈ s, c.isAlpha ∨ c = '_') :
    read false margin none p (s ++ ':' :: ' ' :: rest) =
      some ⟨s, false, ⟨p.right s.length, ':' :: ' ' :: rest⟩⟩ := by
  induction s generalizing p with
  | nil => rfl
  | cons c s ih =>
    have hc : StartsKey (c :: s) := hs c List.mem_cons_self
    obtain ⟨hspace, hbreak, -⟩ := hc.of_cons
    have hcolon : c ≠ ':' := by
      rintro rfl
      have hword : (':' : Char).isAlpha = true ∨ (':' : Char) = '_' := hc
      revert hword
      decide
    rw [List.cons_append, read, if_neg (by simp [hspace]), if_neg (by simp [hbreak]),
      if_neg (by simp), if_neg (by simp), if_neg (by simp [atEnd, hcolon]),
      past_of_not_isBreak p hbreak, ih _ fun d hd => hs d (List.mem_cons_of_mem c hd)]
    simp [after, Gap.folded, Gap.none, Position.right]
    omega

end NodeLogs.Yaml.Plain
