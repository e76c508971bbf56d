import NodeLogs.Proofs.Yaml.Scalar.Block
import NodeLogs.Proofs.Yaml.Scalar.Plain
import NodeLogs.Proofs.Yaml.Scalar.Quoted
import NodeLogs.Yaml.Token.Reading

/-!
Values read back. Whatever the style that was chosen for a text, the token that is read for it holds
that text, and the next key is ahead, or the line break before it.
-/

namespace NodeLogs.Yaml

open Text (Position)
open Writing (isBlank isSpecial hasPair)

/-! What the choice of a style says of a text -/

section Styles

variable {s : List Char}

theorem not_special (h : Writing.needsEscapes s = false) : ∀ c ∈ s, isSpecial c = false := by
  simp only [Writing.needsEscapes, Bool.or_eq_false_iff] at h
  intro c hc
  exact Bool.eq_false_iff.mpr (List.any_eq_false.mp h.1 c hc)

theorem not_contains_newline (h : s.contains '\n' = false) : '\n' ∉ s := by
  intro hmem
  rw [List.contains_iff_mem.mpr hmem] at h
  cases h

/-- Text that stands without quotes. -/
structure Bare (s : List Char) : Prop where
  some : s ≠ []
  special : ∀ c ∈ s, isSpecial c = false
  breaks : ∀ c ∈ s, isBreak c = false
  first : s.head?.any isBlank = false
  last : s.getLast?.any isBlank = false
  mark : Writing.isMark s = false
  innerMark : Writing.hasInnerMark s = false

theorem bare_of_style (h : Writing.style s = .plain) : Bare s := by
  unfold Writing.style at h
  split at h
  · split at h <;> cases h
  · split at h
    · next htext =>
      obtain ⟨hOnly, hfits⟩ := htext
      simp only [Writing.fitsPlain, Bool.not_eq_true', Bool.or_eq_false_iff] at hfits
      obtain ⟨⟨⟨⟨⟨hescapes, hbreaks⟩, hfirst⟩, hlast⟩, hmark⟩, hinner⟩ := hfits
      refine ⟨?_, not_special hescapes, ?_, hfirst, hlast, hmark, hinner⟩
      · rintro rfl
        revert hOnly
        decide
      · intro c hc
        exact Bool.eq_false_iff.mpr (List.any_eq_false.mp hbreaks c hc)
    · split at h <;> cases h

theorem fits_of_style (h : Writing.style s = .singleQuoted) : Quoted.Fits s := by
  unfold Writing.style at h
  split at h
  · split at h <;> cases h
  · next hnewline =>
    split at h
    · cases h
    · split at h
      · next hfits =>
        simp only [Writing.fitsSingle, Bool.not_eq_true', Bool.or_eq_false_iff] at hfits
        obtain ⟨hescapes, hbehind⟩ := hfits
        have hbefore := hescapes
        simp only [Writing.needsEscapes, Bool.or_eq_false_iff] at hbefore
        exact ⟨not_special hescapes, not_contains_newline (Bool.eq_false_iff.mpr hnewline),
          hbefore.2, hbehind⟩
      · cases h

theorem lines_of_style (h : Writing.style s = .literal) :
    s ≠ [] ∧ ∀ c ∈ s, isSpecial c = false := by
  unfold Writing.style at h
  split at h
  · next hnewline =>
    split at h
    · next hfits =>
      simp only [Writing.fitsLiteral, Bool.not_eq_true', Bool.or_eq_false_iff] at hfits
      refine ⟨?_, not_special hfits.1⟩
      rintro rfl
      cases hnewline
    · cases h
  · split at h
    · cases h
    · split at h <;> cases h

theorem style_ne_folded (s : List Char) : Writing.style s ≠ .folded := by
  unfold Writing.style
  split
  · split <;> exact nofun
  · split
    · exact nofun
    · split <;> exact nofun

end Styles

/-! The token -/

namespace Token

/-- What is read for a text, with this ahead of what comes next. Behind a plain scalar and behind
one over several lines a line begins. -/
inductive ReadAs (s t : List Char) : Reading → Prop
  | plain (line : Nat) : ReadAs s t ⟨.scalar .plain (String.ofList s), true, ⟨⟨line, 0⟩, t⟩⟩
  | singleQuoted (p : Position) :
      ReadAs s t ⟨.scalar .singleQuoted (String.ofList s), false, ⟨p, '\n' :: t⟩⟩
  | doubleQuoted (p : Position) :
      ReadAs s t ⟨.scalar .doubleQuoted (String.ofList s), false, ⟨p, '\n' :: t⟩⟩
  | literal (line : Nat) : ReadAs s t ⟨.scalar .literal (String.ofList s), false, ⟨⟨line, 0⟩, t⟩⟩

theorem next_of_column {p : Position} (hp : 0 < p.column) (flow : Bool) (margin : Nat) (x : Char)
    (rest : List Char) :
    Reading.next flow margin ⟨p, x :: rest⟩ =
      Reading.beginning flow margin ⟨p, x :: rest⟩ x rest := by
  have hcolumn : ¬ (Cursor.column ⟨p, x :: rest⟩ = 0 ∧ x = '%') := by
    rintro ⟨hzero, -⟩
    change p.column = 0 at hzero
    omega
  have hmark (mark : Char) : atLineMark mark p (x :: rest) = false := by
    have hne : (p.column == 0) = false := by
      rw [beq_eq_false_iff_ne]
      omega
    simp [atLineMark, hne]
  simp only [Reading.next, if_neg hcolumn, hmark, Bool.false_eq_true, if_false]

/-- A text that begins with no mark is read without quotes. -/
theorem beginning_of_not_mark {x : Char} {rest t : List Char} (c : Cursor)
    (hmark : Writing.isMark (x :: rest) = false) (hspace : isSpace x = false) :
    Reading.beginning false 1 c x (rest ++ '\n' :: t) = Reading.plain false 1 c := by
  have hgap := Plain.atGap_append_newline rest t
  unfold Reading.beginning
  simp only [Writing.isMark, Bool.or_eq_false_iff] at hmark
  obtain ⟨⟨⟨hfirst, halone⟩, -⟩, -⟩ := hmark
  split
  case h_6 | h_7 | h_8 =>
    have hopen : atGap rest = false := by simpa using halone
    simp [hgap, hopen]
  case h_20 => simp [hspace]
  all_goals exact absurd hfirst (by simp)

variable {s t : List Char} {p : Position}

theorem next_plain (ht : StartsKey t) (h : Bare s) (hp : 0 < p.column) :
    ∃ r, Reading.next false 1 ⟨p, s ++ '\n' :: t⟩ = some r ∧ ReadAs s t r := by
  obtain ⟨x, rest, rfl⟩ := List.exists_cons_of_ne_nil h.some
  have hbreak := h.breaks x List.mem_cons_self
  have hblank : isBlank x = false := h.first
  have hspace : isSpace x = false := by
    rw [isSpace_of_not_isSpecial (h.special x List.mem_cons_self), hblank]
  have hread := Plain.read_text ht rest x none (past p x)
    (by rw [past_of_not_isBreak p hbreak]; exact Nat.succ_pos _)
    (fun c hc => h.breaks c (List.mem_cons_of_mem x hc))
    (fun c hc => h.special c (List.mem_cons_of_mem x hc)) h.last h.innerMark rfl nofun fun _ => rfl
  refine ⟨_, ?_, .plain ((past p x).line + 1)⟩
  rw [List.cons_append, next_of_column hp, beginning_of_not_mark _ h.mark hspace, Reading.plain]
  simp only [hread, Option.map_some]
  rfl

theorem next_single (h : Quoted.Fits s) (hp : 0 < p.column) :
    ∃ r, Reading.next false 1 ⟨p, Writing.single s ++ '\n' :: t⟩ = some r ∧ ReadAs s t r := by
  obtain ⟨p', hread⟩ := Quoted.single_text (t := t) s .none (p.right 1) h
    (Quoted.waits_none (Nat.succ_pos _) s)
  refine ⟨_, ?_, .singleQuoted p'⟩
  have htext : Writing.single s ++ '\n' :: t = '\'' :: (Writing.indented Gap.none.broken
      (Writing.doubled s) ++ (Quoted.closing Gap.none.broken s ++ '\'' :: '\n' :: t)) := by
    simp [Writing.single, Gap.none, Quoted.closing_eq]
  rw [htext, next_of_column hp]
  exact congrArg (Option.map fun r => Reading.of
    (.scalar .singleQuoted (String.ofList r.1)) r.2) hread

theorem next_double (s : List Char) (hp : 0 < p.column) :
    ∃ r, Reading.next false 1 ⟨p, Writing.double s ++ '\n' :: t⟩ = some r ∧ ReadAs s t r := by
  obtain ⟨p', hread⟩ := @Quoted.double_text ('\n' :: t) s .none (p.right 1) rfl (Nat.succ_pos _)
  refine ⟨_, ?_, .doubleQuoted p'⟩
  rw [Writing.double, List.cons_append, List.cons_append, List.append_assoc, next_of_column hp]
  exact congrArg (Option.map fun r => Reading.of
    (.scalar .doubleQuoted (String.ofList r.1)) r.2) hread

theorem next_literal (ht : StartsKey t) (hs : s ≠ []) (hspecial : ∀ c ∈ s, isSpecial c = false)
    (hp : 0 < p.column) :
    ∃ r, Reading.next false 1 ⟨p, Writing.literal s ++ (lineEnd s ++ t)⟩ = some r ∧
      ReadAs s t r := by
  obtain ⟨line, hread⟩ := Block.scalar_lines ht hs hspecial (p.right 1)
  refine ⟨_, ?_, .literal line⟩
  rw [Writing.literal]
  simp only [List.cons_append, List.append_assoc]
  rw [next_of_column hp]
  exact congrArg (Option.map fun r => Reading.of (.scalar .literal (String.ofList r.1)) r.2) hread

theorem lineEnd_concat (text : List Char) {c : Char} (h : isBreak c = false) :
    lineEnd (text ++ [c]) = ['\n'] := by
  simp [lineEnd, h]

theorem indented_ne_nil {lineStart : Bool} (h : s ≠ []) : Writing.indented lineStart s ≠ [] := by
  cases s with
  | nil => exact absurd rfl h
  | cons c s =>
    rw [Writing.indented]
    split
    · exact List.cons_ne_nil _ _
    · split <;> exact List.cons_ne_nil _ _

/-- Behind a last character stands another one's last. -/
theorem getLast?_cons_of_ne_nil (c : Char) (h : s ≠ []) : (c :: s).getLast? = s.getLast? := by
  obtain ⟨d, rest, rfl⟩ := List.exists_cons_of_ne_nil h
  exact List.getLast?_cons_cons

theorem getLast?_indented (lineStart : Bool) (s : List Char) :
    (Writing.indented lineStart s).getLast? = s.getLast? := by
  induction s generalizing lineStart with
  | nil => rfl
  | cons c s ih =>
    have hcons (lineStart : Bool) :
        (c :: Writing.indented lineStart s).getLast? = (c :: s).getLast? := by
      by_cases hs : s = []
      · rw [hs, Writing.indented]
      · rw [getLast?_cons_of_ne_nil c (indented_ne_nil hs), ih, getLast?_cons_of_ne_nil c hs]
    rw [Writing.indented]
    split
    · exact hcons true
    · split
      · exact hcons false
      · exact hcons false

theorem getLast?_literal (hs : s ≠ []) : (Writing.literal s).getLast? = s.getLast? := by
  rw [Writing.literal, List.getLast?_append_of_ne_nil _ (List.cons_ne_nil _ _),
    getLast?_cons_of_ne_nil _ (indented_ne_nil hs), getLast?_indented]

/-- A value is read back with what it ends its line with, and what comes next is ahead. -/
theorem next_scalar (ht : StartsKey t) (s : List Char) (hp : 0 < p.column) :
    ∃ r, Reading.next false 1 ⟨p, Writing.scalar s ++ (lineEnd (Writing.scalar s) ++ t)⟩ = some r ∧
      ReadAs s t r := by
  unfold Writing.scalar
  cases hstyle : Writing.style s with
  | folded => exact absurd hstyle (style_ne_folded s)
  | plain =>
    have hbare := bare_of_style hstyle
    have hend : lineEnd s = ['\n'] := by
      rw [lineEnd, List.getLast?_eq_some_getLast hbare.some, Option.any_some,
        hbare.breaks _ (List.getLast_mem hbare.some)]
      rfl
    simp only [hend, List.singleton_append]
    exact next_plain ht hbare hp
  | singleQuoted =>
    have hend : lineEnd (Writing.single s) = ['\n'] := lineEnd_concat _ (by decide)
    simp only [hend, List.singleton_append]
    exact next_single (fits_of_style hstyle) hp
  | doubleQuoted =>
    have hend : lineEnd (Writing.double s) = ['\n'] := lineEnd_concat _ (by decide)
    simp only [hend, List.singleton_append]
    exact next_double s hp
  | literal =>
    obtain ⟨hs, hspecial⟩ := lines_of_style hstyle
    have hend : lineEnd (Writing.literal s) = lineEnd s := by
      rw [lineEnd, getLast?_literal hs, lineEnd]
    simp only [hend]
    exact next_literal ht hs hspecial hp

end Token

end NodeLogs.Yaml
