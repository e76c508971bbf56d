import Mathlib.Data.List.TakeWhile
import NodeLogs.Proofs.Yaml.Characters
import NodeLogs.Yaml.Lexer

/-!
The lines of a text. Whatever reads a scalar goes on by as many lines as it passes line breaks, so
the line on which the text ends is the same from wherever it is counted.
-/

namespace NodeLogs.Yaml

open Text (Position)

/-- How many lines are begun in a text. -/
def lineCount (text : List Char) : Nat := text.countP isBreak

/-- A kind that no line break is of. -/
theorem not_isBreak_of_kind (kind : Char → Bool) (hline : kind '\n' = false)
    (hseparator : kind lineSeparator = false) (hparagraph : kind paragraphSeparator = false)
    {c : Char} (h : kind c = true) : isBreak c = false := by
  cases hbreak : isBreak c with
  | false => rfl
  | true =>
    simp only [isBreak, Bool.or_eq_true, beq_iff_eq] at hbreak
    rcases hbreak with (rfl | rfl) | rfl
    · rw [hline] at h
      cases h
    · rw [hseparator] at h
      cases h
    · rw [hparagraph] at h
      cases h

theorem lineCount_cons (c : Char) (rest : List Char) :
    lineCount (c :: rest) = lineCount rest + if isBreak c then 1 else 0 := List.countP_cons

theorem lineCount_append (first second : List Char) :
    lineCount (first ++ second) = lineCount first + lineCount second := List.countP_append

theorem lineCount_eq_zero {text : List Char} (h : ∀ c ∈ text, isBreak c = false) :
    lineCount text = 0 :=
  List.countP_eq_zero.mpr fun c hc => by rw [h c hc]; exact Bool.false_ne_true

namespace Cursor

/-- The line on which the text ends that is read from here on. -/
def lastLine (c : Cursor) : Nat := c.position.line + lineCount c.rest

theorem lastLine_past (p : Position) (c : Char) (rest : List Char) :
    lastLine ⟨past p c, rest⟩ = lastLine ⟨p, c :: rest⟩ := by
  simp only [lastLine, lineCount_cons, past]
  split
  · simp only
    omega
  · rfl

theorem lastLine_right (passed : List Char) (h : ∀ c ∈ passed, isBreak c = false) (p : Position)
    (n : Nat) (rest : List Char) : lastLine ⟨p.right n, rest⟩ = lastLine ⟨p, passed ++ rest⟩ := by
  simp only [lastLine, lineCount_append, lineCount_eq_zero h, Nat.zero_add, Position.right]

/-- One character of the line is passed. -/
theorem lastLine_skip {c : Cursor} {x : Char} (hx : c.rest.head? = some x) (h : isBreak x = false) :
    (c.skip 1).lastLine = c.lastLine := by
  obtain ⟨p, text⟩ := c
  obtain ⟨rest, rfl⟩ := List.head?_eq_some_iff.mp hx
  exact lastLine_right [x] (List.forall_mem_singleton.mpr h) p 1 rest

theorem lastLine_span {kind : Char → Bool} (h : ∀ x, kind x = true → isBreak x = false)
    (c : Cursor) : (c.span kind).2.lastLine = c.lastLine := by
  rw [span, lastLine_right _ fun x hx => h x (List.mem_takeWhile_imp hx),
    List.takeWhile_append_dropWhile]

theorem lastLine_toLineEnd (c : Cursor) : c.toLineEnd.lastLine = c.lastLine :=
  lastLine_span (fun x hx => by simpa using hx) c

theorem lastLine_pastComment (c : Cursor) : c.pastComment.lastLine = c.lastLine := by
  have hspace (x : Char) : isSpace x = true → isBreak x = false :=
    not_isBreak_of_kind isSpace (by decide) (by decide) (by decide)
  have hspan := lastLine_span hspace c
  simp only [pastComment]
  split
  · rw [lastLine_toLineEnd, hspan]
  · exact hspan

theorem lastLine_pastBreak (c : Cursor) : c.pastBreak.lastLine = c.lastLine := by
  unfold pastBreak
  split
  · rfl
  · next x rest hrest =>
    split
    · rw [lastLine_past, ← hrest]
    · rfl

end Cursor

open Cursor

theorem Plain.lastLine_read {flow : Bool} {margin : Nat} {gap : Option Gap} {p : Position}
    {text : List Char} {r : Plain.Reading} (h : Plain.read flow margin gap p text = some r) :
    r.cursor.lastLine = lastLine ⟨p, text⟩ := by
  fun_induction Plain.read flow margin gap p text generalizing r <;>
    grind [Plain.after, Option.map_eq_some_iff, lastLine_past]

namespace Quoted

theorem lastLine_single {gap : Gap} {p : Position} {text kept : List Char} {c : Cursor}
    (h : single gap p text = some (kept, c)) : c.lastLine = lastLine ⟨p, text⟩ := by
  have hone : ∀ c ∈ ['\''], isBreak c = false := List.forall_mem_singleton.mpr (by decide)
  have hquote (p : Position) (rest : List Char) :
      lastLine ⟨p.right 1, rest⟩ = lastLine ⟨p, '\'' :: rest⟩ := lastLine_right ['\''] hone p 1 rest
  have hquotes (p : Position) (rest : List Char) :
      lastLine ⟨p.right 2, rest⟩ = lastLine ⟨p, '\'' :: '\'' :: rest⟩ :=
    lastLine_right ['\'', '\''] (List.forall_mem_cons.mpr ⟨by decide, hone⟩) p 2 rest
  fun_induction single gap p text generalizing kept c <;>
    grind [after, Option.map_eq_some_iff, lastLine_past]

theorem not_isBreak_of_digits {digits : List Char} {start n : Nat}
    (h : digits.foldlM (fun n c => (hexDigit? c).map (n * 16 + ·)) start = some n) :
    ∀ c ∈ digits, isBreak c = false := by
  induction digits generalizing start with
  | nil => nofun
  | cons c digits ih =>
    rw [List.foldlM_cons] at h
    obtain ⟨next, hdigit, h⟩ := Option.bind_eq_some_iff.mp h
    obtain ⟨_, hdigit, -⟩ := Option.map_eq_some_iff.mp hdigit
    have hc : isBreak c = false := not_isBreak_of_kind (fun c => (hexDigit? c).isSome)
      (by decide) (by decide) (by decide) (Option.isSome_of_eq_some hdigit)
    exact List.forall_mem_cons.mpr ⟨hc, ih h⟩

theorem not_isBreak_of_ofHex? {digits n : Nat} {x : Char} {mark : Char} {rest : List Char}
    (hmark : isBreak mark = false) (h : ofHex? digits rest = some (x, n)) :
    ∀ c ∈ (mark :: rest).take n, isBreak c = false := by
  unfold ofHex? at h
  split at h
  · cases h
  · obtain ⟨_, h, hpair⟩ := Option.map_eq_some_iff.mp h
    obtain ⟨_, hnumber, -⟩ := Option.bind_eq_some_iff.mp h
    cases hpair
    rw [List.take_succ_cons]
    exact List.forall_mem_cons.mpr ⟨hmark, not_isBreak_of_digits hnumber⟩

/-- No escape goes over the end of a line. -/
theorem not_isBreak_of_escapeAt? {rest : List Char} {x : Char} {n : Nat}
    (h : escapeAt? rest = some (x, n)) : ∀ c ∈ rest.take n, isBreak c = false := by
  unfold escapeAt? at h
  split at h
  · cases h
  · exact not_isBreak_of_ofHex? (by decide) h
  · exact not_isBreak_of_ofHex? (by decide) h
  · exact not_isBreak_of_ofHex? (by decide) h
  · next c rest _ _ _ =>
    obtain ⟨_, hescape, hpair⟩ := Option.map_eq_some_iff.mp h
    cases hpair
    exact List.forall_mem_singleton.mpr (not_isBreak_of_kind (fun c => (escape? c).isSome)
      (by decide) (by decide) (by decide) (Option.isSome_of_eq_some hescape))

theorem lastLine_double {gap : Gap} {p : Position} {text kept : List Char} {c : Cursor}
    (h : double gap p text = some (kept, c)) : c.lastLine = lastLine ⟨p, text⟩ := by
  have hquote (p : Position) (rest : List Char) :
      lastLine ⟨p.right 1, rest⟩ = lastLine ⟨p, '"' :: rest⟩ :=
    lastLine_right ['"'] (List.forall_mem_singleton.mpr (by decide)) p 1 rest
  have hescape {p : Position} {rest : List Char} {x : Char} {n : Nat}
      (h : escapeAt? rest = some (x, n)) :
      lastLine ⟨p.right (n + 1), rest.drop n⟩ = lastLine ⟨p, '\\' :: rest⟩ := by
    rw [lastLine_right _ (List.forall_mem_cons.mpr ⟨(by decide : isBreak '\\' = false),
      not_isBreak_of_escapeAt? h⟩), List.cons_append, List.take_append_drop]
  have hline {p : Position} {rest : List Char} (h : rest ≠ [] ∧ atLineEnd rest = true) :
      lastLine ⟨⟨p.line + 1, 0⟩, rest.drop 1⟩ = lastLine ⟨p, '\\' :: rest⟩ := by
    obtain ⟨c, rest, rfl⟩ := List.exists_cons_of_ne_nil h.1
    have hbreak : isBreak c = true := h.2
    rw [List.drop_succ_cons, List.drop_zero, ← past_of_isBreak p hbreak, lastLine_past]
    simp [lastLine, lineCount_cons, (by decide : isBreak '\\' = false)]
  fun_induction double gap p text generalizing kept c <;>
    grind [after, Option.map_eq_some_iff, lastLine_past]

end Quoted

namespace Block

theorem lastLine_chomp (c : Cursor) : (chomp c).2.lastLine = c.lastLine := by
  unfold chomp
  split
  · next mark h =>
    obtain ⟨x, hx, hmark⟩ := Option.bind_eq_some_iff.mp h
    exact lastLine_skip hx (not_isBreak_of_kind (fun c => (Chomp.ofChar? c).isSome)
      (by decide) (by decide) (by decide) (Option.isSome_of_eq_some hmark))
  · rfl

theorem lastLine_indent {c c' : Cursor} {n : Option Nat} (h : indent c = some (n, c')) :
    c'.lastLine = c.lastLine := by
  unfold indent at h
  split at h
  · next x rest hrest =>
    split at h
    · cases h
    · split at h
      · next hdigit =>
        cases h
        exact lastLine_skip (by rw [hrest]; rfl)
          (not_isBreak_of_kind Char.isDigit (by decide) (by decide) (by decide) hdigit)
      · cases h
        rfl
  · cases h
    rfl

theorem lastLine_marks {c c' : Cursor} {header : Header} (h : marks c = some (header, c')) :
    c'.lastLine = c.lastLine := by
  have hchomp := lastLine_chomp
  have hindent := @lastLine_indent
  grind [marks]

theorem lastLine_header {c c' : Cursor} {found : Header} (h : header c = some (found, c')) :
    c'.lastLine = c.lastLine := by
  have hmarks := @lastLine_marks c
  grind [header, lastLine_pastComment, lastLine_pastBreak]

theorem lastLine_leading {widest n : Nat} {p : Position} {text breaks : List Char} {c : Cursor}
    (h : leading widest p text = some (breaks, n, c)) : c.lastLine = lastLine ⟨p, text⟩ := by
  fun_induction leading widest p text generalizing breaks n c <;>
    grind [Option.map_eq_some_iff, lastLine_past]

theorem lastLine_read {literal : Bool} {margin : Nat} {spaced : Bool} {place : Place} {p : Position}
    {text : List Char} {r : Reading} (h : read literal margin spaced place p text = some r) :
    r.cursor.lastLine = lastLine ⟨p, text⟩ := by
  fun_induction read literal margin spaced place p text generalizing r <;>
    grind [Reading.prepend, Option.map_eq_some_iff, lastLine_past]

theorem lastLine_scalar {literal : Bool} {margin : Nat} {c c' : Cursor} {text : List Char}
    (h : scalar literal margin c = some (text, c')) : c'.lastLine = c.lastLine := by
  simp only [scalar, bind, Option.bind_eq_some_iff] at h
  obtain ⟨⟨found, c₁⟩, hheader, h⟩ := h
  rw [← lastLine_header hheader]
  split at h
  · obtain ⟨r, hread, h⟩ := Option.bind_eq_some_iff.mp h
    cases h
    exact lastLine_read hread
  · obtain ⟨⟨breaks, widest, c₂⟩, hleading, h⟩ := Option.bind_eq_some_iff.mp h
    obtain ⟨r, hread, h⟩ := Option.bind_eq_some_iff.mp h
    cases h
    exact (lastLine_read hread).trans (lastLine_leading hleading)

end Block

namespace Token.Reading

theorem lastLine_plain {flow : Bool} {margin : Nat} {c : Cursor} {r : Reading}
    (h : plain flow margin c = some r) : r.cursor.lastLine = c.lastLine := by
  obtain ⟨p, text⟩ := c
  unfold plain at h
  split at h
  · cases h
  · next x rest htext =>
    obtain ⟨read, hread, rfl⟩ := Option.map_eq_some_iff.mp h
    obtain rfl : text = x :: rest := htext
    exact (Plain.lastLine_read hread).trans (lastLine_past p x rest)

/-- Behind a scalar the text ends on the same line as before it. -/
theorem lastLine_beginning {flow : Bool} {margin : Nat} {p : Position} {x : Char} {rest : List Char}
    {r : Reading} {style : Style} {text : String}
    (h : beginning flow margin ⟨p, x :: rest⟩ x rest = some r)
    (hkind : r.kind = .scalar style text) : r.cursor.lastLine = lastLine ⟨p, x :: rest⟩ := by
  have hmark {kind : Kind} {n : Nat} (h : mark kind n ⟨p, x :: rest⟩ = some r)
      (hother : ∀ style text, kind ≠ .scalar style text) :
      r.cursor.lastLine = lastLine ⟨p, x :: rest⟩ := by
    cases h
    exact absurd hkind (hother _ _)
  unfold beginning at h
  split at h
  case h_1 | h_2 | h_3 | h_4 | h_5 => exact hmark h nofun
  case h_6 | h_7 | h_8 =>
    split at h
    · exact hmark h nofun
    · exact lastLine_plain h
  case h_9 | h_10 | h_11 =>
    obtain ⟨_, -, rfl⟩ := Option.map_eq_some_iff.mp h
    cases hkind
  case h_12 =>
    obtain ⟨_, hread, rfl⟩ := Option.map_eq_some_iff.mp h
    exact (Quoted.lastLine_single hread).trans (lastLine_skip rfl (by decide))
  case h_13 =>
    obtain ⟨_, hread, rfl⟩ := Option.map_eq_some_iff.mp h
    exact (Quoted.lastLine_double hread).trans (lastLine_skip rfl (by decide))
  case h_14 | h_15 =>
    split at h
    · cases h
    · obtain ⟨_, hread, rfl⟩ := Option.map_eq_some_iff.mp h
      exact (Block.lastLine_scalar hread).trans (lastLine_skip rfl (by decide))
  case h_20 =>
    split at h
    · cases h
    · exact lastLine_plain h
  all_goals cases h

end Token.Reading

theorem Lexer.lastLine_passGap (flow comment keyAllowed : Bool) (p : Position) (text : List Char) :
    (passGap flow comment keyAllowed p text).2.lastLine = lastLine ⟨p, text⟩ := by
  fun_induction passGap flow comment keyAllowed p text <;> grind [lastLine_past]

end NodeLogs.Yaml
