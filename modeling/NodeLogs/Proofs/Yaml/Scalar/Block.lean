import Mathlib.Data.List.DropRight
import NodeLogs.Proofs.Yaml.Characters
import NodeLogs.Yaml.Scalar.Block

/-!
Texts over several lines read back. Every line is found below its margin, and what becomes of the
breaks at the end is what the header says of them.
-/

namespace NodeLogs.Yaml.Block

open Text (Position)
open Writing (isBlank isSpecial indented)

/-- A text and the line breaks that it ends with. -/
theorem exists_ending (s : List Char) :
    ∃ body breaks, s = body ++ breaks ∧ (∀ c ∈ breaks, isBreak c = true) ∧
      body.getLast?.any isBreak = false := by
  refine ⟨s.rdropWhile isBreak, s.rtakeWhile isBreak, ?_, ?_, ?_⟩
  · exact List.rdropWhile_append_rtakeWhile.symm
  · intro c hc
    exact List.mem_rtakeWhile_imp hc
  · by_cases hnil : s.rdropWhile isBreak = []
    · rw [hnil]
      rfl
    · rw [List.getLast?_eq_some_getLast hnil, Option.any_some]
      exact Bool.eq_false_iff.mpr (List.rdropWhile_last_not _ _ hnil)

section

variable {spaced : Bool} {gap : Gap} {p : Position} {c : Char} {rest t : List Char}

theorem read_margin (hp : p.column = 0) :
    read true 2 spaced (.between gap) p (' ' :: ' ' :: rest) =
      read true 2 spaced (.between gap) (p.right 2) rest := by
  have hone : past p ' ' = p.right 1 := past_of_not_isBreak p (by decide)
  have htwo : past (p.right 1) ' ' = p.right 2 := past_of_not_isBreak _ (by decide)
  have hless : (p.right 1).column < 2 := by simp [Position.right, hp]
  rw [read]
  simp only [hp, hone, Nat.zero_lt_succ, and_self, if_true]
  rw [read]
  simp only [hless, htwo, and_self, if_true]

theorem read_between_break (h : isBreak c = true) :
    read true 2 spaced (.between gap) p (c :: rest) =
      read true 2 spaced (.between (gap.addBreak c)) ⟨p.line + 1, 0⟩ rest := by
  have hspace := not_isSpace_of_isBreak h
  simp only [isSpace, Bool.or_eq_false_iff, beq_eq_false_iff_ne] at hspace
  rw [read, ← past_of_isBreak p h]
  simp only [hspace.1, hspace.2, h, and_false, if_false, if_true]

/-- The first character of a line's text is kept after the breaks before it. -/
theorem read_between_other (hp : p.column = 2) (h : isBreak c = false) :
    read true 2 spaced (.between gap) p (c :: rest) =
      (read true 2 (isSpace c) .inLine (p.right 1) rest).map (.prepend (gap.breaks ++ [c])) := by
  rw [read, ← past_of_not_isBreak p h]
  simp [hp, h, joined]

theorem read_inLine_break (h : isBreak c = true) :
    read true 2 spaced .inLine p (c :: rest) =
      read true 2 spaced (.between ⟨[], true, [c], []⟩) ⟨p.line + 1, 0⟩ rest := by
  rw [read, ← past_of_isBreak p h]
  simp only [h, if_true]
  rfl

theorem read_inLine_other (h : isBreak c = false) :
    read true 2 spaced .inLine p (c :: rest) =
      (read true 2 spaced .inLine (p.right 1) rest).map (.prepend [c]) := by
  rw [read, ← past_of_not_isBreak p h]
  simp only [h, Bool.false_eq_true, if_false]

/-- The breaks at the end are passed, up to the next key. -/
theorem read_breaks (ht : StartsKey t) (breaks : List Char)
    (hbreaks : ∀ c ∈ breaks, isBreak c = true) (spaced : Bool) (gap : Gap) (p : Position)
    (hgap : gap.broken = true) (hp : p.column = 0) :
    ∃ line, read true 2 spaced (.between gap) p (breaks ++ t) =
      some ⟨[], { gap with more := gap.more ++ breaks }, ⟨⟨line, 0⟩, t⟩⟩ := by
  induction breaks generalizing gap p with
  | nil =>
    refine ⟨p.line, ?_⟩
    have hposition : p = ⟨p.line, 0⟩ := by rw [← hp]
    rw [List.append_nil, List.nil_append, ← hposition]
    cases t with
    | nil => rw [read]
    | cons c t =>
      obtain ⟨hspace, hbreak, -, hblank, htab⟩ := ht.of_cons
      rw [read]
      simp [hp, hbreak, hblank, htab]
  | cons c breaks ih =>
    have hadd : gap.addBreak c = { gap with more := gap.more ++ [c] } := if_pos hgap
    obtain ⟨line, hread⟩ := ih (fun d hd => hbreaks d (List.mem_cons_of_mem c hd)) (gap.addBreak c)
      ⟨p.line + 1, 0⟩ (by rw [hadd, hgap]) rfl
    refine ⟨line, ?_⟩
    rw [List.cons_append, read_between_break (hbreaks c List.mem_cons_self), hread, hadd]
    simp only [List.append_assoc, List.singleton_append]

end

/-- What is passed behind the last line. -/
def endGap : List Char → Gap
  | [] => .none
  | c :: breaks => ⟨[], true, [c], breaks⟩

/-- The lines of a text with the breaks at its end are read as that text and those breaks, from
within a line or from the start of one. -/
theorem read_body {t : List Char} (ht : StartsKey t) {breaks : List Char} (hsome : breaks ≠ [])
    (hbreaks : ∀ c ∈ breaks, isBreak c = true) (body : List Char)
    (hlast : body.getLast?.any isBreak = false) :
    (∀ spaced p, ∃ line, read true 2 spaced .inLine p (indented false body ++ (breaks ++ t)) =
      some ⟨body, endGap breaks, ⟨⟨line, 0⟩, t⟩⟩) ∧
    (body ≠ [] → ∀ spaced gap (p : Position), gap.broken = true → p.column = 0 →
      ∃ line, read true 2 spaced (.between gap) p (indented true body ++ (breaks ++ t)) =
        some ⟨gap.breaks ++ body, endGap breaks, ⟨⟨line, 0⟩, t⟩⟩) := by
  induction body with
  | nil =>
    refine ⟨?_, fun h => absurd rfl h⟩
    intro spaced p
    obtain ⟨c, breaks, rfl⟩ := List.exists_cons_of_ne_nil hsome
    obtain ⟨line, hread⟩ := read_breaks ht breaks
      (fun d hd => hbreaks d (List.mem_cons_of_mem c hd)) spaced ⟨[], true, [c], []⟩ ⟨p.line + 1, 0⟩
      rfl rfl
    refine ⟨line, ?_⟩
    change read true 2 spaced .inLine p (c :: (breaks ++ t)) = _
    rw [read_inLine_break (hbreaks c List.mem_cons_self), hread]
    rfl
  | cons c body ih =>
    have hlast' : body.getLast?.any isBreak = false := by
      cases body with
      | nil => rfl
      | cons d body => rwa [List.getLast?_cons_cons] at hlast
    obtain ⟨hinLine, hbetween⟩ := ih hlast'
    by_cases hbreak : isBreak c = true
    · have hmore : body ≠ [] := by
        rintro rfl
        rw [List.getLast?_singleton, Option.any_some, hbreak] at hlast
        cases hlast
      have hindented (lineStart : Bool) :
          indented lineStart (c :: body) = c :: indented true body := by
        simp [indented, hbreak]
      constructor
      · intro spaced p
        obtain ⟨line, hread⟩ := hbetween hmore spaced ⟨[], true, [c], []⟩ ⟨p.line + 1, 0⟩ rfl rfl
        refine ⟨line, ?_⟩
        rw [hindented, List.cons_append, read_inLine_break hbreak, hread]
        rfl
      · intro _ spaced gap p hgap hp
        have hadd : gap.addBreak c = { gap with more := gap.more ++ [c] } := if_pos hgap
        obtain ⟨line, hread⟩ :=
          hbetween hmore spaced (gap.addBreak c) ⟨p.line + 1, 0⟩ (by rw [hadd, hgap]) rfl
        refine ⟨line, ?_⟩
        rw [hindented, List.cons_append, read_between_break hbreak, hread, hadd]
        simp [Gap.breaks]
    · have hnot : isBreak c = false := Bool.eq_false_iff.mpr hbreak
      constructor
      · intro spaced p
        obtain ⟨line, hread⟩ := hinLine spaced (p.right 1)
        refine ⟨line, ?_⟩
        have hindented : indented false (c :: body) = c :: indented false body := by
          simp [indented, hnot]
        rw [hindented, List.cons_append, read_inLine_other hnot, hread]
        rfl
      · intro _ spaced gap p hgap hp
        obtain ⟨line, hread⟩ := hinLine (isSpace c) ((p.right 2).right 1)
        refine ⟨line, ?_⟩
        have hindented : indented true (c :: body) = ' ' :: ' ' :: c :: indented false body := by
          simp [indented, hnot]
        have hcolumn : (p.right 2).column = 2 := by simp [Position.right, hp]
        rw [hindented, List.cons_append, List.cons_append, List.cons_append, read_margin hp,
          read_between_other hcolumn hnot, hread, Option.map_some, Reading.prepend,
          List.append_assoc]
        rfl

/-- How a way to end is marked. -/
def markOf : Chomp → List Char
  | .strip => ['-']
  | .clip => []
  | .keep => ['+']

theorem chompMark_of_no_breaks {s : List Char} (hlast : s.getLast?.any isBreak = false) :
    Writing.chompMark s = markOf .strip := by
  unfold Writing.chompMark
  rw [List.getLast?_eq_head?_reverse] at hlast
  cases hreverse : s.reverse with
  | nil => rfl
  | cons c rest =>
    rw [hreverse] at hlast
    have hc : isBreak c = false := hlast
    simp [hc, markOf]

theorem chompMark_of_one_break {body : List Char} {c : Char} (hbody : body ≠ [])
    (hlast : body.getLast?.any isBreak = false) (hc : isBreak c = true) :
    Writing.chompMark (body ++ [c]) = markOf .clip := by
  simp [Writing.chompMark, hc, hbody, hlast, markOf]

theorem chompMark_of_breaks {body breaks : List Char} (hsome : breaks ≠ [])
    (hbreaks : ∀ c ∈ breaks, isBreak c = true) (h : body = [] ∨ 1 < breaks.length) :
    Writing.chompMark (body ++ breaks) = markOf .keep := by
  have hreverse (c : Char) (hc : c ∈ breaks.reverse) : isBreak c = true :=
    hbreaks c (List.mem_reverse.mp hc)
  rw [Writing.chompMark, List.reverse_append]
  rcases hlist : breaks.reverse with _ | ⟨c, _ | ⟨d, rest⟩⟩
  · exact absurd (List.reverse_eq_nil_iff.mp hlist) hsome
  · have hlength : breaks.length = 1 := by rw [← List.length_reverse, hlist]; rfl
    have hbody : body = [] := h.resolve_right (by omega)
    have hc := hreverse c (by simp [hlist])
    simp [hc, hbody, markOf]
  · have hc := hreverse c (by simp [hlist])
    have hd := hreverse d (by simp [hlist])
    simp [hc, hd, markOf]

theorem indented_append (lineStart : Bool) (body : List Char) {breaks : List Char}
    (h : ∀ c ∈ breaks, isBreak c = true) :
    indented lineStart (body ++ breaks) = indented lineStart body ++ breaks := by
  induction body generalizing lineStart with
  | nil =>
    simp only [List.nil_append, indented]
    induction breaks generalizing lineStart with
    | nil => rfl
    | cons c breaks ih =>
      rw [indented, if_pos (h c List.mem_cons_self), ih fun d hd => h d (List.mem_cons_of_mem c hd)]
  | cons c body ih =>
    simp only [List.cons_append, indented, ih]
    split
    · rfl
    · split <;> rfl

/-- All lines of a text are read, and what is made of the breaks at their end is what was marked. -/
theorem read_lines {t : List Char} (ht : StartsKey t) {s : List Char} (hs : s ≠ []) (line : Nat) :
    ∃ mode r, Writing.chompMark s = markOf mode ∧ r.chomped mode = s ∧
      (∃ line, r.cursor = ⟨⟨line, 0⟩, t⟩) ∧
      read true 2 false (.between .escaped) ⟨line, 0⟩
        (indented true s ++ (lineEnd s ++ t)) = some r := by
  obtain ⟨body, breaks, rfl, hbreaks, hlast⟩ := exists_ending s
  rw [lineEnd, indented_append true body hbreaks, List.append_assoc]
  by_cases hnone : breaks = []
  · subst hnone
    rw [List.append_nil] at hs ⊢
    obtain ⟨line', hread⟩ := (read_body ht (List.cons_ne_nil '\n' []) (by simp [isBreak]) body
      hlast).2 hs false .escaped ⟨line, 0⟩ rfl rfl
    rw [hlast]
    exact ⟨.strip, ⟨_, _, _⟩, chompMark_of_no_breaks hlast, rfl, ⟨line', rfl⟩, hread⟩
  · have hend : (body ++ breaks).getLast?.any isBreak = true := by
      rw [List.getLast?_append_of_ne_nil _ hnone, List.getLast?_eq_some_getLast hnone]
      exact hbreaks _ (List.getLast_mem hnone)
    rw [hend]
    by_cases hbody : body = []
    · subst hbody
      obtain ⟨line', hread⟩ := read_breaks ht breaks hbreaks false .escaped ⟨line, 0⟩ rfl rfl
      exact ⟨.keep, ⟨_, _, _⟩, chompMark_of_breaks hnone hbreaks (Or.inl rfl), rfl, ⟨line', rfl⟩,
        hread⟩
    · obtain ⟨line', hread⟩ := (read_body ht hnone hbreaks body hlast).2 hbody false .escaped
        ⟨line, 0⟩ rfl rfl
      rcases breaks with _ | ⟨c, _ | ⟨d, breaks⟩⟩
      · exact absurd rfl hnone
      · exact ⟨.clip, ⟨_, _, _⟩,
          chompMark_of_one_break hbody hlast (hbreaks c List.mem_cons_self), rfl, ⟨line', rfl⟩,
          hread⟩
      · exact ⟨.keep, ⟨_, _, _⟩, chompMark_of_breaks hnone hbreaks (Or.inr (by simp)), rfl,
          ⟨line', rfl⟩, hread⟩

theorem header_written (mode : Chomp) (hint : Bool) (p : Position) (rest : List Char) :
    header ⟨p, (if hint then ['2'] else []) ++ (markOf mode ++ '\n' :: rest)⟩ =
      some (⟨mode, if hint then some 2 else none⟩, ⟨⟨p.line + 1, 0⟩, rest⟩) := by
  cases hint <;> cases mode <;> rfl

/-- The margin of the first line shows how far all lines are indented. -/
theorem leading_margin {c : Char} (hc : c ≠ ' ' ∧ c ≠ '\t' ∧ isBreak c = false) (line : Nat)
    (rest : List Char) :
    leading 0 ⟨line, 0⟩ (' ' :: ' ' :: c :: rest) = some ([], 2, ⟨⟨line, 2⟩, c :: rest⟩) := by
  rw [leading, if_pos rfl, leading, if_pos rfl, leading, if_neg hc.1, if_neg hc.2.1,
    if_neg (by simp [hc.2.2])]
  rfl

/-- A text over several lines is read back from its header on. -/
theorem scalar_lines {t : List Char} (ht : StartsKey t) {s : List Char} (hs : s ≠ [])
    (hspecial : ∀ c ∈ s, isSpecial c = false) (p : Position) :
    ∃ line, scalar true 1 ⟨p, (if s.head?.any fun c => isBlank c || isBreak c then ['2'] else []) ++
        (Writing.chompMark s ++
          '\n' :: (indented true s ++ (lineEnd s ++ t)))⟩ =
      some (s, ⟨⟨line, 0⟩, t⟩) := by
  obtain ⟨mode, r, hmark, hchomped, ⟨line, hcursor⟩, hread⟩ := read_lines ht hs (p.line + 1)
  refine ⟨line, ?_⟩
  rw [hmark, scalar, header_written]
  by_cases hhint : s.head?.any (fun c => isBlank c || isBreak c) = true
  · simp only [hhint, if_true, bind, Option.bind_some, hread, hchomped, hcursor, pure]
  · obtain ⟨c, rest, rfl⟩ := List.exists_cons_of_ne_nil hs
    simp only [List.head?_cons, Option.any_some, Bool.or_eq_true, not_or, Bool.not_eq_true] at hhint
    obtain ⟨hblank, hbreak⟩ := hhint
    have hspace := isSpace_of_not_isSpecial (hspecial c List.mem_cons_self)
    rw [hblank] at hspace
    have hc : c ≠ ' ' ∧ c ≠ '\t' ∧ isBreak c = false := by
      simp only [isSpace, Bool.or_eq_false_iff, beq_eq_false_iff_ne] at hspace
      exact ⟨hspace.1, hspace.2, hbreak⟩
    have hindented : indented true (c :: rest) = ' ' :: ' ' :: c :: indented false rest := by
      simp [indented, hbreak]
    rw [hindented, List.cons_append, List.cons_append, List.cons_append, read_margin rfl] at hread
    simp only [List.head?_cons, Option.any_some, hblank, hbreak, Bool.or_self, Bool.false_eq_true,
      if_false, bind, Option.bind_some, hindented, List.cons_append, leading_margin hc]
    change (read true 2 false (.between .escaped) (Position.right ⟨p.line + 1, 0⟩ 2) _).bind _ = _
    rw [hread, Option.bind_some, hchomped, hcursor]
    rfl

end NodeLogs.Yaml.Block
