import NodeLogs.Proofs.Yaml.Characters
import NodeLogs.Yaml.Scalar.Quoted

/-!
Scalars in quotes read back. In single quotes a text may go over several lines, whose margins are
passed and whose breaks are kept; in double quotes every character is there itself or as an escape.
-/

namespace NodeLogs.Yaml.Quoted

open Text (Position)
open Writing (isBlank isSpecial hasPair doubled indented)

/-! In single quotes -/

/-- The margin before the closing quote: its line is indented too. -/
def closing : Bool → List Char → List Char
  | lineStart, [] => if lineStart then [' ', ' '] else []
  | _, c :: rest => closing (isBreak c) rest

theorem closing_eq (s : List Char) :
    closing false s = if s.getLast?.any isBreak then [' ', ' '] else [] := by
  have hall (c : Char) :
      closing (isBreak c) s = if (c :: s).getLast?.any isBreak then [' ', ' '] else [] := by
    induction s generalizing c with
    | nil => rfl
    | cons d s ih => rw [closing, ih, List.getLast?_cons_cons]
  cases s with
  | nil => rfl
  | cons c s => exact hall ' '

section

variable {gap : Gap} {p : Position} {c : Char} {rest : List Char}

theorem single_space (h : isSpace c = true) :
    single gap p (c :: rest) = single (gap.addSpace c) (past p c) rest := by
  rw [single.eq_def]
  simp only [h, if_true]

theorem single_break (h : isBreak c = true) :
    single gap p (c :: rest) = single (gap.addBreak c) ⟨p.line + 1, 0⟩ rest := by
  rw [single.eq_def, ← past_of_isBreak p h]
  simp only [not_isSpace_of_isBreak h, h, if_true, Bool.false_eq_true, if_false]

/-- A quote that is doubled stands for one. -/
theorem single_quote (hcolumn : 0 < p.column) :
    single gap p ('\'' :: '\'' :: rest) = (single .none (p.right 2) rest).map (after gap '\'') := by
  rw [single.eq_def]
  simp only [not_atDocumentMark hcolumn, isSpace, isBreak, lineSeparator, paragraphSeparator,
    Char.reduceBEq, Bool.or_self, Bool.false_eq_true, if_false, if_true]

theorem single_close (hcolumn : 0 < p.column) (hrest : rest.head? ≠ some '\'') :
    single gap p ('\'' :: rest) = some (gap.folded, ⟨p.right 1, rest⟩) := by
  rw [single.eq_def]
  simp only [not_atDocumentMark hcolumn, isSpace, isBreak, lineSeparator, paragraphSeparator,
    Char.reduceBEq, Bool.or_self, Bool.false_eq_true, if_false, if_true]
  split
  · exact absurd rfl hrest
  · rfl

theorem single_other (hspace : isSpace c = false) (hbreak : isBreak c = false)
    (hcolumn : 0 < p.column) (hquote : c ≠ '\'') :
    single gap p (c :: rest) = (single .none (p.right 1) rest).map (after gap c) := by
  rw [single.eq_def, ← past_of_not_isBreak p hbreak]
  simp only [not_atDocumentMark hcolumn, hspace, hbreak, hquote, Bool.false_eq_true, if_false]

/-- The margin of a line is passed. -/
theorem single_margin (hbroken : gap.broken = true) :
    single gap p (' ' :: ' ' :: rest) = single gap (p.right 2) rest := by
  have hadd : gap.addSpace ' ' = gap := if_pos hbroken
  rw [single_space (by decide), single_space (by decide), hadd, hadd]
  rfl

end

theorem broken_addBreak (gap : Gap) (c : Char) : (gap.addBreak c).broken = true := by
  unfold Gap.addBreak
  split
  · assumption
  · rfl

/-- What is left of a text that may stand in single quotes, and has no line feeds. -/
structure Fits (s : List Char) : Prop where
  special : ∀ c ∈ s, isSpecial c = false
  line : '\n' ∉ s
  before : hasPair isBlank isBreak s = false
  behind : hasPair isBreak isBlank s = false

/-- A gap with nothing in it that the text after it would take away. -/
structure Waits (gap : Gap) (p : Position) (s : List Char) : Prop where
  kept : gap.broken = false → gap.spaces ≠ [] → ∀ c, s.head? = some c → isBreak c = false
  first : gap.first ≠ ['\n']
  start : gap.broken = true → ∀ c, s.head? = some c → isBlank c = false
  column : gap.broken = false → 0 < p.column

section

variable {gap : Gap} {p : Position} {c : Char} {s : List Char}

theorem Fits.tail (h : Fits (c :: s)) : Fits s where
  special d hd := h.special d (List.mem_cons_of_mem c hd)
  line hd := h.line (List.mem_cons_of_mem c hd)
  before := (hasPair_cons h.before).2
  behind := (hasPair_cons h.behind).2

theorem waits_none (hcolumn : 0 < p.column) (s : List Char) : Waits .none p s where
  kept _ hne := absurd rfl hne
  first := nofun
  start := nofun
  column _ := hcolumn

/-- A break that is no line feed is kept, after others or not. -/
theorem Waits.addBreak (h : Waits gap p (c :: s)) (hfits : Fits (c :: s))
    (hbreak : isBreak c = true) (p' : Position) :
    Waits (gap.addBreak c) p' s ∧ (gap.addBreak c).folded = gap.folded ++ [c] := by
  have hopen : (gap.addBreak c).broken ≠ false := by rw [broken_addBreak]; exact nofun
  have hline : c ≠ '\n' := fun h => hfits.line (h ▸ List.mem_cons_self)
  suffices hadd : (gap.addBreak c).first ≠ ['\n'] ∧ (gap.addBreak c).folded = gap.folded ++ [c] from
    ⟨⟨fun h => absurd h hopen, hadd.1, fun _ => (hasPair_cons hfits.behind).1 hbreak,
      fun h => absurd h hopen⟩, hadd.2⟩
  cases hbroken : gap.broken with
  | true =>
    have hadd : gap.addBreak c = { gap with more := gap.more ++ [c] } := if_pos hbroken
    rw [hadd]
    refine ⟨h.first, ?_⟩
    simp only [Gap.folded, hbroken, if_true, if_neg h.first, Gap.breaks, List.append_assoc]
  | false =>
    have hadd : gap.addBreak c = ⟨[], true, [c], []⟩ := if_neg (by simp [hbroken])
    have hspaces : gap.spaces = [] := by
      by_cases hnil : gap.spaces = []
      · exact hnil
      · rw [h.kept hbroken hnil c rfl] at hbreak
        cases hbreak
    rw [hadd]
    simp [Gap.folded, hbroken, hspaces, Gap.breaks, hline]

/-- A space stands within a line. -/
theorem Waits.addSpace (h : Waits gap p (c :: s)) (hfits : Fits (c :: s))
    (hblank : isBlank c = true) :
    gap.broken = false ∧ (gap.addSpace c).broken = false ∧ Waits (gap.addSpace c) (p.right 1) s ∧
      (gap.addSpace c).folded = gap.folded ++ [c] := by
  have hbroken : gap.broken = false := by
    cases hbroken : gap.broken with
    | false => rfl
    | true =>
      rw [h.start hbroken c rfl] at hblank
      cases hblank
  have hadd : gap.addSpace c = { gap with spaces := gap.spaces ++ [c] } :=
    if_neg (by simp [hbroken])
  rw [hadd]
  refine ⟨hbroken, hbroken, ⟨fun _ _ => (hasPair_cons hfits.before).1 hblank, h.first, ?_,
    fun _ => Nat.succ_pos _⟩, by simp [Gap.folded, hbroken]⟩
  rw [hbroken]
  exact nofun

/-- A character that is no white space, after the margin of its line if it is the first there. -/
theorem single_doubled {rest : List Char} (hwaits : Waits gap p (c :: s))
    (hspace : isSpace c = false) (hbreak : isBreak c = false) :
    ∃ p', 0 < p'.column ∧ single gap p (indented gap.broken (doubled (c :: s)) ++ rest) =
      (single .none p' (indented false (doubled s) ++ rest)).map (after gap c) := by
  -- Where the character stands, its margin having been passed.
  obtain ⟨q, hq, hpassed⟩ : ∃ q : Position, 0 < q.column ∧
      single gap p (indented gap.broken (doubled (c :: s)) ++ rest) =
        single gap q (indented false (doubled (c :: s)) ++ rest) := by
    cases hbroken : gap.broken with
    | false => exact ⟨p, hwaits.column hbroken, rfl⟩
    | true =>
      refine ⟨p.right 2, Nat.succ_pos _, ?_⟩
      rw [← single_margin hbroken]
      by_cases hquote : c = '\''
      · simp [doubled, hquote, indented, isBreak, lineSeparator, paragraphSeparator]
      · simp [doubled, hquote, indented, hbreak]
  rw [hpassed]
  by_cases hquote : c = '\''
  · subst hquote
    refine ⟨q.right 2, Nat.succ_pos _, ?_⟩
    rw [← single_quote hq]
    simp [doubled, indented, hbreak]
  · refine ⟨q.right 1, Nat.succ_pos _, ?_⟩
    rw [← single_other hspace hbreak hq hquote]
    simp [doubled, hquote, indented, hbreak]

end

/-- The rest of a text, after a gap that has begun. -/
theorem single_text {t : List Char} (s : List Char) (gap : Gap) (p : Position) (hfits : Fits s)
    (hwaits : Waits gap p s) :
    ∃ p', single gap p (indented gap.broken (doubled s) ++
      (closing gap.broken s ++ '\'' :: '\n' :: t)) =
      some (gap.folded ++ s, ⟨p', '\n' :: t⟩) := by
  induction s generalizing gap p with
  | nil =>
    have hclose (p : Position) (hp : 0 < p.column) :
        single gap p ('\'' :: '\n' :: t) = some (gap.folded, ⟨p.right 1, '\n' :: t⟩) :=
      single_close hp (by simp)
    rw [List.append_nil]
    cases hbroken : gap.broken with
    | true =>
      refine ⟨(p.right 2).right 1, ?_⟩
      rw [← hclose _ (Nat.succ_pos _), ← single_margin hbroken]
      rfl
    | false => exact ⟨p.right 1, hclose p (hwaits.column hbroken)⟩
  | cons c s ih =>
    by_cases hbreak : isBreak c = true
    · have hquote : c ≠ '\'' := by
        rintro rfl
        revert hbreak
        decide
      obtain ⟨hnext, hfolded⟩ := hwaits.addBreak hfits hbreak ⟨p.line + 1, 0⟩
      obtain ⟨p', hread⟩ := ih _ _ hfits.tail hnext
      refine ⟨p', ?_⟩
      rw [broken_addBreak] at hread
      simp only [doubled, if_neg hquote, indented, hbreak, if_true, closing, List.cons_append]
      rw [single_break hbreak, hread, hfolded, List.append_assoc]
      rfl
    · have hnot : isBreak c = false := Bool.eq_false_iff.mpr hbreak
      by_cases hblank : isBlank c = true
      · have hquote : c ≠ '\'' := by
          rintro rfl
          revert hblank
          decide
        obtain ⟨hbroken, hkept, hnext, hfolded⟩ := hwaits.addSpace hfits hblank
        obtain ⟨p', hread⟩ := ih _ _ hfits.tail hnext
        refine ⟨p', ?_⟩
        rw [hkept] at hread
        rw [hbroken]
        simp only [doubled, if_neg hquote, indented, hnot, closing, Bool.false_eq_true, if_false,
          List.cons_append]
        rw [single_space (isSpace_of_isBlank hblank), past_of_not_isBreak p hnot, hread, hfolded,
          List.append_assoc]
        rfl
      · have hspace : isSpace c = false := by
          rw [isSpace_of_not_isSpecial (hfits.special c List.mem_cons_self)]
          exact Bool.eq_false_iff.mpr hblank
        obtain ⟨q, hq, hdoubled⟩ := single_doubled hwaits hspace hnot
        obtain ⟨p', hread⟩ := ih .none q hfits.tail (waits_none hq s)
        refine ⟨p', ?_⟩
        rw [hdoubled, closing, hnot]
        rw [show Gap.none.broken = false from rfl] at hread
        rw [hread, Option.map_some, after]
        rfl

/-! In double quotes -/

section

open Writing (escaped hex numbered needsEscape)

theorem hexDigit?_digitChar {n : Nat} (h : n < 16) :
    hexDigit? (Nat.digitChar n).toUpper = some n := by
  have hall : ∀ n < 16, hexDigit? (Nat.digitChar n).toUpper = some n := by decide
  exact hall n h

theorem length_hex (digits n : Nat) : (hex digits n).length = digits := by
  induction digits generalizing n with
  | zero => rfl
  | succ digits ih => rw [hex, List.length_append, ih]; rfl

theorem hexNumber?_hex (digits n : Nat) (h : n < Nat.pow 16 digits) :
    hexNumber? (hex digits n) = some n := by
  induction digits generalizing n with
  | zero =>
    have hzero : n = 0 := Nat.lt_one_iff.mp h
    rw [hzero]
    rfl
  | succ digits ih =>
    have hfront : n / 16 < Nat.pow 16 digits :=
      Nat.div_lt_of_lt_mul (by rw [Nat.mul_comm]; exact h)
    have hread := ih (n / 16) hfront
    unfold hexNumber? at hread ⊢
    have hlast := hexDigit?_digitChar (Nat.mod_lt n (by decide : 0 < 16))
    rw [hex, List.foldlM_append, hread]
    simp only [Option.bind_eq_bind, Option.bind_some, List.foldlM_cons, List.foldlM_nil, hlast,
      Option.map_some, Option.pure_def]
    congr 1
    omega

/-- The digits of a character's code point stand for that character. -/
theorem ofHex?_hex (c : Char) (digits : Nat) (h : c.toNat < Nat.pow 16 digits) (rest : List Char) :
    ofHex? digits (hex digits c.toNat ++ rest) = some (c, digits + 1) := by
  have hlength : ¬ (hex digits c.toNat ++ rest).length < digits := by
    rw [List.length_append, length_hex]
    omega
  have htake : (hex digits c.toNat ++ rest).take digits = hex digits c.toNat :=
    List.take_left' (length_hex digits c.toNat)
  have hvalid : c.toNat.isValidChar := c.valid
  have hcode : ofCode? c.toNat = some c := by
    rw [ofCode?, if_pos hvalid, Char.ofNat_toNat]
  rw [ofHex?, if_neg hlength, htake, hexNumber?_hex digits _ h, Option.bind_some, hcode]
  rfl

/-- A code point is told by two, four or eight digits, with a mark of its own before them. -/
theorem exists_numbered (c : Char) :
    ∃ mark digits, numbered c = mark :: hex digits c.toNat ∧ c.toNat < Nat.pow 16 digits ∧
      (mark = 'x' ∧ digits = 2 ∨ mark = 'u' ∧ digits = 4 ∨ mark = 'U' ∧ digits = 8) := by
  have hvalid : c.toNat.isValidChar := c.valid
  have hmost : 0x110000 < Nat.pow 16 8 := by decide
  have hlt : c.toNat < Nat.pow 16 8 := by rcases hvalid with h | h <;> omega
  by_cases htwo : c.toNat ≤ 0xff
  · exact ⟨'x', 2, if_pos htwo, Nat.lt_succ_of_le htwo, Or.inl ⟨rfl, rfl⟩⟩
  · by_cases hfour : c.toNat ≤ 0xffff
    · exact ⟨'u', 4, (if_neg htwo).trans (if_pos hfour), Nat.lt_succ_of_le hfour,
        Or.inr (Or.inl ⟨rfl, rfl⟩)⟩
    · exact ⟨'U', 8, (if_neg htwo).trans (if_neg hfour), hlt, Or.inr (Or.inr ⟨rfl, rfl⟩)⟩

theorem escapeAt?_numbered (c : Char) (rest : List Char) :
    escapeAt? (numbered c ++ rest) = some (c, (numbered c).length) := by
  obtain ⟨mark, digits, hnumbered, hlt, hmark⟩ := exists_numbered c
  have hdigits : escapeAt? (mark :: (hex digits c.toNat ++ rest)) =
      ofHex? digits (hex digits c.toNat ++ rest) := by
    rcases hmark with ⟨rfl, rfl⟩ | ⟨rfl, rfl⟩ | ⟨rfl, rfl⟩ <;> rfl
  rw [hnumbered, List.cons_append, hdigits, ofHex?_hex c digits hlt, List.length_cons, length_hex]

/-- What stands for a character is read as that character, whatever comes behind it. -/
theorem escapeAt?_escaped (c : Char) (rest : List Char) :
    escapeAt? (escaped c ++ rest) = some (c, (escaped c).length) := by
  unfold escaped
  split
  case h_15 => exact escapeAt?_numbered c rest
  all_goals rfl

theorem not_atLineEnd_escaped (c : Char) (rest : List Char) :
    atLineEnd (escaped c ++ rest) = false := by
  unfold escaped
  split
  case h_15 =>
    obtain ⟨mark, digits, hnumbered, -, hmark⟩ := exists_numbered c
    rw [hnumbered]
    rcases hmark with ⟨rfl, -⟩ | ⟨rfl, -⟩ | ⟨rfl, -⟩ <;> rfl
  all_goals rfl

variable {gap : Gap} {p : Position} {c : Char} {rest : List Char}

theorem double_space (h : isSpace c = true) :
    double gap p (c :: rest) = double (gap.addSpace c) (past p c) rest := by
  rw [double.eq_def]
  simp only [h, if_true]

theorem double_close (hcolumn : 0 < p.column) :
    double gap p ('"' :: rest) = some (gap.folded, ⟨p.right 1, rest⟩) := by
  rw [double.eq_def]
  simp only [not_atDocumentMark hcolumn, isSpace, isBreak, lineSeparator, paragraphSeparator,
    Char.reduceBEq, Bool.or_self, Bool.false_eq_true, if_false, if_true]

theorem double_escaped (hcolumn : 0 < p.column) (c : Char) :
    double gap p ('\\' :: (escaped c ++ rest)) =
      (double .none (p.right ((escaped c).length + 1)) rest).map (after gap c) := by
  have hline : ¬ (escaped c ++ rest ≠ [] ∧ atLineEnd (escaped c ++ rest) = true) := by
    rw [not_atLineEnd_escaped]
    exact fun h => Bool.false_ne_true h.2
  rw [double.eq_def]
  simp only [not_atDocumentMark hcolumn, isSpace, isBreak, lineSeparator, paragraphSeparator,
    Char.reduceBEq, Char.reduceEq, Bool.or_self, Bool.false_eq_true, if_false,
      if_true, if_neg hline,
    escapeAt?_escaped, List.drop_left]

theorem double_other (hspace : isSpace c = false) (hbreak : isBreak c = false)
    (hcolumn : 0 < p.column) (hquote : c ≠ '"') (hslash : c ≠ '\\') :
    double gap p (c :: rest) = (double .none (p.right 1) rest).map (after gap c) := by
  rw [double.eq_def, ← past_of_not_isBreak p hbreak]
  simp only [not_atDocumentMark hcolumn, hspace, hbreak, hquote, hslash,
    Bool.false_eq_true, if_false]

/-- The rest of a text, every special character of it escaped. -/
theorem double_text (s : List Char) (gap : Gap) (p : Position) (hgap : gap.broken = false)
    (hcolumn : 0 < p.column) :
    ∃ p', double gap p
        (s.flatMap (fun c => if needsEscape c then '\\' :: escaped c else [c]) ++ '"' :: rest) =
      some (gap.folded ++ s, ⟨p', rest⟩) := by
  have hnone : Gap.none.broken = false := rfl
  induction s generalizing gap p with
  | nil =>
    rw [List.append_nil]
    exact ⟨p.right 1, double_close hcolumn⟩
  | cons c s ih =>
    rw [List.flatMap_cons, List.append_assoc]
    by_cases hescape : needsEscape c = true
    · obtain ⟨p', hread⟩ := ih .none (p.right ((escaped c).length + 1)) hnone (Nat.succ_pos _)
      refine ⟨p', ?_⟩
      rw [if_pos hescape, List.cons_append, double_escaped hcolumn, hread]
      rfl
    · have hnot : needsEscape c = false := Bool.eq_false_iff.mpr hescape
      simp only [needsEscape, Bool.or_eq_false_iff, beq_eq_false_iff_ne] at hnot
      obtain ⟨⟨⟨hspecial, hbreak⟩, hquote⟩, hslash⟩ := hnot
      rw [if_neg hescape, List.singleton_append]
      by_cases hblank : isBlank c = true
      · have hadd : gap.addSpace c = { gap with spaces := gap.spaces ++ [c] } :=
          if_neg (by simp [hgap])
        obtain ⟨p', hread⟩ := ih (gap.addSpace c) (p.right 1) (by rw [hadd, hgap]) (Nat.succ_pos _)
        have hfolded : (gap.addSpace c).folded = gap.folded ++ [c] := by
          simp [hadd, Gap.folded, hgap]
        refine ⟨p', ?_⟩
        rw [double_space (isSpace_of_isBlank hblank), past_of_not_isBreak p hbreak, hread, hfolded,
          List.append_assoc]
        rfl
      · have hspace : isSpace c = false := by
          rw [isSpace_of_not_isSpecial hspecial]
          exact Bool.eq_false_iff.mpr hblank
        obtain ⟨p', hread⟩ := ih .none (p.right 1) hnone (Nat.succ_pos _)
        refine ⟨p', ?_⟩
        rw [double_other hspace hbreak hcolumn hquote hslash, hread]
        rfl

end

end NodeLogs.Yaml.Quoted
