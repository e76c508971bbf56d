import NodeLogs.Proofs.Yaml.Lines
import NodeLogs.Proofs.Yaml.Scalars
import NodeLogs.Yaml.Lexer

/-!
Maps read back. For every entry that was written the tokens of a key and a value are read, in the
same order, and then the map ends where the text does.
-/

namespace NodeLogs.Yaml

open Text (Position)

/-- A key that stands for itself: a word on a line that is not too long for a key. -/
structure IsKey (key : String) : Prop where
  some : key.toList ≠ []
  short : key.toList.length ≤ longestKey
  word : ∀ c ∈ key.toList, c.isAlpha ∨ c = '_'

theorem IsKey.of_all {key : String} (hsome : key.toList ≠ [])
    (hshort : key.toList.length ≤ longestKey)
    (hword : (key.toList.all fun c => c.isAlpha || c == '_') = true) : IsKey key := by
  refine ⟨hsome, hshort, ?_⟩
  intro c hc
  simpa using List.all_eq_true.mp hword c hc

theorem IsKey.startsKey {key : String} (h : IsKey key) (rest : List Char) :
    StartsKey (key.toList ++ rest) := by
  obtain ⟨c, cs, hcs⟩ := List.exists_cons_of_ne_nil h.some
  rw [hcs]
  exact h.word c (by rw [hcs]; exact List.mem_cons_self)

theorem entry_eq (key value : List Char) (rest : List Char) :
    Writing.entry key value ++ rest =
      key ++ ':' :: ' ' :: (Writing.scalar value ++ (lineEnd (Writing.scalar value) ++ rest)) := by
  simp [Writing.entry, lineEnd]

/-- An entry takes as many lines as its value does, with the break behind it. -/
theorem IsKey.lineCount_entry {key : String} (h : IsKey key) (value rest : List Char) :
    lineCount (Writing.entry key.toList value) + lineCount rest =
      lineCount (Writing.scalar value ++ (lineEnd (Writing.scalar value) ++ rest)) := by
  have hkey : lineCount key.toList = 0 := by
    refine lineCount_eq_zero fun c hc => ?_
    have hstart : StartsKey [c] := h.word c hc
    exact hstart.of_cons.2.1
  rw [← lineCount_append, entry_eq, lineCount_append, hkey, lineCount_cons, lineCount_cons]
  simp [(by decide : isBreak ':' = false), (by decide : isBreak ' ' = false)]

/-- A scalar begins with no white space, and with nothing that is passed as a comment. -/
theorem scalar_begins (s : List Char) : ∃ c rest,
    Writing.scalar s = c :: rest ∧ isSpace c = false ∧ isBreak c = false ∧ c ≠ '#' := by
  unfold Writing.scalar
  cases hstyle : Writing.style s with
  | folded => exact absurd hstyle (style_ne_folded s)
  | plain =>
    have h := bare_of_style hstyle
    obtain ⟨c, rest, rfl⟩ := List.exists_cons_of_ne_nil h.some
    refine ⟨c, rest, rfl, ?_, h.breaks c List.mem_cons_self, ?_⟩
    · rw [isSpace_of_not_isSpecial (h.special c List.mem_cons_self)]
      exact h.first
    · rintro rfl
      have hmark := h.mark
      simp [Writing.isMark] at hmark
  | singleQuoted => exact ⟨'\'', _, rfl, by decide, by decide, by decide⟩
  | doubleQuoted => exact ⟨'"', _, rfl, by decide, by decide, by decide⟩
  | literal => exact ⟨'|', _, rfl, by decide, by decide, by decide⟩

namespace Token

theorem beginning_of_word {c : Char} (h : c.isAlpha ∨ c = '_') (margin : Nat) (cursor : Cursor)
    (rest : List Char) :
    Reading.beginning false margin cursor c rest = Reading.plain false margin cursor := by
  unfold Reading.beginning
  split
  case h_20 =>
    have hstart : StartsKey (c :: rest) := h
    simp [hstart.of_cons.1]
  all_goals exact absurd h (by decide)

/-- A key is read up to its colon. -/
theorem next_word {key : String} (h : IsKey key) (margin line : Nat) (rest : List Char) :
    Reading.next false margin ⟨⟨line, 0⟩, key.toList ++ ':' :: ' ' :: rest⟩ =
      some ⟨.scalar .plain key, false, ⟨⟨line, key.toList.length⟩, ':' :: ' ' :: rest⟩⟩ := by
  obtain ⟨c, cs, hcs⟩ := List.exists_cons_of_ne_nil h.some
  have hwords := h.word
  rw [hcs] at hwords
  have hword := hwords c List.mem_cons_self
  have hne (d : Char) (hd : ¬ (d.isAlpha ∨ d = '_')) : c ≠ d := by
    rintro rfl
    exact hd hword
  have hstart : StartsKey (c :: cs) := hword
  have hread := Plain.read_word margin cs rest ⟨line, 1⟩
    fun d hd => hwords d (List.mem_cons_of_mem c hd)
  have hkey : String.ofList (c :: cs) = key := by rw [← hcs, String.ofList_toList]
  have hpast : past ⟨line, 0⟩ c = ⟨line, 1⟩ := past_of_not_isBreak _ hstart.of_cons.2.1
  rw [hcs, List.cons_append]
  have hmark (mark : Char) (h : ¬ (mark.isAlpha ∨ mark = '_')) :
      atLineMark mark ⟨line, 0⟩ (c :: (cs ++ ':' :: ' ' :: rest)) = false := by
    simp [atLineMark, (hne mark h).symm]
  simp only [Reading.next, hmark '-' (by decide), hmark '.' (by decide), hne '%' (by decide),
    and_false, if_false, Bool.false_eq_true, beginning_of_word hword, Reading.plain, hpast, hread,
    Option.map_some, hkey, Position.right, List.length_cons, Nat.add_comm]

/-- The tokens of an entry that begins a line. -/
def entry (key value : String) (line : Nat) (style : Style) (p : Position) : List Token :=
  [⟨.key, ⟨line, 0⟩⟩, ⟨.scalar .plain key, ⟨line, 0⟩⟩, ⟨.value, ⟨line, key.toList.length⟩⟩,
    ⟨.scalar style value, p⟩]

/-- The tokens of the entries of a map, with these keys and values, from a line on. -/
inductive Entries : Nat → List (String × String) → List Token → Prop
  | nil (line : Nat) : Entries line [] []
  | cons {pairs : List (String × String)} {tokens : List Token} {key value : String} {line : Nat}
      (style : Style) (p : Position)
      (h : Entries (line + lineCount (Writing.entry key.toList value.toList)) pairs tokens) :
      Entries line ((key, value) :: pairs) (entry key value line style p ++ tokens)

theorem ReadAs.isScalar {s t : List Char} {r : Reading} (h : ReadAs s t r) :
    ∃ style, r.kind = .scalar style (String.ofList s) := by
  cases h <;> exact ⟨_, rfl⟩

end Token

theorem startsKey_entries {pairs : List (String × String)} (hkeys : ∀ pair ∈ pairs, IsKey pair.1) :
    StartsKey (Writing.entries pairs) := by
  cases pairs with
  | nil => exact trivial
  | cons pair pairs =>
    have hkey := hkeys pair List.mem_cons_self
    simp only [Writing.entries, List.flatMap_cons, entry_eq]
    exact hkey.startsKey _

namespace Lexer

/-- Where an entry of a map begins, the first one or a later one. -/
def ahead (opened : Bool) (line : Nat) (text : List Char) (settled : List Token) : Lexer where
  cursor := ⟨⟨line, 0⟩, text⟩
  margin := if opened then 1 else 0
  outerMargins := if opened then [0] else []
  keyAllowed := true
  level := ⟨settled, none, []⟩
  outerLevels := []

/-- Behind the key of an entry, which is not known to be one yet. -/
def behindKey (opened : Bool) (line : Nat) (key : String) (rest : List Char)
    (settled : List Token) : Lexer where
  cursor := ⟨⟨line, key.toList.length⟩, ':' :: ' ' :: rest⟩
  margin := if opened then 1 else 0
  outerMargins := if opened then [0] else []
  keyAllowed := false
  level := ⟨settled, some ⟨⟨line, 0⟩, opened⟩, [⟨.scalar .plain key, ⟨line, 0⟩⟩]⟩
  outerLevels := []

/-- The beginning of a map, if this is its first entry. -/
def opening (opened : Bool) (line : Nat) : List Token :=
  if opened then [] else [⟨.blockMapStart, ⟨line, 0⟩⟩]

/-- Within an entry, behind its colon. -/
def behindColon (c : Cursor) (settled : List Token) : Lexer where
  cursor := c
  margin := 1
  outerMargins := [0]
  keyAllowed := false
  level := ⟨settled, none, []⟩
  outerLevels := []

/-! Steps -/

theorem next_of_take {l m l' : Lexer} {r : Token.Reading} (harrive : l.arrive = some m)
    (hmore : m.cursor.rest ≠ []) (hread : Token.Reading.next m.inFlow m.margin m.cursor = some r)
    (htake : m.take r = some l') :
    l.next = some (false, l') := by
  simp [next, harrive, hmore, hread, htake]

theorem run_of_next {l l' : Lexer} (h : l.next = some (false, l')) : l.run = l'.run := by
  rw [run.eq_def]
  split
  · next hnone => rw [hnone] at h; cases h
  · next hend => rw [hend] at h; cases h
  · next hmore => rw [hmore] at h; cases h; rfl

theorem run_of_end {l l' : Lexer} (h : l.next = some (true, l')) : l.run = ⟨l'.released, true⟩ := by
  rw [run.eq_def]
  split
  · next hnone => rw [hnone] at h; cases h
  · next hend => rw [hend] at h; cases h; rfl
  · next hmore => rw [hmore] at h; cases h

/-- White space is passed no further than to a character that is none. -/
theorem passGap_stop {c : Char} (hspace : isSpace c = false) (hbreak : isBreak c = false)
    (hcomment : c ≠ '#') (flow keyAllowed : Bool) (p : Position) (rest : List Char) :
    passGap flow false keyAllowed p (c :: rest) = (keyAllowed, ⟨p, c :: rest⟩) := by
  have hne : c ≠ ' ' ∧ c ≠ '\t' := by simpa [isSpace] using hspace
  simp [passGap, hbreak, hcomment, hne.1, hne.2]

theorem passGap_startsKey {t : List Char} (ht : StartsKey t) (keyAllowed : Bool) (p : Position) :
    passGap false false keyAllowed p t = (keyAllowed, ⟨p, t⟩) := by
  cases t with
  | nil => rfl
  | cons c t =>
    obtain ⟨hspace, hbreak, hcomment, -, -⟩ := ht.of_cons
    exact passGap_stop hspace hbreak hcomment false keyAllowed p t

/-- A key that is not too long has not gone by when its colon comes. -/
theorem not_isStale {key : String} (hkey : IsKey key) (opened : Bool) (line : Nat) :
    Candidate.isStale ⟨⟨line, 0⟩, opened⟩ ⟨line, key.toList.length⟩ = false := by
  have hshort := hkey.short
  simp only [Candidate.isStale, Bool.or_eq_false_iff, decide_eq_false_iff_not]
  constructor
  · omega
  · omega

theorem refresh_behindKey {key : String} (hkey : IsKey key) (opened : Bool) (line : Nat)
    (rest : List Char) (settled : List Token) :
    (behindKey opened line key rest settled).refresh =
      some (behindKey opened line key rest settled) := by
  simp [refresh, behindKey, Level.refresh, not_isStale hkey]

theorem arrive_ahead {l : Lexer} {opened : Bool} {line : Nat} {text : List Char}
    {settled : List Token} (h : l.toToken = ahead opened line text settled) :
    l.arrive = some (ahead opened line text settled) := by
  rw [arrive, h]
  cases opened <;> rfl

theorem next_key {l : Lexer} {opened : Bool} {line : Nat} {key : String} {rest : List Char}
    {settled : List Token} (hkey : IsKey key)
    (h : l.toToken = ahead opened line (key.toList ++ ':' :: ' ' :: rest) settled) :
    l.next = some (false, behindKey opened line key rest settled) := by
  have hmore : key.toList ++ ':' :: ' ' :: rest ≠ [] := by simp
  refine next_of_take (arrive_ahead h) hmore (Token.next_word hkey _ line rest) ?_
  refine Eq.trans ?_ (refresh_behindKey hkey opened line rest settled)
  cases opened <;> simp [take, enter, enterContent, saveKey, ahead, behindKey, release,
    Level.release,
    Level.isRequired, Level.drop, Level.tokens, allowKey, push, Level.push, inFlow, column,
    Cursor.column]

theorem arrive_behindKey {key : String} (hkey : IsKey key) (opened : Bool) (line : Nat)
    (rest : List Char) (settled : List Token) :
    (behindKey opened line key rest settled).arrive =
      some (behindKey opened line key rest settled) := by
  have hstay : (behindKey opened line key rest settled).toToken =
      behindKey opened line key rest settled := rfl
  have hroll : (behindKey opened line key rest settled).unroll (key.toList.length + 1) =
      behindKey opened line key rest settled := by
    cases opened with
    | false => rfl
    | true => simp [unroll, behindKey, inFlow, ended, Level.pushAll]
  rw [arrive, hstay, refresh_behindKey hkey, Option.map_some]
  exact congrArg some hroll

theorem next_colon {opened : Bool} {line : Nat} {key : String} {rest : List Char}
    {settled : List Token} (hkey : IsKey key) :
    (behindKey opened line key rest settled).next = some (false,
      behindColon ⟨⟨line, key.toList.length + 1⟩, ' ' :: rest⟩ (settled ++ opening opened line ++
        [⟨.key, ⟨line, 0⟩⟩, ⟨.scalar .plain key, ⟨line, 0⟩⟩,
          ⟨.value, ⟨line, key.toList.length⟩⟩])) := by
  have hcolon : Token.Reading.next false (if opened then 1 else 0)
      ⟨⟨line, key.toList.length⟩, ':' :: ' ' :: rest⟩ =
        some ⟨.value, false, ⟨⟨line, key.toList.length + 1⟩, ' ' :: rest⟩⟩ := by
    rw [Token.next_of_column (List.length_pos_iff.mpr hkey.some)]
    rfl
  refine next_of_take (arrive_behindKey hkey opened line rest settled)
    (List.cons_ne_nil _ _) hcolon ?_
  cases opened <;> simp [take, enter, enterValue, behindKey, behindColon, opening, opensBlock,
    inFlow, indent, Level.insert, allowKey, push, Level.push, refresh, Level.refresh]

theorem arrive_behindColon {p : Position} {c : Char} {rest : List Char} {settled : List Token}
    (hspace : isSpace c = false) (hbreak : isBreak c = false) (hcomment : c ≠ '#') :
    (behindColon ⟨p, ' ' :: c :: rest⟩ settled).arrive =
      some (behindColon ⟨p.right 1, c :: rest⟩ settled) := by
  have hstay : passGap false false false p (' ' :: c :: rest) = (false, ⟨p.right 1, c :: rest⟩) :=
    passGap_stop hspace hbreak hcomment false false (p.right 1) rest
  simp [arrive, toToken, behindColon, inFlow, hstay, refresh, Level.refresh, unroll, ended,
    Level.pushAll]

/-- Once a value has been taken the next entry is ahead. -/
theorem take_value {c : Cursor} {s t : List Char} {settled : List Token} {r : Token.Reading}
    (ht : StartsKey t) (h : Token.ReadAs s t r) :
    ∃ l' line style, (behindColon c settled).take r = some l' ∧
      l'.toToken = ahead true line t
        (settled ++ [⟨.scalar style (String.ofList s), c.position⟩]) := by
  have hstay := passGap_startsKey ht
  cases h with
  | plain line =>
    refine ⟨_, line, .plain, rfl, ?_⟩
    simp [toToken, ahead, behindColon, inFlow, hstay, allowKey, push, Level.push]
  | singleQuoted p =>
    refine ⟨_, p.line + 1, .singleQuoted, rfl, ?_⟩
    have hpast : past p '\n' = ⟨p.line + 1, 0⟩ := past_of_isBreak p isBreak_newline
    simp [toToken, ahead, behindColon, inFlow, passGap, isBreak_newline, hpast, hstay, allowKey,
      push, Level.push]
  | doubleQuoted p =>
    refine ⟨_, p.line + 1, .doubleQuoted, rfl, ?_⟩
    have hpast : past p '\n' = ⟨p.line + 1, 0⟩ := past_of_isBreak p isBreak_newline
    simp [toToken, ahead, behindColon, inFlow, passGap, isBreak_newline, hpast, hstay, allowKey,
      push, Level.push]
  | literal line =>
    refine ⟨_, line, .literal, rfl, ?_⟩
    simp [toToken, ahead, behindColon, inFlow, hstay, allowKey, push, Level.push, Level.drop,
      Level.tokens]

theorem lastLine_toToken (l : Lexer) : l.toToken.cursor.lastLine = l.cursor.lastLine :=
  lastLine_passGap ..

theorem next_value {p : Position} {s t : List Char} (settled : List Token) (ht : StartsKey t) :
    ∃ l' line style,
      (behindColon ⟨p, ' ' :: (Writing.scalar s ++ (lineEnd (Writing.scalar s) ++ t))⟩
        settled).next = some (false, l') ∧
      l'.toToken = ahead true line t (settled ++ [⟨.scalar style (String.ofList s), p.right 1⟩]) ∧
      line + lineCount t =
        p.line + lineCount (Writing.scalar s ++ (lineEnd (Writing.scalar s) ++ t)) := by
  obtain ⟨c, rest, hscalar, hspace, hbreak, hcomment⟩ := scalar_begins s
  obtain ⟨r, hread, has⟩ := Token.next_scalar ht s (show 0 < (p.right 1).column from Nat.succ_pos _)
  have harrive : (behindColon ⟨p, ' ' :: (Writing.scalar s ++ (lineEnd (Writing.scalar s) ++ t))⟩
      settled).arrive = some (behindColon ⟨p.right 1,
        Writing.scalar s ++ (lineEnd (Writing.scalar s) ++ t)⟩ settled) := by
    rw [hscalar]
    exact arrive_behindColon hspace hbreak hcomment
  obtain ⟨l', line, style, htake, hahead⟩ := take_value ht has
  refine ⟨l', line, style, next_of_take harrive ?_ hread htake, hahead, ?_⟩
  · rw [hscalar]
    exact List.cons_ne_nil _ _
  · obtain ⟨style', hkind⟩ := has.isScalar
    have hlines := lastLine_toToken l'
    rw [hscalar, List.cons_append, Token.next_of_column (Nat.succ_pos _)] at hread
    rw [hahead, cursor_take htake, Token.Reading.lastLine_beginning hread hkind] at hlines
    rw [hscalar]
    exact hlines

/-! Runs -/

/-- What is read for an entry is what was written, and the next entry is ahead. -/
theorem run_entry {l : Lexer} {opened : Bool} {line : Nat} {key : String} {s t : List Char}
    {settled : List Token} (hkey : IsKey key) (ht : StartsKey t)
    (h : l.toToken = ahead opened line (Writing.entry key.toList s ++ t) settled) :
    ∃ (l' : Lexer) (style : Style) (p : Position), l.run = l'.run ∧
      l'.toToken = ahead true (line + lineCount (Writing.entry key.toList s)) t
        (settled ++ opening opened line ++ Token.entry key (String.ofList s) line style p) := by
  have hlines := hkey.lineCount_entry s t
  rw [entry_eq] at h
  obtain ⟨l', line', style, hnext, hahead, hline⟩ :=
    next_value (p := ⟨line, key.toList.length + 1⟩) (s := s)
    (settled ++ opening opened line ++
      [⟨.key, ⟨line, 0⟩⟩, ⟨.scalar .plain key, ⟨line, 0⟩⟩, ⟨.value, ⟨line, key.toList.length⟩⟩]) ht
  refine ⟨l', style, ⟨line, key.toList.length + 2⟩, ?_, ?_⟩
  · rw [run_of_next (next_key hkey h), run_of_next (next_colon hkey), run_of_next hnext]
  · obtain rfl : line' = line + lineCount (Writing.entry key.toList s) := by
      simp only at hline
      omega
    rw [hahead, List.append_assoc]
    rfl

/-- Where the entries end, the map does and the text. -/
theorem run_end {l : Lexer} {line : Nat} {settled : List Token}
    (h : l.toToken = ahead true line [] settled) :
    l.run = ⟨settled ++ [⟨.blockEnd, ⟨line, 0⟩⟩, ⟨.streamEnd, ⟨line, 0⟩⟩], true⟩ := by
  have hfinish : (ahead true line [] settled).finish = some
      ⟨⟨⟨line, 0⟩, []⟩, 0, [], false,
        ⟨settled ++ [⟨.blockEnd, ⟨line, 0⟩⟩, ⟨.streamEnd, ⟨line, 0⟩⟩], none, []⟩, []⟩ := by
    simp [finish, ahead, outside, unroll, inFlow, ended, release, Level.release, Level.isRequired,
      Level.drop, Level.tokens, Level.pushAll, Level.push, allowKey, push, refresh, Level.refresh]
  have hnext : l.next = some (true, ⟨⟨⟨line, 0⟩, []⟩, 0, [], false,
        ⟨settled ++ [⟨.blockEnd, ⟨line, 0⟩⟩, ⟨.streamEnd, ⟨line, 0⟩⟩], none, []⟩, []⟩) := by
    have hempty : (ahead true line [] settled).cursor.rest = [] := rfl
    simp [next, arrive_ahead h, hempty, hfinish]
  rw [run_of_end hnext]
  simp [released, releasedFrom]

theorem run_entries {l : Lexer} {line : Nat} {pairs : List (String × String)} {settled : List Token}
    (hkeys : ∀ pair ∈ pairs, IsKey pair.1)
    (h : l.toToken = ahead true line (Writing.entries pairs) settled) :
    ∃ tokens p, Token.Entries line pairs tokens ∧
      l.run = ⟨settled ++ tokens ++ [⟨.blockEnd, p⟩, ⟨.streamEnd, p⟩], true⟩ := by
  induction pairs generalizing l line settled with
  | nil =>
    refine ⟨[], ⟨line, 0⟩, .nil line, ?_⟩
    rw [run_end h, List.append_nil]
  | cons pair pairs ih =>
    obtain ⟨key, value⟩ := pair
    have hrest := fun pair hpair => hkeys pair (List.mem_cons_of_mem _ hpair)
    obtain ⟨l', style, p, hrun, hahead⟩ := run_entry (hkeys (key, value) List.mem_cons_self)
      (startsKey_entries hrest) h
    obtain ⟨tokens, q, htokens, hrest⟩ := ih hrest hahead
    refine ⟨_, q, .cons style p htokens, ?_⟩
    rw [hrun, hrest]
    simp [opening]

end Lexer

/-- The tokens of a map that is the whole text. -/
theorem run_map {pair : String × String} {pairs : List (String × String)}
    (hkeys : ∀ p ∈ pair :: pairs, IsKey p.1) :
    ∃ tokens p, Token.Entries 0 (pair :: pairs) tokens ∧
      (Lexer.start ⟨.start, Writing.entries (pair :: pairs)⟩).run =
        ⟨⟨.blockMapStart, .start⟩ :: tokens ++ [⟨.blockEnd, p⟩, ⟨.streamEnd, p⟩], true⟩ := by
  obtain ⟨key, value⟩ := pair
  have hkey := hkeys (key, value) List.mem_cons_self
  have hrest := fun pair hpair => hkeys pair (List.mem_cons_of_mem _ hpair)
  have hstart : (Lexer.start ⟨.start, Writing.entries ((key, value) :: pairs)⟩).toToken =
      Lexer.ahead false 0 (Writing.entries ((key, value) :: pairs)) [] := by
    have hstay := Lexer.passGap_startsKey (startsKey_entries hkeys) true ⟨0, 0⟩
    simp [Lexer.toToken, Lexer.start, Lexer.ahead, Lexer.inFlow, hstay, Level.empty, Position.start]
  obtain ⟨l', style, p, hrun, hahead⟩ := Lexer.run_entry hkey (startsKey_entries hrest) hstart
  obtain ⟨tokens, q, htokens, hend⟩ := Lexer.run_entries hrest hahead
  refine ⟨_, q, .cons style p htokens, ?_⟩
  rw [hrun, hend]
  simp [Lexer.opening, Position.start]

end NodeLogs.Yaml
