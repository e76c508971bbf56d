import NodeLogs.Text.Lines
import NodeLogs.Proofs.Text.Decoding

/-!
What a command printed, line by line. A line feed ends a line wherever it stands, also behind bytes
that are no UTF-8 or a character that is cut off: so the lines of two outputs, one under the other,
are those of the one and then those of the other. Lines once found are found again.
-/

namespace NodeLogs.Text

/-- No white space at either end. -/
structure Trimmed (cs : List Char) : Prop where
  starts : ∀ c, cs.head? = some c → isBlank c = false
  ends : ∀ c, cs.getLast? = some c → isBlank c = false

theorem not_blank_of_head?_dropWhile {cs : List Char} {c : Char}
    (h : (cs.dropWhile isBlank).head? = some c) : isBlank c = false := by
  have hstop := List.head?_dropWhile_not isBlank cs
  rwa [h] at hstop

theorem trimmed_trimList (cs : List Char) : Trimmed (trimList cs) := by
  constructor
  · intro c hc
    -- What is dropped at the end leaves the first character of what is left.
    have hprefix : trimList cs <+: cs.dropWhile isBlank := by
      rw [← List.reverse_suffix, trimList, List.reverse_reverse]
      exact List.dropWhile_suffix isBlank
    obtain ⟨dropped, hdropped⟩ := hprefix
    have hhead : (cs.dropWhile isBlank).head? = some c := by
      rw [← hdropped, List.head?_append, hc, Option.some_or]
    exact not_blank_of_head?_dropWhile hhead
  · intro c hc
    rw [trimList, List.getLast?_reverse] at hc
    exact not_blank_of_head?_dropWhile hc

theorem dropWhile_of_head? {cs : List Char} (h : ∀ c, cs.head? = some c → isBlank c = false) :
    cs.dropWhile isBlank = cs := by
  cases cs with
  | nil => rfl
  | cons c rest => rw [List.dropWhile_cons, h c rfl, if_neg Bool.false_ne_true]

theorem Trimmed.trimList_eq {cs : List Char} (h : Trimmed cs) : trimList cs = cs := by
  have hends : cs.reverse.dropWhile isBlank = cs.reverse := by
    apply dropWhile_of_head?
    rw [List.head?_reverse]
    exact h.ends
  rw [trimList, dropWhile_of_head? h.starts, hends, List.reverse_reverse]

theorem mem_of_mem_trimList {cs : List Char} {c : Char} (h : c ∈ trimList cs) : c ∈ cs := by
  rw [trimList, List.mem_reverse] at h
  have hrest := (List.dropWhile_suffix isBlank).subset h
  rw [List.mem_reverse] at hrest
  exact (List.dropWhile_suffix isBlank).subset hrest

/-- What a line is that comes out of some output. -/
structure IsLine (line : String) : Prop where
  ne_empty : line ≠ ""
  no_feed : '\n' ∉ line.toList
  trimmed : Trimmed line.toList

theorem isLine_of_mem {output : Bytes} {line : String} (h : line ∈ outputLines output) :
    IsLine line := by
  obtain ⟨cs, hcs, rfl⟩ := List.mem_map.mp h
  obtain ⟨hmem, hne⟩ := List.mem_filter.mp hcs
  obtain ⟨raw, hraw, rfl⟩ := List.mem_map.mp hmem
  refine ⟨by simpa using hne, ?_, ?_⟩
  · rw [String.toList_ofList]
    exact fun hfeed => not_mem_of_mem_split hraw (mem_of_mem_trimList hfeed)
  · rw [String.toList_ofList]
    exact trimmed_trimList raw

theorem nonblankLines_append (cs ds : List Char) :
    nonblankLines (cs ++ '\n' :: ds) = nonblankLines cs ++ nonblankLines ds := by
  rw [nonblankLines, split_append_sep, List.map_append, List.filter_append]
  rfl

theorem outputLines_append (a b : Bytes) :
    outputLines (a ++ 0x0A :: b) = outputLines a ++ outputLines b := by
  rw [outputLines, Utf8.toList_decodeLossy_append a b (by decide),
    show Char.ofNat (0x0A : UInt8).toNat = '\n' by decide, nonblankLines_append, List.map_append]
  rfl

/-- One line is its text without the white space around it, unless that is all of it. -/
theorem outputLines_of_no_feed {output : Bytes} (h : 0x0A ∉ output) :
    outputLines output = [trim (Utf8.decodeLossy output)].filter (· ≠ "") := by
  have hfeed : '\n' ∉ (Utf8.decodeLossy output).toList :=
    Utf8.not_mem_decodeLossy (b := 0x0A) rfl (by decide) (by decide) h
  rw [outputLines, nonblankLines, split_of_not_mem hfeed, List.map_singleton, trim]
  by_cases hblank : trimList (Utf8.decodeLossy output).toList = []
  · rw [hblank]
    rfl
  · have hne : String.ofList (trimList (Utf8.decodeLossy output).toList) ≠ "" := by
      simpa using hblank
    rw [List.filter_cons_of_pos (by simpa using hblank),
      List.filter_cons_of_pos (by simpa using hne)]
    rfl

/-- Lines printed one under the other are read as these lines. -/
theorem outputLines_joined {lines : List String} (h : ∀ line ∈ lines, IsLine line) :
    outputLines (Utf8.encode ("\n".intercalate lines)) = lines := by
  have hkept : nonblankLines (join '\n' (lines.map String.toList)) = lines.map String.toList := by
    by_cases hnone : lines = []
    · subst hnone
      rfl
    · have hparts : ∀ part ∈ lines.map String.toList, '\n' ∉ part := by
        simpa using fun line hmem => (h line hmem).no_feed
      have hsplit := split_join (by simpa using hnone) hparts
      have htrim : (lines.map String.toList).map trimList = lines.map String.toList := by
        rw [List.map_map]
        exact List.map_congr_left fun line hmem => (h line hmem).trimmed.trimList_eq
      have hnonblank : (lines.map String.toList).filter (· ≠ []) = lines.map String.toList := by
        rw [List.filter_eq_self]
        simpa using fun line hmem => (h line hmem).ne_empty
      rw [nonblankLines, hsplit, htrim, hnonblank]
  rw [outputLines, Utf8.decodeLossy_encode, toList_intercalate (c := '\n') rfl, hkept, List.map_map]
  simp [Function.comp_def]

/-- Output is read line by line, whatever bytes it is made of. -/
theorem output_is_read_line_by_line :
    (∀ a b, outputLines (a ++ 0x0A :: b) = outputLines a ++ outputLines b) ∧
    (∀ output, 0x0A ∉ output →
      outputLines output = [trim (Utf8.decodeLossy output)].filter (· ≠ "")) ∧
    (∀ output, ∀ line ∈ outputLines output,
      line ≠ "" ∧ '\n' ∉ line.toList ∧
        ∀ c, line.toList.head? = some c ∨ line.toList.getLast? = some c → isBlank c = false) ∧
    ∀ output, outputLines (Utf8.encode ("\n".intercalate (outputLines output))) =
      outputLines output := by
  refine ⟨outputLines_append, fun output => outputLines_of_no_feed, fun output line hmem => ?_,
    fun output => ?_⟩
  · have hline := isLine_of_mem hmem
    exact ⟨hline.ne_empty, hline.no_feed,
      fun c hc => hc.elim (hline.trimmed.starts c) (hline.trimmed.ends c)⟩
  · exact outputLines_joined fun line => isLine_of_mem

/-- A line with white space around it, and a character behind it that is cut off. -/
theorem cut_off_output_is_read_line_by_line :
    0x0A ∉ ([0x20, 0x61, 0x0D] : Bytes) ∧
      outputLines [0x20, 0x61, 0x0D] =
        [trim (Utf8.decodeLossy [0x20, 0x61, 0x0D])].filter (· ≠ "") ∧
      "a" ∈ outputLines [0x20, 0x61, 0x0D, 0x0A, 0xC2] ∧
      "a" ≠ "" ∧ '\n' ∉ "a".toList ∧
      ∀ c, "a".toList.head? = some c ∨ "a".toList.getLast? = some c → isBlank c = false := by
  obtain ⟨-, halone, hlines, -⟩ := output_is_read_line_by_line
  have hfeed : 0x0A ∉ ([0x20, 0x61, 0x0D] : Bytes) := by decide
  have hmem : "a" ∈ outputLines [0x20, 0x61, 0x0D, 0x0A, 0xC2] := by decide +kernel
  exact ⟨hfeed, halone _ hfeed, hmem, hlines _ "a" hmem⟩

end NodeLogs.Text
