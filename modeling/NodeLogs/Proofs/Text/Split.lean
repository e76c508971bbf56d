import NodeLogs.Text.Lines

/-!
Cutting and joining undo each other: parts without the separator come back as they were, and the
parts of a cut list never hold the separator.
-/

namespace NodeLogs

variable {α : Type _} [DecidableEq α]

theorem split_of_not_mem {sep : α} {xs : List α} (h : sep ∉ xs) : split sep xs = [xs] := by
  induction xs with
  | nil => rfl
  | cons x xs ih =>
    obtain ⟨hx, hxs⟩ : sep ≠ x ∧ sep ∉ xs := by simpa using h
    rw [split, if_neg (Ne.symm hx), ih hxs]

theorem split_append_sep (sep : α) (xs ys : List α) :
    split sep (xs ++ sep :: ys) = split sep xs ++ split sep ys := by
  induction xs with
  | nil => simp [split]
  | cons x xs ih =>
    rw [List.cons_append, split, split, ih]
    by_cases hx : x = sep
    · simp [hx]
    · rw [if_neg hx, if_neg hx]
      cases hs : split sep xs with
      | nil => exact absurd hs (split_ne_nil sep xs)
      | cons part parts => rfl

theorem not_mem_of_mem_split {sep : α} {xs part : List α} (h : part ∈ split sep xs) :
    sep ∉ part := by
  induction xs generalizing part with
  | nil => simp_all [split]
  | cons x xs ih =>
    rw [split] at h
    split at h
    · rcases List.mem_cons.mp h with rfl | h
      · simp
      · exact ih h
    · next hx =>
      cases hs : split sep xs with
      | nil => exact absurd hs (split_ne_nil sep xs)
      | cons first rest =>
        rw [hs] at h ih
        rcases List.mem_cons.mp h with rfl | h
        · simpa [Ne.symm hx] using ih List.mem_cons_self
        · exact ih (List.mem_cons_of_mem first h)

omit [DecidableEq α] in
theorem join_cons (sep : α) (part : List α) {rest : List (List α)} (h : rest ≠ []) :
    join sep (part :: rest) = part ++ sep :: join sep rest := by
  cases rest with
  | nil => exact absurd rfl h
  | cons next others => rfl

theorem split_join {sep : α} {parts : List (List α)} (hne : parts ≠ [])
    (h : ∀ part ∈ parts, sep ∉ part) : split sep (join sep parts) = parts := by
  induction parts with
  | nil => exact absurd rfl hne
  | cons part parts ih =>
    have hpart := h part List.mem_cons_self
    cases parts with
    | nil => exact split_of_not_mem hpart
    | cons next rest =>
      rw [join_cons sep part (List.cons_ne_nil next rest), split_append_sep, split_of_not_mem hpart,
        ih (List.cons_ne_nil next rest) fun p hp => h p (List.mem_cons_of_mem part hp)]
      rfl

omit [DecidableEq α] in
theorem join_eq_intercalate (sep : α) (parts : List (List α)) :
    join sep parts = [sep].intercalate parts := by
  induction parts with
  | nil => rfl
  | cons part parts ih =>
    cases parts with
    | nil => simp [join]
    | cons next rest =>
      rw [join_cons sep part (List.cons_ne_nil next rest), ih, List.intercalate_cons_cons]
      simp

omit [DecidableEq α] in
theorem mem_join {sep x : α} {parts : List (List α)} (h : x ∈ join sep parts) :
    x = sep ∨ ∃ part ∈ parts, x ∈ part := by
  induction parts with
  | nil => cases h
  | cons part parts ih =>
    cases parts with
    | nil => exact Or.inr ⟨part, List.mem_cons_self, h⟩
    | cons next rest =>
      rw [join_cons sep part (List.cons_ne_nil next rest)] at h
      rcases List.mem_append.mp h with h | h
      · exact Or.inr ⟨part, List.mem_cons_self, h⟩
      · rcases List.mem_cons.mp h with h | h
        · exact Or.inl h
        · refine (ih h).imp_right ?_
          rintro ⟨p, hp, hx⟩
          exact ⟨p, List.mem_cons_of_mem part hp, hx⟩

omit [DecidableEq α] in
theorem sublist_join (sep : α) (part : List α) (rest : List (List α)) :
    part.Sublist (join sep (part :: rest)) ∧
      (join sep rest).Sublist (join sep (part :: rest)) := by
  by_cases hrest : rest = []
  · subst hrest
    exact ⟨.refl _, List.nil_sublist _⟩
  · rw [join_cons sep part hrest]
    exact ⟨List.sublist_append_left _ _,
      (List.sublist_cons_self sep _).trans (List.sublist_append_right part _)⟩

omit [DecidableEq α] in
/-- Parts that are left out take a separator with them. -/
theorem join_sublist {sep : α} {parts parts' : List (List α)} (h : parts.Sublist parts') :
    (join sep parts).Sublist (join sep parts') := by
  induction h with
  | slnil => exact .refl _
  | @cons parts rest part _ ih => exact ih.trans (sublist_join sep part rest).2
  | @cons_cons parts rest part h ih =>
    by_cases hparts : parts = []
    · subst hparts
      exact (sublist_join sep part rest).1
    · have hrest : rest ≠ [] := by
        rintro rfl
        exact hparts (List.sublist_nil.mp h)
      rw [join_cons sep part hparts, join_cons sep part hrest]
      exact (List.Sublist.refl part).append (ih.cons_cons sep)

namespace Text

theorem toList_intercalate {sep : String} {c : Char} (h : sep.toList = [c]) (parts : List String) :
    (sep.intercalate parts).toList = join c (parts.map String.toList) := by
  rw [String.toList_intercalate, join_eq_intercalate, h]

theorem toList_slashed (parts : List String) :
    ("/".intercalate parts).toList = join '/' (parts.map String.toList) :=
  toList_intercalate rfl parts

/-- Parts without slashes come back from the text that they are joined to. -/
theorem split_slashed {parts : List String} (hne : parts ≠ [])
    (h : ∀ part ∈ parts, '/' ∉ part.toList) : split '/' ("/".intercalate parts) = parts := by
  rw [split, toList_slashed, split_join (by simpa using hne)]
  · simp [Function.comp_def]
  · simpa using h

theorem slash_not_mem_of_mem_split {part text : String} (h : part ∈ split '/' text) :
    '/' ∉ part.toList := by
  obtain ⟨cs, hcs, rfl⟩ := List.mem_map.mp h
  simpa using not_mem_of_mem_split hcs

theorem split_ne_nil (sep : Char) (text : String) : split sep text ≠ [] := by
  simpa [split] using NodeLogs.split_ne_nil sep text.toList

theorem slashed_split (text : String) : "/".intercalate (split '/' text) = text := by
  rw [← String.toList_inj, toList_slashed, split, List.map_map]
  simp [Function.comp_def, join_split]

theorem split_append_slash (a b : String) :
    split '/' (a ++ "/" ++ b) = split '/' a ++ split '/' b := by
  simp only [split, String.toList_append, List.append_assoc]
  rw [show "/".toList ++ b.toList = '/' :: b.toList from rfl, split_append_sep, List.map_append]

end Text

end NodeLogs
