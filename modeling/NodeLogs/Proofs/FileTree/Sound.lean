import NodeLogs.Proofs.FileTree.Leading

/-!
Trees as they are found on a host: whatever there is stands in a directory. What is opened or made
in such a tree stands in a directory again, so the tree stays sound.
-/

namespace NodeLogs.FileTree

open HostPath (Idle significant significant_idle significant_step)

def IsDir (t : FileTree) (loc : Location) : Prop := ∃ mode, t.at? loc = some (.dir mode)

/-- Whatever there is stands in a directory, and there is a directory to work in. -/
structure Sound (t : FileTree) : Prop where
  above : ∀ loc name, t.at? (loc ++ [name]) ≠ none → t.IsDir loc
  workingDir : t.IsDir t.workingDir

/-- A sound tree of files and directories alone. -/
structure Plain (t : FileTree) : Prop extends Sound t where
  kinds : ∀ loc e, t.at? loc = some e → (∃ mode data, e = .file mode data) ∨ ∃ mode, e = .dir mode

variable {t : FileTree} {p : HostPath}

theorem isDir_nil (t : FileTree) : t.IsDir [] := ⟨0o755, rfl⟩

theorem not_isDir_of_free {loc : Location} (h : t.at? loc = none) : ¬ t.IsDir loc := by
  rintro ⟨mode, hmode⟩
  rw [h] at hmode
  cases hmode

theorem not_isDir_of_file {loc : Location} {mode : Nat} {data : Bytes}
    (h : t.at? loc = some (.file mode data)) : ¬ t.IsDir loc := by
  rintro ⟨m, hm⟩
  rw [h] at hm
  cases hm

theorem Sound.isDir_dropLast (h : t.Sound) {loc : Location} (hloc : t.at? loc ≠ none) :
    t.IsDir loc.dropLast := by
  rcases List.eq_nil_or_concat loc with rfl | ⟨dir, name, rfl⟩
  · exact isDir_nil t
  · rw [List.concat_eq_append, List.dropLast_concat]
    exact h.above dir name (by rwa [List.concat_eq_append] at hloc)

theorem Sound.isDir_above (h : t.Sound) {loc : Location} (hloc : t.IsDir loc) :
    t.IsDir loc.dropLast := by
  obtain ⟨mode, hmode⟩ := hloc
  exact h.isDir_dropLast (by simp [hmode])

/-- A walk from a directory finds free places in directories alone. -/
theorem Sound.walk_free (h : t.Sound) {followLast : Bool} {links : Nat} {loc : Location}
    {parts : List String} (hloc : t.IsDir loc) {dir : Location} {name : String}
    (hwalk : t.walk followLast links loc parts = .ok (.free dir name)) : t.IsDir dir := by
  fun_induction t.walk followLast links loc parts with
  | case3 links loc part rest hidle ih => exact ih hloc hwalk
  | case4 links loc rest hidle ih =>
    obtain ⟨mode, hmode⟩ := hloc
    exact ih (h.isDir_dropLast (by simp [hmode])) hwalk
  | case6 links loc part hidle hup _ hnone =>
    cases hwalk
    exact hloc
  | case9 links loc part rest hidle hup _ mode hat _ ih => exact ih ⟨mode, hat⟩ hwalk
  | case17 loc part rest hidle hup _ target hat hlast hne links ih =>
    refine ih ?_ (by simpa only [dite_eq_ite] using hwalk)
    split
    · exact isDir_nil t
    · exact hloc
  | case1 | case2 | case5 | case7 | case8 | case10 | case11 | case12 | case13 | case14 | case15
  | case16 => cases hwalk

theorem Sound.isDir_start (h : t.Sound) (p : HostPath) : t.IsDir (t.start p) := by
  unfold start
  split
  · exact isDir_nil t
  · exact h.workingDir

theorem Sound.walkParts_free (h : t.Sound) {followLast : Bool} {parts : List String}
    {dir : Location} {name : String}
    (hwalk : t.walkParts followLast p parts = .ok (.free dir name)) : t.IsDir dir :=
  h.walk_free (h.isDir_start p) (walk_of_walkParts hwalk)

/-- A walk finds something at every place on its way, the end apart. -/
theorem Sound.walk_passed (h : t.Sound) {followLast : Bool} {links left : Nat} {loc l : Location}
    {parts ahead : List String} {spot : Spot} (hloc : t.at? loc ≠ none)
    (hwalk : t.walk followLast links loc parts = .ok spot)
    (hfollow : followLast = true ∨ ∃ dir name, spot = .free dir name)
    (hahead : ahead <+: significant parts) (hlead : lead t.link? links loc ahead = some (left, l)) :
    t.at? l ≠ none ∨ l = spot.place := by
  have at_start {links : Nat} {start : Location} (hstart : t.at? start ≠ none)
      (hnil : lead t.link? links start [] = some (left, l)) : t.at? l ≠ none := by
    rw [lead] at hnil
    cases hnil
    exact hstart
  fun_induction t.walk followLast links loc parts generalizing ahead with
  | case2 | case5 | case7 | case11 | case13 | case15 | case16 => cases hwalk
  | case14 links loc part rest hidle hup _ target hat hlast =>
    cases hwalk
    rcases hfollow with hfollow | ⟨dir, name, hfree⟩
    · simp [hlast.2] at hfollow
    · cases hfree
  | case3 links loc part rest hidle ih =>
    rw [significant_idle hidle] at hahead
    exact ih hloc hwalk hahead hlead
  | case1 =>
    obtain rfl : ahead = [] := by simpa [significant] using hahead
    exact Or.inl (at_start hloc hlead)
  | case4 links loc rest hidle ih =>
    rw [significant_step hidle] at hahead
    rcases ahead with _ | ⟨_, ahead⟩
    · exact Or.inl (at_start hloc hlead)
    · obtain ⟨rfl, hrest⟩ := List.cons_prefix_cons.mp hahead
      rw [lead_up] at hlead
      obtain ⟨mode, hmode⟩ := h.isDir_dropLast hloc
      exact ih (by simp [hmode]) hwalk hrest hlead
  | case6 links loc part hidle hup _ hnone =>
    cases hwalk
    rw [significant_step hidle] at hahead
    rcases ahead with _ | ⟨_, ahead⟩
    · exact Or.inl (at_start hloc hlead)
    · obtain ⟨rfl, hrest⟩ := List.cons_prefix_cons.mp hahead
      obtain rfl : ahead = [] := by simpa [significant] using hrest
      rw [lead_down _ hidle hup (by simp [link?, hnone]), lead] at hlead
      cases hlead
      exact Or.inr rfl
  | case8 links loc part hidle hup _ mode hat | case10 links loc part hidle hup _ mode data hat
  | case12 links loc part hidle hup _ device hat =>
    cases hwalk
    rw [significant_step hidle] at hahead
    rcases ahead with _ | ⟨_, ahead⟩
    · exact Or.inl (at_start hloc hlead)
    · obtain ⟨rfl, hrest⟩ := List.cons_prefix_cons.mp hahead
      obtain rfl : ahead = [] := by simpa [significant] using hrest
      rw [lead_down _ hidle hup (by simp [link?, hat])] at hlead
      exact Or.inl (at_start (by simp [hat]) hlead)
  | case9 links loc part rest hidle hup _ mode hat _ ih =>
    rw [significant_step hidle] at hahead
    rcases ahead with _ | ⟨_, ahead⟩
    · exact Or.inl (at_start hloc hlead)
    · obtain ⟨rfl, hrest⟩ := List.cons_prefix_cons.mp hahead
      rw [lead_down _ hidle hup (by simp [link?, hat])] at hlead
      exact ih (by simp [hat]) hwalk hrest hlead
  | case17 loc part rest hidle hup _ target hat hlast hne links ih =>
    rw [significant_step hidle] at hahead
    rcases ahead with _ | ⟨_, ahead⟩
    · exact Or.inl (at_start hloc hlead)
    · obtain ⟨rfl, hrest⟩ := List.cons_prefix_cons.mp hahead
      rw [lead_link _ hidle hup (by simp [link?, hat]) hne, ← lead_significant] at hlead
      refine ih ?_ (by simpa only [dite_eq_ite] using hwalk) ?_ hlead
      · simp only [dite_eq_ite]
        split
        · simp [at?]
        · exact hloc
      · rw [significant, significant, List.filter_append, List.filter_append]
        refine (List.prefix_append_right_inj _).mpr ?_
        simpa [significant] using hrest.filter fun part => ¬ Idle part
/-- A sound tree stays sound where something other than a directory is changed in a directory. -/
theorem Sound.apply (h : t.Sound) {c : Change} (hdir : t.IsDir c.place.dropLast)
    (hplace : ¬ t.IsDir c.place) : (t.apply c).Sound := by
  have keeps {loc : Location} (hloc : t.IsDir loc) : (t.apply c).IsDir loc := by
    obtain ⟨mode, hmode⟩ := hloc
    refine ⟨mode, ?_⟩
    rw [at?_apply, if_neg, hmode]
    rintro ⟨rfl, -⟩
    exact hplace ⟨mode, hmode⟩
  constructor
  · intro loc name hne
    rw [at?_apply] at hne
    by_cases hc : loc ++ [name] = c.place ∧ loc ++ [name] ≠ []
    · rw [← hc.1, List.dropLast_concat] at hdir
      exact keeps hdir
    · rw [if_neg hc] at hne
      exact keeps (h.above loc name hne)
  · rw [caller_apply]
    exact keeps h.workingDir

theorem Plain.apply (h : t.Plain) {c : Change} (hdir : t.IsDir c.place.dropLast)
    (hplace : ¬ t.IsDir c.place) : (t.apply c).Plain := by
  refine ⟨h.toSound.apply hdir hplace, ?_⟩
  intro loc e he
  rw [at?_apply] at he
  split at he
  · next hc =>
    cases hold : t.at? loc with
    | none => cases c <;> simp_all [Change.on, Change.onFile] <;> simp [← he]
    | some old =>
      rcases h.kinds loc old hold with ⟨mode, data, rfl⟩ | ⟨mode, rfl⟩
      · cases c <;> simp_all [Change.on, Change.onFile] <;> simp [← he]
      · exact absurd ⟨mode, hc.1 ▸ hold⟩ hplace
  · exact h.kinds loc e he

theorem plain_nil : Plain ⟨{}, []⟩ where
  above loc name h := by simp [FileTree.at?] at h
  workingDir := isDir_nil _
  kinds loc e h := by
    unfold FileTree.at? at h
    split at h
    · cases h
      exact Or.inr ⟨_, rfl⟩
    · cases h

theorem Plain.link? (h : t.Plain) (loc : Location) : t.link? loc = none := by
  cases hat : t.at? loc with
  | none => simp [FileTree.link?, hat]
  | some e =>
    rcases h.kinds loc e hat with ⟨mode, data, rfl⟩ | ⟨mode, rfl⟩ <;> simp [FileTree.link?, hat]

end NodeLogs.FileTree
