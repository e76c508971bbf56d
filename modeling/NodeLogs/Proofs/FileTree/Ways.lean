import NodeLogs.Proofs.FileTree.Reaching

/-!
Paths in trees without symbolic links, told by their steps alone. In such a tree a walk takes one
step after the other, and each step goes on from what the steps before it have found.
-/

namespace NodeLogs

namespace HostPath

/-- A path that does not end in idle parts, unless it has no others. -/
def Trimmed (p : HostPath) :
    Prop := p.steps = [] ∨ ∃ front last, p.parts = front ++ [last] ∧ ¬ Idle last

theorem not_idle_of_mem_steps {p : HostPath} {step : String} (h : step ∈ p.steps) :
    ¬ Idle step := by
  simpa using (List.mem_filter.mp h).2

theorem idle_of_steps_eq_nil {p : HostPath} (h : p.steps = []) : ∀ part ∈ p.parts, Idle part := by
  simpa using List.filter_eq_nil_iff.mp h

end HostPath

namespace FileTree

open HostPath (Idle IsName significant significant_idle significant_step Trimmed)

variable {t t' : FileTree} {p q : HostPath}

/-- A tree without symbolic links. -/
def Linkless (t : FileTree) : Prop := ∀ loc, t.link? loc = none

theorem SameLinks.linkless (h : SameLinks t t') (ht : t.Linkless) : t'.Linkless := by
  intro loc
  rw [h.1]
  exact ht loc

/-! Steps -/

theorem walk_dir {followLast : Bool} {links : Nat} {loc : Location} {mode : Nat}
    (h : t.at? loc = some (.dir mode)) :
    t.walk followLast links loc [] = .ok (.taken loc (.dir mode)) := by
  rw [walk, h]

/-- A directory is walked into, also where nothing follows. -/
theorem walk_into {followLast : Bool} {links : Nat} {loc : Location} {part : String} {mode : Nat}
    (hidle : ¬ Idle part) (hup : part ≠ "..") (hlong : ¬ longestName < part.utf8ByteSize)
    (hat : t.at? (loc ++ [part]) = some (.dir mode)) (rest : List String) :
    t.walk followLast links loc (part :: rest) = t.walk followLast links (loc ++ [part]) rest := by
  by_cases hrest : rest = []
  · unfold Idle at hidle
    rw [hrest, walk_dir hat, walk, if_neg hidle, if_neg hup, if_neg hlong, hat]
    simp
  · exact walk_step_dir hidle hup hlong hat hrest

/-- What stands at the place of a name decides how a walk goes on. -/
theorem Linkless.walk_name (h : t.Linkless) (followLast : Bool) (links : Nat) (loc : Location)
    {part : String} (hidle : ¬ Idle part) (hup : part ≠ "..") (rest : List String) :
    t.walk followLast links loc (part :: rest) =
      if longestName < part.utf8ByteSize then .error .nameTooLong
      else
        match t.at? (loc ++ [part]) with
        | none => if rest = [] then .ok (.free loc part) else .error .noEntry
        | some (.dir _) => t.walk followLast links (loc ++ [part]) rest
        | some e => if rest = [] then .ok (.taken (loc ++ [part]) e) else .error .notDirectory := by
  by_cases hlong : longestName < part.utf8ByteSize
  · unfold Idle at hidle
    rw [walk, if_neg hidle, if_neg hup, if_pos hlong, if_pos hlong]
  · cases hat : t.at? (loc ++ [part]) with
    | some e =>
      cases e with
      | dir mode => rw [walk_into hidle hup hlong hat, if_neg hlong]
      | symlink target =>
        have hlink := h (loc ++ [part])
        simp [link?, hat] at hlink
      | file mode data | device d =>
        unfold Idle at hidle
        rw [walk, if_neg hidle, if_neg hup, if_neg hlong, if_neg hlong, hat]
    | none =>
      unfold Idle at hidle
      rw [walk, if_neg hidle, if_neg hup, if_neg hlong, if_neg hlong, hat]

/-- Without links it does not matter whether they are followed. -/
theorem Linkless.walk_eq (h : t.Linkless) (followLast follow' : Bool) (links links' : Nat)
    (loc : Location) (parts : List String) :
    t.walk followLast links loc parts = t.walk follow' links' loc parts := by
  induction parts generalizing loc with
  | nil => rw [walk, walk]
  | cons part rest ih =>
    by_cases hidle : Idle part
    · rw [walk_step_idle _ _ _ _ hidle, walk_step_idle _ _ _ _ hidle, ih]
    · by_cases hup : part = ".."
      · rw [hup, walk_step_up, walk_step_up, ih]
      · rw [h.walk_name _ _ _ hidle hup, h.walk_name _ _ _ hidle hup]
        simp only [ih]

/-- Idle parts do not count where a step comes after them. -/
theorem Linkless.walk_significant (h : t.Linkless) (followLast : Bool) (links : Nat)
    (loc : Location) (parts : List String) (last : String) :
    t.walk followLast links loc (parts ++ [last]) =
      t.walk followLast links loc (significant parts ++ [last]) := by
  induction parts generalizing loc with
  | nil => rfl
  | cons part rest ih =>
    by_cases hidle : Idle part
    · rw [significant_idle hidle, List.cons_append, walk_step_idle _ _ _ _ hidle, ih]
    · rw [significant_step hidle, List.cons_append, List.cons_append]
      by_cases hup : part = ".."
      · rw [hup, walk_step_up, walk_step_up, ih]
      · rw [h.walk_name _ _ _ hidle hup, h.walk_name _ _ _ hidle hup]
        simp only [ih, List.append_eq_nil_iff, List.cons_ne_nil, and_false]

/-- What one more step finds. -/
def onward (t : FileTree) (step : String) : Except OsError Spot → Except OsError Spot
  | .ok (.taken base (.dir _)) => t.walk true mostLinks base [step]
  | .ok (.taken _ _) => .error .notDirectory
  | .ok (.free _ _) => .error .noEntry
  | .error e => .error e

theorem Linkless.walk_concat (h : t.Linkless) (sound : t.Sound) {loc : Location}
    (hloc : t.IsDir loc) (parts : List String) (step : String) :
    t.walk true mostLinks loc (parts ++ [step]) =
      t.onward step (t.walk true mostLinks loc parts) := by
  induction parts generalizing loc with
  | nil =>
    obtain ⟨mode, hmode⟩ := hloc
    rw [walk_dir hmode]
    rfl
  | cons part rest ih =>
    rw [List.cons_append]
    by_cases hidle : Idle part
    · rw [walk_step_idle _ _ _ _ hidle, walk_step_idle _ _ _ _ hidle, ih hloc]
    · by_cases hup : part = ".."
      · obtain ⟨mode, hmode⟩ := hloc
        rw [hup, walk_step_up, walk_step_up, ih (sound.isDir_above ⟨mode, hmode⟩)]
      · rw [h.walk_name _ _ _ hidle hup, h.walk_name _ _ _ hidle hup]
        by_cases hlong : longestName < part.utf8ByteSize
        · rw [if_pos hlong, if_pos hlong]
          rfl
        · rw [if_neg hlong, if_neg hlong]
          cases hat : t.at? (loc ++ [part]) with
          | none =>
            simp only [List.append_eq_nil_iff, List.cons_ne_nil, and_false, if_false]
            split <;> rfl
          | some e =>
            cases e with
            | dir mode => exact ih ⟨mode, hat⟩
            | file mode data | device d | symlink target =>
              simp only [List.append_eq_nil_iff, List.cons_ne_nil, and_false, if_false]
              split <;> rfl

/-- What follows a directory is walked from there. -/
theorem Linkless.walk_from (h : t.Linkless) {loc base : Location} {parts : List String} {mode : Nat}
    (hwalk : t.walk true mostLinks loc parts = .ok (.taken base (.dir mode))) (rest : List String) :
    t.walk true mostLinks loc (parts ++ rest) = t.walk true mostLinks base rest := by
  induction parts generalizing loc with
  | nil =>
    rw [walk] at hwalk
    split at hwalk <;> cases hwalk
    rfl
  | cons part more ih =>
    rw [List.cons_append]
    by_cases hidle : Idle part
    · rw [walk_step_idle _ _ _ _ hidle] at hwalk ⊢
      exact ih hwalk
    · by_cases hup : part = ".."
      · rw [hup, walk_step_up] at hwalk ⊢
        exact ih hwalk
      · rw [h.walk_name _ _ _ hidle hup] at hwalk
        split at hwalk
        · cases hwalk
        · next hlong =>
          split at hwalk
          · split at hwalk <;> cases hwalk
          · next hat =>
            rw [walk_into hidle hup hlong hat]
            exact ih hwalk
          · next e hne _ =>
            split at hwalk <;> cases hwalk
            exact absurd rfl (hne mode)

/-! Ways -/

/-- What is found by the steps of a path. -/
def way (t : FileTree) (p : HostPath) : Except OsError Spot :=
    t.walk true mostLinks (t.start p) p.steps

theorem way_congr (hrooted : q.isRooted = p.isRooted) (hsteps : q.steps = p.steps) :
    t.way q = t.way p := by
  rw [way, way, start, start, hrooted, hsteps]

theorem Linkless.way_concat (h : t.Linkless) (sound : t.Sound) (hrooted : q.isRooted = p.isRooted)
    {step : String} (hsteps : q.steps = p.steps ++ [step]) :
    t.way q = t.onward step (t.way p) := by
  rw [way, hsteps, start, hrooted]
  exact h.walk_concat sound (sound.isDir_start p) p.steps step

theorem Linkless.way_from (h : t.Linkless) (hrooted : q.isRooted = p.isRooted) {rest : List String}
    (hsteps : q.steps = p.steps ++ rest) {base : Location} {mode : Nat}
    (hway : t.way p = .ok (.taken base (.dir mode))) :
    t.way q = t.walk true mostLinks base rest := by
  rw [way, hsteps, start, hrooted]
  exact h.walk_from hway rest

theorem mem_of_mem_unslashed {part : String} {parts : List String} (h : part ∈ unslashed parts) :
    part ∈ parts := by
  have := (List.dropWhile_sublist _).subset (List.mem_reverse.mp h)
  simpa using this

theorem unslashed_concat {front : List String} {last : String} (hlast : ¬ Idle last) :
    unslashed (front ++ [last]) = front ++ [last] := by
  have hne : last ≠ "" := fun hempty => hlast (Or.inl hempty)
  rw [unslashed, List.reverse_append]
  simp [hne]

/-- A walk along the parts of a trimmed path is one along its steps. -/
theorem Linkless.walk_trimmed (h : t.Linkless) (hp : p.Trimmed) (followLast : Bool) (links : Nat)
    (loc : Location) :
    t.walk followLast links loc p.parts = t.walk true mostLinks loc p.steps ∧
      t.walk followLast links loc (unslashed p.parts) = t.walk true mostLinks loc p.steps := by
  rcases hp with hnone | ⟨front, last, hparts, hlast⟩
  · have hidle := HostPath.idle_of_steps_eq_nil hnone
    rw [hnone, walk_idle t _ _ _ hidle,
      walk_idle t _ _ _ fun part hpart => hidle part (mem_of_mem_unslashed hpart)]
    exact ⟨h.walk_eq _ _ _ _ _ _, h.walk_eq _ _ _ _ _ _⟩
  · have hsteps : p.steps = significant front ++ [last] := by
      rw [HostPath.steps, hparts, significant, List.filter_append]
      simp [significant, hlast]
    rw [hparts, unslashed_concat hlast, hsteps, h.walk_significant _ _ _ _ last]
    exact ⟨h.walk_eq _ _ _ _ _ _, h.walk_eq _ _ _ _ _ _⟩

theorem Linkless.walkParts_trimmed (h : t.Linkless) (hp : p.Trimmed) (followLast : Bool) :
    t.walkParts followLast p p.parts = (t.way p).mapError .os ∧
      t.walkParts followLast p (unslashed p.parts) = (t.way p).mapError .os := by
  obtain ⟨hparts, hunslashed⟩ := h.walk_trimmed hp followLast mostLinks (t.start p)
  constructor
  · change (t.walk followLast mostLinks (t.start p) p.parts).mapError IoError.os = _
    rw [hparts, way]
  · change (t.walk followLast mostLinks (t.start p) (unslashed p.parts)).mapError IoError.os = _
    rw [hunslashed, way]

/-- Where a way was free, its last step is from a directory to a free name. -/
theorem Linkless.way_free (h : t.Linkless) (sound : t.Sound) {dir : Location} {name : String}
    (hway : t.way p = .ok (.free dir name)) :
    t.at? (dir ++ [name]) = none ∧ t.IsDir dir ∧ ¬ longestName < name.utf8ByteSize ∧
      ∃ before mode, p.steps = before ++ [name] ∧
        t.walk true mostLinks (t.start p) before = .ok (.taken dir (.dir mode)) := by
  obtain ⟨m, hstart⟩ := sound.isDir_start p
  rcases List.eq_nil_or_concat p.steps with hnone | ⟨before, step, hsteps⟩
  · rw [way, hnone, walk_dir hstart] at hway
    cases hway
  rw [List.concat_eq_append] at hsteps
  have hstep : ¬ Idle step := HostPath.not_idle_of_mem_steps (p := p) (by simp [hsteps])
  rw [way, hsteps, h.walk_concat sound ⟨m, hstart⟩ before step] at hway
  cases hbefore : t.walk true mostLinks (t.start p) before with
  | error e =>
    rw [hbefore] at hway
    cases hway
  | ok spot =>
    rw [hbefore] at hway
    rcases spot with ⟨base, _ | _ | mode | _⟩ | _
    case taken.dir =>
      have hdir : t.IsDir base := by
        rcases walk_spec hbefore with ⟨-, -, hat⟩ | ⟨hfollow, -⟩
        · exact ⟨mode, hat⟩
        · cases hfollow
      by_cases hup : step = ".."
      · obtain ⟨m', hm'⟩ := sound.isDir_above hdir
        rw [onward, hup, walk_step_up, walk_dir hm'] at hway
        cases hway
      · rw [onward, h.walk_name _ _ _ hstep hup] at hway
        split at hway
        · cases hway
        · next hlong =>
          split at hway
          · next hfree =>
            cases hway
            exact ⟨hfree, hdir, hlong, before, mode, hsteps, hbefore⟩
          · next hat =>
            rw [walk_dir hat] at hway
            cases hway
          · cases hway
    all_goals cases hway

/-! Directories that stay -/

/-- All directories of a tree are directories of another, with the same modes. -/
structure KeepsDirs (t t' : FileTree) : Prop where
  dirs : ∀ loc mode, t.at? loc = some (.dir mode) → t'.at? loc = some (.dir mode)
  caller : t'.toCaller = t.toCaller

theorem KeepsDirs.refl (t : FileTree) : KeepsDirs t t := ⟨fun _ _ h => h, rfl⟩

theorem KeepsDirs.of_free {c : Change} (h : t.at? c.place = none) : KeepsDirs t (t.apply c) where
  dirs loc mode hat := by
    rw [at?_apply, if_neg, hat]
    rintro ⟨rfl, -⟩
    rw [h] at hat
    cases hat
  caller := caller_apply t c

theorem Linkless.walk_kept (h : t.Linkless) (hkeeps : KeepsDirs t t') {loc base : Location}
    {parts : List String} {mode : Nat}
    (hwalk : t.walk true mostLinks loc parts = .ok (.taken base (.dir mode))) :
    t'.walk true mostLinks loc parts = .ok (.taken base (.dir mode)) := by
  induction parts generalizing loc with
  | nil =>
    rw [walk] at hwalk
    split at hwalk
    · next e he =>
      cases hwalk
      exact walk_dir (hkeeps.dirs _ _ he)
    · cases hwalk
  | cons part rest ih =>
    by_cases hidle : Idle part
    · rw [walk_step_idle _ _ _ _ hidle] at hwalk ⊢
      exact ih hwalk
    · by_cases hup : part = ".."
      · rw [hup, walk_step_up] at hwalk ⊢
        exact ih hwalk
      · rw [h.walk_name _ _ _ hidle hup] at hwalk
        split at hwalk
        · cases hwalk
        · next hlong =>
          split at hwalk
          · split at hwalk <;> cases hwalk
          · next hat =>
            rw [walk_into hidle hup hlong (hkeeps.dirs _ _ hat)]
            exact ih hwalk
          · next e hne hat =>
            split at hwalk <;> cases hwalk
            exact absurd rfl (hne mode)

theorem Linkless.way_kept (h : t.Linkless) (hkeeps : KeepsDirs t t') {base : Location} {mode : Nat}
    (hway : t.way p = .ok (.taken base (.dir mode))) :
    t'.way p = .ok (.taken base (.dir mode)) := by
  rw [way, start, hkeeps.caller]
  exact h.walk_kept hkeeps hway

theorem at?_of_way {base : Location} {e : Entry} (h : t.way p = .ok (.taken base e)) :
    t.at? base = some e := by
  rcases walk_spec h with ⟨-, -, hat⟩ | ⟨hfollow, -⟩
  · exact hat
  · cases hfollow

/-- A directory that was made at the end of a way stands there. -/
theorem Linkless.way_made (h : t.Linkless) (sound : t.Sound) {dir : Location} {name : String}
    (hway : t.way p = .ok (.free dir name)) (mode : Nat) :
    (t.apply (.makeDir (dir ++ [name]) mode)).way p =
      .ok (.taken (dir ++ [name]) (.dir mode)) := by
  obtain ⟨hfree, hdir, hlong, before, m, hsteps, hbefore⟩ := h.way_free sound hway
  have hplace : t.at? (Change.makeDir (dir ++ [name]) mode).place = none := hfree
  have hlink : t.link? (Change.makeDir (dir ++ [name]) mode).place = none := h _
  have hstep : ¬ Idle name := HostPath.not_idle_of_mem_steps (p := p) (by simp [hsteps])
  have hup : name ≠ ".." := by
    rintro rfl
    obtain ⟨m', hm'⟩ := sound.isDir_above hdir
    rw [way, hsteps, h.walk_concat sound (sound.isDir_start p) before "..", hbefore, onward,
      walk_step_up, walk_dir hm'] at hway
    cases hway
  have hmade : (t.apply (.makeDir (dir ++ [name]) mode)).at? (dir ++ [name]) =
    some (.dir mode) := by
    rw [at?_apply, if_pos ⟨rfl, by simp⟩]
    rfl
  have hafter := (SameLinks.apply hlink).linkless h
  have hsound : (t.apply (.makeDir (dir ++ [name]) mode)).Sound :=
    sound.apply (by simpa [Change.place] using hdir) (not_isDir_of_free hplace)
  rw [way, hsteps, hafter.walk_concat hsound (hsound.isDir_start p) before name, start,
    caller_apply, ← start, h.walk_kept (.of_free hplace) hbefore, onward,
    walk_into hstep hup hlong hmade, walk_dir hmade]

end FileTree

end NodeLogs
