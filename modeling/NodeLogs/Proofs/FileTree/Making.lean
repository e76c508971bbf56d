import NodeLogs.Proofs.FileTree.Ways

/-!
Making a directory with the ones above it, in trees without symbolic links. What comes of it is told
by the way to the directory, and by what came of making the one above.
-/

namespace NodeLogs

namespace HostPath

variable {p q : HostPath}

theorem parent?_trimmed (h : p.parent? = some q) : q.Trimmed := by
  unfold parent? at h
  split at h
  · cases h
  · next part before hp =>
    split at h
    · cases h
      left
      split
      · simpa [steps_empty] using steps_append_slash "" ""
      · exact steps_empty
    · next hne =>
      cases h
      have hsuffix : trimParts before <:+ p.parts.reverse :=
        ((trimParts_spec before).2.1.trans (List.suffix_cons part before)).trans
          (hp ▸ (trimParts_spec p.parts.reverse).2.1)
      have hparts : HostPath.parts ⟨"/".intercalate (trimParts before).reverse⟩ =
          (trimParts before).reverse :=
        parts_slashed (by simpa using hne) fun part hpart =>
          noSlash_of_mem_parts (List.mem_reverse.mp (hsuffix.subset (List.mem_reverse.mp hpart)))
      cases htrim : trimParts before with
      | nil => exact absurd htrim hne
      | cons last front =>
        rw [htrim] at hparts
        rcases (trimParts_spec before).2.2 last front htrim with hlast | ⟨rfl, rfl⟩
        · exact Or.inr ⟨front.reverse, last, by rw [hparts, List.reverse_cons], hlast⟩
        · left
          rw [steps, hparts]
          decide

theorem exists_parent (h : p.steps ≠ []) : ∃ q, p.parent? = some q := by
  unfold parent?
  split
  · next hnone =>
    have hsame := (trimParts_spec p.parts.reverse).1
    rw [hnone, significant_reverse] at hsame
    exact absurd (List.reverse_eq_nil_iff.mp hsame.symm) h
  · split <;> exact ⟨_, rfl⟩

/-- A path with steps has those of its parent and one more. -/
theorem steps_of_parent? (h : p.parent? = some q) (hne : p.steps ≠ []) :
    q.isRooted = p.isRooted ∧ ∃ step, p.steps = q.steps ++ [step] := by
  obtain ⟨hrooted, hsteps⟩ := parent?_spec h
  exact ⟨hrooted, p.steps.getLast hne, by rw [hsteps, List.dropLast_concat_getLast hne]⟩

end HostPath

namespace FileTree

open HostPath (Idle IsName Trimmed)

variable {t t' : FileTree} {p q : HostPath} {mode : Nat}

theorem checkPath_ne_noEntry (hne : p.text ≠ "") : checkPath p ≠ .error (.os .noEntry) := by
  unfold checkPath
  rw [if_neg hne]
  split
  · exact nofun
  · split <;> exact nofun

theorem Linkless.makeDir_eq (h : t.Linkless) (hp : p.Trimmed) (mode : Nat) :
    t.makeDir mode p =
      match checkPath p, t.way p with
      | .error e, _ => .error e
      | .ok _, .ok (.taken _ _) => .error (.os .exists_)
      | .ok _, .ok (.free dir name) =>
        .ok (.makeDir (dir ++ [name]) (t.masked mode ||| t.groupBit dir))
      | .ok _, .error e => .error (.os e) := by
  simp only [makeDir, (h.walkParts_trimmed hp false).2, bind, Except.bind]
  cases checkPath p with
  | error e => rfl
  | ok _ =>
    cases t.way p with
    | error e => rfl
    | ok spot => cases spot <;> rfl

theorem Linkless.makeDir_of_checked (h : t.Linkless) (hp : p.Trimmed)
    (hcheck : checkPath p = .ok ()) (mode : Nat) :
    t.makeDir mode p =
      match t.way p with
      | .ok (.taken _ _) => .error (.os .exists_)
      | .ok (.free dir name) => .ok (.makeDir (dir ++ [name]) (t.masked mode ||| t.groupBit dir))
      | .error e => .error (.os e) := by
  rw [h.makeDir_eq hp, hcheck]
  cases t.way p with
  | error e => rfl
  | ok spot => cases spot <;> rfl

theorem Linkless.isDir_eq_true (h : t.Linkless) (hp : p.Trimmed) :
    t.isDir p = true ↔
      checkPath p = .ok () ∧ ∃ base mode, t.way p = .ok (.taken base (.dir mode)) := by
  simp only [isDir, stat, find, (h.walkParts_trimmed hp true).1, bind, Except.bind]
  cases checkPath p with
  | error e => simp
  | ok _ =>
    cases t.way p with
    | error e => exact ⟨by rintro ⟨⟩, by rintro ⟨-, _, _, ⟨⟩⟩⟩
    | ok spot =>
      cases spot with
      | free => exact ⟨by rintro ⟨⟩, by rintro ⟨-, _, _, ⟨⟩⟩⟩
      | taken loc e =>
        cases e with
        | dir mode => exact ⟨fun _ => ⟨rfl, loc, mode, rfl⟩, fun _ => rfl⟩
        | _ => exact ⟨by rintro ⟨⟩, by rintro ⟨-, _, _, ⟨⟩⟩⟩

/-- Nothing is missing but what no step of a path is the name of. -/
theorem way_of_noSteps (sound : t.Sound) (h : p.steps = []) :
    ∃ mode, t.way p = .ok (.taken (t.start p) (.dir mode)) := by
  obtain ⟨mode, hstart⟩ := sound.isDir_start p
  exact ⟨mode, by rw [way, h, walk_dir hstart]⟩

theorem steps_of_noText (h : p.text = "") : p.steps = [] := by
  obtain rfl : p = ⟨""⟩ := by cases p; cases h; rfl
  exact HostPath.steps_empty

/-- A path at whose making something is missing can be asked for, and has steps. -/
theorem Linkless.way_of_missing (h : t.Linkless) (sound : t.Sound) (hp : p.Trimmed)
    (hne : p.text ≠ "") (hmissing : t.makeDir mode p = .error (.os .noEntry)) :
    checkPath p = .ok () ∧ t.way p = .error .noEntry ∧ p.steps ≠ [] := by
  rw [h.makeDir_eq hp] at hmissing
  split at hmissing
  · next e hcheck =>
    cases hmissing
    exact absurd hcheck (checkPath_ne_noEntry hne)
  · cases hmissing
  · cases hmissing
  · next _ e hcheck hway =>
    cases hmissing
    refine ⟨hcheck, hway, fun hnone => ?_⟩
    obtain ⟨m, hstart⟩ := way_of_noSteps sound hnone
    rw [hstart] at hway
    cases hway

/-- From a directory, one more step fails only for its length. -/
theorem Linkless.onward_error (h : t.Linkless) (sound : t.Sound) {base : Location} {m : Nat}
    (hbase : t.at? base = some (.dir m)) {step : String} (hstep : ¬ Idle step) {e : OsError}
    (honward : t.walk true mostLinks base [step] = .error e) : e = .nameTooLong := by
  by_cases hup : step = ".."
  · obtain ⟨m', hm'⟩ := sound.isDir_above ⟨m, hbase⟩
    rw [hup, walk_step_up, walk_dir hm'] at honward
    cases honward
  · rw [h.walk_name _ _ _ hstep hup] at honward
    split at honward
    · cases honward
      rfl
    · split at honward
      · cases honward
      · next hat =>
        rw [walk_dir hat] at honward
        cases honward
      · cases honward

/-! One level -/

theorem makeDirsUpTo_direct {levels : Nat} (hne : p.text ≠ "")
    (hmake : t.makeDir mode p ≠ .error (.os .noEntry)) :
    makeDirsUpTo mode levels t p =
      match t.makeDir mode p with
      | .ok c => ([c], .ok ())
      | .error e => ([], if t.isDir p then .ok () else .error e) := by
  unfold makeDirsUpTo
  rw [if_neg hne]
  cases hresult : t.makeDir mode p with
  | ok c => rfl
  | error e =>
    cases e with
    | os e =>
      have : e ≠ .noEntry := by
        rintro rfl
        exact hmake hresult
      simp [this]
    | _ => rfl

theorem makeDirs_direct (hne : p.text ≠ "") (hmake : t.makeDir mode p ≠ .error (.os .noEntry)) :
    t.makeDirs mode p =
      match t.makeDir mode p with
      | .ok c => ([c], .ok ())
      | .error e => ([], if t.isDir p then .ok () else .error e) :=
  makeDirsUpTo_direct hne hmake

theorem makeDirsUpTo_missing {levels : Nat} (hne : p.text ≠ "")
    (hmissing : t.makeDir mode p = .error (.os .noEntry)) (hparent : p.parent? = some q) :
    makeDirsUpTo mode (levels + 1) t p =
      match makeDirsUpTo mode levels t q with
      | (changes, .error e) => (changes, .error e)
      | (changes, .ok ()) =>
        match (t.applyAll changes).makeDir mode p with
        | .ok c => (changes ++ [c], .ok ())
        | .error e => (changes, if (t.applyAll changes).isDir p then .ok () else .error e) := by
  rw [makeDirsUpTo, if_neg hne, hmissing, hparent]
  rfl

/-- As many levels as there are steps are enough. -/
theorem Linkless.makeDirsUpTo_enough (h : t.Linkless) (sound : t.Sound) {levels levels' : Nat}
    (hp : p.Trimmed) (hlevels : p.steps.length ≤ levels) (hlevels' : p.steps.length ≤ levels') :
    makeDirsUpTo mode levels t p = makeDirsUpTo mode levels' t p := by
  induction levels generalizing levels' p with
  | zero =>
    by_cases hempty : p.text = ""
    · unfold makeDirsUpTo
      rw [if_pos hempty, if_pos hempty]
    · have hsteps : p.steps = [] := List.eq_nil_of_length_eq_zero (Nat.le_zero.mp hlevels)
      have hmake : t.makeDir mode p ≠ .error (.os .noEntry) := fun hmissing =>
        (h.way_of_missing sound hp hempty hmissing).2.2 hsteps
      rw [makeDirsUpTo_direct hempty hmake, makeDirsUpTo_direct hempty hmake]
  | succ levels ih =>
    by_cases hempty : p.text = ""
    · unfold makeDirsUpTo
      rw [if_pos hempty, if_pos hempty]
    · by_cases hmake : t.makeDir mode p = .error (.os .noEntry)
      · obtain ⟨-, -, hsteps⟩ := h.way_of_missing sound hp hempty hmake
        obtain ⟨q, hq⟩ := HostPath.exists_parent hsteps
        obtain ⟨-, step, hstep⟩ := HostPath.steps_of_parent? hq hsteps
        rw [hstep, List.length_append, List.length_singleton] at hlevels hlevels'
        obtain ⟨levels', rfl⟩ :=
          Nat.exists_eq_add_of_le' (Nat.le_trans (Nat.le_add_left 1 _) hlevels')
        rw [makeDirsUpTo_missing hempty hmake hq, makeDirsUpTo_missing hempty hmake hq,
          ih (HostPath.parent?_trimmed hq) (Nat.le_of_succ_le_succ hlevels)
            (Nat.le_of_succ_le_succ hlevels')]
      · rw [makeDirsUpTo_direct hempty hmake, makeDirsUpTo_direct hempty hmake]

theorem Linkless.makeDirs_missing (h : t.Linkless) (sound : t.Sound) (hp : p.Trimmed)
    (hne : p.text ≠ "") (hmissing : t.makeDir mode p = .error (.os .noEntry))
    (hparent : p.parent? = some q) :
    t.makeDirs mode p =
      match t.makeDirs mode q with
      | (changes, .error e) => (changes, .error e)
      | (changes, .ok ()) =>
        match (t.applyAll changes).makeDir mode p with
        | .ok c => (changes ++ [c], .ok ())
        | .error e => (changes, if (t.applyAll changes).isDir p then .ok () else .error e) := by
  obtain ⟨-, -, hsteps⟩ := h.way_of_missing sound hp hne hmissing
  obtain ⟨-, step, hstep⟩ := HostPath.steps_of_parent? hparent hsteps
  have hlength (p : HostPath) : p.steps.length ≤ p.parts.length := List.length_filter_le _ _
  have hle := hlength p
  rw [hstep, List.length_append, List.length_singleton] at hle
  obtain ⟨levels, hlevels⟩ := Nat.exists_eq_add_of_le' (Nat.le_trans (Nat.le_add_left 1 _) hle)
  rw [hlevels] at hle
  rw [makeDirs, hlevels, makeDirsUpTo_missing hne hmissing hparent,
    h.makeDirsUpTo_enough sound (HostPath.parent?_trimmed hparent) (Nat.le_of_succ_le_succ hle)
      (hlength q)]
  rfl

/-! What is there afterwards -/

theorem MakesOnWay.linkless {cs : List Change} (hmakes : MakesOnWay mode p t cs) (h : t.Linkless) :
    (t.applyAll cs).Linkless :=
  hmakes.sameLinks.linkless h

theorem Linkless.way_of_makeDir (h : t.Linkless) (sound : t.Sound) (hp : p.Trimmed) {c : Change}
    (hmake : t.makeDir mode p = .ok c) :
    ∃ base m, (t.apply c).way p = .ok (.taken base (.dir m)) := by
  rw [h.makeDir_eq hp] at hmake
  split at hmake
  · cases hmake
  · cases hmake
  · next _ dir name _ hway =>
    cases hmake
    exact ⟨_, _, h.way_made sound hway _⟩
  · cases hmake

theorem Linkless.way_of_isDir (h : t.Linkless) (hp : p.Trimmed) {e : IoError}
    (hdir : (if t.isDir p then .ok () else .error e : Except IoError Unit) = .ok ()) :
    ∃ base m, t.way p = .ok (.taken base (.dir m)) :=
  ((h.isDir_eq_true hp).mp (isDir_of_ok hdir)).2

theorem Linkless.way_of_makeDirsUpTo (h : t.Linkless) (sound : t.Sound) (hp : p.Trimmed)
    {levels : Nat} (hmade : (makeDirsUpTo mode levels t p).2 = .ok ()) :
    ∃ base m, (t.applyAll (makeDirsUpTo mode levels t p).1).way p = .ok (.taken base (.dir m)) := by
  revert hmade
  fun_cases makeDirsUpTo mode levels t p with
  | case1 _ t p hempty =>
    intro _
    obtain ⟨m, hstart⟩ := way_of_noSteps sound (steps_of_noText hempty)
    exact ⟨_, m, hstart⟩
  | case2 _ t p hne c hmake =>
    intro _
    exact h.way_of_makeDir sound hp hmake
  | case4 t p hne levels above hparent changes habove after c hmake hmissing =>
    intro _
    have hbefore := makeDirsUpTo_makesOnWay mode levels t above
    rw [habove] at hbefore
    rw [applyAll_append]
    exact (hbefore.linkless h).way_of_makeDir (hbefore.sound sound) hp hmake
  | case5 t p hne levels above hparent changes habove after e hmake hmissing =>
    intro hdir
    have hbefore := makeDirsUpTo_makesOnWay mode levels t above
    rw [habove] at hbefore
    exact (hbefore.linkless h).way_of_isDir hp hdir
  | case7 | case8 =>
    intro hdir
    exact h.way_of_isDir hp hdir
  | case3 | case6 => intro hmade; cases hmade

/-- A directory that was made is there. -/
theorem Linkless.way_of_makeDirs (h : t.Linkless) (sound : t.Sound) (hp : p.Trimmed)
    (hmade : (t.makeDirs mode p).2 = .ok ()) :
    ∃ base m, (t.applyAll (t.makeDirs mode p).1).way p = .ok (.taken base (.dir m)) :=
  h.way_of_makeDirsUpTo sound hp hmade

/-- What is at the end of a way where no directory is and none can be made. -/
def Obstructs : Except OsError Spot → Prop
  | .ok (.taken _ (.dir _)) => False
  | .ok (.taken _ _) => True
  | .ok (.free _ _) => False
  | .error e => e ≠ .noEntry

theorem onward_of_obstructs {found : Except OsError Spot} (h : Obstructs found) (step : String) :
    ∃ e, t.onward step found = .error e ∧ e ≠ .noEntry := by
  rcases found with e | ⟨loc, _ | _ | mode | _⟩ | _
  case ok.taken.dir => exact h.elim
  case ok.free => exact h.elim
  case error => exact ⟨e, rfl, h⟩
  all_goals exact ⟨_, rfl, nofun⟩

/-- Where a directory cannot be made but others were made before, the reason is a file or too long a
name, and then it can never be made. -/
theorem Linkless.makeDirsUpTo_error (h : t.Linkless) (sound : t.Sound) (hp : p.Trimmed)
    {levels : Nat} {e : IoError} (herror : (makeDirsUpTo mode levels t p).2 = .error e) :
    (makeDirsUpTo mode levels t p).1 = [] ∨
      Obstructs ((t.applyAll (makeDirsUpTo mode levels t p).1).way p) ∧
        (e = .os .exists_ ∨ (e = .os .nameTooLong ∧
          (t.applyAll (makeDirsUpTo mode levels t p).1).way p = .error .nameTooLong)) := by
  fun_induction makeDirsUpTo mode levels t p with
  | case1 | case6 | case7 | case8 => exact Or.inl rfl
  | case2 => cases herror
  | case4 => cases herror
  | case3 t p hne levels above hparent changes e' habove hmissing ih =>
    obtain ⟨-, -, hsteps⟩ := h.way_of_missing sound hp hne hmissing
    obtain ⟨hrooted, step, hstep⟩ := HostPath.steps_of_parent? hparent hsteps
    have hmakes := makeDirsUpTo_makesOnWay mode levels t above
    cases herror
    rw [habove] at ih hmakes
    refine (ih h sound (HostPath.parent?_trimmed hparent) rfl).imp_right ?_
    rintro ⟨hobstructs, hreason⟩
    have hway := (hmakes.linkless h).way_concat (hmakes.sound sound) hrooted.symm hstep
    refine ⟨?_, hreason.imp_right ?_⟩
    · obtain ⟨e, honward, hother⟩ := onward_of_obstructs hobstructs step
      rw [hway, honward]
      exact hother
    · rintro ⟨rfl, hlong⟩
      refine ⟨rfl, ?_⟩
      rw [hway, hlong]
      rfl
  | case5 t p hne levels above hparent changes habove after e' hmake hmissing ih =>
    obtain ⟨hcheck, -, hsteps⟩ := h.way_of_missing sound hp hne hmissing
    obtain ⟨hrooted, step, hstep⟩ := HostPath.steps_of_parent? hparent hsteps
    have hmakes := makeDirsUpTo_makesOnWay mode levels t above
    have hway := h.way_of_makeDirsUpTo sound (HostPath.parent?_trimmed hparent)
      (congrArg Prod.snd habove)
    rw [habove] at hmakes hway
    obtain ⟨base, m, hbase⟩ := hway
    have hafter := hmakes.linkless h
    have honward := hafter.way_concat (hmakes.sound sound) hrooted.symm hstep
    rw [hbase, onward] at honward
    right
    split at herror
    · cases herror
    · next hdir =>
      cases herror
      rw [hafter.makeDir_of_checked hp hcheck] at hmake
      split at hmake
      · next loc found hway =>
        cases hmake
        refine ⟨?_, Or.inl rfl⟩
        have hway : (t.applyAll changes).way p = .ok (.taken loc found) := hway
        rw [hway]
        cases found with
        | dir mode => exact absurd ((hafter.isDir_eq_true hp).mpr ⟨hcheck, loc, mode, hway⟩) hdir
        | _ => trivial
      · cases hmake
      · next e hway =>
        cases hmake
        have hway : (t.applyAll changes).way p = .error e := hway
        obtain rfl := hafter.onward_error (hmakes.sound sound) (at?_of_way hbase)
          (HostPath.not_idle_of_mem_steps (p := p) (by simp [hstep])) (honward.symm.trans hway)
        refine ⟨?_, Or.inr ⟨rfl, hway⟩⟩
        rw [hway]
        rintro ⟨⟩

theorem Linkless.makeDirs_error (h : t.Linkless) (sound : t.Sound) (hp : p.Trimmed) {e : IoError}
    (herror : (t.makeDirs mode p).2 = .error e) :
    (t.makeDirs mode p).1 = [] ∨ Obstructs ((t.applyAll (t.makeDirs mode p).1).way p) ∧
      (e = .os .exists_ ∨ (e = .os .nameTooLong ∧
        (t.applyAll (t.makeDirs mode p).1).way p = .error .nameTooLong)) :=
  h.makeDirsUpTo_error sound hp herror

/-! The ways to come out -/

/-- A path that is refused is refused at once. -/
theorem makeDirs_refused (hne : p.text ≠ "") {e : IoError} (hcheck : checkPath p = .error e) :
    t.makeDirs mode p = ([], .error e) := by
  have hmake : t.makeDir mode p = .error e := by
    simp only [makeDir, hcheck, bind, Except.bind]
  have hdir : t.isDir p = false := by
    simp only [isDir, stat, find, hcheck, bind, Except.bind]
  have hother : t.makeDir mode p ≠ .error (.os .noEntry) := by
    rw [hmake]
    rintro ⟨⟩
    exact checkPath_ne_noEntry hne hcheck
  rw [makeDirs_direct hne hother, hmake]
  simp only [hdir, Bool.false_eq_true, if_false]

section Checked

variable (h : t.Linkless) (hp : p.Trimmed) (hne : p.text ≠ "") (hcheck : checkPath p = .ok ())

include h hp hne hcheck

theorem Linkless.makeDirs_taken {base : Location} {e : Entry}
    (hway : t.way p = .ok (.taken base e)) :
    t.makeDirs mode p = ([], if t.isDir p then .ok () else .error (.os .exists_)) := by
  have hmake : t.makeDir mode p = .error (.os .exists_) := by
    rw [h.makeDir_of_checked hp hcheck, hway]
  rw [makeDirs_direct hne (by rw [hmake]; exact nofun), hmake]

theorem Linkless.makeDirs_free {dir : Location} {name : String}
    (hway : t.way p = .ok (.free dir name)) :
    t.makeDirs mode p =
      ([.makeDir (dir ++ [name]) (t.masked mode ||| t.groupBit dir)], .ok ()) := by
  have hmake := h.makeDir_of_checked hp hcheck mode
  rw [hway] at hmake
  rw [makeDirs_direct hne (by rw [hmake]; exact nofun), hmake]

theorem Linkless.makeDirs_blocked {e : OsError} (hway : t.way p = .error e) (he : e ≠ .noEntry) :
    t.makeDirs mode p = ([], .error (.os e)) := by
  have hmake : t.makeDir mode p = .error (.os e) := by
    rw [h.makeDir_of_checked hp hcheck, hway]
  have hdir : ¬ t.isDir p = true := by
    rw [h.isDir_eq_true hp, hway]
    exact fun hdir => nomatch hdir.2
  rw [makeDirs_direct hne (by rw [hmake]; simpa using he), hmake]
  simp only [if_neg hdir]

end Checked

theorem Linkless.makeDirs_obstructed (h : t.Linkless) (hp : p.Trimmed) (hne : p.text ≠ "")
    (hobstructs : Obstructs (t.way p)) : ∃ e, t.makeDirs mode p = ([], .error e) := by
  cases hcheck : checkPath p with
  | error e => exact ⟨e, makeDirs_refused hne hcheck⟩
  | ok _ =>
    cases hway : t.way p with
    | error e =>
      rw [hway] at hobstructs
      exact ⟨_, h.makeDirs_blocked hp hne hcheck hway hobstructs⟩
    | ok spot =>
      rw [hway] at hobstructs
      rcases spot with ⟨loc, e⟩ | _
      · refine ⟨.os .exists_, ?_⟩
        rw [h.makeDirs_taken hp hne hcheck hway, if_neg]
        rw [h.isDir_eq_true hp, hway]
        rintro ⟨-, base, m, hdir⟩
        cases hdir
        exact hobstructs
      · exact hobstructs.elim

theorem Linkless.makeDirs_of_dir (h : t.Linkless) (hp : p.Trimmed) (mode : Nat) {base : Location}
    {m : Nat} (hway : t.way p = .ok (.taken base (.dir m))) :
    t.makeDirs mode p = ([], if p.text = "" then .ok () else checkPath p) := by
  by_cases hempty : p.text = ""
  · rw [makeDirs_noText hempty, if_pos hempty]
  · rw [if_neg hempty]
    cases hcheck : checkPath p with
    | error e => exact makeDirs_refused hempty hcheck
    | ok _ =>
      rw [h.makeDirs_taken hp hempty hcheck hway,
        if_pos ((h.isDir_eq_true hp).mpr ⟨hcheck, base, m, hway⟩)]

/-- Where something is there once the directory above was made, nothing more is made. -/
theorem Linkless.makeDirs_there (h : t.Linkless) (sound : t.Sound) (hp : p.Trimmed)
    (hne : p.text ≠ "") (hcheck : checkPath p = .ok ()) (hparent : p.parent? = some q)
    {changes : List Change} (habove : t.makeDirs mode q = (changes, .ok ()))
    (hmissing : t.way p = .error .noEntry) {base : Location} {e : Entry} :
    (t.applyAll changes).way p = .ok (.taken base e) →
      t.makeDirs mode p =
        (changes, match e with | .dir _ => .ok () | _ => .error (.os .exists_)) := by
  intro hthere
  have hmakes := makeDirs_makesOnWay mode t q
  rw [habove] at hmakes
  have hafter := hmakes.linkless h
  have hdir := hafter.isDir_eq_true hp
  rw [hthere] at hdir
  have hmake : t.makeDir mode p = .error (.os .noEntry) := by
    rw [h.makeDir_of_checked hp hcheck, hmissing]
  rw [h.makeDirs_missing sound hp hne hmake hparent, habove]
  simp only [hafter.makeDir_of_checked hp hcheck, hthere]
  cases e with
  | dir mode => rw [if_pos (hdir.mpr ⟨hcheck, base, mode, rfl⟩)]
  | _ => rw [if_neg fun hyes => by simpa using (hdir.mp hyes).2]

/-! Making it twice -/

/-- One path is another with one more step. -/
structure Beyond (p q : HostPath) : Prop where
  parent : p.parent? = some q
  trimmed : p.Trimmed
  text : p.text ≠ ""
  steps : ∃ step, p.steps = q.steps ++ [step]

namespace Beyond

theorem trimmed_above (hbeyond : Beyond p q) : q.Trimmed := HostPath.parent?_trimmed hbeyond.parent

theorem way (hbeyond : Beyond p q) (h : t.Linkless) (sound : t.Sound) :
    ∃ step, ¬ Idle step ∧ t.way p = t.onward step (t.way q) := by
  obtain ⟨step, hstep⟩ := hbeyond.steps
  exact ⟨step, HostPath.not_idle_of_mem_steps (p := p) (by simp [hstep]),
    h.way_concat sound (HostPath.parent?_spec hbeyond.parent).1.symm hstep⟩

/-- From a directory, a name is found or free, or it is too long. -/
theorem way_of_dir (hbeyond : Beyond p q) (h : t.Linkless) (sound : t.Sound)
    {base : Location} {m : Nat}
    (hway : t.way q = .ok (.taken base (.dir m))) {e : OsError} (herror : t.way p = .error e) :
    e = .nameTooLong := by
  obtain ⟨step, hstep, honward⟩ := hbeyond.way h sound
  rw [hway, onward, herror] at honward
  exact h.onward_error sound (at?_of_way hway) hstep honward.symm

end Beyond

/-- What can be made is there, or something is missing. -/
theorem Linkless.way_of_makeable (h : t.Linkless) (sound : t.Sound) (hp : p.Trimmed)
    (hmade : (t.makeDirs mode p).2 = .ok ()) :
    (∃ base m, t.way p = .ok (.taken base (.dir m))) ∨
      (∃ dir name, t.way p = .ok (.free dir name)) ∨ t.way p = .error .noEntry := by
  by_cases hempty : p.text = ""
  · obtain ⟨m, hstart⟩ := way_of_noSteps sound (steps_of_noText hempty)
    exact Or.inl ⟨_, m, hstart⟩
  cases hcheck : checkPath p with
  | error e =>
    rw [makeDirs_refused hempty hcheck] at hmade
    cases hmade
  | ok _ =>
    cases hway : t.way p with
    | error e =>
      by_cases he : e = .noEntry
      · exact Or.inr (Or.inr (by rw [he]))
      · rw [h.makeDirs_blocked hp hempty hcheck hway he] at hmade
        cases hmade
    | ok spot =>
      rcases spot with ⟨base, e⟩ | ⟨dir, name⟩
      · rw [h.makeDirs_taken hp hempty hcheck hway] at hmade
        exact Or.inl (hway ▸ h.way_of_isDir hp hmade)
      · exact Or.inr (Or.inl ⟨dir, name, rfl⟩)

section Twice

variable {changes : List Change}

/-- Where the directory above can be made, making a directory is making the one above and going on
from there; unless its path is refused. -/
theorem Beyond.makeDirs_of_ok (hbeyond : Beyond p q) (h : t.Linkless) (sound : t.Sound)
    (hmade : t.makeDirs mode q = (changes, .ok ())) :
    (∃ e, t.makeDirs mode p = ([], .error e) ∧
        (t.applyAll changes).makeDirs mode p = ([], .error e)) ∨
      t.makeDirs mode p =
        (changes ++ ((t.applyAll changes).makeDirs mode p).1,
          ((t.applyAll changes).makeDirs mode p).2) := by
  cases hcheck : checkPath p with
  | error e =>
    exact Or.inl ⟨e, makeDirs_refused hbeyond.text hcheck, makeDirs_refused hbeyond.text hcheck⟩
  | ok _ =>
    right
    rcases h.way_of_makeable sound hbeyond.trimmed_above (congrArg Prod.snd hmade) with
      ⟨base, m, hdir⟩ | hnot
    · rw [h.makeDirs_of_dir hbeyond.trimmed_above mode hdir] at hmade
      obtain ⟨rfl, -⟩ := Prod.mk.inj hmade
      rfl
    have hmissing : t.makeDir mode p = .error (.os .noEntry) := by
      obtain ⟨step, -, honward⟩ := hbeyond.way h sound
      have hway : t.way p = .error .noEntry := by
        rcases hnot with ⟨dir, name, hfree⟩ | hmiss
        · rw [honward, hfree]
          rfl
        · rw [honward, hmiss]
          rfl
      rw [h.makeDir_of_checked hbeyond.trimmed hcheck, hway]
    have hmakes := makeDirs_makesOnWay mode t q
    have hway := h.way_of_makeDirs sound hbeyond.trimmed_above (congrArg Prod.snd hmade)
    rw [hmade] at hmakes hway
    obtain ⟨base, m, hbase⟩ := hway
    have hafter := hmakes.linkless h
    have hthere : (t.applyAll changes).makeDir mode p ≠ .error (.os .noEntry) := by
      intro hmissing
      have hmiss :=
        (hafter.way_of_missing (hmakes.sound sound) hbeyond.trimmed hbeyond.text hmissing).2.1
      cases hbeyond.way_of_dir hafter (hmakes.sound sound) hbase hmiss
    rw [h.makeDirs_missing sound hbeyond.trimmed hbeyond.text hmissing hbeyond.parent, hmade,
      makeDirs_direct hbeyond.text hthere]
    simp only
    cases (t.applyAll changes).makeDir mode p with
    | ok c => rfl
    | error e => simp only [List.append_nil]

/-- What is beyond a missing directory fails as making that one does. -/
theorem Beyond.makeDirs_of_missing (hbeyond : Beyond p q) (h : t.Linkless) (sound : t.Sound)
    (hcheck : checkPath p = .ok ()) {e : IoError}
    (hfailed : t.makeDirs mode q = (changes, .error e)) (hway : t.way p = .error .noEntry) :
    t.makeDirs mode p = (changes, .error e) := by
  have hmissing : t.makeDir mode p = .error (.os .noEntry) := by
    rw [h.makeDir_of_checked hbeyond.trimmed hcheck, hway]
  rw [h.makeDirs_missing sound hbeyond.trimmed hbeyond.text hmissing hbeyond.parent, hfailed]

/-- Where a directory cannot be made and none is there, what is beyond it cannot be made either. -/
theorem Beyond.makeDirs_of_error (hbeyond : Beyond p q) (h : t.Linkless) (sound : t.Sound)
    {e : IoError} (hfailed : t.makeDirs mode q = (changes, .error e))
    (hnot : ∀ base m, t.way q ≠ .ok (.taken base (.dir m))) :
    (∃ e', t.makeDirs mode p = ([], .error e')) ∨ t.makeDirs mode p = (changes, .error e) := by
  cases hcheck : checkPath p with
  | error e' => exact Or.inl ⟨e', makeDirs_refused hbeyond.text hcheck⟩
  | ok _ =>
    obtain ⟨step, -, honward⟩ := hbeyond.way h sound
    have blocked {e' : OsError} (hway : t.way p = .error e') (he' : e' ≠ .noEntry) :
        ∃ e', t.makeDirs mode p = ([], .error e') :=
      ⟨_, h.makeDirs_blocked hbeyond.trimmed hbeyond.text hcheck hway he'⟩
    have missing := hbeyond.makeDirs_of_missing h sound hcheck hfailed
    cases hq : t.way q with
    | error e' =>
      rw [hq] at honward
      by_cases he' : e' = .noEntry
      · exact Or.inr (missing (he' ▸ honward))
      · exact Or.inl (blocked honward he')
    | ok spot =>
      rw [hq] at honward
      rcases spot with ⟨base, e'⟩ | ⟨dir, name⟩
      · cases e' with
        | dir m => exact absurd hq (hnot base m)
        | _ => exact Or.inl (blocked honward nofun)
      · exact Or.inr (missing honward)

/-- Where a directory was missing and was made in vain, something else was made, and making it again
makes nothing and fails: for the same reason, unless that was a file. -/
theorem Linkless.makeDirs_again (h : t.Linkless) (sound : t.Sound) (hp : p.Trimmed) {e : IoError}
    (hfailed : t.makeDirs mode p = (changes, .error e)) (hsome : changes ≠ []) :
    t.way p = .error .noEntry ∧ Obstructs ((t.applyAll changes).way p) ∧
      (∃ e', (t.applyAll changes).makeDirs mode p = ([], .error e')) ∧
      (e ≠ .os .exists_ → e = .os .nameTooLong ∧
        (t.applyAll changes).way p = .error .nameTooLong ∧
        (t.applyAll changes).makeDirs mode p = ([], .error e)) := by
  have hlate := h.makeDirs_error sound hp (congrArg Prod.snd hfailed)
  rw [hfailed] at hlate
  obtain ⟨hobstructs, hreason⟩ := hlate.resolve_left hsome
  have hne : p.text ≠ "" := by
    intro hempty
    rw [makeDirs_noText hempty] at hfailed
    cases hfailed
  have hmissing : t.makeDir mode p = .error (.os .noEntry) := by
    by_cases hmissing : t.makeDir mode p = .error (.os .noEntry)
    · exact hmissing
    · rw [makeDirs_direct hne hmissing] at hfailed
      split at hfailed
      · cases hfailed
      · exact absurd (congrArg Prod.fst hfailed).symm hsome
  obtain ⟨hcheck, hmiss, -⟩ := h.way_of_missing sound hp hne hmissing
  have hmakes := makeDirs_makesOnWay mode t p
  rw [hfailed] at hmakes
  refine ⟨hmiss, hobstructs, (hmakes.linkless h).makeDirs_obstructed hp hne hobstructs,
    fun hother => ?_⟩
  obtain ⟨rfl, hway⟩ := hreason.resolve_left hother
  exact ⟨rfl, hway, (hmakes.linkless h).makeDirs_blocked hp hne hcheck hway nofun⟩

end Twice

/-! Paths that never go up -/

theorem Sound.free_below (sound : t.Sound) {loc : Location} (hfree : t.at? loc = none)
    (more : List String) : t.at? (loc ++ more) = none := by
  induction more generalizing loc with
  | nil => rwa [List.append_nil]
  | cons name rest ih =>
    rw [show loc ++ name :: rest = loc ++ [name] ++ rest from by simp]
    refine ih ?_
    cases hat : t.at? (loc ++ [name]) with
    | none => rfl
    | some e =>
      exact absurd (sound.above loc name (hat ▸ Option.some_ne_none e)) (not_isDir_of_free hfree)

/-- Where something is missing on a way down, there is nothing at its end. -/
theorem Linkless.at?_of_missing (h : t.Linkless) (sound : t.Sound) {loc : Location}
    {parts : List String} (hdown : ∀ part ∈ parts, IsName part)
    (hmissing : t.walk true mostLinks loc parts = .error .noEntry) :
    t.at? (loc ++ parts) = none := by
  induction parts generalizing loc with
  | nil =>
    rw [walk] at hmissing
    split at hmissing
    · cases hmissing
    · next hnone => rwa [List.append_nil]
  | cons part rest ih =>
    have hname := hdown part List.mem_cons_self
    have hsplit : loc ++ part :: rest = loc ++ [part] ++ rest := by simp
    rw [h.walk_name _ _ _ hname.notIdle hname.notUp] at hmissing
    split at hmissing
    · cases hmissing
    · split at hmissing
      · next hfree => rw [hsplit, sound.free_below hfree]
      · rw [hsplit]
        exact ih (fun p hp => hdown p (List.mem_cons_of_mem part hp)) hmissing
      · split at hmissing <;> cases hmissing

theorem isName_of_mem_steps (hup : ".." ∉ p.steps) {step : String} (h : step ∈ p.steps) :
    IsName step where
  notIdle := HostPath.not_idle_of_mem_steps h
  notUp := fun heq => hup (heq ▸ h)
  noSlash := HostPath.noSlash_of_mem_parts (List.mem_filter.mp h).1

/-- Steps that never go up lead down from the start, one place each. -/
theorem Linkless.lead_down (h : t.Linkless) {names : List String} (hnames : ∀ n ∈ names, IsName n)
    (links : Nat) (loc : Location) : lead t.link? links loc names = some (links, loc ++ names) :=
  lead_names links loc hnames fun l _ => h l

theorem MakesOnWay.elsewhere {cs : List Change} (hmakes : MakesOnWay mode p t cs) {loc : Location}
    (hloc : ¬ t.Passes p loc) : (t.applyAll cs).at? loc = t.at? loc :=
  (hmakes.at? loc).resolve_right fun hnew => hloc hnew.2.1

theorem Linkless.makeDirsUpTo_straight (h : t.Linkless) (sound : t.Sound) (hp : p.Trimmed)
    (hup : ".." ∉ p.steps) {levels : Nat}
    (hfile : (makeDirsUpTo mode levels t p).2 = .error (.os .exists_)) :
    (makeDirsUpTo mode levels t p).1 = [] := by
  fun_induction makeDirsUpTo mode levels t p with
  | case1 | case6 | case7 | case8 => rfl
  | case2 | case4 => cases hfile
  | case3 t p hne levels above hparent changes e habove hmissing ih =>
    obtain ⟨-, -, hsteps⟩ := h.way_of_missing sound hp hne hmissing
    obtain ⟨-, step, hstep⟩ := HostPath.steps_of_parent? hparent hsteps
    rw [habove] at ih
    exact ih h sound (HostPath.parent?_trimmed hparent)
      (fun hmem => hup (by rw [hstep]; exact List.mem_append_left _ hmem)) hfile
  | case5 t p hne levels above hparent changes habove after e hmake hmissing ih =>
    exfalso
    obtain ⟨hcheck, hway, hsteps⟩ := h.way_of_missing sound hp hne hmissing
    obtain ⟨hrooted, step, hstep⟩ := HostPath.steps_of_parent? hparent hsteps
    have hnames : ∀ n ∈ p.steps, IsName n := fun n hn => isName_of_mem_steps hup hn
    have hmakes := makeDirsUpTo_makesOnWay mode levels t above
    rw [habove] at hmakes
    have hend : ¬ t.Passes above (t.start p ++ p.steps) := by
      rintro ⟨left, ahead, hahead, hlead⟩
      have hahead' : ∀ n ∈ ahead, IsName n := fun n hn =>
        hnames n (by rw [hstep]; exact List.mem_append_left _ (hahead.subset hn))
      rw [h.lead_down hahead', start, hrooted, ← start] at hlead
      have hsame : ahead = p.steps :=
        List.append_cancel_left (Prod.mk.inj (Option.some.inj hlead)).2
      have hshort := hahead.length_le
      rw [hsame, hstep, List.length_append, List.length_singleton] at hshort
      omega
    have hfree : after.at? (t.start p ++ p.steps) = none := by
      rw [hmakes.elsewhere hend]
      exact h.at?_of_missing sound hnames hway
    have hafter := hmakes.linkless h
    have hnotDir : e = .os .exists_ := by
      simp only at hfile
      split at hfile <;> cases hfile
      rfl
    rw [hnotDir, hafter.makeDir_of_checked hp hcheck] at hmake
    cases hfound : after.way p with
    | error e' =>
      have hway := h.way_of_makeDirsUpTo sound (HostPath.parent?_trimmed hparent)
        (congrArg Prod.snd habove)
      rw [habove] at hway
      obtain ⟨base, m, hbase⟩ := hway
      have honward := hafter.way_from hrooted.symm hstep hbase
      obtain rfl := hafter.onward_error (hmakes.sound sound) (at?_of_way hbase)
        (HostPath.not_idle_of_mem_steps (p := p) (by simp [hstep])) (honward.symm.trans hfound)
      rw [hfound] at hmake
      cases hmake
    | ok spot =>
      rw [hfound] at hmake
      cases spot with
      | free dir name => cases hmake
      | taken loc e' =>
        have hat := at?_of_way hfound
        rcases walk_spec hfound with ⟨left, hlead, -⟩ | ⟨hfollow, -⟩
        · rw [hafter.lead_down hnames, hmakes.sameLinks.start p] at hlead
          obtain ⟨-, rfl⟩ := Prod.mk.inj (Option.some.inj hlead)
          cases hfree.symm.trans hat
        · cases hfollow

/-- On a path that never goes up, a file is in the way before anything is made. -/
theorem Linkless.makeDirs_straight (h : t.Linkless) (sound : t.Sound) (hp : p.Trimmed)
    (hup : ".." ∉ p.steps) (hfile : (t.makeDirs mode p).2 = .error (.os .exists_)) :
    (t.makeDirs mode p).1 = [] :=
  h.makeDirsUpTo_straight sound hp hup hfile

end FileTree

end NodeLogs
