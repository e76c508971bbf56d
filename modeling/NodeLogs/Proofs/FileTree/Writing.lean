import NodeLogs.Proofs.FileTree.Reaching

/-!
Files that are written and directories that are made, and both found again by the same path.
Whatever links lead to the file, they lead there again, so what is found is what was written.
-/

namespace NodeLogs.FileTree

open HostPath (Idle)

variable {t t' : FileTree} {p : HostPath} {loc : Location} {mode : Nat} {data : Bytes}

/-- A file is put in place of another one, or of nothing, and all else stays. -/
structure Puts (t t' : FileTree) (loc : Location) (mode : Nat) (data : Bytes) : Prop where
  before : t.at? loc = none ∨ ∃ m old, t.at? loc = some (.file m old)
  after : t'.at? loc = some (.file mode data)
  others : ∀ l, l ≠ loc → t'.at? l = t.at? l
  caller : t'.toCaller = t.toCaller

namespace Puts

theorem grows (h : Puts t t' loc mode data) : Grows t t' := by
  refine .of_at? (fun l => ?_) h.caller
  by_cases hl : l = loc
  · subst hl
    exact Or.inr (h.before.imp_right fun hfile => ⟨hfile, mode, data, h.after⟩)
  · exact Or.inl (h.others l hl)

/-- The walk that led to the place leads to the file. -/
theorem stat (h : Puts t t' loc mode data) {spot : Spot} (hcheck : checkPath p = .ok ())
    (hwalk : t.walkParts true p p.parts = .ok spot) (hspot : spot.place = loc) :
    t'.stat p = .ok (loc, .file mode data) := by
  subst hspot
  exact stat_of_walkParts hcheck (h.grows.walkParts hwalk h.after (by simp))

end Puts

/-- A file that was put where a path was opened is opened by that path again, and emptied, if its
mode lets it be written. -/
theorem Puts.openForWriting (h : Puts t t' loc mode data) {bits : Nat} {c : Change}
    (hopen : t.openForWriting bits p = .ok (loc, c)) (hwrite : t.mayWrite mode = true)
    (bits' : Nat) : t'.openForWriting bits' p = .ok (loc, .truncate loc) :=
  h.grows.openForWriting hopen (Or.inl ⟨mode, data, h.after, h.caller ▸ hwrite⟩) bits'

/-- Opening and filling put a file where the path leads, unless a device is there. -/
theorem puts_of_open {bits : Nat} {c : Change} (h : t.openForWriting bits p = .ok (loc, c))
    (hdevice : ∀ d, t.at? loc ≠ some (.device d)) (data : Bytes) :
    ∃ mode, Puts t ((t.apply c).apply (.append loc data)) loc mode data := by
  have hroot (hnot : ¬ t.IsDir loc) : loc ≠ [] := by
    rintro rfl
    exact hnot (isDir_nil t)
  have hothers {c : Change} (hc : c.place = loc) (l : Location) (hl : l ≠ loc) :
      ((t.apply c).apply (.append loc data)).at? l = t.at? l := by
    rw [at?_apply, if_neg fun h => hl h.1, at?_apply, if_neg]
    rintro ⟨rfl, -⟩
    exact hl hc
  rcases (openForWriting_spec h).2 with ⟨rfl, ⟨m, old, hat, -⟩ | ⟨d, hat⟩⟩ | ⟨rfl, hat, -⟩
  · have hloc := hroot (not_isDir_of_file hat)
    refine ⟨m, Or.inr ⟨m, old, hat⟩, ?_, hothers rfl, ?_⟩
    · rw [at?_apply, if_pos ⟨rfl, hloc⟩, at?_apply, if_pos ⟨rfl, hloc⟩, hat]
      rfl
    · rw [caller_apply, caller_apply]
  · exact absurd hat (hdevice d)
  · have hloc := hroot (not_isDir_of_free hat)
    refine ⟨t.masked bits, Or.inl hat, ?_, hothers rfl, ?_⟩
    · rw [at?_apply, if_pos ⟨rfl, hloc⟩, at?_apply, if_pos ⟨rfl, hloc⟩]
      rfl
    · rw [caller_apply, caller_apply]

/-- What is written to a file that can be opened is found there. -/
theorem stat_writeFile {c : Change} (hopen : t.openForWriting 0o666 p = .ok (loc, c))
    (hdevice : ∀ d, t.at? loc ≠ some (.device d)) (data : Bytes) :
    (t.writeFile p data).2 = .ok () ∧
      ∃ mode, (t.applyAll (t.writeFile p data).1).stat p = .ok (loc, .file mode data) := by
  obtain ⟨hcheck, -, spot, hwalk, hplace⟩ := walkParts_of_open hopen
  obtain ⟨mode, hputs⟩ := puts_of_open hopen hdevice data
  have hwrite : (t.apply c).write loc data = .ok (.append loc data) := by
    rw [write, if_neg]
    rintro ⟨hfull, -⟩
    exact hdevice .full (@device_of_applyAll t [c] loc .full hfull)
  have hresult : t.writeFile p data = ([c, .append loc data], .ok ()) := by
    rw [writeFile, hopen]
    simp only [hwrite]
  rw [hresult]
  exact ⟨rfl, mode, hputs.stat hcheck hwalk hplace⟩

/-! Directories -/

theorem Grows.of_free {c : Change} (h : t.at? c.place = none) : Grows t (t.apply c) := by
  refine .of_at? (fun l => ?_) (caller_apply t c)
  by_cases hl : l = c.place
  · subst hl
    exact Or.inr (Or.inl h)
  · exact Or.inl (by rw [at?_apply, if_neg fun h => hl h.1])

/-- A directory that is reached is reached as well with idle parts behind. -/
theorem walk_idle_end {followLast : Bool} {links : Nat} {base : Location} {parts more : List String}
    (hwalk : t.walk followLast links base parts = .ok (.taken loc (.dir mode)))
    (hmore : ∀ part ∈ more, Idle part) :
    t.walk true links base (parts ++ more) = .ok (.taken loc (.dir mode)) := by
  have at_end {links : Nat} {base : Location} (hat : t.at? base = some (.dir mode)) :
      t.walk true links base more = .ok (.taken base (.dir mode)) := by
    rw [walk_idle _ _ _ _ hmore, walk, hat]
  fun_induction t.walk followLast links base parts with
  | case1 links base e he =>
    cases hwalk
    exact at_end he
  | case3 links base part rest hidle ih =>
    rw [List.cons_append, walk_step_idle _ _ _ _ hidle]
    exact ih hwalk
  | case4 links base rest hidle ih =>
    rw [List.cons_append, walk_step_up]
    exact ih hwalk
  | case8 links base part hidle hup hlong m hat =>
    cases hwalk
    by_cases hnone : more = []
    · subst hnone
      exact walk_last hidle hup hlong hat (by simp)
    · rw [List.singleton_append, walk_step_dir hidle hup hlong hat hnone]
      exact at_end hat
  | case9 links base part rest hidle hup hlong m hat hrest ih =>
    rw [List.cons_append, walk_step_dir hidle hup hlong hat (by simp [hrest])]
    exact ih hwalk
  | case17 base part rest hidle hup hlong target hat hlast hne links ih =>
    rw [List.cons_append, walk, if_neg hidle, if_neg hup, if_neg hlong, hat]
    simp only [Bool.true_eq_false, and_false, if_false, if_neg hne]
    rw [← List.append_assoc]
    simpa only [dite_eq_ite] using ih (by simpa only [dite_eq_ite] using hwalk)
  | case10 | case12 | case14 => cases hwalk
  | case2 | case5 | case6 | case7 | case11 | case13 | case15 | case16 => cases hwalk

theorem unslashed_append (parts : List String) :
    ∃ slashes, parts = unslashed parts ++ slashes ∧ ∀ part ∈ slashes, part = "" := by
  refine ⟨(parts.reverse.takeWhile (· = "")).reverse, ?_, fun part hpart => ?_⟩
  · rw [unslashed, ← List.reverse_append, List.takeWhile_append_dropWhile, List.reverse_reverse]
  · simpa using List.all_eq_true.mp List.all_takeWhile part (List.mem_reverse.mp hpart)

/-- A directory that was made is there by its path. -/
theorem isDir_of_makeDir {bits : Nat} {c : Change} (h : t.makeDir bits p = .ok c) :
    (t.apply c).isDir p = true := by
  have hcheck : checkPath p = .ok () := by
    cases hcheck : checkPath p with
    | error e => simp [makeDir, hcheck, bind, Except.bind] at h
    | ok _ => rfl
  obtain ⟨dir, name, hwalk, hc⟩ := walkParts_of_makeDir h
  obtain ⟨place, hplace, -, hfree, -⟩ := makeDir_spec h
  obtain rfl : place = dir ++ [name] := congrArg Change.place (hplace.symm.trans hc)
  obtain ⟨mode, hmade⟩ : ∃ mode, (t.apply c).at? (dir ++ [name]) = some (.dir mode) := by
    rw [hc, at?_apply, if_pos ⟨rfl, by simp⟩]
    exact ⟨_, rfl⟩
  have hgrows : Grows t (t.apply c) := .of_free (by rwa [hc])
  have hfound := walk_of_walkParts (hgrows.walkParts hwalk hmade (by simp))
  obtain ⟨slashes, hparts, hslashes⟩ := unslashed_append p.parts
  have hend := walk_idle_end hfound fun part hpart => Or.inl (hslashes part hpart)
  have hwhole : (t.apply c).walkParts true p p.parts =
    .ok (.taken (dir ++ [name]) (.dir mode)) := by
    change ((t.apply c).walk true mostLinks ((t.apply c).start p) p.parts).mapError IoError.os = _
    rw [hparts, hend]
    rfl
  rw [isDir, stat_of_walkParts hcheck hwhole]

theorem isDir_of_makeDirsUpTo {bits levels : Nat}
    (h : (makeDirsUpTo bits levels t p).2 = .ok ()) (hne : p.text ≠ "") :
    (t.applyAll (makeDirsUpTo bits levels t p).1).isDir p = true := by
  revert h
  fun_cases makeDirsUpTo bits levels t p with
  | case1 levels t p hempty => exact absurd hempty hne
  | case2 levels t p hne c hmake => exact fun _ => isDir_of_makeDir hmake
  | case4 t p hne levels above hparent changes habove after c hmake hmissing =>
    intro _
    rw [applyAll_append]
    exact isDir_of_makeDir hmake
  | case5 | case7 | case8 => exact isDir_of_ok
  | case3 | case6 => intro h; cases h

/-- Once a directory was made with the ones above it, its path leads to a directory. -/
theorem isDir_of_makeDirs {bits : Nat} (h : (t.makeDirs bits p).2 = .ok ()) (hne : p.text ≠ "") :
    (t.applyAll (t.makeDirs bits p).1).isDir p = true :=
  isDir_of_makeDirsUpTo h hne

end NodeLogs.FileTree
