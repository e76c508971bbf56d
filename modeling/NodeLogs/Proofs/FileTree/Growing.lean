import NodeLogs.Proofs.FileTree.Access

/-!
Trees that grow. Whatever one of them shows stays there, and files alone may come to hold something
else. A path that has led to an entry, or to a free place that is taken by now, leads there again.
-/

namespace NodeLogs

/-- All there is to an entry but for what may change about it: for a file, that it is one. -/
def Entry.outline : Entry → Option Entry
  | .file .. => none
  | e => some e

namespace Entry

variable {e e' : Entry}

theorem eq_of_outline (h : e'.outline = e.outline) (hfixed : e.outline = some e) : e' = e := by
  rw [hfixed] at h
  cases e' with
  | file => cases h
  | _ => exact Option.some.inj h

theorem file_of_outline {mode : Nat} {data : Bytes} (h : e'.outline = (file mode data).outline) :
    ∃ mode' data', e' = .file mode' data' := by
  cases e' with
  | file mode' data' => exact ⟨mode', data', rfl⟩
  | _ => cases h

end Entry

namespace FileTree

open HostPath (Idle)

/-- A tree in which each entry of another one still is, files with any mode and data. -/
structure Grows (t t' : FileTree) : Prop where
  kept : ∀ loc e, t.at? loc = some e → ∃ e', t'.at? loc = some e' ∧ e'.outline = e.outline
  caller : t'.toCaller = t.toCaller

variable {t t' t'' : FileTree} {p : HostPath} {loc : Location}

namespace Grows

theorem refl (t : FileTree) : Grows t t := ⟨fun _ e he => ⟨e, he, rfl⟩, rfl⟩

theorem trans (h : Grows t t') (h' : Grows t' t'') : Grows t t'' := by
  refine ⟨fun loc e he => ?_, h'.caller.trans h.caller⟩
  obtain ⟨e', he', hsame⟩ := h.kept loc e he
  obtain ⟨e'', he'', hsame'⟩ := h'.kept loc e' he'
  exact ⟨e'', he'', hsame'.trans hsame⟩

theorem same (h : Grows t t') {e : Entry} (he : t.at? loc = some e)
    (hfixed : e.outline = some e) : t'.at? loc = some e := by
  obtain ⟨e', he', hsame⟩ := h.kept loc e he
  rwa [Entry.eq_of_outline hsame hfixed] at he'

theorem isDir (h : Grows t t') (hdir : t.IsDir loc) : t'.IsDir loc := by
  obtain ⟨mode, hmode⟩ := hdir
  exact ⟨mode, h.same hmode rfl⟩

theorem file (h : Grows t t') {mode : Nat} {data : Bytes}
    (hat : t.at? loc = some (.file mode data)) :
    ∃ mode' data', t'.at? loc = some (.file mode' data') := by
  obtain ⟨e', he', hsame⟩ := h.kept loc _ hat
  obtain ⟨mode', data', rfl⟩ := Entry.file_of_outline hsame
  exact ⟨mode', data', he'⟩

/-- Only new entries, and any files in place of files. -/
theorem of_at? (h : ∀ l, t'.at? l = t.at? l ∨ t.at? l = none ∨
      (∃ mode data, t.at? l = some (.file mode data)) ∧
        ∃ mode data, t'.at? l = some (.file mode data))
    (hdir : t'.toCaller = t.toCaller) : Grows t t' := by
  refine ⟨fun loc e he => ?_, hdir⟩
  rcases h loc with hsame | hfree | ⟨⟨mode, data, hfile⟩, mode', data', hfile'⟩
  · exact ⟨e, hsame.trans he, rfl⟩
  · rw [he] at hfree
    cases hfree
  · rw [he] at hfile
    cases hfile
    exact ⟨_, hfile', rfl⟩

end Grows

theorem walk_last {followLast : Bool} {links : Nat} {part : String} {e : Entry}
    (hidle : ¬ (part = "" ∨ part = ".")) (hup : part ≠ "..")
    (hlong : ¬ longestName < part.utf8ByteSize) (hat : t.at? (loc ++ [part]) = some e)
    (hlink : ∀ target, e ≠ .symlink target) :
    t.walk followLast links loc [part] = .ok (.taken (loc ++ [part]) e) := by
  rw [walk, if_neg hidle, if_neg hup, if_neg hlong, hat]
  cases e with
  | symlink target => exact absurd rfl (hlink target)
  | _ => rfl

theorem Grows.walk (h : Grows t t') {followLast : Bool} {links : Nat} {parts : List String}
    {spot : Spot} {e : Entry} (hwalk : t.walk followLast links loc parts = .ok spot)
    (hat : t'.at? spot.place = some e)
    (hlink : spot.entry? = none → ∀ target, e ≠ .symlink target) :
    t'.walk followLast links loc parts = .ok (.taken spot.place e) := by
  fun_induction t.walk followLast links loc parts with
  | case1 links loc e₀ he =>
    cases hwalk
    rw [FileTree.walk, show t'.at? loc = some e from hat]
    rfl
  | case3 links loc part rest hidle ih =>
    rw [FileTree.walk, if_pos hidle]
    exact ih hwalk
  | case4 links loc rest hidle ih =>
    rw [FileTree.walk, if_neg hidle, if_pos rfl]
    exact ih hwalk
  | case6 links loc part hidle hup hlong hnone =>
    cases hwalk
    exact walk_last hidle hup hlong hat (hlink rfl)
  | case8 links loc part hidle hup hlong mode hold
  | case10 links loc part hidle hup hlong mode data hold
  | case12 links loc part hidle hup hlong device hold =>
    cases hwalk
    refine walk_last hidle hup hlong hat ?_
    rintro target rfl
    obtain ⟨e', he', hsame⟩ := h.kept _ _ hold
    obtain rfl : Entry.symlink target = e' := Option.some.inj (hat.symm.trans he')
    cases hsame
  | case9 links loc part rest hidle hup hlong mode hold hrest ih =>
    rw [FileTree.walk, if_neg hidle, if_neg hup, if_neg hlong, h.same hold rfl]
    simp only [if_neg hrest]
    exact ih hwalk
  | case14 links loc part rest hidle hup hlong target hold hlast =>
    cases hwalk
    have hsame := h.same hold rfl
    obtain rfl : e = .symlink target := Option.some.inj (hat.symm.trans hsame)
    rw [FileTree.walk, if_neg hidle, if_neg hup, if_neg hlong, hsame]
    simp only [if_pos hlast]
    rfl
  | case17 loc part rest hidle hup hlong target hold hlast hne links ih =>
    rw [FileTree.walk, if_neg hidle, if_neg hup, if_neg hlong, h.same hold rfl]
    simp only [if_neg hlast, if_neg hne]
    simpa only [dite_eq_ite] using ih (by simpa only [dite_eq_ite] using hwalk)
  | case2 | case5 | case7 | case11 | case13 | case15 | case16 => cases hwalk

theorem Grows.walkParts (h : Grows t t') {followLast : Bool} {parts : List String} {spot : Spot}
    {e : Entry} (hwalk : t.walkParts followLast p parts = .ok spot)
    (hat : t'.at? spot.place = some e)
    (hlink : spot.entry? = none → ∀ target, e ≠ .symlink target) :
    t'.walkParts followLast p parts = .ok (.taken spot.place e) := by
  have hstart : t'.start p = t.start p := by rw [start, start, h.caller]
  change (t'.walk followLast mostLinks (t'.start p) parts).mapError IoError.os = _
  rw [hstart, h.walk (walk_of_walkParts hwalk) hat hlink]
  rfl

theorem checkPath_of_stat {found : Location × Entry} (h : t.stat p = .ok found) :
    checkPath p = .ok () := by
  cases hcheck : checkPath p with
  | error e => simp [stat, find, hcheck, bind, Except.bind] at h
  | ok _ => rfl

theorem stat_of_walkParts {e : Entry} (hcheck : checkPath p = .ok ())
    (hwalk : t.walkParts true p p.parts = .ok (.taken loc e)) : t.stat p = .ok (loc, e) := by
  simp only [stat, find, hcheck, hwalk, bind, Except.bind]

/-- What a path has led to is there by the same path. -/
theorem Grows.stat (h : Grows t t') {e : Entry} (hstat : t.stat p = .ok (loc, e)) :
    ∃ e', t'.stat p = .ok (loc, e') ∧ e'.outline = e.outline := by
  obtain ⟨e', he', hsame⟩ := h.kept loc e (stat_spec hstat).2
  exact ⟨e', stat_of_walkParts (checkPath_of_stat hstat)
    (h.walkParts (walkParts_of_stat hstat) he' (by simp [Spot.entry?])), hsame⟩

/-- What is opened is where a walk along the path ends. -/
theorem walkParts_of_open {bits : Nat} {c : Change} (h : t.openForWriting bits p = .ok (loc, c)) :
    checkPath p = .ok () ∧ p.text.toList.getLast? ≠ some '/' ∧
      ∃ spot, t.walkParts true p p.parts = .ok spot ∧ spot.place = loc := by
  have hlead := (openForWriting_spec h).1
  simp only [openForWriting, bind, Except.bind] at h
  split at h
  · cases h
  · next hcheck =>
    split at h
    · split at h
      · cases h
      · split at h <;> cases h
    · next hslash =>
      split at h
      · cases h
      · next spot hwalk =>
        rcases walkParts_spec hwalk rfl with ⟨hends, -⟩ | ⟨hfollow, -⟩
        · exact ⟨hcheck, hslash, spot, hwalk, Option.some.inj (hends.symm.trans hlead)⟩
        · cases hfollow

/-- What was opened for writing, or made by that, is opened by the same path again, if it may be
written. -/
theorem Grows.openForWriting (h : Grows t t') {bits : Nat} {c : Change}
    (hopen : t.openForWriting bits p = .ok (loc, c))
    (hat : (∃ mode data, t'.at? loc = some (.file mode data) ∧ t'.mayWrite mode = true) ∨
      ∃ d, t'.at? loc = some (.device d))
    (bits' : Nat) : t'.openForWriting bits' p = .ok (loc, .truncate loc) := by
  obtain ⟨hcheck, hslash, spot, hwalk, rfl⟩ := walkParts_of_open hopen
  rcases hat with ⟨mode, data, hat, hwrite⟩ | ⟨d, hat⟩
  · simp only [FileTree.openForWriting, hcheck, if_neg hslash, h.walkParts hwalk hat (by simp),
      if_pos hwrite, bind, Except.bind]
  · simp only [FileTree.openForWriting, hcheck, if_neg hslash, h.walkParts hwalk hat (by simp),
      bind, Except.bind]

/-- Where that is a file that may not be written, it is not opened again. -/
theorem Grows.openForWriting_denied (h : Grows t t') {bits mode : Nat} {c : Change} {data : Bytes}
    (hopen : t.openForWriting bits p = .ok (loc, c)) (hat : t'.at? loc = some (.file mode data))
    (hdenied : t'.mayWrite mode = false) (bits' : Nat) :
    t'.openForWriting bits' p = .error (.os .accessDenied) := by
  obtain ⟨hcheck, hslash, spot, hwalk, rfl⟩ := walkParts_of_open hopen
  simp only [FileTree.openForWriting, hcheck, if_neg hslash, h.walkParts hwalk hat (by simp),
    hdenied, Bool.false_eq_true, if_false, bind, Except.bind]

end FileTree

end NodeLogs
