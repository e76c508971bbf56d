import NodeLogs.Proofs.FileTree.Growing

/-!
Paths that reach their end. What a walk has reached, it still reaches when more is there; and from a
directory that a path leads to, names lead on through the directories below it.
-/

namespace NodeLogs.FileTree

open HostPath (Idle IsName significant)

/-- A tree that shows all that another one shows, and perhaps more. -/
structure Extends (t t' : FileTree) : Prop where
  kept : ∀ loc e, t.at? loc = some e → t'.at? loc = some e
  caller : t'.toCaller = t.toCaller

variable {t t' : FileTree}

theorem Extends.grows (h : Extends t t') : Grows t t' where
  kept loc e he := ⟨e, h.kept loc e he, rfl⟩
  caller := h.caller

theorem walk_step_idle (t : FileTree) (followLast : Bool) (links : Nat) (loc : Location)
    {part : String} (h : Idle part) (rest : List String) :
    t.walk followLast links loc (part :: rest) = t.walk followLast links loc rest := by
  unfold Idle at h
  rw [walk, if_pos h]

theorem walk_step_up (t : FileTree) (followLast : Bool) (links : Nat) (loc : Location)
    (rest : List String) :
    t.walk followLast links loc (".." :: rest) = t.walk followLast links loc.dropLast rest := by
  rw [walk, if_neg (by simp), if_pos rfl]

/-- A directory is walked into where more follows. -/
theorem walk_step_dir {followLast : Bool} {links : Nat} {loc : Location} {part : String}
    {mode : Nat} {rest : List String} (hidle : ¬ Idle part) (hup : part ≠ "..")
    (hlong : ¬ longestName < part.utf8ByteSize) (hat : t.at? (loc ++ [part]) = some (.dir mode))
    (hrest : rest ≠ []) :
    t.walk followLast links loc (part :: rest) = t.walk followLast links (loc ++ [part]) rest := by
  unfold Idle at hidle
  rw [walk, if_neg hidle, if_neg hup, if_neg hlong, hat]
  simp only [if_neg hrest]

theorem walk_step_long (t : FileTree) (followLast : Bool) (links : Nat) (loc : Location)
    {part : String} (hname : IsName part) (hlong : longestName < part.utf8ByteSize)
    (rest : List String) :
    t.walk followLast links loc (part :: rest) = .error .nameTooLong := by
  have hidle := hname.notIdle
  unfold Idle at hidle
  rw [walk, if_neg hidle, if_neg hname.notUp, if_pos hlong]

theorem walk_idle (t : FileTree) (followLast : Bool) (links : Nat) (loc : Location)
    {parts : List String} (h : ∀ part ∈ parts, Idle part) :
    t.walk followLast links loc parts = t.walk followLast links loc [] := by
  induction parts with
  | nil => rfl
  | cons part parts ih =>
    rw [walk_step_idle _ _ _ _ (h part List.mem_cons_self)]
    exact ih fun p hp => h p (List.mem_cons_of_mem part hp)

/-- What follows a directory in a path is walked from that directory, also where the directory's own
path had idle parts at its end and these are left out. -/
theorem walk_on {links : Nat} {loc base : Location} {mode : Nat} {parts more : List String}
    (hmore : ∀ part ∈ more, Idle part)
    (hwalk : t.walk true links loc (parts ++ more) = .ok (.taken base (.dir mode))) :
    ∃ left, ∀ followLast rest, rest ≠ [] →
      t.walk followLast links loc (parts ++ rest) = t.walk followLast left base rest := by
  have base_of_idle {links : Nat} {loc : Location} {parts : List String}
      (h : ∀ part ∈ parts, Idle part)
      (hwalk : t.walk true links loc parts = .ok (.taken base (.dir mode))) : loc = base := by
    rw [walk_idle t true links loc h, walk] at hwalk
    split at hwalk <;> cases hwalk
    rfl
  have cut {parts : List String} {part : String} {rest : List String} (hidle : ¬ Idle part)
      (hall : parts ++ more = part :: rest) :
      ∃ ahead, parts = part :: ahead ∧ ahead ++ more = rest := by
    rcases parts with _ | ⟨first, ahead⟩
    · obtain rfl : more = part :: rest := hall
      exact absurd (hmore part List.mem_cons_self) hidle
    · obtain ⟨rfl, hrest⟩ := List.cons.inj hall
      exact ⟨ahead, rfl, hrest⟩
  generalize hall : parts ++ more = all at hwalk
  generalize hfollow : true = follow at hwalk base_of_idle
  fun_induction t.walk follow links loc all generalizing parts with
  | case1 links loc e he =>
    obtain ⟨rfl, rfl⟩ := List.append_eq_nil_iff.mp hall
    cases hwalk
    exact ⟨links, fun _ _ _ => rfl⟩
  | case3 links loc part rest hidle ih =>
    rcases parts with _ | ⟨first, ahead⟩
    · obtain rfl : more = part :: rest := hall
      have hrest : ∀ p ∈ rest, Idle p := fun p hp => hmore p (List.mem_cons_of_mem part hp)
      obtain rfl := base_of_idle hrest hwalk
      exact ⟨links, fun _ _ _ => rfl⟩
    · obtain ⟨rfl, hrest⟩ := List.cons.inj hall
      obtain ⟨left, hleft⟩ := ih hrest hwalk
      refine ⟨left, fun followLast more hne => ?_⟩
      rw [List.cons_append, walk_step_idle _ _ _ _ hidle, hleft followLast more hne]
  | case4 links loc rest hidle ih =>
    obtain ⟨ahead, rfl, hrest⟩ := cut hidle hall
    obtain ⟨left, hleft⟩ := ih hrest hwalk
    refine ⟨left, fun followLast more hne => ?_⟩
    rw [List.cons_append, walk_step_up, hleft followLast more hne]
  | case8 links loc part hidle hup hlong mode hat =>
    obtain ⟨ahead, rfl, hrest⟩ := cut hidle hall
    obtain ⟨rfl, rfl⟩ := List.append_eq_nil_iff.mp hrest
    cases hwalk
    exact ⟨links, fun followLast rest hne => walk_step_dir hidle hup hlong hat hne⟩
  | case9 links loc part rest hidle hup hlong mode hat hne ih =>
    obtain ⟨ahead, rfl, hrest⟩ := cut hidle hall
    obtain ⟨left, hleft⟩ := ih hrest hwalk
    refine ⟨left, fun followLast more hmore => ?_⟩
    rw [List.cons_append, walk_step_dir hidle hup hlong hat (by simp [hmore]),
      hleft followLast more hmore]
  | case17 loc part rest hidle hup hlong target hat hlast hne links ih =>
    obtain ⟨ahead, rfl, hrest⟩ := cut hidle hall
    obtain ⟨left, hleft⟩ := ih
      (show (HostPath.parts ⟨target⟩ ++ ahead) ++ more = HostPath.parts ⟨target⟩ ++ rest by
        rw [List.append_assoc, hrest])
      (by simpa only [dite_eq_ite] using hwalk)
    refine ⟨left, fun followLast more hmore => ?_⟩
    rw [← hleft followLast more hmore, List.cons_append, walk, if_neg hidle, if_neg hup,
      if_neg hlong, hat]
    simp [hmore, hne, List.append_assoc]
  | case14 links loc part rest hidle hup hlong target hat hlast =>
    rw [← hfollow] at hlast
    cases hlast.2
  | case10 | case12 => cases hwalk
  | case2 | case5 | case6 | case7 | case11 | case13 | case15 | case16 => cases hwalk

/-- Names lead down through directories. -/
theorem walk_names {followLast : Bool} {links : Nat} {base : Location} {front : List String}
    {name : String} (hnames : ∀ n ∈ front, IsName n ∧ n.utf8ByteSize ≤ longestName)
    (hdirs : ∀ ahead, ahead <+: front → t.IsDir (base ++ ahead)) :
    t.walk followLast links base (front ++ [name]) =
      t.walk followLast links (base ++ front) [name] := by
  induction front generalizing base with
  | nil => rw [List.nil_append, List.append_nil]
  | cons first rest ih =>
    obtain ⟨hfirst, hlong⟩ := hnames first List.mem_cons_self
    obtain ⟨mode, hmode⟩ := hdirs [first] (List.prefix_append [first] rest)
    have hrest : ∀ ahead, ahead <+: rest → t.IsDir (base ++ [first] ++ ahead) := by
      intro ahead hahead
      rw [List.append_assoc]
      exact hdirs (first :: ahead) (List.cons_prefix_cons.mpr ⟨rfl, hahead⟩)
    rw [List.cons_append, walk_step_dir hfirst.notIdle hfirst.notUp (Nat.not_lt.mpr hlong) hmode
      (by simp), ih (fun n hn => hnames n (List.mem_cons_of_mem first hn)) hrest, List.append_assoc]
    rfl

/-- Names that lead from a directory through others to a free place. -/
structure Vacant (t : FileTree) (base : Location) (front : List String) (name : String) : Prop where
  names : ∀ n ∈ front ++ [name], IsName n ∧ n.utf8ByteSize ≤ longestName
  dirs : ∀ ahead, ahead <+: front → t.IsDir (base ++ ahead)
  free : t.at? (base ++ front ++ [name]) = none

variable {base : Location} {front : List String} {name : String}

theorem Vacant.walk (h : t.Vacant base front name) (followLast : Bool) (links : Nat) :
    t.walk followLast links base (front ++ [name]) = .ok (.free (base ++ front) name) := by
  obtain ⟨hname, hlong⟩ := h.names name (List.mem_append_right front List.mem_cons_self)
  have hidle := hname.notIdle
  unfold Idle at hidle
  rw [walk_names (fun n hn => h.names n (List.mem_append_left [name] hn)) h.dirs, FileTree.walk,
    if_neg hidle, if_neg hname.notUp, if_neg (Nat.not_lt.mpr hlong), h.free]
  rfl

/-! Paths joined to the path of a directory -/

theorem checkPath_eq_ok {p : HostPath} :
    checkPath p = .ok () ↔
      '\x00' ∉ p.text.toList ∧ p.text ≠ "" ∧ p.text.utf8ByteSize ≤ longestPath := by
  rw [checkPath, String.contains_char_eq]
  by_cases hnul : '\x00' ∈ p.text.toList
  · simp [hnul]
  · by_cases hempty : p.text = ""
    · simp [hempty]
    · simp [hnul, hempty]

theorem Extends.stat (h : Extends t t') {p : HostPath} {loc : Location} {e : Entry}
    (hstat : t.stat p = .ok (loc, e)) : t'.stat p = .ok (loc, e) :=
  stat_of_walkParts (checkPath_of_stat hstat)
    (h.grows.walkParts (walkParts_of_stat hstat) (h.kept loc e (stat_spec hstat).2)
      (by simp [Spot.entry?]))

variable {p : HostPath} {mode : Nat}

theorem checkPath_join (hdir : t.stat p = .ok (base, .dir mode)) {names : List String}
    (hnames : ∀ n ∈ names, IsName n ∧ '\x00' ∉ n.toList)
    (hlength : (p.join (HostPath.below names)).text.utf8ByteSize ≤ longestPath) :
    checkPath (p.join (HostPath.below names)) = .ok () := by
  obtain ⟨hnul, hne, -⟩ := checkPath_eq_ok.mp (checkPath_of_stat hdir)
  have hbelow : '\x00' ∉ (HostPath.below names).toList := by
    intro hmem
    rcases HostPath.mem_below hmem with hslash | ⟨n, hn, hmem⟩
    · exact absurd hslash (by decide)
    · exact (hnames n hn).2 hmem
  rw [checkPath_eq_ok]
  refine ⟨?_, ?_, hlength⟩
  · rcases HostPath.text_join (p := p) fun n hn => (hnames n hn).1 with htext | htext <;>
      simp [htext, hnul, hbelow]
  · rcases HostPath.text_join (p := p) fun n hn => (hnames n hn).1 with htext | htext <;>
      simp [htext, hne]

theorem walkParts_join (hdir : t.stat p = .ok (base, .dir mode)) {names : List String}
    (hnames : ∀ n ∈ names, IsName n) :
    ∃ left, ∀ followLast,
      t.walkParts followLast (p.join (HostPath.below names)) (p.join (HostPath.below names)).parts =
        (t.walk followLast left base (HostPath.parts ⟨HostPath.below names⟩)).mapError .os := by
  have hwalk := walk_of_walkParts (walkParts_of_stat hdir)
  have hne : p.text ≠ "" := (checkPath_eq_ok.mp (checkPath_of_stat hdir)).2.1
  obtain ⟨parts, idle, hparts, hidle, hjoin⟩ := HostPath.parts_join hne hnames
  rw [hparts] at hwalk
  obtain ⟨left, hleft⟩ := walk_on hidle hwalk
  refine ⟨left, fun followLast => ?_⟩
  change (t.walk followLast mostLinks (t.start (p.join (HostPath.below names))) _).mapError _ = _
  rw [start_join hnames, hjoin, hleft followLast _ (HostPath.parts_ne_nil _)]

/-- A path of idle parts leads to where it starts. -/
theorem stat_of_idle {e : Entry} (hcheck : checkPath p = .ok ())
    (hidle : ∀ part ∈ p.parts, Idle part) (hat : t.at? (t.start p) = some e) :
    t.stat p = .ok (t.start p, e) := by
  have hwalk : t.walkParts true p p.parts = .ok (.taken (t.start p) e) := by
    change (t.walk true mostLinks (t.start p) p.parts).mapError IoError.os = _
    rw [walk_idle _ _ _ _ hidle, walk, hat]
    rfl
  simp only [stat, find, hcheck, hwalk, bind, Except.bind]

/-- Nothing but the directory itself is reached where no names are joined. -/
theorem stat_join_nil (hdir : t.stat p = .ok (base, .dir mode))
    (hcheck : checkPath (p.join (HostPath.below [])) = .ok ()) :
    t.stat (p.join (HostPath.below [])) = .ok (base, .dir mode) := by
  obtain ⟨left, hleft⟩ := walkParts_join hdir (List.forall_mem_nil IsName)
  have hwalk : t.walkParts true (p.join (HostPath.below [])) (p.join (HostPath.below [])).parts =
      .ok (.taken base (.dir mode)) := by
    rw [hleft, show HostPath.parts ⟨HostPath.below []⟩ = [""] from rfl,
      walk_step_idle _ _ _ _ (Or.inl rfl), walk, (stat_spec hdir).2]
    rfl
  simp only [stat, find, hcheck, hwalk, bind, Except.bind]

namespace Vacant

variable (h : t.Vacant base front name) (hdir : t.stat p = .ok (base, .dir mode))
  (hcheck : checkPath (p.join (HostPath.below (front ++ [name]))) = .ok ())

include h

theorem parts_below : HostPath.parts ⟨HostPath.below (front ++ [name])⟩ = front ++ [name] :=
  HostPath.parts_slashed (by simp) fun n hn => (h.names n hn).1.noSlash

include hdir

theorem walkParts (followLast : Bool) :
    t.walkParts followLast (p.join (HostPath.below (front ++ [name])))
      (p.join (HostPath.below (front ++ [name]))).parts = .ok (.free (base ++ front) name) := by
  obtain ⟨left, hleft⟩ := walkParts_join hdir fun n hn => (h.names n hn).1
  rw [hleft, h.parts_below, h.walk]
  rfl

/-- The path that is joined ends in the name. -/
theorem parts_join : ∃ parts, (p.join (HostPath.below (front ++ [name]))).parts =
    parts ++ [name] := by
  have hne : p.text ≠ "" := (checkPath_eq_ok.mp (checkPath_of_stat hdir)).2.1
  obtain ⟨parts, -, -, -, hjoin⟩ := HostPath.parts_join hne fun n hn => (h.names n hn).1
  exact ⟨parts ++ front, by rw [hjoin, h.parts_below, List.append_assoc]⟩

include hcheck

theorem stat : t.stat (p.join (HostPath.below (front ++ [name]))) = .error (.os .noEntry) := by
  simp only [FileTree.stat, find, hcheck, h.walkParts hdir, bind, Except.bind]

theorem makeDir (bits : Nat) :
    t.makeDir bits (p.join (HostPath.below (front ++ [name]))) =
      .ok (.makeDir (base ++ front ++ [name]) (t.masked bits ||| t.groupBit (base ++ front))) := by
  obtain ⟨parts, hparts⟩ := h.parts_join hdir
  have hname : name ≠ "" := fun hempty =>
    (h.names name (List.mem_append_right front List.mem_cons_self)).1.notIdle (Or.inl hempty)
  have hunslashed : unslashed (parts ++ [name]) = parts ++ [name] := by
    rw [unslashed, List.reverse_append]
    simp [hname]
  have hwalk := h.walkParts hdir false
  rw [hparts] at hwalk
  simp only [FileTree.makeDir, hcheck, hparts, hunslashed, hwalk, bind, Except.bind]
  rfl

theorem makeDirs (bits : Nat) :
    t.makeDirs bits (p.join (HostPath.below (front ++ [name]))) =
      ([.makeDir (base ++ front ++ [name]) (t.masked bits ||| t.groupBit (base ++ front))],
        .ok ()) := by
  have hne := (checkPath_eq_ok.mp hcheck).2.1
  rw [FileTree.makeDirs, makeDirsUpTo, if_neg hne, h.makeDir hdir hcheck]

theorem openForWriting (bits : Nat) :
    t.openForWriting bits (p.join (HostPath.below (front ++ [name]))) =
      .ok (base ++ front ++ [name], .createFile (base ++ front ++ [name]) (t.masked bits)) := by
  obtain ⟨parts, hparts⟩ := h.parts_join hdir
  have hname : name ≠ "" := fun hempty =>
    (h.names name (List.mem_append_right front List.mem_cons_self)).1.notIdle (Or.inl hempty)
  have hslash : (p.join (HostPath.below (front ++ [name]))).text.toList.getLast? ≠ some '/' := by
    intro hlast
    obtain ⟨q, hq⟩ := HostPath.parts_of_getLast?_slash hlast
    have hsplit : (p.join (HostPath.below (front ++ [name]))).parts = Text.split '/' q ++ [""] := by
      rw [HostPath.parts, hq, show q ++ "/" = q ++ "/" ++ "" from by simp, Text.split_append_slash]
      rfl
    rw [hparts] at hsplit
    exact hname (by simpa using congrArg List.getLast? hsplit)
  simp only [FileTree.openForWriting, hcheck, if_neg hslash, h.walkParts hdir, bind, Except.bind]

end Vacant

/-- A name that is free in the root is opened. -/
theorem openForWriting_in_root {q : HostPath} (hq : HostPath.join ⟨"/"⟩ (HostPath.below [name]) = q)
    (hname : IsName name) (hshort : name.utf8ByteSize ≤ longestName) (hfree : t.at? [name] = none)
    (hcheck : checkPath q = .ok ()) (bits : Nat) :
    t.openForWriting bits q = .ok ([name], .createFile [name] (t.masked bits)) := by
  have hvacant : t.Vacant [] [] name := by
    refine ⟨?_, ?_, hfree⟩
    · intro n hn
      rw [List.mem_singleton.mp hn]
      exact ⟨hname, hshort⟩
    · intro ahead hahead
      rw [List.prefix_nil.mp hahead]
      exact isDir_nil t
  have hroot : t.stat ⟨"/"⟩ = .ok ([], .dir 0o755) :=
    stat_of_idle (checkPath_eq_ok.mpr (by decide)) (by decide) rfl
  subst hq
  exact hvacant.openForWriting hroot hcheck bits

end NodeLogs.FileTree
