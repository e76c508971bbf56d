import NodeLogs.FileTree.Access
import NodeLogs.Proofs.FileTree.Sound

/-!
What looking, opening and making directories find and change. What is found or changed stands where
the path leads; new directories stand on the way there, at places that were free.
-/

namespace NodeLogs.FileTree

open HostPath (significant steps)

variable {t : FileTree} {p : HostPath}

theorem walkParts_spec {followLast : Bool} {parts : List String} {spot : Spot}
    (h : t.walkParts followLast p parts = .ok spot) (hparts : significant parts = p.steps) :
    (t.leadsTo? p = some spot.place ∧ t.at? spot.place = spot.entry?) ∨
      (followLast = false ∧ ∃ l target, spot = .taken l (.symlink target)) := by
  refine (walk_spec (walk_of_walkParts h)).imp_left ?_
  rintro ⟨left, hlead, hat⟩
  refine ⟨leadsTo?_eq_some_iff.mpr ⟨left, ?_⟩, hat⟩
  rw [← hparts, lead_significant, hlead]

theorem walkParts_of_stat {loc : Location} {e : Entry} (h : t.stat p = .ok (loc, e)) :
    t.walkParts true p p.parts = .ok (.taken loc e) := by
  simp only [stat, find, bind, Except.bind] at h
  split at h
  · cases h
  · next spot hfind =>
    split at hfind
    · cases hfind
    · cases spot with
      | free dir name => cases h
      | taken l entry =>
        cases h
        exact hfind

theorem stat_spec {loc : Location} {e : Entry} (h : t.stat p = .ok (loc, e)) :
    t.leadsTo? p = some loc ∧ t.at? loc = some e := by
  rcases walkParts_spec (walkParts_of_stat h) rfl with hspec | ⟨hfollow, -⟩
  · exact hspec
  · cases hfollow

/-- A file is opened where the path leads. It was there and may be written, or else the place was
free. -/
theorem openForWriting_spec {mode : Nat} {loc : Location} {c : Change}
    (h : t.openForWriting mode p = .ok (loc, c)) :
    t.leadsTo? p = some loc ∧
      ((c = .truncate loc ∧
          ((∃ m data, t.at? loc = some (.file m data) ∧ t.mayWrite m = true) ∨
            ∃ d, t.at? loc = some (.device d))) ∨
        (c = .createFile loc (t.masked mode) ∧ t.at? loc = none ∧
          (t.Sound → t.IsDir loc.dropLast))) := by
  simp only [openForWriting, bind, Except.bind] at h
  split at h
  · cases h
  · split at h
    · split at h
      · cases h
      · split at h <;> cases h
    · split at h
      · cases h
      · next spot hwalk =>
        rcases walkParts_spec hwalk rfl with ⟨hlead, hat⟩ | ⟨hfollow, -⟩
        · split at h
          · next m data =>
            split at h
            · next hwrite =>
              cases h
              exact ⟨hlead, Or.inl ⟨rfl, Or.inl ⟨m, data, hat, hwrite⟩⟩⟩
            · cases h
          · cases h
            exact ⟨hlead, Or.inl ⟨rfl, Or.inr ⟨_, hat⟩⟩⟩
          · cases h
          · cases h
          · cases h
            refine ⟨hlead, Or.inr ⟨rfl, hat, fun hsound => ?_⟩⟩
            rw [List.dropLast_concat]
            exact hsound.walkParts_free hwalk
        · cases hfollow

theorem write_ok {loc : Location} {data : Bytes} {c : Change} (h : t.write loc data = .ok c) :
    c = .append loc data := by
  unfold write at h
  split at h <;> cases h
  rfl

/-- Nothing is opened by a path that is refused or cannot be walked. -/
theorem openForWriting_error {mode : Nat}
    (h : ∀ spot, checkPath p = .ok () → t.walkParts true p p.parts ≠ .ok spot) :
    ∃ e, t.openForWriting mode p = .error e := by
  cases hcheck : checkPath p with
  | error e => exact ⟨e, by simp only [openForWriting, hcheck, bind, Except.bind]⟩
  | ok _ =>
    simp only [openForWriting, hcheck, bind, Except.bind]
    split
    · cases t.walkParts true p (unslashed p.parts).dropLast with
      | error e => exact ⟨e, rfl⟩
      | ok spot =>
        simp only
        split <;> exact ⟨_, rfl⟩
    · cases hwalk : t.walkParts true p p.parts with
      | error e => exact ⟨e, rfl⟩
      | ok spot => exact absurd hwalk (h spot hcheck)

theorem significant_unslashed (parts : List String) :
    significant (unslashed parts) = significant parts := by
  have hdrop (rs : List String) : significant (rs.dropWhile (· = "")) = significant rs := by
    induction rs with
    | nil => rfl
    | cons r rs ih =>
      by_cases hr : r = ""
      · rw [List.dropWhile_cons_of_pos (by simpa using hr), ih]
        simp [significant, HostPath.Idle, hr]
      · rw [List.dropWhile_cons_of_neg (by simpa using hr)]
  rw [unslashed, HostPath.significant_reverse, hdrop, HostPath.significant_reverse,
    List.reverse_reverse]

theorem walkParts_of_makeDir {mode : Nat} {c : Change} (h : t.makeDir mode p = .ok c) :
    ∃ dir name, t.walkParts false p (unslashed p.parts) = .ok (.free dir name) ∧
      c = .makeDir (dir ++ [name]) (t.masked mode ||| t.groupBit dir) := by
  simp only [makeDir, bind, Except.bind] at h
  split at h
  · cases h
  · split at h
    · cases h
    · next spot hwalk =>
      cases spot with
      | taken l e => cases h
      | free dir name =>
        cases h
        exact ⟨dir, name, hwalk, rfl⟩

theorem makeDir_spec {mode : Nat} {c : Change} (h : t.makeDir mode p = .ok c) :
    ∃ loc, c = .makeDir loc (t.masked mode ||| t.groupBit loc.dropLast) ∧
      t.leadsTo? p = some loc ∧ t.at? loc = none ∧ (t.Sound → t.IsDir loc.dropLast) := by
  obtain ⟨dir, name, hwalk, rfl⟩ := walkParts_of_makeDir h
  rcases walkParts_spec hwalk (significant_unslashed p.parts) with
    ⟨hlead, hat⟩ | ⟨-, l, target, hspot⟩
  · refine ⟨dir ++ [name], ?_, hlead, hat, fun hsound => ?_⟩
    · rw [List.dropLast_concat]
    · rw [List.dropLast_concat]
      exact hsound.walkParts_free hwalk
  · cases hspot

/-- Changes of which each makes a directory at a free place on the way of a path. -/
def MakesOnWay (mode : Nat) (p : HostPath) : FileTree → List Change → Prop
  | _, [] => True
  | t, c :: cs =>
    (∃ loc, c = .makeDir loc (t.masked mode ||| t.groupBit loc.dropLast) ∧ t.Passes p loc ∧
      t.at? loc = none ∧ (t.Sound → t.IsDir loc.dropLast)) ∧ MakesOnWay mode p (t.apply c) cs

namespace MakesOnWay

variable {mode : Nat}

theorem sameLinks {cs : List Change} (h : MakesOnWay mode p t cs) :
    SameLinks t (t.applyAll cs) := by
  induction cs generalizing t with
  | nil => exact .refl t
  | cons c cs ih =>
    obtain ⟨⟨loc, rfl, -, hfree, -⟩, hcs⟩ := h
    exact (SameLinks.apply (by simp [link?, Change.place, hfree])).trans (ih hcs)

theorem append {cs ds : List Change} (h : MakesOnWay mode p t cs)
    (h' : MakesOnWay mode p (t.applyAll cs) ds) : MakesOnWay mode p t (cs ++ ds) := by
  induction cs generalizing t with
  | nil => exact h'
  | cons c cs ih => exact ⟨h.1, ih h.2 h'⟩

theorem of_makeDir {c : Change} (h : t.makeDir mode p = .ok c) : MakesOnWay mode p t [c] := by
  obtain ⟨loc, hc, hlead, hfree⟩ := makeDir_spec h
  exact ⟨⟨loc, hc, passes_of_leadsTo? hlead, hfree⟩, trivial⟩

theorem of_parent? {q : HostPath} (hq : p.parent? = some q) {cs : List Change}
    (h : MakesOnWay mode q t cs) : MakesOnWay mode p t cs := by
  induction cs generalizing t with
  | nil => trivial
  | cons c cs ih =>
    obtain ⟨⟨loc, hc, hpass, hfree⟩, hcs⟩ := h
    exact ⟨⟨loc, hc, passes_of_parent? hq hpass, hfree⟩, ih hcs⟩

end MakesOnWay

theorem makeDirsUpTo_makesOnWay (mode levels : Nat) (t : FileTree) (p : HostPath) :
    MakesOnWay mode p t (makeDirsUpTo mode levels t p).1 := by
  fun_induction makeDirsUpTo mode levels t p with
  | case1 | case6 | case7 | case8 => trivial
  | case2 levels t p hne c hmake => exact .of_makeDir hmake
  | case3 t p hne levels above hparent changes e habove hmissing ih =>
    rw [habove] at ih
    exact ih.of_parent? hparent
  | case4 t p hne levels above hparent changes habove after c hmake hmissing ih =>
    rw [habove] at ih
    exact (ih.of_parent? hparent).append (.of_makeDir hmake)
  | case5 t p hne levels above hparent changes habove after e hmake hmissing ih =>
    rw [habove] at ih
    exact ih.of_parent? hparent

theorem makeDirs_makesOnWay (mode : Nat) (t : FileTree) (p : HostPath) :
    MakesOnWay mode p t (t.makeDirs mode p).1 :=
  makeDirsUpTo_makesOnWay mode p.parts.length t p

theorem makeDirs_noText {mode : Nat} (hempty : p.text = "") : t.makeDirs mode p = ([], .ok ()) := by
  rw [makeDirs, makeDirsUpTo, if_pos hempty]

/-- Where a directory cannot be made, at most ones above it were. -/
theorem makeDirs_failed {mode : Nat} {e : IoError} (h : (t.makeDirs mode p).2 = .error e) :
    (t.makeDirs mode p).1 = [] ∨
      ∃ above, p.parent? = some above ∧ MakesOnWay mode above t (t.makeDirs mode p).1 := by
  unfold makeDirs at h ⊢
  generalize p.parts.length = levels at h ⊢
  revert h
  fun_cases makeDirsUpTo mode levels t p with
  | case1 | case2 | case4 => intro h; cases h
  | case3 t p hne levels above hparent changes e' habove
  | case5 t p hne levels above hparent changes habove =>
    intro _
    have hmade := makeDirsUpTo_makesOnWay mode levels t above
    rw [habove] at hmade
    exact Or.inr ⟨above, hparent, hmade⟩
  | case6 | case7 | case8 => exact fun _ => Or.inl rfl

/-- Directories that were made are the only thing that is new. -/
theorem MakesOnWay.at? {mode : Nat} {cs : List Change} (h : MakesOnWay mode p t cs) (l : Location) :
    (t.applyAll cs).at? l = t.at? l ∨
      (t.at? l = none ∧ t.Passes p l ∧ ∃ m, (t.applyAll cs).at? l = some (.dir m)) := by
  induction cs generalizing t with
  | nil => exact Or.inl rfl
  | cons c cs ih =>
    obtain ⟨⟨loc, rfl, hpass, hfree, -⟩, hcs⟩ := h
    have hsame : SameLinks t (t.apply (.makeDir loc (t.masked mode ||| t.groupBit loc.dropLast))) :=
      .apply (by simp [link?, Change.place, hfree])
    have hroot : loc ≠ [] := by
      rintro rfl
      cases hfree
    rw [applyAll_cons]
    by_cases hl : l = loc
    · subst hl
      have hmade : (t.apply (.makeDir l (t.masked mode ||| t.groupBit l.dropLast))).at? l =
          some (.dir (t.masked mode ||| t.groupBit l.dropLast)) := by
        rw [at?_apply, if_pos ⟨rfl, hroot⟩]
        rfl
      rcases ih hcs with hkept | ⟨hnone, -⟩
      · exact Or.inr ⟨hfree, hpass, _, hkept.trans hmade⟩
      · rw [hmade] at hnone
        cases hnone
    · have hat : (t.apply (.makeDir loc (t.masked mode ||| t.groupBit loc.dropLast))).at? l =
          t.at? l := by
        rw [at?_apply]
        exact if_neg fun h => hl h.1
      rcases ih hcs with hkept | ⟨hnone, hway, hdir⟩
      · exact Or.inl (hkept.trans hat)
      · exact Or.inr ⟨hat ▸ hnone, (hsame.passes_iff p l).mp hway, hdir⟩

/-! What is there along the way -/

theorem Sound.walkParts_passed (sound : t.Sound) {followLast : Bool} {parts : List String}
    {spot : Spot} (h : t.walkParts followLast p parts = .ok spot)
    (hparts : significant parts = p.steps)
    (hfollow : followLast = true ∨ ∃ dir name, spot = .free dir name) {l : Location}
    (hpass : t.Passes p l) : t.at? l ≠ none ∨ l = spot.place := by
  obtain ⟨mode, hstart⟩ := sound.isDir_start p
  obtain ⟨left, ahead, hahead, hlead⟩ := hpass
  exact sound.walk_passed (by simp [hstart]) (walk_of_walkParts h) hfollow (hparts ▸ hahead) hlead

theorem Sound.stat_passed (sound : t.Sound) {loc : Location} {e : Entry}
    (h : t.stat p = .ok (loc, e)) {l : Location} (hpass : t.Passes p l) : t.at? l ≠ none := by
  rcases sound.walkParts_passed (walkParts_of_stat h) rfl (Or.inl rfl) hpass with hat | hend
  · exact hat
  · rw [hend, show (Spot.taken loc e).place = loc from rfl, (stat_spec h).2]
    exact Option.some_ne_none e

theorem Sound.makeDir_passed (sound : t.Sound) {mode : Nat} {c : Change}
    (h : t.makeDir mode p = .ok c) {l : Location} (hpass : t.Passes p l) :
    (t.apply c).at? l ≠ none := by
  obtain ⟨dir, name, hwalk, rfl⟩ := walkParts_of_makeDir h
  rw [at?_apply]
  split
  · simp [Change.on]
  · next hl =>
    rcases sound.walkParts_passed hwalk (significant_unslashed p.parts) (Or.inr ⟨dir, name, rfl⟩)
      hpass with hat | rfl
    · exact hat
    · exact absurd ⟨rfl, by simp [Spot.place]⟩ hl

theorem stat_of_isDir (h : t.isDir p = true) : ∃ loc mode, t.stat p = .ok (loc, .dir mode) := by
  unfold isDir at h
  split at h
  · next loc mode hstat => exact ⟨loc, mode, hstat⟩
  · cases h

theorem MakesOnWay.sound {mode : Nat} {cs : List Change} (h : MakesOnWay mode p t cs)
    (sound : t.Sound) : (t.applyAll cs).Sound := by
  induction cs generalizing t with
  | nil => exact sound
  | cons c cs ih =>
    obtain ⟨⟨loc, rfl, -, hfree, hdir⟩, hcs⟩ := h
    exact ih hcs (sound.apply (hdir sound) (not_isDir_of_free hfree))

theorem isDir_of_ok {e : IoError}
    (h : (if t.isDir p then .ok () else .error e : Except IoError Unit) = .ok ()) :
    t.isDir p = true := by
  split at h
  · assumption
  · cases h

theorem Sound.passed_of_isDir (sound : t.Sound) {e : IoError}
    (h : (if t.isDir p then .ok () else .error e : Except IoError Unit) = .ok ())
    {l : Location} (hpass : t.Passes p l) : t.at? l ≠ none := by
  obtain ⟨loc, mode, hstat⟩ := stat_of_isDir (isDir_of_ok h)
  exact sound.stat_passed hstat hpass

theorem passes_of_empty (h : p.text = "") {l : Location} (hpass : t.Passes p l) :
    l = t.start p := by
  obtain ⟨left, ahead, hahead, hlead⟩ := hpass
  have hsteps : p.steps = [] := by
    rw [HostPath.steps, HostPath.parts, h]
    exact HostPath.steps_empty
  rw [hsteps, List.prefix_nil] at hahead
  rw [hahead, lead_of_all_idle _ _ (List.forall_mem_nil _)] at hlead
  cases hlead
  rfl

theorem makeDirsUpTo_passed (sound : t.Sound) {mode levels : Nat}
    (h : (makeDirsUpTo mode levels t p).2 = .ok ()) {l : Location} (hpass : t.Passes p l) :
    (t.applyAll (makeDirsUpTo mode levels t p).1).at? l ≠ none := by
  have hmakes := makeDirsUpTo_makesOnWay mode levels t p
  revert h hmakes
  fun_cases makeDirsUpTo mode levels t p with
  | case1 levels t p hempty =>
    intro _ _
    obtain ⟨m, hstart⟩ := sound.isDir_start p
    rw [passes_of_empty hempty hpass, applyAll_nil, hstart]
    exact Option.some_ne_none _
  | case2 levels t p hne c hmake =>
    intro _ _
    exact sound.makeDir_passed hmake hpass
  | case4 t p hne levels above hparent changes habove after c hmake hmissing =>
    intro _ _
    have hbefore := makeDirsUpTo_makesOnWay mode levels t above
    rw [habove] at hbefore
    rw [applyAll_append]
    exact (hbefore.sound sound).makeDir_passed hmake ((hbefore.sameLinks.passes_iff p l).mpr hpass)
  | case5 =>
    intro h hmakes
    exact (hmakes.sound sound).passed_of_isDir h ((hmakes.sameLinks.passes_iff p l).mpr hpass)
  | case7 | case8 =>
    intro h _
    exact sound.passed_of_isDir h hpass
  | case3 | case6 => intro h; cases h

/-- Once directories were made for a path, there is something all along its way. -/
theorem makeDirs_passed (sound : t.Sound) {mode : Nat} (h : (t.makeDirs mode p).2 = .ok ())
    {l : Location} (hpass : t.Passes p l) : (t.applyAll (t.makeDirs mode p).1).at? l ≠ none :=
  makeDirsUpTo_passed sound h hpass

end NodeLogs.FileTree
