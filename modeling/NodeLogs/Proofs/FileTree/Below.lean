import NodeLogs.Proofs.FileTree.Making

/-!
What is made, opened and written right below a directory. What comes of it depends on what stands at
that one place alone, and nothing else changes.
-/

namespace NodeLogs.FileTree

open HostPath (Idle IsName Trimmed)

variable {t t' : FileTree} {who : Caller} {p q : HostPath} {mode m : Nat} {base : Location}
  {name : String}

/-- One path is another with one more name. -/
structure Names (p q : HostPath) (name : String) : Prop extends Beyond p q where
  named : p.steps = q.steps ++ [name]
  isName : IsName name

theorem Names.way (hnames : Names p q name) (h : t.Linkless)
    (hway : t.way q = .ok (.taken base (.dir m))) :
    t.way p =
      if longestName < name.utf8ByteSize then .error .nameTooLong
      else
        match t.at? (base ++ [name]) with
        | none => .ok (.free base name)
        | some e => .ok (.taken (base ++ [name]) e) := by
  have hrooted := (HostPath.parent?_spec hnames.parent).1.symm
  rw [h.way_from hrooted hnames.named hway,
    h.walk_name _ _ _ hnames.isName.notIdle hnames.isName.notUp]
  split
  · rfl
  · cases hat : t.at? (base ++ [name]) with
    | none => rfl
    | some e =>
      cases e with
      | dir m' => exact walk_dir hat
      | _ => rfl

/-! Making -/

/-- What comes of making a directory where this stands at its place, in a directory of this mode. -/
def making (who : Caller) (mode m : Nat) (p : HostPath) (base : Location) (name : String)
    (e : Option Entry) : List Change × Except IoError Unit :=
  match checkPath p with
  | .error e => ([], .error e)
  | .ok _ =>
    if longestName < name.utf8ByteSize then ([], .error (.os .nameTooLong))
    else
      match e with
      | none => ([.makeDir (base ++ [name]) (who.masked mode ||| m &&& 0o2000)], .ok ())
      | some (.dir _) => ([], .ok ())
      | some _ => ([], .error (.os .exists_))

theorem Names.makeDirs (hnames : Names p q name) (h : t.Linkless)
    (hway : t.way q = .ok (.taken base (.dir m))) :
    t.makeDirs mode p = making t.toCaller mode m p base name (t.at? (base ++ [name])) := by
  unfold making
  cases hcheck : checkPath p with
  | error e => exact makeDirs_refused hnames.text hcheck
  | ok _ =>
    have hend := hnames.way h hway
    have hbit : t.groupBit base = m &&& 0o2000 := by simp [groupBit, at?_of_way hway]
    simp only
    split at hend
    · next hlong =>
      rw [if_pos hlong, h.makeDirs_blocked hnames.trimmed hnames.text hcheck hend nofun]
    · next hlong =>
      rw [if_neg hlong]
      cases hat : t.at? (base ++ [name]) with
      | none =>
        rw [hat] at hend
        rw [h.makeDirs_free hnames.trimmed hnames.text hcheck hend, hbit]
      | some e =>
        rw [hat] at hend
        have hdir := h.isDir_eq_true hnames.trimmed
        rw [hend] at hdir
        rw [h.makeDirs_taken hnames.trimmed hnames.text hcheck hend]
        cases e with
        | dir m' => rw [if_pos (hdir.mpr ⟨hcheck, _, _, rfl⟩)]
        | _ => rw [if_neg fun hthere => by simpa using (hdir.mp hthere).2]

/-- Either the path is refused, whatever stands at its end, or what stands there decides. -/
theorem making_spec (who : Caller) (mode m : Nat) (p : HostPath) (base : Location)
    (name : String) :
    (∃ e, ∀ old, making who mode m p base name old = ([], .error e)) ∨
      (¬ longestName < name.utf8ByteSize ∧ ∀ old, making who mode m p base name old =
        match old with
        | none => ([.makeDir (base ++ [name]) (who.masked mode ||| m &&& 0o2000)], .ok ())
        | some (.dir _) => ([], .ok ())
        | some _ => ([], .error (.os .exists_))) := by
  unfold making
  cases checkPath p with
  | error e => exact Or.inl ⟨e, fun _ => rfl⟩
  | ok _ =>
    by_cases hlong : longestName < name.utf8ByteSize
    · exact Or.inl ⟨_, fun _ => if_pos hlong⟩
    · exact Or.inr ⟨hlong, fun _ => if_neg hlong⟩

theorem applyAll_one (t : FileTree) (c : Change) : t.applyAll [c] = t.apply c := rfl

/-- Making a directory right below another, by one caller in two trees that show the same there, or
one of which shows what making it in the other has left. -/
theorem Names.makeDirs_again (hnames : Names p q name) (h : t.Linkless) (h' : t'.Linkless)
    (hcaller : t'.toCaller = t.toCaller)
    (hway : t.way q = .ok (.taken base (.dir m))) (hway' : t'.way q = .ok (.taken base (.dir m)))
    (hsame : t'.at? (base ++ [name]) = t.at? (base ++ [name]) ∨
      t'.at? (base ++ [name]) = (t.applyAll (t.makeDirs mode p).1).at? (base ++ [name])) :
    (t'.makeDirs mode p).2 = (t.makeDirs mode p).2 ∧
      (t'.applyAll (t'.makeDirs mode p).1).at? (base ++ [name]) =
        (t.applyAll (t.makeDirs mode p).1).at? (base ++ [name]) ∧
      ∀ l ≠ base ++ [name], (t'.applyAll (t'.makeDirs mode p).1).at? l = t'.at? l := by
  have shown (t : FileTree) (bits : Nat) (l : Location) :
      (t.applyAll [.makeDir (base ++ [name]) bits]).at? l =
        if l = base ++ [name] then some (.dir bits) else t.at? l := by
    rw [applyAll_one, at?_apply]
    by_cases hl : l = base ++ [name]
    · subst hl
      simp [Change.place, Change.on]
    · simp [Change.place, hl]
  rw [hnames.makeDirs h hway] at hsame ⊢
  rw [hnames.makeDirs h' hway', hcaller]
  rcases making_spec t.toCaller mode m p base name with ⟨e, hrefused⟩ | ⟨-, hmaking⟩
  · rw [hrefused, applyAll_nil] at hsame
    rw [hrefused, hrefused, applyAll_nil, applyAll_nil]
    exact ⟨rfl, hsame.elim id id, fun _ _ => rfl⟩
  · rw [hmaking] at hsame ⊢
    rw [hmaking (t.at? (base ++ [name]))]
    cases hat : t.at? (base ++ [name]) with
    | none =>
      rw [hat] at hsame
      simp only [shown, if_true] at hsame
      rcases hsame with hnone | hthere
      · rw [hnone]
        simp +contextual [shown]
      · rw [hthere]
        simp [shown, applyAll_nil, hthere]
    | some e =>
      rw [hat] at hsame
      have hthere : t'.at? (base ++ [name]) = some e := by
        cases e <;> simpa [applyAll_nil, hat] using hsame
      rw [hthere]
      cases e <;> simp [applyAll_nil, hat, hthere]

/-- A directory that was made stands there. -/
theorem Names.isDir_of_makeDirs (hnames : Names p q name) (h : t.Linkless)
    (hway : t.way q = .ok (.taken base (.dir m))) (hmade : (t.makeDirs mode p).2 = .ok ()) :
    ¬ longestName < name.utf8ByteSize ∧
      (t.applyAll (t.makeDirs mode p).1).IsDir (base ++ [name]) := by
  rw [hnames.makeDirs h hway] at hmade ⊢
  rcases making_spec t.toCaller mode m p base name with ⟨e, hrefused⟩ | ⟨hshort, hmaking⟩
  · rw [hrefused] at hmade
    cases hmade
  · refine ⟨hshort, ?_⟩
    rw [hmaking] at hmade ⊢
    cases hat : t.at? (base ++ [name]) with
    | none =>
      refine ⟨t.masked mode ||| m &&& 0o2000, ?_⟩
      rw [applyAll_one, at?_apply, if_pos ⟨rfl, by simp⟩]
      rfl
    | some e =>
      rw [hat] at hmade
      cases e with
      | dir m' => exact ⟨m', hat⟩
      | _ => cases hmade

/-! Opening and writing -/

/-- What comes of opening a file where this stands at its place. -/
def opening (who : Caller) (mode : Nat) (p : HostPath) (loc : Location) (e : Option Entry) :
    Except IoError (Location × Change) :=
  match checkPath p with
  | .error e => .error e
  | .ok _ =>
    match e with
    | none => .ok (loc, .createFile loc (who.masked mode))
    | some (.file m _) =>
      if who.mayWrite m then .ok (loc, .truncate loc) else .error (.os .accessDenied)
    | some (.device _) => .ok (loc, .truncate loc)
    | some (.dir _) => .error (.os .isDirectory)
    | some (.symlink _) => .error (.os .tooManyLinks)

theorem Names.openForWriting (hnames : Names p q name) (hshort : name.utf8ByteSize ≤ longestName)
    (h : t.Linkless) (hway : t.way q = .ok (.taken base (.dir m))) :
    t.openForWriting mode p =
      opening t.toCaller mode p (base ++ [name]) (t.at? (base ++ [name])) := by
  have hslash : p.text.toList.getLast? ≠ some '/' := by
    intro hlast
    obtain ⟨text, htext⟩ := HostPath.parts_of_getLast?_slash hlast
    have hparts : p.parts = Text.split '/' text ++ [""] := by
      rw [HostPath.parts, htext, show text ++ "/" = text ++ "/" ++ "" from by simp,
        Text.split_append_slash]
      rfl
    rcases hnames.trimmed with hnone | ⟨front, last, hfront, hidle⟩
    · rw [hnames.named] at hnone
      simp at hnone
    · rw [hfront] at hparts
      exact hidle (Or.inl (by simpa using (List.append_inj' hparts rfl).2))
  have hend := hnames.way h hway
  rw [if_neg (Nat.not_lt.mpr hshort)] at hend
  simp only [FileTree.openForWriting, opening, if_neg hslash,
    (h.walkParts_trimmed hnames.trimmed true).1, hend, bind, Except.bind]
  cases checkPath p with
  | error e => rfl
  | ok _ =>
    cases t.at? (base ++ [name]) with
    | none => rfl
    | some e => cases e <;> rfl

/-- What stands at a place where a file was opened and this was written to it. -/
def filled (who : Caller) (mode : Nat) (data : Bytes) : Option Entry → Option Entry
  | none => some (.file (who.masked mode) data)
  | some (.file m _) => some (.file m data)
  | e => e

/-- What was opened is new, a file that may be written, or a device. -/
theorem opened_cases {loc : Location} {e : Option Entry} {x : Location × Change}
    (hopen : opening who mode p loc e = .ok x) :
    (e = none ∧ x = (loc, .createFile loc (who.masked mode))) ∨
      (((∃ m data, e = some (.file m data) ∧ who.mayWrite m = true) ∨ ∃ d, e = some (.device d)) ∧
        x = (loc, .truncate loc)) := by
  unfold opening at hopen
  split at hopen
  · cases hopen
  · split at hopen
    · cases hopen
      exact Or.inl ⟨rfl, rfl⟩
    · next m data =>
      split at hopen
      · next hwrite =>
        cases hopen
        exact Or.inr ⟨Or.inl ⟨m, data, rfl, hwrite⟩, rfl⟩
      · cases hopen
    · cases hopen
      exact Or.inr ⟨Or.inr ⟨_, rfl⟩, rfl⟩
    · cases hopen
    · cases hopen

/-- What was opened and written to is a file that holds what was written, or a device. -/
theorem filled_of_opening {loc : Location} {e : Option Entry} {x : Location × Change}
    (hopen : opening who mode p loc e = .ok x) (data : Bytes) :
    (∃ m, filled who mode data e = some (.file m data)) ∨
      ∃ d, e = some (.device d) ∧ filled who mode data e = some (.device d) := by
  rcases opened_cases hopen with ⟨rfl, -⟩ | ⟨⟨m, old, rfl, -⟩ | ⟨d, rfl⟩, -⟩
  · exact Or.inl ⟨_, rfl⟩
  · exact Or.inl ⟨_, rfl⟩
  · exact Or.inr ⟨_, rfl, rfl⟩

theorem at?_opened {loc : Location} {c : Change}
    (hopen : opening who mode p loc (t.at? loc) = .ok (loc, c)) (hroot : loc ≠ []) (l : Location) :
    (t.apply c).at? l = if l = loc then filled who mode [] (t.at? loc) else t.at? l := by
  have hplace : c.place = loc := by
    rcases opened_cases hopen with ⟨-, hc⟩ | ⟨-, hc⟩ <;> cases hc <;> rfl
  rw [at?_apply, hplace]
  by_cases hl : l = loc
  · subst hl
    rw [if_pos ⟨rfl, hroot⟩, if_pos rfl]
    rcases opened_cases hopen with ⟨hat, hc⟩ | ⟨⟨m, old, hat, -⟩ | ⟨d, hat⟩, hc⟩ <;> cases hc <;>
      simp [Change.on, Change.onFile, filled, hat]
  · rw [if_neg fun h => hl h.1, if_neg hl]

theorem opening_loc {loc : Location} {e : Option Entry} {x : Location × Change}
    (hopen : opening who mode p loc e = .ok x) : x.1 = loc := by
  rcases opened_cases hopen with ⟨-, rfl⟩ | ⟨-, rfl⟩ <;> rfl

/-- Writing into an open file, or failing to. -/
theorem at?_filled {loc : Location} {e : Option Entry} {data : Bytes} {x : Location × Change}
    (hopen : opening who mode p loc e = .ok x) (hroot : loc ≠ [])
    (hat : t.at? loc = filled who mode [] e) :
    (e = some (.device .full) ∧ data ≠ [] ∧ t.write loc data = .error (.os .noSpace) ∧
        t.at? loc = filled who mode data e) ∨
      (¬ (e = some (.device .full) ∧ data ≠ []) ∧ ∃ c, t.write loc data = .ok c ∧
        ∀ l, (t.apply c).at? l = if l = loc then filled who mode data e else t.at? l) := by
  have hfull : t.at? loc = some (.device .full) ↔ e = some (.device .full) := by
    rw [hat]
    rcases e with _ | e
    · simp [filled]
    · cases e <;> simp [filled]
  by_cases hwrite : e = some (.device .full) ∧ data ≠ []
  · left
    refine ⟨hwrite.1, hwrite.2, ?_, ?_⟩
    · rw [write, if_pos ⟨hfull.mpr hwrite.1, hwrite.2⟩]
    · rw [hat, hwrite.1]
      rfl
  · right
    refine ⟨hwrite, .append loc data, ?_, fun l => ?_⟩
    · rw [write, if_neg fun h => hwrite ⟨hfull.mp h.1, h.2⟩]
    · rw [at?_apply]
      by_cases hl : l = loc
      · subst hl
        rw [if_pos ⟨rfl, hroot⟩, if_pos rfl, hat]
        rcases opened_cases hopen with ⟨rfl, -⟩ | ⟨⟨m, old, rfl, -⟩ | ⟨d, rfl⟩, -⟩ <;>
          simp [Change.on, Change.onFile, filled]
      · rw [if_neg fun h => hl h.1, if_neg hl]

end NodeLogs.FileTree
