import NodeLogs.Proofs.Unpack.Member

/-!
Trees before and after members were unpacked, compared place by place: files that were written, what
was there before, and directories that were made. Such comparisons follow one another, and each
member that succeeds gives one.
-/

namespace NodeLogs

namespace FileTree

/-- How a tree has come out of another one. Files stand where no directory was; all else that was
there is as it was; and what is new is a directory on one of the ways, with the mode that the
caller's mask leaves of 0755, and the bit of its group taken over from the directory that it was
made in. -/
structure Settled (t after : FileTree) (files : Location → Option Entry)
    (ways : Location → Prop) : Prop where
  caller : after.toCaller = t.toCaller
  file : ∀ loc e, files loc = some e → after.at? loc = some e
  free : ∀ loc e, files loc = some e → ¬ t.IsDir loc
  old : ∀ loc e, files loc = none → t.at? loc = some e → after.at? loc = some e
  new : ∀ loc e, files loc = none → t.at? loc = none → after.at? loc = some e →
    ways loc ∧ ∃ above, after.at? loc.dropLast = some (.dir above) ∧
      e = .dir (t.masked 0o755 ||| (above &&& 0o2000))

namespace Settled

variable {t t₁ t₂ : FileTree} {f g : Location → Option Entry} {v w : Location → Prop}

theorem refl (t : FileTree) (ways : Location → Prop) : Settled t t (fun _ => none) ways where
  caller := rfl
  file _ _ h := by cases h
  free _ _ h := by cases h
  old _ _ _ h := h
  new loc e _ hnone hsome := by rw [hnone] at hsome; cases hsome

theorem trans (h : Settled t t₁ f v) (h' : Settled t₁ t₂ g w) :
    Settled t t₂ (fun loc => (g loc).or (f loc)) (fun loc => v loc ∨ w loc) where
  caller := h'.caller.trans h.caller
  file loc e he := by
    cases hg : g loc with
    | some e' => exact h'.file loc e (by simpa [hg] using he)
    | none => exact h'.old loc e hg (h.file loc e (by simpa [hg] using he))
  free loc e he hdir := by
    cases hf : f loc with
    | some e' => exact h.free loc e' hf hdir
    | none =>
      obtain ⟨mode, hmode⟩ := hdir
      exact h'.free loc e (by simpa [hf] using he) ⟨mode, h.old loc _ hf hmode⟩
  old loc e he hat := by
    obtain ⟨hg, hf⟩ := Option.or_eq_none_iff.mp he
    exact h'.old loc e hg (h.old loc e hf hat)
  new loc e he hnone hat := by
    obtain ⟨hg, hf⟩ := Option.or_eq_none_iff.mp he
    cases h₁ : t₁.at? loc with
    | none =>
      obtain ⟨hway, hdir⟩ := h'.new loc e hg h₁ hat
      rw [h.caller] at hdir
      exact ⟨Or.inr hway, hdir⟩
    | some e₁ =>
      -- Made by the first step; the directory that it was made in has stayed as it was.
      obtain ⟨hway, above, habove, rfl⟩ := h.new loc e₁ hf hnone h₁
      have hsame : e = .dir (t.masked 0o755 ||| (above &&& 0o2000)) := by
        rw [h'.old loc _ hg h₁] at hat
        exact (Option.some.inj hat).symm
      have hno : g loc.dropLast = none := by
        cases hparent : g loc.dropLast with
        | none => rfl
        | some e' => exact absurd ⟨above, habove⟩ (h'.free _ e' hparent)
      exact ⟨Or.inl hway, above, h'.old _ _ hno habove, hsame⟩

theorem mono (h : Settled t t₁ f v) (hways : ∀ loc, v loc → w loc) : Settled t t₁ f w where
  caller := h.caller
  file := h.file
  free := h.free
  old := h.old
  new loc e hf hnone hat := (h.new loc e hf hnone hat).imp_left (hways loc)

theorem present (h : Settled t t₁ f v) {loc : Location} (hat : t.at? loc ≠ none) :
    t₁.at? loc ≠ none := by
  obtain ⟨e, he⟩ := Option.ne_none_iff_exists'.mp hat
  cases hf : f loc with
  | none => simp [h.old loc e hf he]
  | some e' => simp [h.file loc e' hf]

end Settled

theorem dropLast_ne_of_ne_nil {loc : Location} (h : loc ≠ []) : loc.dropLast ≠ loc := by
  intro heq
  obtain ⟨dir, name, rfl⟩ := (List.eq_nil_or_concat loc).resolve_left h
  rw [List.concat_eq_append, List.dropLast_concat] at heq
  simpa using congrArg List.length heq

/-- A tree that is as another one but for one file. -/
theorem settled_withFile {t : FileTree} (plain : t.Plain) {after : FileTree} {loc : Location}
    {mode : Nat} {data : Bytes} (hcaller : after.toCaller = t.toCaller)
    (hdir : t.IsDir loc.dropLast) (hplace : ¬ t.IsDir loc)
    (hat : ∀ l, after.at? l = if l = loc then some (.file mode data) else t.at? l) :
    after.Plain ∧ Settled t after
      (fun l => if l = loc then some (.file mode data) else none) (fun _ => False) := by
  have keeps {l : Location} (hl : t.IsDir l) : after.IsDir l := by
    obtain ⟨m, hm⟩ := hl
    refine ⟨m, ?_⟩
    rw [hat, if_neg, hm]
    rintro rfl
    exact hplace ⟨m, hm⟩
  refine ⟨⟨⟨?_, hcaller ▸ keeps plain.workingDir⟩, ?_⟩, hcaller, ?_, ?_, ?_, ?_⟩
  · intro l name hne
    rw [hat] at hne
    split at hne
    · next hl =>
      rw [← hl, List.dropLast_concat] at hdir
      exact keeps hdir
    · exact keeps (plain.above l name hne)
  · intro l e he
    rw [hat] at he
    split at he
    · cases he
      exact Or.inl ⟨mode, data, rfl⟩
    · exact plain.kinds l e he
  · intro l e he
    rw [hat]
    split at he
    · next hl => rw [if_pos hl, he]
    · cases he
  · intro l e he
    split at he
    · next hl => rwa [hl]
    · cases he
  · intro l e he hold
    split at he
    · cases he
    · next hl => rw [hat, if_neg hl, hold]
  · intro l e he hnone hsome
    split at he
    · cases he
    · next hl =>
      rw [hat, if_neg hl, hnone] at hsome
      cases hsome

/-- What opening a file, writing to it and setting its mode make of a tree. -/
theorem at?_written {t : FileTree} {loc : Location} {opened : Change} {bits mode : Nat}
    (bytes : Bytes) (hroot : loc ≠ [])
    (hopened : (opened = .truncate loc ∧ ∃ m data, t.at? loc = some (.file m data)) ∨
      opened = .createFile loc bits) (l : Location) :
    (t.applyAll [opened, .append loc bytes, .setMode loc mode]).at? l =
      if l = loc then some (.file mode bytes) else t.at? l := by
  have hplace : opened.place = loc := by rcases hopened with ⟨rfl, -⟩ | rfl <;> rfl
  simp only [applyAll_cons, applyAll_nil, at?_apply, hplace]
  by_cases hl : l = loc
  · subst hl
    rcases hopened with ⟨rfl, m, data, hat⟩ | rfl
    · simp [hroot, hat, Change.place, Change.on, Change.onFile]
    · simp [hroot, Change.place, Change.on, Change.onFile]
  · simp [hl, Change.place]

/-- One directory made at a free place in a plain tree. -/
theorem settled_makeDir {t : FileTree} {loc : Location} {ways : Location → Prop}
    (hway : ways loc) (hfree : t.at? loc = none) (hdir : t.IsDir loc.dropLast) :
    Settled t (t.apply (.makeDir loc (t.masked 0o755 ||| t.groupBit loc.dropLast)))
      (fun _ => none) ways := by
  obtain ⟨above, habove⟩ := hdir
  have hbit : t.groupBit loc.dropLast = above &&& 0o2000 := by
    simp only [groupBit, habove]
  have hroot : loc ≠ [] := by
    rintro rfl
    cases hfree
  refine ⟨caller_apply t _, nofun, nofun, ?_, ?_⟩
  · intro l e _ hat
    rw [at?_apply, if_neg, hat]
    rintro ⟨hl, -⟩
    have hloc : l = loc := hl
    rw [hloc, hfree] at hat
    cases hat
  · intro l e _ hnone hat
    rw [at?_apply] at hat
    split at hat
    · next hl =>
      have hloc : l = loc := hl.1
      subst hloc
      refine ⟨hway, above, ?_, ?_⟩
      · rw [at?_apply, if_neg fun heq => dropLast_ne_of_ne_nil hroot heq.1]
        exact habove
      · rw [← hbit]
        exact (Option.some.inj hat).symm
    · rw [hnone] at hat
      cases hat

/-- Making directories on a way leaves a plain tree plain, and nothing else is new in it. -/
theorem MakesOnWay.settled {t : FileTree} {p : HostPath} {cs : List Change}
    (h : MakesOnWay 0o755 p t cs) (plain : t.Plain) :
    (t.applyAll cs).Plain ∧ Settled t (t.applyAll cs) (fun _ => none) (t.Passes p) := by
  induction cs generalizing t with
  | nil => exact ⟨plain, .refl t _⟩
  | cons c cs ih =>
    obtain ⟨⟨loc, rfl, hpass, hfree, hparent⟩, hcs⟩ := h
    have hdir : t.IsDir loc.dropLast := hparent plain.toSound
    have hplain := plain.apply (c := .makeDir loc (t.masked 0o755 ||| t.groupBit loc.dropLast)) hdir
      (not_isDir_of_free hfree)
    have hsame := SameLinks.apply (c := .makeDir loc (t.masked 0o755 ||| t.groupBit loc.dropLast))
      (plain.link? loc)
    obtain ⟨hrest, hsettled⟩ := ih hcs hplain
    refine ⟨hrest, ?_⟩
    have hboth := (settled_makeDir hpass hfree hdir).trans
      (hsettled.mono fun l hl => (hsame.passes_iff p l).mp hl)
    exact hboth.mono fun l hl => hl.elim id id

end FileTree

end NodeLogs
