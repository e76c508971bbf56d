import NodeLogs.Proofs.Collection.Scene

/-!
Captures side by side, midway. Whatever turns they have taken, each finds its place as if it was
alone, and leaves it so.
-/

namespace NodeLogs.Collection.Scene

open Capture (Attempt)
open Event (within)
open FileTree (Change KeepsDirs Linkless filled)

variable {s : Scene} {x y : Place × Capture} {σ : Type} {r : Runner σ}
  {es : List (Event (Host σ))} {e : Event (Host σ)} {t t' : FileTree}

/-- The files after some turns of the captures. -/
structure Midway (s : Scene) (es : List (Event (Host σ))) (t : FileTree) : Prop where
  caller : t.toCaller = s.ground.toCaller
  file : ∀ x ∈ s.captures, t.at? (s.site x.2) = s.stage x.2 (within x.1 es).length
  folder : ∀ x ∈ s.captures, t.at? (s.site x.2).dropLast = s.ground.at? (s.site x.2).dropLast ∨
    t.at? (s.site x.2).dropLast = (s.prepared x.2).at? (s.site x.2).dropLast
  begun : ∀ x ∈ s.captures, within x.1 es ≠ [] →
    t.at? (s.site x.2).dropLast = (s.prepared x.2).at? (s.site x.2).dropLast
  elsewhere : ∀ l, (∀ x ∈ s.captures, l ≠ s.site x.2 ∧ l ≠ (s.site x.2).dropLast) →
    t.at? l = s.ground.at? l
  finds : ∀ x ∈ s.captures, ∀ i e, (within x.1 es)[i]? = some e → s.Finds x.2 i e.before.tree

theorem within_other (hx : x ∈ s.captures) (hy : y ∈ s.captures) (hne : y ≠ x)
    (hplace : e.place = x.1) : within y.1 (es ++ [e]) = within y.1 es :=
  within_beside (fun hbelow => hne (eq_of_place hy hx hbelow)) hplace

/-- Before any turn. -/
theorem midway_nil (s : Scene) : s.Midway ([] : List (Event (Host σ))) s.ground where
  caller := rfl
  file _ _ := rfl
  folder _ _ := Or.inl rfl
  begun _ _ hne := absurd rfl hne
  elsewhere _ _ := rfl
  finds _ _ _ _ h := by cases h

namespace Midway

variable (h : s.Midway es t)

include h

theorem keepsDirs : KeepsDirs s.ground t where
  dirs loc m hat := by
    rcases s.place_cases loc with ⟨x, hx, rfl⟩ | ⟨x, hx, rfl⟩ | helse
    · rw [h.file x hx, stage_of_dir hat]
    · rcases h.folder x hx with hsame | hsame
      · rw [hsame, hat]
      · rw [hsame]
        exact (prepared_keepsDirs x.2).dirs _ _ hat
    · rw [h.elsewhere loc helse, hat]
  caller := h.caller

theorem linkless : t.Linkless := by
  intro loc
  rcases s.place_cases loc with ⟨x, hx, rfl⟩ | ⟨x, hx, rfl⟩ | helse
  · rw [FileTree.link?, h.file x hx]
    split
    · next target hat => exact absurd hat (s.stage_ne_symlink x.2 _ target)
    · rfl
  · rcases h.folder x hx with hsame | hsame
    · rw [FileTree.link?, hsame]
      exact s.linkless _
    · rw [FileTree.link?, hsame]
      exact prepared_linkless x.2 _
  · rw [FileTree.link?, h.elsewhere loc helse]
    exact s.linkless loc

theorem way_top : t.way (top s.dir) = .ok (.taken s.base (.dir s.mode)) :=
  s.linkless.way_kept h.keepsDirs s.way_top

/-- A turn of a capture that leaves its places as they should be, and no others changed. -/
theorem turn (hx : x ∈ s.captures) (hplace : e.place = x.1) (hcaller : t'.toCaller = t.toCaller)
    (hfile : t'.at? (s.site x.2) = s.stage x.2 ((within x.1 es).length + 1))
    (hfolder : t'.at? (s.site x.2).dropLast = (s.prepared x.2).at? (s.site x.2).dropLast)
    (hothers : ∀ l, l ≠ s.site x.2 → l ≠ (s.site x.2).dropLast → t'.at? l = t.at? l)
    (hfinds : s.Finds x.2 (within x.1 es).length e.before.tree) : s.Midway (es ++ [e]) t' := by
  have shared {y : Place × Capture} (hy : y ∈ s.captures)
      (hsame : (s.site y.2).dropLast = (s.site x.2).dropLast) :
      t'.at? (s.site y.2).dropLast = (s.prepared y.2).at? (s.site y.2).dropLast := by
    have hprepared : s.prepared y.2 = s.prepared x.2 := by
      rw [prepared, prepared, made, made, folder_congr hy hx hsame]
    rw [hprepared, hsame, hfolder]
  have apart {y : Place × Capture} (hy : y ∈ s.captures)
      (hne : (s.site y.2).dropLast ≠ (s.site x.2).dropLast) :
      t'.at? (s.site y.2).dropLast = t.at? (s.site y.2).dropLast :=
    hothers _ (fun heq => site_apart hx hy heq.symm) hne
  constructor
  case caller => rw [hcaller, h.caller]
  case file =>
    intro y hy
    by_cases hne : y = x
    · rw [hne, within_self hplace, List.length_append, List.length_singleton, hfile]
    · rw [within_other hx hy hne hplace, ← h.file y hy]
      exact hothers _ (fun heq => hne (site_inj hy hx heq)) (site_apart hy hx)
  case folder =>
    intro y hy
    by_cases hsame : (s.site y.2).dropLast = (s.site x.2).dropLast
    · exact Or.inr (shared hy hsame)
    · rw [apart hy hsame]
      exact h.folder y hy
  case begun =>
    intro y hy hbegun
    by_cases hsame : (s.site y.2).dropLast = (s.site x.2).dropLast
    · exact shared hy hsame
    · have hne : y ≠ x := fun heq => hsame (heq ▸ rfl)
      rw [apart hy hsame]
      exact h.begun y hy (within_other hx hy hne hplace ▸ hbegun)
  case elsewhere =>
    intro l hl
    rw [hothers l (hl x hx).1 (hl x hx).2, h.elsewhere l hl]
  case finds =>
    intro y hy i e' he'
    by_cases hne : y = x
    · subst hne
      rw [within_self hplace] at he'
      rcases Nat.lt_trichotomy i (within y.1 es).length with hlt | rfl | hgt
      · rw [List.getElem?_append_left hlt] at he'
        exact h.finds y hy i e' he'
      · rw [List.getElem?_concat_length] at he'
        cases he'
        exact hfinds
      · rw [List.getElem?_eq_none (by simp; omega)] at he'
        cases he'
    · rw [within_other hx hy hne hplace] at he'
      exact h.finds y hy i e' he'

/-- Making the directory of a capture comes out as it would at first, and leaves it so. -/
theorem making (hx : x ∈ s.captures) :
    (t.makeDirs 0o777 x.2.folder).2 = (s.made x.2).2 ∧
      (t.applyAll (t.makeDirs 0o777 x.2.folder).1).at? (s.site x.2).dropLast =
        (s.prepared x.2).at? (s.site x.2).dropLast ∧
      ∀ l ≠ (s.site x.2).dropLast,
        (t.applyAll (t.makeDirs 0o777 x.2.folder).1).at? l = t.at? l := by
  obtain ⟨above, inner, file, haim, -⟩ := aim hx
  have hfolder := h.folder x hx
  rw [prepared, made, (site_eq haim).2] at *
  rw [haim.folder_eq] at *
  rcases haim.within with ⟨rfl, rfl⟩ | ⟨node, rfl, -, hnode⟩
  · have hground := s.linkless.makeDirs_of_dir (top_spec s.dir).1 0o777 s.way_top
    have hnow := h.linkless.makeDirs_of_dir (top_spec s.dir).1 0o777 h.way_top
    rw [hground, hnow, List.append_nil]
    refine ⟨rfl, ?_, fun _ _ => rfl⟩
    rw [FileTree.applyAll_nil, FileTree.applyAll_nil, FileTree.at?_of_way h.way_top,
      FileTree.at?_of_way s.way_top]
  · exact hnode.makeDirs_again s.linkless h.linkless h.caller s.way_top h.way_top hfolder

/-- Once its directory was made, a capture finds at the place of its file what stood there at
first. -/
theorem opening (hx : x ∈ s.captures) (hbegun : within x.1 es ≠ [])
    (hmade : (s.made x.2).2 = .ok ()) :
    t.openForWriting 0o666 x.2.path = FileTree.opening s.ground.toCaller 0o666 x.2.path (s.site x.2)
      (t.at? (s.site x.2)) := by
  obtain ⟨above, inner, file, haim, -⟩ := aim hx
  have hway : ∃ m, t.way above = .ok (.taken (s.base ++ inner) (.dir m)) := by
    rcases haim.within with ⟨rfl, rfl⟩ | ⟨node, rfl, -, hnode⟩
    · exact ⟨s.mode, by rw [List.append_nil]; exact h.way_top⟩
    · have hfolder := h.begun x hx hbegun
      rw [prepared, (site_eq haim).2] at hfolder
      rw [made, haim.folder_eq] at hmade hfolder
      obtain ⟨hshort, m, hdir⟩ := hnode.isDir_of_makeDirs s.linkless s.way_top hmade
      rw [hdir] at hfolder
      refine ⟨m, ?_⟩
      rw [hnode.way h.linkless h.way_top, if_neg hshort, hfolder]
  obtain ⟨m, hway⟩ := hway
  rw [(site_eq haim).1, ← h.caller]
  exact haim.names.openForWriting haim.short h.linkless hway

theorem folder_of_begun (hx : x ∈ s.captures) (hbegun : within x.1 es ≠ [])
    (hsite : ∀ l, l ≠ s.site x.2 → t'.at? l = t.at? l) :
    t'.at? (s.site x.2).dropLast = (s.prepared x.2).at? (s.site x.2).dropLast := by
  rw [hsite _ fun heq => site_apart hx hx heq.symm, h.begun x hx hbegun]

theorem made_turn (hx : x ∈ s.captures) (hplace : e.place = x.1) (hfirst : within x.1 es = [])
    (hfinds : s.Finds x.2 0 e.before.tree) :
    s.Midway (es ++ [e]) (t.applyAll (t.makeDirs 0o777 x.2.folder).1) := by
  obtain ⟨-, hfolder, hothers⟩ := h.making hx
  refine h.turn hx hplace (FileTree.caller_applyAll t _) ?_ hfolder (fun l _ hl => hothers l hl) ?_
  · rw [hothers _ (site_apart hx hx), h.file x hx, hfirst]
    rfl
  · rw [hfirst]
    exact hfinds

theorem openForWriting_eq (hx : x ∈ s.captures) (hone : (within x.1 es).length = 1)
    (hmade : (s.made x.2).2 = .ok ()) : t.openForWriting 0o666 x.2.path = s.opened x.2 := by
  have hbegun : within x.1 es ≠ [] := List.ne_nil_of_length_eq_add_one hone
  rw [h.opening hx hbegun hmade, h.file x hx, hone]
  rfl

theorem opened_turn (hx : x ∈ s.captures) (hplace : e.place = x.1)
    (hone : (within x.1 es).length = 1) (hmade : (s.made x.2).2 = .ok ())
    (hbefore : e.before.tree = t) :
    s.Midway (es ++ [e])
      (match s.opened x.2 with
        | .ok (_, c) => t.apply c
        | .error _ => t) := by
  have hbegun : within x.1 es ≠ [] := List.ne_nil_of_length_eq_add_one hone
  have hfinds : s.Finds x.2 (within x.1 es).length e.before.tree := by
    rw [hone, hbefore]
    exact h.openForWriting_eq hx hone hmade
  have hground : t.at? (s.site x.2) = s.ground.at? (s.site x.2) := by
    rw [h.file x hx, hone]
    rfl
  cases hopen : s.opened x.2 with
  | error e' =>
    refine h.turn hx hplace rfl ?_ (h.folder_of_begun hx hbegun fun _ _ => rfl)
      (fun _ _ _ => rfl) hfinds
    rw [hone, stage, hopen, hground]
  | ok end_ =>
    obtain ⟨loc, c⟩ := end_
    obtain rfl : loc = s.site x.2 := opened_loc hopen
    have hat (l : Location) : (t.apply c).at? l =
        if l = s.site x.2 then filled s.ground.toCaller 0o666 [] (t.at? (s.site x.2))
        else t.at? l :=
      FileTree.at?_opened (by rw [hground]; exact hopen) (site_ne_nil hx) l
    have hothers (l : Location) (hl : l ≠ s.site x.2) : (t.apply c).at? l = t.at? l := by
      rw [hat, if_neg hl]
    refine h.turn hx hplace (FileTree.caller_apply t c) ?_ (h.folder_of_begun hx hbegun hothers)
      (fun l hl _ => hothers l hl) hfinds
    rw [hat, if_pos rfl, hone, stage, hopen, hground]

theorem filled_turn (hx : x ∈ s.captures) (hplace : e.place = x.1)
    (htwo : (within x.1 es).length = 2)
    {end_ : Location × Change} (hopen : s.opened x.2 = .ok end_) (hbefore : e.before.tree = t) :
    s.Midway (es ++ [e])
      (match t.write (s.site x.2) (s.printed x.2.command) with
        | .ok c => t.apply c
        | .error _ => t) := by
  have hbegun : within x.1 es ≠ [] := List.ne_nil_of_length_eq_add_one htwo
  have hat : t.at? (s.site x.2) = filled s.ground.toCaller 0o666 []
    (s.ground.at? (s.site x.2)) := by
    rw [h.file x hx, htwo, stage, hopen]
  have hfinds : s.Finds x.2 (within x.1 es).length e.before.tree := by
    rw [htwo, hbefore]
    exact hat
  rcases FileTree.at?_filled hopen (site_ne_nil hx) hat with
    ⟨-, -, hwrite, hend⟩ | ⟨-, c, hwrite, hend⟩
  · rw [hwrite]
    refine h.turn hx hplace rfl ?_ (h.folder_of_begun hx hbegun fun _ _ => rfl)
      (fun _ _ _ => rfl) hfinds
    rw [htwo, hend]
    rfl
  · rw [hwrite]
    have hothers (l : Location) (hl : l ≠ s.site x.2) : (t.apply c).at? l = t.at? l := by
      rw [hend, if_neg hl]
    refine h.turn hx hplace (FileTree.caller_apply t c) ?_ (h.folder_of_begun hx hbegun hothers)
      (fun l hl _ => hothers l hl) hfinds
    rw [hend, if_pos rfl, htwo]
    rfl

end Midway

/-! Turns -/

namespace Midway

theorem idle {e : Event (Host σ)} (h : s.Midway es t)
    (hidle : ∀ x ∈ s.captures, within x.1 [e] = []) : s.Midway (es ++ [e]) t := by
  have hsame {x : Place × Capture} (hx : x ∈ s.captures) :
      within x.1 (es ++ [e]) = within x.1 es := within_idle (hidle x hx)
  constructor
  case caller => exact h.caller
  case file => exact fun x hx => by rw [hsame hx, h.file x hx]
  case folder => exact h.folder
  case begun => exact fun x hx hbegun => h.begun x hx (hsame hx ▸ hbegun)
  case elsewhere => exact h.elsewhere
  case finds => exact fun x hx i e he => h.finds x hx i e (hsame hx ▸ he)

/-- A capture that went on from its first turn has found its directory or made it. -/
theorem made_of_first (h : s.Midway es t) (hx : x ∈ s.captures) {first : Event (Host σ)}
    {rest : List (Event (Host σ))} (hbegun : within x.1 es = first :: rest)
    (hmade : (Capture.makeParent x.2.path first.before).2 = .ok ()) : (s.made x.2).2 = .ok () := by
  have hfound : (first.before.tree.makeDirs 0o777 x.2.folder).2 = (s.made x.2).2 :=
    h.finds x hx 0 first (by rw [hbegun]; rfl)
  rw [← hfound, makeDirs_of_makeParent (parent? hx) hmade]

/-- A capture that went on from its second turn has opened its file. -/
theorem opened_of_second (h : s.Midway es t) (hx : x ∈ s.captures) {first second : Event (Host σ)}
    {rest : List (Event (Host σ))} (hbegun : within x.1 es = first :: second :: rest)
    {loc : Location} (hcreated : (Capture.createFile x.2.path second.before).2 = .ok loc) :
    loc = s.site x.2 ∧ ∃ end_, s.opened x.2 = .ok end_ := by
  have hfound : second.before.tree.openForWriting 0o666 x.2.path = s.opened x.2 :=
    h.finds x hx 1 second (by rw [hbegun]; rfl)
  rw [(createFile_spec x.2.path second.before).2, hfound] at hcreated
  split at hcreated
  · next loc' opened hopen =>
    cases hcreated
    exact ⟨opened_loc hopen, _, hopen⟩
  · cases hcreated

end Midway

theorem kept (s : Scene) (hr : r.ByCommand s.printed s.answer) :
    Kept r s.captures s.ground (fun c made => made = (s.made c).2) (s.Midway (σ := σ)) where
  start := s.midway_nil
  idle _ _ _ h hidle := h.idle hidle
  makes _ _ h x hx := (h.making hx).1
  making es t h x hx hfirst e hplace hfound := h.made_turn hx hplace hfirst hfound
  going es e h x hx hbegun hplace hturn := by
    generalize hhad : within x.1 es = had at hturn hbegun
    cases hturn with
    | making => exact absurd rfl hbegun
    | @creating first _ made does =>
      have hone : (within x.1 es).length = 1 := by rw [hhad, List.length_singleton]
      have hmade := h.made_of_first hx hhad made
      rw [does, (createFile_spec x.2.path e.before).1, h.openForWriting_eq hx hone hmade]
      exact h.opened_turn hx hplace hone hmade rfl
    | @filling first second _ loc made created does =>
      have htwo : (within x.1 es).length = 2 := by rw [hhad]; rfl
      obtain ⟨rfl, end_, hopen⟩ := h.opened_of_second hx hhad created
      rw [does, (fillFile_spec hr x.2.command _ e.before).1]
      exact h.filled_turn hx hplace htwo hopen rfl
  found _ _ h x hx first rest hbegun := h.finds x hx 0 first (by rw [hbegun]; rfl)
  fails x _ e hfailed hmade := nomatch hmade.trans hfailed

/-- How often a capture has its turn, and how it ends. -/
def fate (s : Scene) (c : Capture) : Nat × Outcome Unit :=
  match (s.made c).2 with
  | .error e => (1, Capture.ioFailure ("Failed to create directory " ++ c.folder.text) e)
  | .ok () =>
    match s.opened c with
    | .error e =>
      (2, .error ((Failure.ofCause (.io e)).context ("Failed to create " ++ c.path.text)))
    | .ok _ =>
      if s.ground.at? (s.site c) = some (.device .full) ∧ s.printed c.command ≠ [] then
        (3, .error (.ofCause (.io (.os .noSpace))))
      else (3, s.answer c.command)

theorem Midway.fate (h : s.Midway es t) (hr : r.ByCommand s.printed s.answer) (hx : x ∈ s.captures)
    {o : Outcome Unit} (hattempt : Attempt r x.1 x.2 (within x.1 es) o) :
    ((within x.1 es).length, o) = s.fate x.2 := by
  have hfinds := h.finds x hx
  generalize hall : within x.1 es = all at hattempt hfinds
  have hparent := parent? hx
  unfold Scene.fate
  cases hattempt with
  | noDirectory h₁ f making =>
    have hfound : (h₁.tree.makeDirs 0o777 x.2.folder).2 = (s.made x.2).2 := hfinds 0 _ rfl
    rw [(makeParent_spec hparent h₁).2, hfound] at making
    cases hmade : (s.made x.2).2 with
    | ok _ =>
      rw [hmade] at making
      cases making
    | error e =>
      rw [hmade] at making
      simp only [← making]
      rfl
  | noFile h₁ h₂ f making creating =>
    rw [h.made_of_first hx hall making]
    have hfound : h₂.tree.openForWriting 0o666 x.2.path = s.opened x.2 := hfinds 1 _ rfl
    rw [(createFile_spec x.2.path h₂).2, hfound] at creating
    cases hopen : s.opened x.2 with
    | ok _ =>
      rw [hopen] at creating
      cases creating
    | error e =>
      rw [hopen] at creating
      cases creating
      rfl
  | run h₁ h₂ h₃ loc making creating =>
    obtain ⟨rfl, end_, hopen⟩ := h.opened_of_second hx hall creating
    rw [h.made_of_first hx hall making, hopen, (fillFile_spec hr x.2.command _ h₃).2]
    have hfound : h₃.tree.at? (s.site x.2) = FileTree.filled s.ground.toCaller 0o666 []
      (s.ground.at? (s.site x.2)) :=
      hfinds 2 _ rfl
    rcases FileTree.at?_filled hopen (site_ne_nil hx) hfound with
      ⟨hfull, hsome, hwrite, -⟩ | ⟨hnot, c, hwrite, -⟩
    · rw [hwrite]
      simp only [if_pos (And.intro hfull hsome)]
      rfl
    · rw [hwrite]
      simp only [if_neg hnot]
      rfl

/-- When every capture has had all its turns, nothing is left open about the files. -/
theorem Midway.at?_eq {es' : List (Event (Host σ))} {t' : FileTree} (h : s.Midway es t)
    (h' : s.Midway es' t')
    (hturns : ∀ x ∈ s.captures, (within x.1 es).length = (within x.1 es').length)
    (hbegun : ∀ x ∈ s.captures, within x.1 es ≠ []) (loc : Location) : t.at? loc = t'.at? loc := by
  rcases s.place_cases loc with ⟨x, hx, rfl⟩ | ⟨x, hx, rfl⟩ | helse
  · rw [h.file x hx, h'.file x hx, hturns x hx]
  · have hbegun' : within x.1 es' ≠ [] := by
      rw [← List.length_pos_iff, ← hturns x hx, List.length_pos_iff]
      exact hbegun x hx
    rw [h.begun x hx (hbegun x hx), h'.begun x hx hbegun']
  · rw [h.elsewhere loc helse, h'.elsewhere loc helse]

end NodeLogs.Collection.Scene
