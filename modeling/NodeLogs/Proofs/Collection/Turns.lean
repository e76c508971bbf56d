import NodeLogs.Proofs.Collection.Extent

/-!
Captures that take turns. What each turn keeps of the files, a run keeps; and as long as every
capture that has begun was refused its directory, nothing has changed at all.
-/

namespace NodeLogs

/-- A runner that leaves the files alone, and of whose captures the command alone decides what is
printed and how they end. -/
structure Runner.ByCommand {σ : Type} (r : Runner σ) (printed : Command → Bytes)
    (answer : Command → Outcome Unit) : Prop extends r.LeavesFiles where
  prints : ∀ c h, ((r.capture c).run h).1 = (printed c, answer c)

/-- The directory that a capture's file is in. -/
def Capture.folder (c : Capture) : HostPath := c.path.parent?.getD ⟨""⟩

namespace Collection

open Capture (Attempt Turn)
open Event (Chained within)
open HostPath (IsName)

variable {σ : Type} {r : Runner σ} {config : Config} {dir above : HostPath}
  {nodes inner : List String} {file : String} {c : Capture} {h h' : Host σ}
  {events es : List (Event (Host σ))} {e : Event (Host σ)}
  {capturing : Outcome Unit} {x : Place × Capture}

theorem Aim.folder_eq (h : Aim dir c above inner file) : c.folder = above := by
  rw [Capture.folder, h.names.parent]
  rfl

theorem within_self (hplace : e.place = x.1) :
    within x.1 (es ++ [e]) = within x.1 es ++ [e] := by
  rw [Event.within_append, Event.within_all
    (List.forall_mem_singleton.mpr (hplace ▸ List.prefix_refl _))]

theorem within_beside {y : Place × Capture} (hapart : ¬ y.1 <+: x.1) (hplace : e.place = x.1) :
    within y.1 (es ++ [e]) = within y.1 es := by
  rw [Event.within_append, within, within, List.filter_cons_of_neg (by simpa [hplace]),
    List.filter_nil, List.append_nil]

theorem within_idle (hidle : within x.1 [e] = []) : within x.1 (es ++ [e]) = within x.1 es := by
  rw [Event.within_append, hidle, List.append_nil]

theorem within_ne_nil (h : within x.1 es ≠ []) : within x.1 (es ++ [e]) ≠ [] := by
  rw [Event.within_append]
  exact List.append_ne_nil_of_left_ne_nil h _

/-- What holds of the files when captures start, and after each turn of theirs, holds when they have
come to their end. -/
theorem holds_of_turns {Inv : List (Event (Host σ)) → FileTree → Prop}
    (hrun : Task.Run [] (captures r config nodes dir) h events (.ended capturing) h')
    (start : Inv [] h.tree)
    (idle : ∀ es e t, Inv es t → (∀ x ∈ planned config dir nodes, within x.1 [e] = []) →
      Inv (es ++ [e]) t)
    (turn : ∀ es e, Inv es e.before.tree → ∀ x ∈ planned config dir nodes, e.place = x.1 →
      Turn r x.2 (within x.1 es) e → Inv (es ++ [e]) e.after.tree) :
    Inv events h'.tree := by
  have hturns := turn_of_captures hrun
  have main (earlier later : List (Event (Host σ))) (hall : earlier ++ later = events)
      {now : Host σ} (hnow : Inv earlier now.tree) (hchained : Chained now later h') :
      Inv events h'.tree := by
    induction later generalizing earlier now with
    | nil =>
      obtain rfl := hchained
      rw [← hall, List.append_nil]
      exact hnow
    | cons e later ih =>
      obtain ⟨rfl, hrest⟩ := hchained
      have hmem : e ∈ events := by simp [← hall]
      refine ih (earlier ++ [e]) (by rw [← hall, List.append_assoc]; rfl) ?_ hrest
      by_cases hcapture : ∃ x ∈ planned config dir nodes, ∃ o, AttemptedIn r events x o ∧
        e ∈ within x.1 events
      · obtain ⟨x, hx, o, hattempt, hin⟩ := hcapture
        have hplace := hattempt.at_place e hin
        refine turn earlier e hnow x hx hplace ?_
        have hattempt : Attempt r x.1 x.2 (within x.1 events) o := hattempt
        rw [← hall, Event.within_append, within, within, List.filter_cons_of_pos (by simp [hplace])]
          at hattempt
        exact hattempt.turn
      · rcases hturns e hmem with ⟨text, hnote⟩ | hturn
        · rw [hnote]
          refine idle earlier e _ hnow fun x hx => ?_
          rw [within, List.filter_eq_nil_iff]
          intro e' he' hplace
          obtain rfl := List.mem_singleton.mp he'
          obtain ⟨outcomes, hattempts, -, -⟩ := captures_attempted hrun
          obtain ⟨o, hattempt⟩ := exists_of_forall₂ hattempts hx
          exact hcapture ⟨x, hx, o, hattempt, List.mem_filter.mpr ⟨hmem, hplace⟩⟩
        · exact absurd hturn hcapture
  exact main [] events rfl start hrun.chained

theorem parent?_planned (hnodes : ∀ node ∈ nodes, IsName node) {x : Place × Capture}
    (hx : x ∈ planned config dir nodes) : x.2.path.parent? = some x.2.folder := by
  obtain ⟨above, inner, file, haim, -⟩ := aim_of_planned hnodes hx
  rw [haim.folder_eq, haim.names.parent]

/-- Making the directory above a capture's file, told by the files alone. -/
theorem makeParent_spec {c : Capture} (hparent : c.path.parent? = some c.folder) (h : Host σ) :
    (Capture.makeParent c.path h).1.tree = h.tree.applyAll (h.tree.makeDirs 0o777 c.folder).1 ∧
      (Capture.makeParent c.path h).2 =
        match (h.tree.makeDirs 0o777 c.folder).2 with
        | .ok () => .ok ()
        | .error e => Capture.ioFailure ("Failed to create directory " ++ c.folder.text) e := by
  rw [Capture.makeParent_eq hparent]
  exact ⟨rfl, rfl⟩

theorem makeDirs_of_makeParent {c : Capture} (hparent : c.path.parent? = some c.folder) {h : Host σ}
    (hmade : (Capture.makeParent c.path h).2 = .ok ()) :
    (h.tree.makeDirs 0o777 c.folder).2 = .ok () := by
  rw [(makeParent_spec hparent h).2] at hmade
  split at hmade
  · assumption
  · cases hmade

theorem createFile_spec (path : HostPath) (h : Host σ) :
    (Capture.createFile path h).1.tree =
        (match h.tree.openForWriting 0o666 path with
          | .ok (_, opened) => h.tree.apply opened
          | .error _ => h.tree) ∧
      (Capture.createFile path h).2 =
        match h.tree.openForWriting 0o666 path with
        | .ok (loc, _) => .ok loc
        | .error e => .error
          ((Failure.ofCause (.io e)).context ("Failed to create " ++ path.text)) := by
  rw [Capture.createFile_eq]
  cases h.tree.openForWriting 0o666 path with
  | error e => exact ⟨rfl, rfl⟩
  | ok opened => exact ⟨rfl, rfl⟩

theorem fillFile_spec {printed : Command → Bytes} {answer : Command → Outcome Unit}
    (hr : r.ByCommand printed answer) (c : Command) (loc : Location) (h : Host σ) :
    (Capture.fillFile r c loc h).1.tree =
        (match h.tree.write loc (printed c) with
          | .ok written => h.tree.apply written
          | .error _ => h.tree) ∧
      (Capture.fillFile r c loc h).2 =
        match h.tree.write loc (printed c) with
        | .ok _ => answer c
        | .error e => .error (.ofCause (.io e)) := by
  have hsame := hr.capture c h
  have hprints := hr.prints c h
  unfold Capture.fillFile
  obtain ⟨⟨⟨output, outcome⟩, after⟩, hasked⟩ : ∃ x, (r.capture c).run h = x := ⟨_, rfl⟩
  rw [hasked] at hsame hprints ⊢
  obtain ⟨rfl, rfl⟩ := Prod.mk.inj hprints
  simp only at hsame ⊢
  rw [← hsame]
  cases after.tree.write loc (printed c) with
  | error e => exact ⟨rfl, rfl⟩
  | ok written => exact ⟨rfl, rfl⟩

/-! Before anything was made -/

section Under

variable {start ground t t' : FileTree} {Found : Capture → Except IoError Unit → Prop}
  {Inv : List (Event (Host σ)) → FileTree → Prop} {all : List (Place × Capture)}

/-- Making a capture's directory fails in one tree as in another, and nothing is made. -/
structure Refused (Found : Capture → Except IoError Unit → Prop) (start ground : FileTree)
    (c : Capture) : Prop where
  first : ∃ e, start.makeDirs 0o777 c.folder = ([], .error e) ∧ Found c (.error e)
  later : ∃ e, ground.makeDirs 0o777 c.folder = ([], .error e)

/-- To make a capture's directory is first to make one tree of another. -/
def Enters (Found : Capture → Except IoError Unit → Prop) (start ground : FileTree)
    (c : Capture) : Prop :=
  ∃ cs made, start.applyAll cs = ground ∧ Found c made ∧
    start.makeDirs 0o777 c.folder = (cs ++ (ground.makeDirs 0o777 c.folder).1, made)

/-- What captures keep of the files, and what they find when they make their directories. -/
structure Kept (r : Runner σ) (all : List (Place × Capture)) (ground : FileTree)
    (Found : Capture → Except IoError Unit → Prop)
    (Inv : List (Event (Host σ)) → FileTree → Prop) : Prop where
  start : Inv [] ground
  idle : ∀ es e t, Inv es t → (∀ x ∈ all, within x.1 [e] = []) → Inv (es ++ [e]) t
  makes : ∀ es t, Inv es t → ∀ x ∈ all, Found x.2 (t.makeDirs 0o777 x.2.folder).2
  making : ∀ es t, Inv es t → ∀ x ∈ all, within x.1 es = [] → ∀ e : Event (Host σ),
    e.place = x.1 → Found x.2 (e.before.tree.makeDirs 0o777 x.2.folder).2 →
    Inv (es ++ [e]) (t.applyAll (t.makeDirs 0o777 x.2.folder).1)
  going : ∀ es e, Inv es e.before.tree → ∀ x ∈ all, within x.1 es ≠ [] → e.place = x.1 →
    Turn r x.2 (within x.1 es) e → Inv (es ++ [e]) e.after.tree
  found : ∀ es t, Inv es t → ∀ x ∈ all, ∀ first rest, within x.1 es = first :: rest →
    Found x.2 (first.before.tree.makeDirs 0o777 x.2.folder).2
  fails : ∀ x ∈ all, ∀ e, (ground.makeDirs 0o777 x.2.folder).2 = .error e → ¬ Found x.2 (.ok ())

/-- What captures keep, as long as all that have begun were refused, and after that. -/
inductive Under (all : List (Place × Capture)) (Found : Capture → Except IoError Unit → Prop)
    (start ground : FileTree) (Inv : List (Event (Host σ)) → FileTree → Prop) :
    List (Event (Host σ)) → FileTree → Prop
  | early {es : List (Event (Host σ))} (kept : Inv es ground)
      (refused : ∀ x ∈ all, within x.1 es ≠ [] → Refused Found start ground x.2) :
      Under all Found start ground Inv es start
  | late {es : List (Event (Host σ))} {t : FileTree} (kept : Inv es t)
      (entered : ∃ x ∈ all, within x.1 es ≠ [] ∧ ¬ Refused Found start ground x.2) :
      Under all Found start ground Inv es t

theorem Under.kept (h : Under all Found start ground Inv es t) : ∃ t', Inv es t' := by
  cases h with
  | early kept => exact ⟨_, kept⟩
  | late kept => exact ⟨_, kept⟩

/-- In any run of the captures, from where none has begun. -/
theorem Kept.under (hkept : Kept r (planned config dir nodes) ground Found Inv)
    (hnodes : ∀ node ∈ nodes, IsName node)
    (henter : ∀ x ∈ planned config dir nodes,
      Refused Found h.tree ground x.2 ∨ Enters Found h.tree ground x.2)
    (hrun : Task.Run [] (captures r config nodes dir) h events (.ended capturing) h') :
    Under (planned config dir nodes) Found h.tree ground Inv events h'.tree := by
  refine holds_of_turns hrun (.early hkept.start fun x _ hbegun => absurd rfl hbegun) ?_ ?_
  · intro es e t hunder hidle
    cases hunder with
    | early kept refused =>
      exact .early (hkept.idle es e _ kept hidle) fun x hx hbegun =>
        refused x hx (within_idle (hidle x hx) ▸ hbegun)
    | late kept entered =>
      obtain ⟨x, hx, hbegun, hentered⟩ := entered
      exact .late (hkept.idle es e _ kept hidle) ⟨x, hx, within_ne_nil hbegun, hentered⟩
  · intro es e hunder x hx hplace hturn
    have hparent := parent?_planned hnodes hx
    generalize hnow : e.before.tree = now at hunder
    cases hunder with
    | late kept entered =>
      subst hnow
      obtain ⟨y, hy, hbegun, hentered⟩ := entered
      refine .late ?_ ⟨y, hy, within_ne_nil hbegun, hentered⟩
      by_cases hfirst : within x.1 es = []
      · rw [hfirst] at hturn
        cases hturn with
        | making does =>
          rw [does, (makeParent_spec hparent e.before).1]
          exact hkept.making es _ kept x hx hfirst e hplace (hkept.makes es _ kept x hx)
      · exact hkept.going es e kept x hx hfirst hplace hturn
    | early kept refused =>
      by_cases hfirst : within x.1 es = []
      · rw [hfirst] at hturn
        cases hturn with
        | making does =>
          rw [does, (makeParent_spec hparent e.before).1, hnow]
          have hground := hkept.making es ground kept x hx hfirst e hplace
          rw [hnow] at hground
          by_cases hrefused : Refused Found h.tree ground x.2
          · have hall : ∀ y ∈ planned config dir nodes, within y.1 (es ++ [e]) ≠ [] →
                Refused Found h.tree ground y.2 := by
              intro y hy hbegun
              by_cases hyx : y.1 <+: x.1
              · rwa [eq_of_place hy hx hyx]
              · exact refused y hy (within_beside hyx hplace ▸ hbegun)
            obtain ⟨⟨e₁, hstart, hfound⟩, e₂, hthere⟩ := hrefused
            rw [hstart]
            refine .early ?_ hall
            rw [hstart, hthere] at hground
            exact hground hfound
          · obtain ⟨cs, made, hcs, hfound, hstart⟩ := (henter x hx).resolve_left hrefused
            rw [hstart, FileTree.applyAll_append, hcs]
            rw [hstart] at hground
            refine .late (hground hfound) ⟨x, hx, ?_, hrefused⟩
            rw [within_self hplace]
            simp
      · -- A capture that was refused has no more turns.
        obtain ⟨first, rest, hbegun⟩ := List.exists_cons_of_ne_nil hfirst
        obtain ⟨e', hthere⟩ := (refused x hx hfirst).later
        have hfound := hkept.found es ground kept x hx first rest hbegun
        rw [hbegun] at hturn
        rw [makeDirs_of_makeParent hparent hturn.made] at hfound
        exact absurd hfound (hkept.fails x hx e' (congrArg Prod.snd hthere))

/-- Two ends that captures have come to are alike if what they keep leaves nothing open there. -/
theorem Under.same {es' : List (Event (Host σ))}
    (hall : Under all Found start ground Inv es t) (hall' : Under all Found start ground Inv es' t')
    (hbegun : ∀ x ∈ all, within x.1 es ≠ []) (hbegun' : ∀ x ∈ all, within x.1 es' ≠ [])
    (hclosed : Inv es t → Inv es' t' → ∀ loc, t.at? loc = t'.at? loc) (loc : Location) :
    t.at? loc = t'.at? loc := by
  cases hall with
  | early _ refused =>
    cases hall' with
    | early => rfl
    | late _ entered =>
      obtain ⟨x, hx, -, hentered⟩ := entered
      exact absurd (refused x hx (hbegun x hx)) hentered
  | late kept entered =>
    cases hall' with
    | early _ refused =>
      obtain ⟨x, hx, -, hentered⟩ := entered
      exact absurd (refused x hx (hbegun' x hx)) hentered
    | late kept' => exact hclosed kept kept' loc

end Under

/-! Attempts -/

theorem AttemptedIn.begun {x : Place × Capture} {o : Outcome Unit} (h : AttemptedIn r events x o) :
    within x.1 events ≠ [] := by
  unfold AttemptedIn at h
  generalize within x.1 events = all at h
  cases h <;> exact List.cons_ne_nil _ _

/-- The second turn of a capture has created or emptied its file, which is at this place. -/
def Opens (events : List (Event (Host σ))) (x : Place × Capture) (loc : Location) : Prop :=
  ∃ first second rest, within x.1 events = first :: second :: rest ∧
    (Capture.createFile x.2.path second.before).2 = .ok loc

/-- A capture that opened its file has made its directory before, and fills the file next. -/
theorem Opens.turns {x : Place × Capture} {loc : Location} {o : Outcome Unit}
    (h : Opens events x loc) (hattempt : AttemptedIn r events x o) :
    (∀ first rest, within x.1 events = first :: rest →
      (Capture.makeParent x.2.path first.before).2 = .ok ()) ∧ (within x.1 events).length = 3 := by
  obtain ⟨first, second, rest, hturns, hcreated⟩ := h
  unfold AttemptedIn at hattempt
  generalize within x.1 events = all at hattempt hturns
  cases hattempt with
  | noDirectory => cases hturns
  | noFile h₁ h₂ f making creating =>
    cases hturns
    rw [creating] at hcreated
    cases hcreated
  | run h₁ h₂ h₃ loc making creating =>
    refine ⟨fun first rest hall => ?_, rfl⟩
    cases hall
    exact making

end Collection

end NodeLogs
