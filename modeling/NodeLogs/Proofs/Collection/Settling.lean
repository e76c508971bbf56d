import NodeLogs.Proofs.Collection.Midway

/-!
What all runs of the captures come to. Where the directory that is collected into can be made, every
capture finds the same as if it was alone; where it cannot, all of them fail before they open a
file.
-/

namespace NodeLogs.Collection

open Capture (Attempt)
open Event (within)
open FileTree (Linkless Obstructs)
open HostPath (IsName)

variable {σ : Type} {r : Runner σ} {config : Config} {dir : HostPath} {nodes : List String}
  {printed : Command → Bytes} {answer : Command → Outcome Unit} {h h' h'' : Host σ}
  {events events' : List (Event (Host σ))}

/-! All runs -/

/-- A run of the captures to their end. -/
def Ran (r : Runner σ) (config : Config) (nodes : List String) (dir : HostPath) (h : Host σ)
    (events : List (Event (Host σ))) (h' : Host σ) : Prop :=
  ∃ capturing, Task.Run [] (captures r config nodes dir) h events (.ended capturing) h'

theorem Ran.attempted (hran : Ran r config nodes dir h events h') :
    ∀ x ∈ planned config dir nodes, ∃ o, AttemptedIn r events x o := by
  obtain ⟨capturing, hrun⟩ := hran
  obtain ⟨outcomes, hattempts, -, -⟩ := captures_attempted hrun
  exact fun x hx => exists_of_forall₂ hattempts hx

theorem Ran.begun (hran : Ran r config nodes dir h events h') :
    ∀ x ∈ planned config dir nodes, within x.1 events ≠ [] := fun x hx =>
  (hran.attempted x hx).choose_spec.begun

/-- Captures all of whose runs come to the same; but what is told of a failure to make a directory
may depend on the run, where the way to it is not straight. -/
structure Settled (r : Runner σ) (config : Config) (nodes : List String) (dir : HostPath)
    (printed : Command → Bytes) (h : Host σ) (straight : Prop) : Prop where
  ends : ∀ {events events' h' h''}, Ran r config nodes dir h events h' →
    Ran r config nodes dir h events' h'' → ∀ x ∈ planned config dir nodes, ∀ o o',
      AttemptedIn r events x o → AttemptedIn r events' x o' →
      o.faults.map Fault.contexts = o'.faults.map Fault.contexts ∧ (straight → o = o')
  same : ∀ {events events' h' h''}, Ran r config nodes dir h events h' →
    Ran r config nodes dir h events' h'' → ∀ loc, h'.tree.at? loc = h''.tree.at? loc
  filled : ∀ {events h'}, Ran r config nodes dir h events h' → ∀ x ∈ planned config dir nodes,
    ∀ loc, Opens events x loc →
      (∃ mode, h'.tree.at? loc = some (.file mode (printed x.2.command))) ∨
        ∃ d, h.tree.at? loc = some (.device d) ∧ h'.tree.at? loc = some (.device d)

theorem Scene.settled (s : Scene) (hr : r.ByCommand s.printed s.answer)
    (hground : ∃ cs, s.ground = h.tree.applyAll cs)
    (henter : ∀ x ∈ s.captures,
      Refused (fun c made => made = (s.made c).2) h.tree s.ground x.2 ∨
        Enters (fun c made => made = (s.made c).2) h.tree s.ground x.2) (straight : Prop) :
    Settled r s.config s.nodes s.dir s.printed h straight where
  ends := by
    rintro events events' h' h'' ⟨capturing, hrun⟩ ⟨capturing', hrun'⟩ x hx o o' hattempt hattempt'
    obtain ⟨t, hmidway⟩ := ((s.kept hr).under s.names henter hrun).kept
    obtain ⟨t', hmidway'⟩ := ((s.kept hr).under s.names henter hrun').kept
    have hsame := (hmidway.fate hr hx hattempt).trans (hmidway'.fate hr hx hattempt').symm
    rw [(Prod.mk.inj hsame).2]
    exact ⟨rfl, fun _ => rfl⟩
  same := by
    rintro events events' h' h'' hran hran'
    have hattempted := hran.attempted
    have hattempted' := hran'.attempted
    have hbegun := hran.begun
    have hbegun' := hran'.begun
    obtain ⟨capturing, hrun⟩ := hran
    obtain ⟨capturing', hrun'⟩ := hran'
    refine ((s.kept hr).under s.names henter hrun).same ((s.kept hr).under s.names henter hrun')
      hbegun hbegun' fun hmidway hmidway' => hmidway.at?_eq hmidway' (fun x hx => ?_) hbegun
    obtain ⟨o, hattempt⟩ := hattempted x hx
    obtain ⟨o', hattempt'⟩ := hattempted' x hx
    have hfate := hmidway.fate hr hx hattempt
    have hfate' := hmidway'.fate hr hx hattempt'
    exact (congrArg Prod.fst hfate).trans (congrArg Prod.fst hfate').symm
  filled := by
    rintro events h' hran x hx loc hopens
    obtain ⟨o, hattempt⟩ := hran.attempted x hx
    obtain ⟨capturing, hrun⟩ := hran
    obtain ⟨hmade, hthree⟩ := hopens.turns hattempt
    obtain ⟨first, second, rest, hturns, hcreated⟩ := hopens
    have hunder := (s.kept hr).under s.names henter hrun
    generalize hend : h'.tree = t at hunder
    cases hunder with
    | early hmidway refused =>
      obtain ⟨e, hthere⟩ := (refused x hx (hturns ▸ List.cons_ne_nil _ _)).later
      have hmade := hmidway.made_of_first hx hturns (hmade first _ hturns)
      rw [made, hthere] at hmade
      cases hmade
    | late hmidway =>
      obtain ⟨rfl, end_, hopen⟩ := hmidway.opened_of_second hx hturns hcreated
      have hend : t.at? (s.site x.2) =
          FileTree.filled s.ground.toCaller 0o666 (s.printed x.2.command)
            (s.ground.at? (s.site x.2)) := by
        rw [hmidway.file x hx, hthree]
        rfl
      obtain ⟨cs, hcs⟩ := hground
      refine (FileTree.filled_of_opening hopen (s.printed x.2.command)).imp ?_ ?_
      · rintro ⟨mode, hfile⟩
        exact ⟨mode, hend.trans hfile⟩
      · rintro ⟨d, hdevice, hfilled⟩
        rw [hcs] at hdevice
        exact ⟨d, FileTree.device_of_applyAll hdevice, hend.trans hfilled⟩

/-! Where no directory is -/

/-- All captures fail to make their directories, and then change nothing. -/
def Blocked (ground : FileTree) (all : List (Place × Capture)) : Prop :=
  ∀ x ∈ all, ∃ e, ground.makeDirs 0o777 x.2.folder = ([], .error e)

/-- A capture fails to make its directory, and always for the same reason where the way is
straight. -/
def Foils (straight : Prop) (ground : FileTree) (c : Capture) (made : Except IoError Unit) : Prop :=
  ∃ e, made = .error e ∧ (straight → (ground.makeDirs 0o777 c.folder).2 = .error e)

section Blocked

variable {ground : FileTree} (hblocked : Blocked ground (planned config dir nodes))
  (hnodes : ∀ node ∈ nodes, IsName node) (straight : Prop)

include hblocked hnodes

theorem Blocked.kept :
    Kept r (planned config dir nodes) ground (Foils straight ground) fun es t => t = ground ∧
      ∀ x ∈ planned config dir nodes, ∀ first rest, within x.1 es = first :: rest →
        Foils straight ground x.2 (first.before.tree.makeDirs 0o777 x.2.folder).2 where
  start := ⟨rfl, fun _ _ _ _ h => nomatch h⟩
  idle es e t h hidle := by
    exact ⟨h.1, fun x hx first rest hall => h.2 x hx first rest (within_idle (hidle x hx) ▸ hall)⟩
  makes _ _ h x hx := by
    obtain ⟨e, hthere⟩ := hblocked x hx
    rw [h.1]
    exact ⟨e, congrArg Prod.snd hthere, fun _ => congrArg Prod.snd hthere⟩
  making es t h x hx hfirst e hplace hfound := by
    obtain ⟨rfl, hothers⟩ := h
    obtain ⟨e', hthere⟩ := hblocked x hx
    refine ⟨by rw [hthere, FileTree.applyAll_nil], fun y hy first rest hall => ?_⟩
    by_cases hyx : y.1 <+: x.1
    · obtain rfl := eq_of_place hy hx hyx
      rw [within_self hplace, hfirst] at hall
      cases hall
      exact hfound
    · exact hothers y hy first rest (within_beside hyx hplace ▸ hall)
  going es e h x hx hbegun hplace hturn := by
    obtain ⟨first, rest, hall⟩ := List.exists_cons_of_ne_nil hbegun
    obtain ⟨e', herror, -⟩ := h.2 x hx first rest hall
    rw [hall] at hturn
    rw [makeDirs_of_makeParent (parent?_planned hnodes hx) hturn.made] at herror
    cases herror
  found _ _ h := h.2
  fails _ _ _ _ hmade := nomatch hmade.choose_spec.1

theorem Blocked.settled
    (henter : ∀ x ∈ planned config dir nodes, Refused (Foils straight ground) h.tree ground x.2 ∨
      Enters (Foils straight ground) h.tree ground x.2) :
    Settled r config nodes dir printed h straight := by
  have hkept := hblocked.kept (r := r) hnodes straight
  -- A capture has one turn, in which it fails.
  have hmaking {events : List (Event (Host σ))} {h' : Host σ}
      (hran : Ran r config nodes dir h events h') {x : Place × Capture}
      (hx : x ∈ planned config dir nodes) {o : Outcome Unit} (hattempt : AttemptedIn r events x o) :
      ∃ first e, within x.1 events = [first] ∧
        (straight → (ground.makeDirs 0o777 x.2.folder).2 = .error e) ∧
        o = Capture.ioFailure ("Failed to create directory " ++ x.2.folder.text) e := by
    obtain ⟨capturing, hrun⟩ := hran
    obtain ⟨t, -, hfound⟩ := (hkept.under hnodes henter hrun).kept
    have hparent := parent?_planned hnodes hx
    have hfirst := hfound x hx
    unfold AttemptedIn at hattempt
    generalize within x.1 events = all at hattempt hfirst
    cases hattempt with
    | noDirectory h₁ f making =>
      obtain ⟨e, herror, hstraight⟩ := hfirst _ _ rfl
      refine ⟨_, e, rfl, hstraight, ?_⟩
      rw [← making, (makeParent_spec hparent h₁).2, herror]
    | noFile h₁ h₂ f making creating =>
      obtain ⟨e, herror, -⟩ := hfirst _ _ rfl
      rw [makeDirs_of_makeParent hparent making] at herror
      cases herror
    | run h₁ h₂ h₃ loc making creating =>
      obtain ⟨e, herror, -⟩ := hfirst _ _ rfl
      rw [makeDirs_of_makeParent hparent making] at herror
      cases herror
  constructor
  case ends =>
    intro events events' h' h'' hran hran' x hx o o' hattempt hattempt'
    obtain ⟨-, e, -, hstraight, rfl⟩ := hmaking hran hx hattempt
    obtain ⟨-, e', -, hstraight', rfl⟩ := hmaking hran' hx hattempt'
    refine ⟨rfl, fun hs => ?_⟩
    rw [Except.error.inj ((hstraight hs).symm.trans (hstraight' hs))]
  case same =>
    intro events events' h' h'' hran hran'
    have hbegun := hran.begun
    have hbegun' := hran'.begun
    obtain ⟨capturing, hrun⟩ := hran
    obtain ⟨capturing', hrun'⟩ := hran'
    exact (hkept.under hnodes henter hrun).same (hkept.under hnodes henter hrun') hbegun hbegun'
      fun h h' loc => by rw [h.1, h'.1]
  case filled =>
    intro events h' hran x hx loc hopens
    obtain ⟨o, hattempt⟩ := hran.attempted x hx
    obtain ⟨first, e, hone, -⟩ := hmaking hran hx hattempt
    have hthree := (hopens.turns hattempt).2
    rw [hone] at hthree
    cases hthree

end Blocked

/-! Every tree -/

/-- A file is in the way of the directory before any other directory is made for it, if at all. -/
def Straight (t : FileTree) (dir : HostPath) : Prop :=
  (t.makeDirs 0o777 (top dir)).2 = .error (.os .exists_) → (t.makeDirs 0o777 (top dir)).1 = []

theorem straight_of_steps {t : FileTree} (h : t.Linkless) (sound : t.Sound)
    (hup : ".." ∉ dir.steps) : Straight t dir := by
  obtain ⟨htop, -, hsteps⟩ := top_spec dir
  rw [← hsteps] at hup
  exact fun hfile => h.makeDirs_straight sound htop hup hfile

section Start

variable {t : FileTree} {cs : List FileTree.Change} {x : Place × Capture}

/-- Once the directory above all files is there, making the directory of a capture goes on from
it. -/
theorem enters_of_made (h : t.Linkless) (sound : t.Sound) (hnodes : ∀ node ∈ nodes, IsName node)
    (hmade : t.makeDirs 0o777 (top dir) = (cs, .ok ())) (hx : x ∈ planned config dir nodes) :
    let Found := fun (c : Capture) made => made = ((t.applyAll cs).makeDirs 0o777 c.folder).2
    Refused Found t (t.applyAll cs) x.2 ∨ Enters Found t (t.applyAll cs) x.2 := by
  intro Found
  obtain ⟨above, inner, file, haim, -⟩ := aim_of_planned hnodes hx
  have hfolder := haim.folder_eq
  rcases haim.within with ⟨-, rfl⟩ | ⟨node, -, -, hnode⟩
  · have htop := (top_spec dir).1
    obtain ⟨base, m, hway⟩ := h.way_of_makeDirs sound htop (congrArg Prod.snd hmade)
    have hmakes := FileTree.makeDirs_makesOnWay 0o777 t (top dir)
    rw [hmade] at hway hmakes
    have hagain : (t.applyAll cs).makeDirs 0o777 (top dir) = ([], .ok ()) := by
      rw [(hmakes.linkless h).makeDirs_of_dir htop 0o777 hway]
      split
      · rfl
      · next hne =>
        cases hcheck : FileTree.checkPath (top dir) with
        | ok _ => rfl
        | error e =>
          rw [FileTree.makeDirs_refused hne hcheck] at hmade
          cases hmade
    refine Or.inr ⟨cs, .ok (), rfl, ?_, ?_⟩
    · simp only [Found, hfolder, hagain]
    · rw [hfolder, hagain, hmade, List.append_nil]
  · rcases hnode.makeDirs_of_ok h sound hmade with ⟨e, hstart, hthere⟩ | hgoes
    · refine Or.inl ⟨⟨e, by rw [hfolder, hstart], ?_⟩, e, by rw [hfolder, hthere]⟩
      simp only [Found, hfolder, hthere]
    · exact Or.inr ⟨cs, _, rfl, rfl, by rw [hfolder, hgoes]⟩

/-- Where the directory above all files cannot be made, neither can that of any capture. -/
theorem blocked_of_failed (h : t.Linkless) (sound : t.Sound) (hnodes : ∀ node ∈ nodes, IsName node)
    {e : IoError} (hfailed : t.makeDirs 0o777 (top dir) = (cs, .error e))
    (hnot : ∀ base m, t.way (top dir) ≠ .ok (.taken base (.dir m)))
    (hx : x ∈ planned config dir nodes) :
    let Found := Foils (Straight t dir) (t.applyAll cs)
    (∃ e', (t.applyAll cs).makeDirs 0o777 x.2.folder = ([], .error e')) ∧
      (Refused Found t (t.applyAll cs) x.2 ∨ Enters Found t (t.applyAll cs) x.2) := by
  intro Found
  obtain ⟨above, inner, file, haim, -⟩ := aim_of_planned hnodes hx
  have hfolder := haim.folder_eq
  have hstraight (hs : Straight t dir) (hsome : cs ≠ []) : e ≠ .os .exists_ := by
    rintro rfl
    rw [Straight, hfailed] at hs
    exact hsome (hs rfl)
  by_cases hsome : cs = []
  · subst hsome
    have hfails : ∃ e', t.makeDirs 0o777 x.2.folder = ([], .error e') := by
      rw [hfolder]
      rcases haim.within with ⟨-, rfl⟩ | ⟨node, -, -, hnode⟩
      · exact ⟨e, hfailed⟩
      · exact (hnode.makeDirs_of_error h sound hfailed hnot).elim id fun hfailed => ⟨e, hfailed⟩
    obtain ⟨e', hfails⟩ := hfails
    refine ⟨⟨e', hfails⟩, Or.inr ⟨[], .error e', rfl, ⟨e', rfl, fun _ => ?_⟩, ?_⟩⟩
    · rw [FileTree.applyAll_nil, hfails]
    · rw [FileTree.applyAll_nil, hfails]
      rfl
  · have htop := (top_spec dir).1
    have hmakes := FileTree.makeDirs_makesOnWay 0o777 t (top dir)
    rw [hfailed] at hmakes
    obtain ⟨hmissing, hobstructs, ⟨e', hagain⟩, hreason⟩ :=
      h.makeDirs_again sound htop hfailed hsome
    rcases haim.within with ⟨-, rfl⟩ | ⟨node, -, -, hnode⟩
    · refine ⟨⟨e', by rw [hfolder, hagain]⟩, Or.inr ⟨cs, .error e, rfl, ⟨e, rfl, fun hs => ?_⟩, ?_⟩⟩
      · rw [hfolder, (hreason (hstraight hs hsome)).2.2]
      · rw [hfolder, hagain, hfailed, List.append_nil]
    · cases hcheck : FileTree.checkPath above with
      | error e' =>
        have hrefused (t : FileTree) : t.makeDirs 0o777 x.2.folder = ([], .error e') := by
          rw [hfolder, FileTree.makeDirs_refused hnode.text hcheck]
        refine ⟨⟨e', hrefused _⟩, Or.inl ⟨⟨e', hrefused _, e', rfl, fun _ => ?_⟩, e', hrefused _⟩⟩
        rw [hrefused]
      | ok _ =>
        obtain ⟨step, -, honward⟩ := hnode.toBeyond.way h sound
        rw [hmissing] at honward
        obtain ⟨step', -, honward'⟩ := hnode.toBeyond.way (hmakes.linkless h) (hmakes.sound sound)
        obtain ⟨e', he', hother⟩ := FileTree.onward_of_obstructs hobstructs step'
        have hthere : (t.applyAll cs).makeDirs 0o777 x.2.folder = ([], .error (.os e')) := by
          rw [hfolder]
          exact (hmakes.linkless h).makeDirs_blocked hnode.trimmed hnode.text hcheck
            (honward'.trans he') hother
        refine ⟨⟨_, hthere⟩, Or.inr ⟨cs, .error e, rfl, ⟨e, rfl, fun hs => ?_⟩, ?_⟩⟩
        · obtain ⟨rfl, hlong, -⟩ := hreason (hstraight hs hsome)
          rw [hlong] at he'
          cases he'
          rw [hthere]
        · rw [hthere, hfolder, hnode.makeDirs_of_missing h sound hcheck hfailed honward,
            List.append_nil]

end Start

theorem settled (hr : r.ByCommand printed answer) (hnodes : ∀ node ∈ nodes, IsName node)
    (hnodup : nodes.Nodup) (hreserved : "docker-info.txt" ∉ nodes) (linkless : h.tree.Linkless)
    (sound : h.tree.Sound) : Settled r config nodes dir printed h (Straight h.tree dir) := by
  have scene (cs : List FileTree.Change) {base : Location} {m : Nat}
      (hground : (h.tree.applyAll cs).Linkless)
      (hway : (h.tree.applyAll cs).way (top dir) = .ok (.taken base (.dir m)))
      (henter : ∀ x ∈ planned config dir nodes,
        let Found := fun (c : Capture) made =>
          made = ((h.tree.applyAll cs).makeDirs 0o777 c.folder).2
        Refused Found h.tree (h.tree.applyAll cs) x.2 ∨
          Enters Found h.tree (h.tree.applyAll cs) x.2) :
      Settled r config nodes dir printed h (Straight h.tree dir) := by
    obtain ⟨-, hrooted, hsteps⟩ := top_spec dir
    rw [FileTree.way_congr hrooted hsteps] at hway
    exact Scene.settled ⟨config, nodes, dir, printed, answer, h.tree.applyAll cs, base, m, hnodes,
      hnodup, hreserved, hground, hway⟩ hr ⟨cs, rfl⟩ henter _
  obtain ⟨cs, made, hmade⟩ : ∃ cs made, h.tree.makeDirs 0o777 (top dir) = (cs, made) := ⟨_, _, rfl⟩
  have hmakes := FileTree.makeDirs_makesOnWay 0o777 h.tree (top dir)
  by_cases hdir : ∃ base m, h.tree.way (top dir) = .ok (.taken base (.dir m))
  · obtain ⟨base, m, hway⟩ := hdir
    exact scene [] linkless hway fun x _ => Or.inr ⟨[], _, rfl, rfl, rfl⟩
  · cases made with
    | ok _ =>
      obtain ⟨base, m, hway⟩ :=
        linkless.way_of_makeDirs sound (top_spec dir).1 (congrArg Prod.snd hmade)
      rw [hmade] at hway hmakes
      exact scene cs (hmakes.linkless linkless) hway fun x hx =>
        enters_of_made linkless sound hnodes hmade hx
    | error e =>
      have hall {x : Place × Capture} (hx : x ∈ planned config dir nodes) :=
        blocked_of_failed linkless sound hnodes hmade (fun base m hway => hdir ⟨base, m, hway⟩) hx
      exact Blocked.settled (fun x hx => (hall hx).1) hnodes _ fun x hx => (hall hx).2

end NodeLogs.Collection
