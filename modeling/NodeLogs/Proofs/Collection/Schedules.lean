import NodeLogs.Proofs.Collection.Settling

/-!
Collections do not depend on the order in which the captures take their turns; but where the path of
the directory makes a detour, it may show in what is told of a failure.
-/

namespace NodeLogs.Collection

open Event (within)
open FileTree (Linkless mostLinks walk way)
open HostPath (IsName)

variable {σ : Type} {r : Runner σ} {config : Config} {dir : HostPath} {nodes : List String}
  {printed : Command → Bytes} {answer : Command → Outcome Unit} {h h' h'' : Host σ}
  {events events' : List (Event (Host σ))}

theorem flatMap_of_forall₂ {α β γ δ : Type} {R : α → β → Prop} {S : α → γ → Prop}
    {f : β → List δ} {g : γ → List δ} {as : List α} {bs : List β} {cs : List γ}
    (hbs : List.Forall₂ R as bs) (hcs : List.Forall₂ S as cs)
    (hsame : ∀ a ∈ as, ∀ b c, R a b → S a c → f b = g c) : bs.flatMap f = cs.flatMap g := by
  induction hbs generalizing cs with
  | nil =>
    cases hcs
    rfl
  | @cons a b as bs hb _ ih =>
    cases hcs with
    | @cons _ c _ cs hc hcs =>
      rw [List.flatMap_cons, List.flatMap_cons, hsame a List.mem_cons_self b c hb hc,
        ih hcs fun a' ha' => hsame a' (List.mem_cons_of_mem a ha')]

/-- What two runs of the same captures tell. -/
theorem Settled.faults {straight : Prop} (hsettled : Settled r config nodes dir printed h straight)
    {capturing capturing' : Outcome Unit}
    (hrun : Task.Run [] (captures r config nodes dir) h events (.ended capturing) h')
    (hrun' : Task.Run [] (captures r config nodes dir) h events' (.ended capturing') h'') :
    capturing.faults.map Fault.contexts = capturing'.faults.map Fault.contexts ∧
      (straight → capturing.faults = capturing'.faults) := by
  obtain ⟨outcomes, hattempts, hfaults, -⟩ := captures_attempted hrun
  obtain ⟨outcomes', hattempts', hfaults', -⟩ := captures_attempted hrun'
  have hends := hsettled.ends ⟨_, hrun⟩ ⟨_, hrun'⟩
  rw [hfaults, hfaults', List.map_flatMap, List.map_flatMap]
  refine ⟨flatMap_of_forall₂ hattempts hattempts' fun x hx o o' ho ho' =>
    (hends x hx o o' ho ho').1, fun hs => ?_⟩
  refine flatMap_of_forall₂ hattempts hattempts' fun x hx o o' ho ho' => ?_
  rw [(hends x hx o o' ho ho').2 hs]

/-- A path that never goes up passes nothing but what is above the place that it leads to. -/
theorem above_of_passes {t : FileTree} (h : t.Linkless) (hup : ".." ∉ dir.steps) {loc : Location}
    (hpass : t.Passes dir loc) : ∃ base, t.leadsTo? dir = some base ∧ loc <+: base := by
  have hnames : ∀ n ∈ dir.steps, IsName n := fun n hn => FileTree.isName_of_mem_steps hup hn
  obtain ⟨left, ahead, hahead, hlead⟩ := hpass
  rw [h.lead_down fun n hn => hnames n (hahead.subset hn)] at hlead
  obtain ⟨-, rfl⟩ := Prod.mk.inj (Option.some.inj hlead)
  refine ⟨t.start dir ++ dir.steps, ?_, List.prefix_append_right_inj _ |>.mpr hahead⟩
  exact FileTree.leadsTo?_eq_some_iff.mpr ⟨_, h.lead_down hnames _ _⟩

/-- A file that a capture opens stands where the path of the capture leads. -/
theorem Opens.leadsTo? (hr : r.LeavesFiles)
    {capturing : Outcome Unit}
    (hrun : Task.Run [] (captures r config nodes dir) h events (.ended capturing) h')
    {x : Place × Capture} {loc : Location} (hopens : Opens events x loc) :
    h.tree.leadsTo? x.2.path = some loc := by
  obtain ⟨first, second, rest, hturns, hcreated⟩ := hopens
  have hmem : second ∈ within x.1 events := by simp [hturns]
  rw [← (captures_sameLinks hr hrun second (List.mem_filter.mp hmem).1).leadsTo?]
  rw [(createFile_spec x.2.path second.before).2] at hcreated
  split at hcreated
  · next loc' opened hopen =>
    cases hcreated
    exact (FileTree.openForWriting_spec hopen).1
  · cases hcreated

/-- In whatever order the captures take their turns, the files come out as if they had been made one
after the other, and so does the report: it tells of the same failures, and where the way to the
directory is straight, also the same of each. Every capture that could open its file leaves in it
what was printed, and outside of the directory nothing changes, but for directories that are made on
the way there: unless the path goes up again, those above it. -/
theorem collections_agree (hr : r.ByCommand printed answer) (hnodes : ∀ node ∈ nodes, IsName node)
    (hnodup : nodes.Nodup) (hreserved : "docker-info.txt" ∉ nodes) (linkless : h.tree.Linkless)
    (sound : h.tree.Sound) {report : Report}
    (hcollects : Collects r config nodes dir h events report h') :
    let inTurn := (collect r config nodes dir).run h
    report.faults.map Fault.contexts = inTurn.1.faults.map Fault.contexts ∧
      (".." ∉ dir.steps ∨ Straight (copied r config nodes dir h).tree dir → report = inTurn.1) ∧
      h'.tree.toCaller = inTurn.2.tree.toCaller ∧
      (∀ loc, h'.tree.at? loc = inTurn.2.tree.at? loc) ∧
      (∀ x ∈ planned config dir nodes, ∀ loc, Opens events x loc →
        h.tree.leadsTo? x.2.path = some loc ∧
          ((∃ mode, h'.tree.at? loc = some (.file mode (printed x.2.command))) ∨
            ∃ d, h.tree.at? loc = some (.device d) ∧ h'.tree.at? loc = some (.device d))) ∧
      ∀ loc, ¬ h.tree.Inside dir loc →
        h'.tree.at? loc = h.tree.at? loc ∨
          (h.tree.at? loc = none ∧ (∃ mode, h'.tree.at? loc = some (.dir mode)) ∧
            h.tree.Passes dir loc ∧
            (".." ∉ dir.steps → ∃ base, h.tree.leadsTo? dir = some base ∧ loc <+: base)) := by
  intro inTurn
  have hunlinked : h.tree.Unlinked dir := fun loc _ => linkless loc
  have hleaves := hr.toLeavesFiles
  have hcopied := copied_extent hleaves config hnodes hunlinked
  have hlinkless := hcopied.sameLinks.linkless linkless
  have hsound := hcopied.sound sound
  have hsettled : Settled r config nodes dir printed (copied r config nodes dir h) _ :=
    settled hr hnodes hnodup hreserved hlinkless hsound
  obtain ⟨events', hplan⟩ := collect_in_turn r config nodes dir h
  have hextent := collects_extent hleaves hnodes hunlinked hcollects
  have hcaller : h'.tree.toCaller = inTurn.2.tree.toCaller :=
    hextent.sameLinks.2.trans (collects_extent hleaves hnodes hunlinked hplan).sameLinks.2.symm
  obtain ⟨hrun⟩ := hcollects
  change Collects r config nodes dir h events' inTurn.1 inTurn.2 at hplan
  generalize inTurn = turns at hplan hcaller ⊢
  obtain ⟨report', h''⟩ := turns
  obtain ⟨hrun'⟩ := hplan
  obtain ⟨hcontexts, hfaults⟩ := hsettled.faults hrun hrun'
  refine ⟨?_, fun hdir => ?_, hcaller, hsettled.same ⟨_, hrun⟩ ⟨_, hrun'⟩, ?_, ?_⟩
  · simp only [Report.ofFailures, List.flatMap_append, Outcome.flatMap_failure?, List.map_append,
      hcontexts]
  · have hstraight := hdir.elim (straight_of_steps hlinkless hsound) id
    simp only [Report.ofFailures, List.flatMap_append, Outcome.flatMap_failure?, hfaults hstraight]
  · intro x hx loc hopens
    refine ⟨?_, (hsettled.filled ⟨_, hrun⟩ x hx loc hopens).imp_right ?_⟩
    · rw [← hcopied.sameLinks.leadsTo?]
      exact hopens.leadsTo? hleaves hrun
    · rintro ⟨d, hdevice, hend⟩
      obtain ⟨cs, hcs, -⟩ := hcopied.stays
      rw [hcs] at hdevice
      exact ⟨d, FileTree.device_of_applyAll hdevice, hend⟩
  · intro loc hloc
    refine (hextent.outside hloc).imp_right ?_
    rintro ⟨hfree, hpass, hmade⟩
    exact ⟨hfree, hmade, hpass, fun hup => above_of_passes linkless hup hpass⟩

/-! Captures of a node before that of the host -/

/-- The host when the captures begin, which is noted. -/
def outset (r : Runner σ) (config : Config) (nodes : List String) (dir : HostPath) (h : Host σ) :
    Host σ :=
  (copied r config nodes dir h).note
    (.debug s!"Running {(plan r config dir nodes).length} action(s) concurrently")

theorem collects_last_first (r : Runner σ) (config : Config) (node : String) (dir : HostPath)
    (h : Host σ) :
    let onNode := (bundle r config dir node).run [1] (outset r config [node] dir h)
    let onHost := ((Capture.ofHost config dir).action r).run [0] onNode.1
    ∃ events, Collects r config [node] dir h events
      (.ofFailures (((copyAll r config dir [node]).run h).1 ++
        (Outcome.failure? (Action.gathered [] [onHost.2, onNode.2])).toList)) onHost.1 := by
  intro onNode onHost
  obtain ⟨events, hrun⟩ := Task.run_last_first ((Capture.ofHost config dir).action r)
    (bundle r config dir node) [] [] (outset r config [node] dir h)
  exact ⟨_, .intro (.step (.act [] _ _ _) hrun)⟩

/-- One file alone. -/
def fileAlone : FileTree := ⟨{}, [(["f"], .file 0o644 [])]⟩

theorem fileAlone_linkless : fileAlone.Linkless := by
  intro loc
  simp only [FileTree.link?, FileTree.at?, fileAlone, List.lookup_cons, List.lookup_nil]
  grind

theorem fileAlone_sound : fileAlone.Sound where
  above loc name hat := by
    simp only [FileTree.at?, fileAlone, List.lookup_cons, List.lookup_nil] at hat
    by_cases hf : loc ++ [name] = ["f"]
    · have hroot : loc = [] := by simpa using congrArg List.dropLast hf
      rw [hroot]
      exact FileTree.isDir_nil _
    · have hother : (loc ++ [name] == ["f"]) = false := by simpa using hf
      simp [hother] at hat
  workingDir := FileTree.isDir_nil _

/-- Prints the text of each command. -/
def echoing : Runner Unit where
  run _ := return .error (.ofMessage "refused")
  capture c := return (Utf8.encode c.display, .ok ())
  lines _ := return .error (.ofMessage "refused")
  stream _ := return .refused (.ofMessage "refused")

theorem echoing_byCommand : echoing.ByCommand (fun c => Utf8.encode c.display) fun _ => .ok () where
  run _ _ := rfl
  capture _ _ := rfl
  lines _ _ := rfl
  stream _ _ := rfl
  prints _ _ := rfl

theorem echoes_agree :
    let start : Host Unit := ⟨fileAlone, [], ()⟩
    let inTurn := (collect echoing .standard ["n"] ⟨"out"⟩).run start
    let onNode := (bundle echoing .standard ⟨"out"⟩ "n").run [1]
      (outset echoing .standard ["n"] ⟨"out"⟩ start)
    let onHost := ((Capture.ofHost .standard ⟨"out"⟩).action echoing).run [0] onNode.1
    inTurn.1 = .ofFailures (((copyAll echoing .standard ⟨"out"⟩ ["n"]).run start).1 ++
        (Outcome.failure? (Action.gathered [] [onHost.2, onNode.2])).toList) ∧
      ∀ loc, onHost.1.tree.at? loc = inTurn.2.tree.at? loc := by
  intro start
  obtain ⟨events, hcollects⟩ := collects_last_first echoing .standard "n" ⟨"out"⟩ start
  obtain ⟨-, hreport, -, htree, -⟩ := collections_agree echoing_byCommand (by decide) (by decide)
    (by decide) fileAlone_linkless fileAlone_sound hcollects
  have hup : ".." ∉ (⟨"out"⟩ : HostPath).steps := by decide
  dsimp only
  exact ⟨(hreport (Or.inl hup)).symm, htree⟩

/-! A detour -/

/-- One after the other, the host's capture comes first, and what it fails with is told first. -/
theorem faults_in_turn (r : Runner σ) (config : Config) (nodes : List String) (dir : HostPath)
    (h : Host σ) :
    ∃ rest, ((collect r config nodes dir).run h).1.faults =
      ((copyAll r config dir nodes).run h).1.flatMap Failure.faults ++
        ((((Capture.ofHost config dir).action r).run [0] (outset r config nodes dir h)).2.faults ++
          rest) := by
  rw [run_collect]
  simp only [Report.ofFailures, List.flatMap_append, Outcome.flatMap_failure?, Capture.together,
    Action.run, Action.faults_gathered]
  exact ⟨_, rfl⟩

/-- Without nodes there is only the capture of the host. -/
theorem collect_onHost (r : Runner σ) (config : Config) (dir : HostPath) (h : Host σ) :
    ((collect r config [] dir).run h).2 =
      (((Capture.ofHost config dir).action r).run [0] (outset r config [] dir h)).1 := by
  rw [run_collect]
  simp only [Capture.together, plan, List.map_nil, Action.run, Action.runAll]
  rfl

theorem run_of_makeParent {c : Capture} {f : Failure}
    (hfails : Capture.makeParent c.path h = (h', .error f)) (place : Place) :
    (c.action r).run place h = (h', .error f) := by
  rw [Capture.action, Capture.attempt, Action.run, hfails]
  rfl

/-- Captures that all fail to make their directories leave the host as it is. -/
theorem runAll_of_makeParent {cs : List Capture}
    (hfails : ∀ c ∈ cs, ∃ f, Capture.makeParent c.path h = (h, .error f)) (place : Place)
    (n : Nat) : (Action.runAll place n (cs.map (Capture.action r)) h).1 = h := by
  induction cs generalizing n with
  | nil => rfl
  | cons c cs ih =>
    obtain ⟨f, hfirst⟩ := hfails c List.mem_cons_self
    rw [List.map_cons, Action.runAll, run_of_makeParent hfirst]
    exact ih (fun c hc => hfails c (List.mem_cons_of_mem _ hc)) (n + 1)

/-- A path that goes into a missing directory and up again, to a place below a file. -/
def detour : HostPath := ⟨"a/../f/b"⟩

def made : FileTree.Change := .makeDir ["a"] 0o755

theorem way_missing {step : String} {rest : List String} :
    fileAlone.walk true mostLinks [] ("a" :: step :: rest) = .error .noEntry := by
  rw [fileAlone_linkless.walk_name _ _ _ (by decide) (by decide), if_neg (by decide)]
  simp [FileTree.at?, fileAlone, List.lookup_cons]

theorem way_back (rest : List String) :
    (fileAlone.apply made).walk true mostLinks [] ("a" :: ".." :: rest) =
      (fileAlone.apply made).walk true mostLinks [] rest := by
  have hat : (fileAlone.apply made).at? ["a"] = some (.dir 0o755) := by decide
  rw [FileTree.walk_into (by decide) (by decide) (by decide) hat, FileTree.walk_step_up]
  rfl

theorem makeDirs_detour :
    fileAlone.makeDirs 0o777 detour = ([made], .error (.os .exists_)) := by
  have hfile : HostPath.parent? ⟨"a/../f"⟩ = some ⟨"a/.."⟩ := by decide
  have hup : HostPath.parent? ⟨"a/.."⟩ = some ⟨"a"⟩ := by decide
  have hdir : HostPath.parent? detour = some ⟨"a/../f"⟩ := by decide
  have hroot : (fileAlone.applyAll [made]).way ⟨"a/.."⟩ = .ok (.taken [] (.dir 0o755)) :=
    (way_back []).trans (by rw [walk]; rfl)
  have hf : (fileAlone.applyAll [made]).way ⟨"a/../f"⟩ = .ok (.taken ["f"] (.file 0o644 [])) :=
    (way_back ["f"]).trans (by rw [walk]; rfl)
  have hfree : fileAlone.way ⟨"a"⟩ = .ok (.free [] "a") := by
    change fileAlone.walk true mostLinks [] ["a"] = _
    rw [walk]
    rfl
  have hinto : fileAlone.makeDirs 0o777 ⟨"a"⟩ = ([made], .ok ()) :=
    fileAlone_linkless.makeDirs_free (HostPath.parent?_trimmed hup) (by decide)
      (FileTree.checkPath_eq_ok.mpr (by decide)) hfree
  have hback : fileAlone.makeDirs 0o777 ⟨"a/.."⟩ = ([made], .ok ()) :=
    fileAlone_linkless.makeDirs_there fileAlone_sound (HostPath.parent?_trimmed hfile) (by decide)
      (FileTree.checkPath_eq_ok.mpr (by decide)) hup hinto way_missing hroot
  have hblocked : fileAlone.makeDirs 0o777 ⟨"a/../f"⟩ = ([made], .error (.os .exists_)) :=
    fileAlone_linkless.makeDirs_there fileAlone_sound (HostPath.parent?_trimmed hdir) (by decide)
      (FileTree.checkPath_eq_ok.mpr (by decide)) hfile hback way_missing hf
  have hbeyond : FileTree.Beyond detour ⟨"a/../f"⟩ :=
    ⟨hdir, Or.inr ⟨["a", "..", "f"], "b", by decide, by decide⟩, by decide, "b", by decide⟩
  exact hbeyond.makeDirs_of_missing fileAlone_linkless fileAlone_sound
    (FileTree.checkPath_eq_ok.mpr (by decide)) hblocked way_missing

theorem top_detour : top detour = detour := by decide

theorem makeDirs_node :
    fileAlone.makeDirs 0o777 (detour.join "n") = ([made], .error (.os .exists_)) := by
  have hnames := names_join detour (show IsName "n" by decide)
  rw [top_detour] at hnames
  exact hnames.makeDirs_of_missing fileAlone_linkless fileAlone_sound
    (FileTree.checkPath_eq_ok.mpr (by decide)) makeDirs_detour way_missing

/-- Once the detour was made, the file is in the way. -/
theorem makeDirs_made {p : HostPath} {rest : List String} (hp : p.Trimmed) (hne : p.text ≠ "")
    (hcheck : FileTree.checkPath p = .ok ()) (hrooted : p.isRooted = false)
    (hsteps : p.steps = "a" :: ".." :: "f" :: rest) (hrest : rest ≠ []) :
    (fileAlone.apply made).makeDirs 0o777 p = ([], .error (.os .notDirectory)) := by
  have hlinkless : (fileAlone.apply made).Linkless :=
    (FileTree.SameLinks.apply rfl).linkless fileAlone_linkless
  have hat : (fileAlone.apply made).at? ["f"] = some (.file 0o644 []) := by decide
  have hway : (fileAlone.apply made).way p = .error .notDirectory := by
    rw [way, hsteps, FileTree.start, hrooted]
    refine (way_back _).trans ?_
    rw [hlinkless.walk_name _ _ _ (by decide) (by decide), if_neg (by decide), List.nil_append, hat]
    exact if_neg hrest
  exact hlinkless.makeDirs_blocked hp hne hcheck hway (by rintro ⟨⟩)

/-- The detour leads to a place that is not below the directory on it. -/
theorem leadsTo?_detour : fileAlone.leadsTo? detour = some ["f", "b"] := by
  have hsteps : detour.steps = ["a", "..", "f", "b"] := by decide
  have hstart : fileAlone.start detour = [] := rfl
  rw [FileTree.leadsTo?_eq_some_iff, hsteps, hstart]
  refine ⟨mostLinks, ?_⟩
  rw [FileTree.lead_down _ (by decide) (by decide) (fileAlone_linkless _), FileTree.lead_up,
    FileTree.lead_down _ (by decide) (by decide) (fileAlone_linkless _),
    FileTree.lead_down _ (by decide) (by decide) (fileAlone_linkless _), FileTree.lead]
  rfl

theorem tree_of_change (htree : h.tree = fileAlone) :
    (h.change [made]).tree = fileAlone.apply made :=
  congrArg (FileTree.apply · made) htree

theorem makeParent_of_error {path above : HostPath} (hparent : path.parent? = some above)
    {cs : List FileTree.Change} {e : IoError}
    (hfails : h.tree.makeDirs 0o777 above = (cs, .error e)) : Capture.makeParent path h =
      (h.change cs, Capture.ioFailure ("Failed to create directory " ++ above.text) e) := by
  rw [Capture.makeParent_eq hparent, hfails]

theorem parent?_ofHost : (Capture.ofHost .standard detour).path.parent? = some detour := by decide

theorem parent?_ofNode :
    ∀ c ∈ Capture.ofNode .standard "n" (detour.join "n"),
      c.path.parent? = some (detour.join "n") := by
  decide

/-- The captures of the node make the detour and nothing else. -/
theorem tree_of_runAll (place : Place) (n : Nat) (htree : h.tree = fileAlone) :
    (Action.runAll place n ((Capture.ofNode .standard "n" (detour.join "n")).map (Capture.action r))
      h).1.tree = fileAlone.apply made := by
  have hparent := parent?_ofNode
  obtain ⟨c, cs, hcons⟩ : ∃ c cs, Capture.ofNode .standard "n" (detour.join "n") = c :: cs :=
    ⟨_, _, rfl⟩
  rw [hcons] at hparent ⊢
  have hfirst := makeParent_of_error (hparent c List.mem_cons_self) (htree ▸ makeDirs_node)
  have hsteps : (detour.join "n").steps = ["a", "..", "f", "b", "n"] := by decide
  have hlater : (h.change [made]).tree.makeDirs 0o777 (detour.join "n") =
      ([], .error (.os .notDirectory)) := by
    rw [tree_of_change htree]
    exact makeDirs_made (names_join detour (by decide)).trimmed (by decide)
      (FileTree.checkPath_eq_ok.mpr (by decide)) (by decide) hsteps (List.cons_ne_nil _ _)
  rw [List.map_cons, Action.runAll, run_of_makeParent hfirst]
  simp only
  rw [runAll_of_makeParent fun c hc =>
    ⟨_, makeParent_of_error (hparent c (List.mem_cons_of_mem _ hc)) hlater⟩]
  exact tree_of_change htree

theorem tree_of_bundle (place : Place) (htree : h.tree = fileAlone) :
    ((bundle r .standard detour "n").run place h).1.tree = fileAlone.apply made := by
  simp only [bundle, Capture.together, Action.run]
  exact tree_of_runAll place 0 htree

theorem run_onHost_in_turn (place : Place) (htree : h.tree = fileAlone) :
    ((Capture.ofHost .standard detour).action r).run place h =
      (h.change [made],
        Capture.ioFailure ("Failed to create directory " ++ detour.text) (.os .exists_)) :=
  run_of_makeParent (makeParent_of_error parent?_ofHost (htree ▸ makeDirs_detour)) place

theorem run_onHost_last (place : Place) (htree : h.tree = fileAlone.apply made) :
    ((Capture.ofHost .standard detour).action r).run place h =
      (h, Capture.ioFailure ("Failed to create directory " ++ detour.text)
        (.os .notDirectory)) := by
  have hfails : h.tree.makeDirs 0o777 detour = ([], .error (.os .notDirectory)) := by
    rw [htree]
    have hsteps : detour.steps = ["a", "..", "f", "b"] := by decide
    exact makeDirs_made (top_detour ▸ (top_spec detour).1) (by decide)
      (FileTree.checkPath_eq_ok.mpr (by decide)) (by decide) hsteps (List.cons_ne_nil _ _)
  exact run_of_makeParent (makeParent_of_error parent?_ofHost hfails) place

theorem detour_shows_order :
    let start : Host Unit := ⟨fileAlone, [], ()⟩
    fileAlone.Linkless ∧ fileAlone.Sound ∧ IsName "n" ∧
      echoing.ByCommand (fun c => Utf8.encode c.display) (fun _ => .ok ()) ∧
      (∃ events report h', Collects echoing .standard ["n"] detour start events report h' ∧
        report ≠ ((collect echoing .standard ["n"] detour).run start).1) ∧
      ∃ events report h', Collects echoing .standard [] detour start events report h' ∧
        fileAlone.leadsTo? detour = some ["f", "b"] ∧ fileAlone.at? ["a"] = none ∧
        h'.tree.at? ["a"] = some (.dir 0o755) := by
  intro start
  refine ⟨fileAlone_linkless, fileAlone_sound, by decide, echoing_byCommand, ?_, ?_⟩
  · have htree : (outset echoing .standard ["n"] detour start).tree = fileAlone := rfl
    obtain ⟨events, hcollects⟩ := collects_last_first echoing .standard "n" detour start
    obtain ⟨rest, hturn⟩ := faults_in_turn echoing .standard ["n"] detour start
    refine ⟨_, _, _, hcollects, fun hsame => ?_⟩
    rw [← hsame, run_onHost_in_turn _ htree, run_onHost_last _ (tree_of_bundle _ htree),
      Report.ofFailures, List.flatMap_append, Outcome.flatMap_failure?, Action.faults_gathered]
      at hturn
    cases (List.cons.inj (List.append_cancel_left hturn)).1
  · obtain ⟨events, hcollects⟩ := collect_in_turn echoing .standard [] detour start
    have htree : (outset echoing .standard [] detour start).tree = fileAlone := rfl
    refine ⟨_, _, _, hcollects, leadsTo?_detour, rfl, ?_⟩
    rw [collect_onHost, run_onHost_in_turn _ htree, tree_of_change htree]
    decide

end NodeLogs.Collection
