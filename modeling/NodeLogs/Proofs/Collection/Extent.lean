import NodeLogs.Proofs.Collection.Places
import NodeLogs.Proofs.Unpack.Containment

/-!
How far a collection reaches. At every moment of it, nothing has changed outside of the directory
that is collected into, but for directories that were missing on the way there.
-/

namespace NodeLogs

open FileTree (Change MakesOnWay SameLinks)
open HostPath (IsName below)
open Unpack (Stays)

theorem Unpack.Stays.mono {inside way inside' way' : Location → Prop} {t : FileTree}
    {cs : List Change} (hinside : ∀ loc, inside loc → inside' loc)
    (hway : ∀ loc, way loc → inside' loc ∨ way' loc) (h : Stays inside way t cs) :
    Stays inside' way' t cs := by
  induction cs generalizing t with
  | nil => trivial
  | cons c cs ih =>
    refine ⟨?_, ih h.2⟩
    rcases h.1 with ⟨hin, hlink⟩ | ⟨hon, hfree, hmake⟩
    · exact Or.inl ⟨hinside _ hin, hlink⟩
    · rcases hway _ hon with hin | hon
      · exact Or.inl ⟨hin, by simp [FileTree.link?, hfree]⟩
      · exact Or.inr ⟨hon, hfree, hmake⟩

namespace FileTree

variable {t t' t'' : FileTree} {dir dest p : HostPath} {mode : Nat}

/-- From one tree to another only what is inside a directory changes, and outside of it directories
may be made on the way there. -/
structure Extent (dir : HostPath) (t t' : FileTree) : Prop where
  stays : ∃ cs, t' = t.applyAll cs ∧ Stays (t.Inside dir) (t.Passes dir) t cs
  sound : t.Sound → t'.Sound

namespace Extent

theorem refl (dir : HostPath) (t : FileTree) : Extent dir t t := ⟨⟨[], rfl, trivial⟩, id⟩

theorem sameLinks (h : Extent dir t t') : SameLinks t t' := by
  obtain ⟨cs, rfl, hstays⟩ := h.stays
  exact hstays.sameLinks

theorem trans (h : Extent dir t t') (h' : Extent dir t' t'') : Extent dir t t'' := by
  have hsame := h.sameLinks
  obtain ⟨cs, rfl, hstays⟩ := h.stays
  obtain ⟨ds, rfl, hstays'⟩ := h'.stays
  rw [funext fun loc => propext (hsame.inside_iff dir loc),
    funext fun loc => propext (hsame.passes_iff dir loc)] at hstays'
  exact ⟨⟨cs ++ ds, (applyAll_append t cs ds).symm, hstays.append hstays'⟩, h'.sound ∘ h.sound⟩

theorem outside (h : Extent dir t t') {loc : Location} (hloc : ¬ t.Inside dir loc) :
    t'.at? loc = t.at? loc ∨
      (t.at? loc = none ∧ t.Passes dir loc ∧ ∃ mode, t'.at? loc = some (.dir mode)) := by
  obtain ⟨cs, rfl, hstays⟩ := h.stays
  exact hstays.outside hloc

theorem inside_of_join {names : List String} (hnames : ∀ n ∈ names, IsName n)
    (hunlinked : t.Unlinked dir) {loc : Location} (hloc : t.Inside (dir.join (below names)) loc) :
    t.Inside dir loc := by
  obtain ⟨base, hbase, hbelow⟩ := hloc
  rw [leadsTo?_join hnames hunlinked, Option.map_eq_some_iff] at hbase
  obtain ⟨base, hbase, rfl⟩ := hbase
  exact ⟨base, hbase, (List.prefix_append base names).trans hbelow⟩

/-- What stays in a directory below another stays in that one. -/
theorem above {names : List String} (hnames : ∀ n ∈ names, IsName n) (hunlinked : t.Unlinked dir)
    (h : Extent (dir.join (below names)) t t') : Extent dir t t' := by
  obtain ⟨cs, rfl, hstays⟩ := h.stays
  exact ⟨⟨cs, rfl, hstays.mono (fun _ => inside_of_join hnames hunlinked) fun _ =>
    passes_join hnames hunlinked⟩, h.sound⟩

theorem of_makesOnWay {cs : List Change} (h : MakesOnWay mode p t cs)
    (hway : ∀ loc, t.Passes p loc → t.Inside dir loc ∨ t.Passes dir loc) :
    Extent dir t (t.applyAll cs) :=
  ⟨⟨cs, rfl, .of_makesOnWay h hway⟩, h.sound⟩

/-- Only the one file is changed, which stands in a directory. -/
theorem of_file {loc : Location} {cs : List Change} (hloc : t.Inside dir loc)
    (hlink : t.link? loc = none) (hnot : ¬ t.IsDir loc) (habove : t.Sound → t.IsDir loc.dropLast)
    (hplaces : ∀ c ∈ cs, c.place = loc) (hfile : ∀ c ∈ cs, ∀ l mode, c ≠ .makeDir l mode) :
    Extent dir t (t.applyAll cs) := by
  refine ⟨⟨cs, rfl, .of_places hloc hlink hplaces⟩, fun sound => ?_⟩
  replace habove := habove sound
  clear hloc hlink
  have hroot : loc.dropLast ≠ loc := by
    intro heq
    exact hnot (heq ▸ habove)
  induction cs generalizing t with
  | nil => exact sound
  | cons c cs ih =>
    obtain rfl := hplaces c List.mem_cons_self
    have hkeeps (l : Location) (hl : l ≠ c.place) : (t.apply c).at? l = t.at? l := by
      rw [at?_apply, if_neg fun h => hl h.1]
    refine ih ?_ (fun d hd => hplaces d (List.mem_cons_of_mem c hd))
      (fun d hd => hfile d (List.mem_cons_of_mem c hd)) (sound.apply habove hnot) ?_
    · rintro ⟨mode, hmode⟩
      rw [at?_apply] at hmode
      split at hmode
      · have hold : t.at? c.place ≠ some (.dir mode) := fun hdir => hnot ⟨mode, hdir⟩
        have hmake := hfile c List.mem_cons_self
        cases c with
        | makeDir l m => exact hmake l m rfl
        | createFile l m => cases hmode
        | truncate l | append l bytes | setMode l m =>
          cases hat : t.at? l with
          | none => simp [Change.place, Change.on, Change.onFile, hat] at hmode
          | some e => cases e <;> simp_all [Change.place, Change.on, Change.onFile]
      · exact hnot ⟨mode, hmode⟩
    · obtain ⟨mode, hmode⟩ := habove
      exact ⟨mode, by rw [hkeeps _ hroot, hmode]⟩

end Extent

theorem openForWriting_place {loc : Location} {c : Change}
    (hopen : t.openForWriting mode p = .ok (loc, c)) :
    c.place = loc ∧ t.link? loc = none ∧ ¬ t.IsDir loc ∧ (t.Sound → t.IsDir loc.dropLast) ∧
      ∀ l mode, c ≠ .makeDir l mode := by
  rcases (openForWriting_spec hopen).2 with ⟨rfl, hat⟩ | ⟨rfl, hat, hdir⟩
  · refine ⟨rfl, ?_, ?_, fun sound => sound.isDir_dropLast ?_, by rintro _ _ ⟨⟩⟩ <;>
      rcases hat with ⟨m, data, hat⟩ | ⟨d, hat⟩ <;> simp [link?, IsDir, hat]
  · exact ⟨rfl, by simp [link?, hat], not_isDir_of_free hat, hdir, by rintro _ _ ⟨⟩⟩

end FileTree

open FileTree (Extent)

namespace Unpack

variable {t : FileTree} {dest : HostPath}

theorem file_extent {loc : Location} {dir path : HostPath} (hpath : t.leadsTo? path = some loc)
    (hloc : t.Inside dir loc) (mode expected : Nat) (body : Archive.Body) :
    Extent dir t (t.applyAll (file t path mode expected body).changes) := by
  rcases file_changes t path mode expected body with hnone | ⟨loc', opened, hopen, hchanges⟩
  · rw [hnone]
    exact .refl dir t
  · obtain ⟨hplace, hlink, hnot, habove, hfile⟩ := FileTree.openForWriting_place hopen
    obtain rfl : loc = loc' :=
      Option.some.inj (hpath.symm.trans (FileTree.openForWriting_spec hopen).1)
    rw [hchanges]
    have hwritten : ∀ c ∈ (fill (t.apply opened) loc body).1,
        c.place = loc ∧ ∀ l mode, c ≠ .makeDir l mode := by
      intro c hc
      refine ⟨fill_places _ _ _ c hc, ?_⟩
      rcases fill_changes (t.apply opened) loc body with hall | ⟨hnone, -⟩
      · rw [hall] at hc
        cases List.mem_singleton.mp hc
        exact nofun
      · rw [hnone] at hc
        cases hc
    refine .of_file hloc hlink hnot habove ?_ ?_
    · simp only [List.cons_append, List.forall_mem_cons, List.forall_mem_append]
      exact ⟨hplace, fun c hc => (hwritten c hc).1, rfl, nofun⟩
    · simp only [List.cons_append, List.forall_mem_cons, List.forall_mem_append]
      exact ⟨hfile, fun c hc => (hwritten c hc).2, nofun, nofun⟩

theorem member_extent (h : t.Unlinked dest) (m : Archive.Member) :
    Extent dest t (t.applyAll (member t dest m).changes) := by
  rcases member_acts t dest m with hnone | ⟨path, htarget, hacts⟩
  · rw [hnone]
    exact .refl dest t
  obtain ⟨names, -, hnames, rfl⟩ := target?_spec htarget
  rcases hacts with ⟨-, size, mode, hfile⟩ | ⟨-, hdirectory⟩
  · rw [hfile]
    rcases file_places t (dest.join (below names)) mode size m.body with hnone | ⟨loc, hlead, -⟩
    · rw [hnone]
      exact .refl dest t
    · have hinside := hlead
      rw [FileTree.leadsTo?_join hnames h, Option.map_eq_some_iff] at hinside
      obtain ⟨base, hbase, rfl⟩ := hinside
      exact file_extent hlead ⟨base, hbase, List.prefix_append base names⟩ mode size m.body
  · rw [hdirectory]
    exact .of_makesOnWay (directory_changes t _) fun loc hpass =>
      FileTree.passes_join hnames h hpass

theorem members_extent (h : t.Unlinked dest) (ending : Except Archive.Error Unit)
    (ms : List Archive.Member) :
    Extent dest t (t.applyAll (members t dest ending ms).changes) := by
  induction ms generalizing t with
  | nil => exact .refl dest t
  | cons m rest ih =>
    have hm := member_extent h m
    rw [members]
    split
    · exact hm
    · rw [FileTree.applyAll_append]
      exact hm.trans (ih (hm.sameLinks.unlinked h))

end Unpack

/-! Copies -/

variable {σ α β : Type} {dir : HostPath}

/-- What runs on a host and leaves its files as they are, but for what is inside a directory and the
way there. -/
def StaysIn (dir : HostPath) (a : Hosted σ α) : Prop :=
  ∀ h, h.tree.Unlinked dir → Extent dir h.tree (a.run h).2.tree

namespace StaysIn

theorem of_tree {a : Hosted σ α} (h : ∀ h, (a.run h).2.tree = h.tree) : StaysIn dir a := by
  intro host _
  rw [h host]
  exact .refl dir host.tree

theorem pure (a : α) : StaysIn dir (pure a : Hosted σ α) := of_tree fun _ => rfl

theorem note (line : LogLine) : StaysIn dir (modify (Host.note line) : Hosted σ Unit) :=
  of_tree fun _ => rfl

theorem bind {a : Hosted σ α} {next : α → Hosted σ β} (h : StaysIn dir a)
    (hnext : ∀ x, StaysIn dir (next x)) : StaysIn dir (a >>= next) := by
  intro host hunlinked
  have hfirst := h host hunlinked
  rw [StateT.run_bind]
  exact hfirst.trans (hnext _ _ (hfirst.sameLinks.unlinked hunlinked))

end StaysIn

/-- A runner that leaves the files of the host alone. -/
structure Runner.LeavesFiles (r : Runner σ) : Prop where
  run : ∀ c h, ((r.run c).run h).2.tree = h.tree
  capture : ∀ c h, ((r.capture c).run h).2.tree = h.tree
  lines : ∀ c h, ((r.lines c).run h).2.tree = h.tree
  stream : ∀ c h, ((r.stream c).run h).2.tree = h.tree

namespace Staging

variable {r : Runner σ}

theorem make_staysIn (hr : r.LeavesFiles) (node : String) : StaysIn dir (make r node) := by
  refine .bind (.of_tree (hr.lines _)) fun answer => ?_
  rcases answer with f | (_ | ⟨path, _ | ⟨other, rest⟩⟩) <;> exact .pure _

theorem receive_staysIn (hr : r.LeavesFiles) (c : Command) (nodeDir : String) (dest : HostPath) :
    StaysIn dest (receive r c nodeDir dest) := by
  refine .bind (.of_tree (hr.stream c)) fun streamed => ?_
  cases streamed with
  | refused f => exact .pure _
  | started output outcome =>
    intro h hunlinked
    exact Unpack.members_extent hunlinked _ _

theorem copy_staysIn (hr : r.LeavesFiles) (node nodeDir : String) (dest : HostPath) :
    StaysIn dest (copy r node nodeDir dest) := by
  refine .bind (make_staysIn hr node) fun made => ?_
  cases made with
  | error f => exact .pure _
  | ok staging =>
    refine .bind (.note _) fun _ => .bind ?_ fun transferred => ?_
    · refine .bind (.of_tree (hr.run _)) fun filled => ?_
      cases filled with
      | error f => exact .pure _
      | ok _ => exact receive_staysIn hr _ nodeDir dest
    · refine .bind (.of_tree (hr.run _)) fun removed => ?_
      cases transferred.keepFirst removed with
      | error f => exact .pure _
      | ok _ => exact .bind (.note _) fun _ => .pure _

end Staging

namespace Collection

variable {r : Runner σ} {config : Config} {nodes : List String} {h h' : Host σ}

theorem copyAll_staysIn (hr : r.LeavesFiles) (config : Config) (dir : HostPath)
    (hnodes : ∀ node ∈ nodes, IsName node) : StaysIn dir (copyAll r config dir nodes) := by
  induction nodes with
  | nil => exact .pure _
  | cons node rest ih =>
    have hnode := hnodes node List.mem_cons_self
    refine .bind (fun h hunlinked => ?_) fun result => .bind ?_ fun failures => ?_
    · have hnames : ∀ n ∈ [node], IsName n := by simpa using hnode
      have hcopy := Staging.copy_staysIn hr node config.remoteLogDir (dir.join (below [node])) h
        fun loc hloc => hunlinked loc (Extent.inside_of_join hnames hunlinked hloc)
      have habove := hcopy.above hnames hunlinked
      rwa [HostPath.below_singleton] at habove
    · exact ih fun n hn => hnodes n (List.mem_cons_of_mem node hn)
    · cases result with
      | error f => exact .pure _
      | ok _ => exact .pure _

/-! Captures -/

end Collection

namespace Capture

open Collection (Aim)

variable {r : Runner σ} {h h' : Host σ} {path above : HostPath} {loc : Location}

theorem makeParent_eq (hparent : path.parent? = some above) (h : Host σ) :
    makeParent path h =
      (h.change (h.tree.makeDirs 0o777 above).1,
        match (h.tree.makeDirs 0o777 above).2 with
        | .ok () => .ok ()
        | .error e => ioFailure ("Failed to create directory " ++ above.text) e) := by
  unfold makeParent
  rw [hparent]
  simp only
  rcases h.tree.makeDirs 0o777 above with ⟨changes, e | ⟨⟩⟩ <;> rfl

theorem createFile_eq (path : HostPath) (h : Host σ) :
    createFile path h =
      match h.tree.openForWriting 0o666 path with
      | .error e =>
        (h, .error ((Failure.ofCause (.io e)).context ("Failed to create " ++ path.text)))
      | .ok (loc, opened) => (h.change [opened], .ok loc) := rfl

/-- A file is filled by what the command prints, or it is left as it is. -/
theorem fillFile_tree (hr : r.LeavesFiles) (c : Command) (loc : Location) (h : Host σ) :
    (fillFile r c loc h).1.tree = h.tree ∨
      ∃ data, (fillFile r c loc h).1.tree = h.tree.apply (.append loc data) := by
  have hsame := hr.capture c h
  unfold fillFile
  obtain ⟨⟨⟨output, answer⟩, after⟩, hasked⟩ : ∃ x, (r.capture c).run h = x := ⟨_, rfl⟩
  rw [hasked] at hsame ⊢
  simp only
  cases hwrite : after.tree.write loc output with
  | error e => exact Or.inl hsame
  | ok written =>
    obtain rfl := FileTree.write_ok hwrite
    exact Or.inr ⟨output, by rw [← hsame]; rfl⟩

theorem sameLinks_append (t : FileTree) (loc : Location) (data : Bytes) :
    SameLinks t (t.apply (.append loc data)) := by
  cases hat : t.at? loc with
  | none => simpa [FileTree.apply, hat] using SameLinks.refl t
  | some e =>
    cases e with
    | file mode old => exact .apply (by simp [FileTree.link?, Change.place, hat])
    | _ => simpa [FileTree.apply, hat] using SameLinks.refl t

theorem extent_append {t : FileTree} {loc : Location} (hloc : t.Inside dir loc) (data : Bytes) :
    Extent dir t (t.apply (.append loc data)) := by
  cases hat : t.at? loc with
  | none => simpa [FileTree.apply, hat] using Extent.refl dir t
  | some e =>
    cases e with
    | file mode old =>
      have hone : Extent dir t (t.applyAll [.append loc data]) := by
        refine .of_file hloc (by simp [FileTree.link?, hat]) (FileTree.not_isDir_of_file hat)
          (fun sound => sound.isDir_dropLast (by simp [hat])) ?_ ?_ <;> simp [Change.place]
      exact hone
    | _ => simpa [FileTree.apply, hat] using Extent.refl dir t

variable {place : Place} {c : Capture} {events : List (Event (Host σ))} {o : Outcome Unit}

/-- No turn of a capture makes or changes a link. -/
theorem Attempt.sameLinks (hr : r.LeavesFiles) (hattempt : Attempt r place c events o) :
    ∀ e ∈ events, SameLinks e.before.tree e.after.tree := by
  have hmaking (h : Host σ) : SameLinks h.tree (makeParent c.path h).1.tree := by
    cases hparent : c.path.parent? with
    | none => simpa [makeParent, hparent] using SameLinks.refl h.tree
    | some above =>
      rw [makeParent_eq hparent]
      exact (FileTree.makeDirs_makesOnWay 0o777 h.tree above).sameLinks
  have hcreating (h : Host σ) : SameLinks h.tree (createFile c.path h).1.tree := by
    rw [createFile_eq]
    split
    · exact .refl _
    · next loc opened hopen =>
      obtain ⟨rfl, hlink, -⟩ := FileTree.openForWriting_place hopen
      exact .apply hlink
  have hfilling (h : Host σ) (loc : Location) :
      SameLinks h.tree (fillFile r c.command loc h).1.tree := by
    rcases fillFile_tree hr c.command loc h with hsame | ⟨data, happend⟩
    · rw [hsame]
      exact .refl _
    · rw [happend]
      exact sameLinks_append h.tree loc data
  cases hattempt with
  | noDirectory h₁ f making => simpa using hmaking h₁
  | noFile h₁ h₂ f making creating => simpa using ⟨hmaking h₁, hcreating h₂⟩
  | run h₁ h₂ h₃ loc making creating => simpa using ⟨hmaking h₁, hcreating h₂, hfilling h₃ loc⟩

/-- Every turn of a capture into a file below a directory stays in that. -/
theorem Attempt.extent (hr : r.LeavesFiles) (hattempt : Attempt r place c events o)
    {names : List String} (hnames : ∀ n ∈ names, IsName n)
    (hpath : c.path = dir.join (below names)) {t : FileTree} (hunlinked : t.Unlinked dir)
    (hsame : ∀ e ∈ events, SameLinks t e.before.tree) :
    ∀ e ∈ events, Extent dir e.before.tree e.after.tree := by
  have hmaking (h : Host σ) (hsame : SameLinks t h.tree) :
      Extent dir h.tree (makeParent c.path h).1.tree := by
    cases hparent : c.path.parent? with
    | none => simpa [makeParent, hparent] using Extent.refl dir h.tree
    | some above =>
      rw [makeParent_eq hparent]
      refine .of_makesOnWay (FileTree.makeDirs_makesOnWay 0o777 h.tree above) fun loc hpass => ?_
      have hpass := FileTree.passes_of_parent? hparent hpass
      rw [hpath] at hpass
      exact FileTree.passes_join hnames (hsame.unlinked hunlinked) hpass
  have hinside (h : Host σ) (hsame : SameLinks t h.tree) {loc : Location} {opened : Change}
      (hopen : h.tree.openForWriting 0o666 c.path = .ok (loc, opened)) : t.Inside dir loc := by
    have hlead := (FileTree.openForWriting_spec hopen).1
    rw [hpath, FileTree.leadsTo?_join hnames (hsame.unlinked hunlinked), Option.map_eq_some_iff]
      at hlead
    obtain ⟨base, hbase, rfl⟩ := hlead
    exact ⟨base, (hsame.leadsTo? dir).symm.trans hbase, List.prefix_append base names⟩
  have hcreating (h : Host σ) (hsame : SameLinks t h.tree) :
      Extent dir h.tree (createFile c.path h).1.tree := by
    rw [createFile_eq]
    split
    · exact .refl dir _
    · next loc opened hopen =>
      obtain ⟨hplace, hlink, hnot, habove, hfile⟩ := FileTree.openForWriting_place hopen
      refine Extent.of_file ((hsame.inside_iff dir loc).mpr (hinside h hsame hopen))
        hlink hnot habove ?_ ?_
      · simpa using hplace
      · simpa using hfile
  cases hattempt with
  | noDirectory h₁ f making => simpa using hmaking h₁ (by simpa using hsame)
  | noFile h₁ h₂ f making creating =>
    simp only [List.forall_mem_cons, List.not_mem_nil, false_implies, implies_true, and_true]
      at hsame ⊢
    exact ⟨hmaking h₁ hsame.1, hcreating h₂ hsame.2⟩
  | run h₁ h₂ h₃ loc making creating =>
    simp only [List.forall_mem_cons, List.not_mem_nil, false_implies, implies_true, and_true]
      at hsame ⊢
    refine ⟨hmaking h₁ hsame.1, hcreating h₂ hsame.2.1, ?_⟩
    have hloc : t.Inside dir loc := by
      rw [createFile_eq] at creating
      split at creating
      · cases creating
      · next loc' opened hopen =>
        cases creating
        exact hinside h₂ hsame.2.1 hopen
    rcases fillFile_tree hr c.command loc h₃ with hnone | ⟨data, happend⟩
    · rw [hnone]
      exact .refl dir _
    · rw [happend]
      exact extent_append ((hsame.2.2.inside_iff dir loc).mpr hloc) data

end Capture

namespace Collection

open Event (Chained)

variable {r : Runner σ} {config : Config} {nodes : List String} {h h' : Host σ}
  {events : List (Event (Host σ))} {report : Report}

theorem sameLinks_of_chained (hchained : Chained h events h')
    (heach : ∀ e ∈ events, SameLinks e.before.tree e.after.tree) :
    SameLinks h.tree h'.tree ∧ ∀ e ∈ events, SameLinks h.tree e.before.tree := by
  induction events generalizing h with
  | nil =>
    obtain rfl := hchained
    exact ⟨.refl _, nofun⟩
  | cons e rest ih =>
    obtain ⟨rfl, hrest⟩ := hchained
    obtain ⟨hend, hbefore⟩ := ih hrest fun e he => heach e (List.mem_cons_of_mem _ he)
    have hfirst := heach e List.mem_cons_self
    refine ⟨hfirst.trans hend, List.forall_mem_cons.mpr ⟨.refl _, fun e' he' => ?_⟩⟩
    exact hfirst.trans (hbefore e' he')

theorem extent_of_chained (hchained : Chained h events h')
    (heach : ∀ e ∈ events, Extent dir e.before.tree e.after.tree) : Extent dir h.tree h'.tree := by
  induction events generalizing h with
  | nil =>
    obtain rfl := hchained
    exact .refl dir _
  | cons e rest ih =>
    obtain ⟨rfl, hrest⟩ := hchained
    exact (heach e List.mem_cons_self).trans
      (ih hrest fun e he => heach e (List.mem_cons_of_mem _ he))

theorem copied_extent (hr : r.LeavesFiles) (config : Config) (hnodes : ∀ node ∈ nodes, IsName node)
    (hunlinked : h.tree.Unlinked dir) : Extent dir h.tree (copied r config nodes dir h).tree :=
  copyAll_staysIn hr config dir hnodes h hunlinked

/-- Captures neither make nor change a link. -/
theorem captures_sameLinks (hr : r.LeavesFiles) {capturing : Outcome Unit}
    (hrun : Task.Run [] (captures r config nodes dir) h events (.ended capturing) h') :
    ∀ e ∈ events, SameLinks h.tree e.before.tree := by
  refine (sameLinks_of_chained hrun.chained fun e he => ?_).2
  rcases turn_of_captures hrun e he with ⟨text, hnote⟩ | ⟨x, hx, o, hattempt, hin⟩
  · rw [hnote]
    exact .refl _
  · exact hattempt.sameLinks hr e hin

/-- Wherever the captures have come to, they have stayed in the directory that is collected into. -/
theorem captures_extent (hr : r.LeavesFiles) (hnodes : ∀ node ∈ nodes, IsName node)
    (hunlinked : h.tree.Unlinked dir) {capturing : Outcome Unit}
    (hrun : Task.Run [] (captures r config nodes dir) h events (.ended capturing) h') :
    Extent dir h.tree h'.tree := by
  have hsame := captures_sameLinks hr hrun
  refine extent_of_chained hrun.chained fun e he => ?_
  rcases turn_of_captures hrun e he with ⟨text, hnote⟩ | ⟨x, hx, o, hattempt, hin⟩
  · rw [hnote]
    exact .refl dir _
  · obtain ⟨above, inner, file, haim, hfile⟩ := aim_of_planned hnodes hx
    exact hattempt.extent hr (isName_of_mem_filesOf hnodes hfile) haim.path hunlinked
      (fun e he => hsame e (List.mem_filter.mp he).1) e hin

/-- All that a collection changes is inside the directory that is collected into, but for
directories that are made on the way there. -/
theorem collects_extent (hr : r.LeavesFiles) (hnodes : ∀ node ∈ nodes, IsName node)
    (hunlinked : h.tree.Unlinked dir) (hcollects : Collects r config nodes dir h events report h') :
    Extent dir h.tree h'.tree := by
  obtain ⟨hrun⟩ := hcollects
  have hcopied := copied_extent hr config hnodes hunlinked
  exact hcopied.trans (captures_extent hr hnodes (hcopied.sameLinks.unlinked hunlinked) hrun)

end Collection

end NodeLogs
