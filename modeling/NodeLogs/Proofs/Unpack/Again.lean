import NodeLogs.Proofs.Unpack.Directories

/-!
Unpacking an archive a second time, onto what the first time has left. Each member finds at its
place what it found or left there itself, so it succeeds again and tells the same. What it changes
again, it changes to what it was after that member the first time; and what the members after it
have made of that, they make again.
-/

namespace NodeLogs.Unpack

open FileTree (Grows)

variable {t now : FileTree} {dest path : HostPath} {m : Archive.Member}

/-- A place in the second of two runs. The second has made of it what the first has; or it has left
it alone, and the first has as well, if there was something. -/
def Repeats (t after now later : FileTree) (loc : Location) : Prop :=
  later.at? loc = after.at? loc ∧ after.at? loc ≠ none ∨
    later.at? loc = now.at? loc ∧ (t.at? loc ≠ none → after.at? loc = t.at? loc)

theorem Repeats.trans {t t' t'' now now' now'' : FileTree} {loc : Location}
    (h : Repeats t t' now now' loc) (h' : Repeats t' t'' now' now'' loc) :
    Repeats t t'' now now'' loc := by
  rcases h' with hmade | ⟨hsame', hkept'⟩
  · exact Or.inl hmade
  · rcases h with ⟨hmade, htaken⟩ | ⟨hsame, hkept⟩
    · have hlast := hkept' htaken
      exact Or.inl ⟨by rw [hsame', hmade, hlast], hlast ▸ htaken⟩
    · refine Or.inr ⟨hsame'.trans hsame, fun htaken => ?_⟩
      have hfirst := hkept htaken
      rw [hkept' (hfirst ▸ htaken), hfirst]

/-- What the second of two runs makes of each place where the first one was, and of the log. -/
structure Again (t now : FileTree) (first second : Effect) : Prop where
  result : second.result = .ok ()
  log : second.log = first.log
  places : ∀ loc, Repeats t (t.applyAll first.changes) now (now.applyAll second.changes) loc

/-- A member that changes nothing the second time. -/
theorem Again.idle {first second : Effect} (hresult : second.result = .ok ())
    (hlog : second.log = first.log) (hnone : second.changes = [])
    (hkept : ∀ loc, t.at? loc ≠ none → (t.applyAll first.changes).at? loc = t.at? loc) :
    Again t now first second := by
  refine ⟨hresult, hlog, fun loc => Or.inr ⟨?_, hkept loc⟩⟩
  rw [hnone]
  rfl

/-! Files -/

theorem write_opened {mode : Nat} {loc : Location} {opened : FileTree.Change} (data : Bytes)
    (hopen : t.openForWriting mode path = .ok (loc, opened)) :
    (t.apply opened).write loc data = t.write loc data := by
  have hfull : (t.apply opened).at? loc = some (.device .full) ↔
    t.at? loc = some (.device .full) := by
    constructor
    · exact fun h => @FileTree.device_of_applyAll t [opened] loc .full h
    · intro h
      rcases (FileTree.openForWriting_spec hopen).2 with ⟨rfl, -⟩ | ⟨-, hfree, -⟩
      · simp [FileTree.apply, h]
      · rw [h] at hfree
        cases hfree
  simp only [FileTree.write, hfull]

/-- A file comes out the same where it can be opened as well and the same can be written. -/
theorem file_alike {mode : Nat} (expected : Nat) (body : Archive.Body) {loc : Location}
    {opened opened' : FileTree.Change} (hopen : t.openForWriting mode path = .ok (loc, opened))
    (hopen' : now.openForWriting mode path = .ok (loc, opened'))
    (hwrite : now.write loc body.bytes = t.write loc body.bytes) :
    (file now path mode expected body).result = (file t path mode expected body).result ∧
      (file now path mode expected body).log = (file t path mode expected body).log := by
  have hfill : fill (now.apply opened') loc body = fill (t.apply opened) loc body := by
    rw [fill, fill, write_opened body.bytes hopen, write_opened body.bytes hopen', hwrite]
  unfold file
  simp only [hopen, hopen', hfill, failed]
  split
  · exact ⟨rfl, rfl⟩
  · split <;> exact ⟨rfl, rfl⟩

/-! Modes -/

theorem mayWrite_masked (who : Caller) (mode : Nat) :
    who.mayWrite (mode &&& 0o7777) = who.mayWrite mode := by
  rw [Caller.mayWrite, Caller.mayWrite, Nat.and_assoc]
  rfl

/-- A tree that has grown out of another one, and each of its files has the mode that it had there
or may be written. -/
structure Reopens (t t' : FileTree) : Prop extends Grows t t' where
  modes : ∀ loc mode data, t'.at? loc = some (.file mode data) →
    t.mayWrite mode = true ∨ ∃ old, t.at? loc = some (.file mode old)

namespace Reopens

variable {t' t'' : FileTree}

theorem refl (t : FileTree) : Reopens t t := ⟨.refl t, fun _ _ data hat => Or.inr ⟨data, hat⟩⟩

theorem trans (h : Reopens t t') (h' : Reopens t' t'') : Reopens t t'' := by
  refine ⟨h.toGrows.trans h'.toGrows, fun loc mode data hat => ?_⟩
  rcases h'.modes loc mode data hat with hmode | ⟨old, hold⟩
  · exact Or.inl (h.caller ▸ hmode)
  · exact h.modes loc mode old hold

/-- A file that may be written may still be written. -/
theorem writable (h : Reopens t t') {loc : Location} {mode : Nat} {data : Bytes}
    (hat : t.at? loc = some (.file mode data)) (hmode : t.mayWrite mode = true) :
    ∃ mode' data', t'.at? loc = some (.file mode' data') ∧ t'.mayWrite mode' = true := by
  obtain ⟨mode', data', hat'⟩ := h.file hat
  refine ⟨mode', data', hat', ?_⟩
  rw [h.caller]
  rcases h.modes loc mode' data' hat' with hmode' | ⟨old, hold⟩
  · exact hmode'
  · rw [hat] at hold
    cases hold
    exact hmode

end Reopens

theorem file_reopens {mode : Nat} (hmode : t.mayWrite mode = true) (path : HostPath)
    (expected : Nat) (body : Archive.Body) :
    Reopens t (t.applyAll (file t path mode expected body).changes) := by
  refine ⟨file_grows t path mode expected body, fun loc m data hat => ?_⟩
  rcases file_changes t path mode expected body with hnone | ⟨place, opened, hopen, -⟩
  · rw [hnone] at hat
    exact Or.inr ⟨data, hat⟩
  · obtain ⟨hfilled, hothers⟩ := file_leaves expected body hopen
    by_cases hloc : loc = place
    · subst hloc
      rw [hat] at hfilled
      rcases hfilled with hfile | ⟨d, -, hdevice⟩
      · cases hfile
        exact Or.inl ((mayWrite_masked t.toCaller mode).trans hmode)
      · cases hdevice
    · exact Or.inr ⟨data, (hothers loc hloc).symm.trans hat⟩

theorem directory_reopens (t : FileTree) (path : HostPath) :
    Reopens t (t.applyAll (directory t path).changes) := by
  refine ⟨directory_grows t path, fun loc m data hat => ?_⟩
  rcases (directory_changes t path).at? loc with hsame | ⟨-, -, mode, hdir⟩
  · exact Or.inr ⟨data, hsame.symm.trans hat⟩
  · rw [hat] at hdir
    cases hdir

/-- The file that a member is for may be written with the mode that it gets. -/
def LeavesWritable (who : Caller) (m : Archive.Member) : Prop :=
  m.kind = .regular → ∀ mode, m.header.mode = .ok mode → who.mayWrite mode = true

theorem member_reopens (h : (member t dest m).result = .ok ())
    (hmode : LeavesWritable t.toCaller m) :
    Reopens t (t.applyAll (member t dest m).changes) := by
  rcases member_acts t dest m with hnone | ⟨path, htarget, ⟨hkind, -⟩ | ⟨-, hdirectory⟩⟩
  · rw [hnone]
    exact .refl t
  · obtain ⟨size, mode, -, hdeclared, hfile⟩ := file_of_ok h htarget hkind
    rw [hfile]
    exact file_reopens (hmode hkind mode hdeclared) path size m.body
  · rw [hdirectory]
    exact directory_reopens t path

theorem members_reopen {ending : Except Archive.Error Unit} {ms : List Archive.Member}
    (h : (members t dest ending ms).result = .ok ())
    (hmodes : ∀ m ∈ ms, LeavesWritable t.toCaller m) :
    Reopens t (t.applyAll (members t dest ending ms).changes) := by
  induction ms generalizing t with
  | nil => exact .refl t
  | cons m rest ih =>
    obtain ⟨hmember, hrest⟩ := members_ok h
    have hfirst := member_reopens hmember (hmodes m List.mem_cons_self)
    rw [members_cons_of_ok hmember, Effect.andThen, FileTree.applyAll_append]
    refine hfirst.trans (ih hrest fun m' hm' => ?_)
    rw [hfirst.caller]
    exact hmodes m' (List.mem_cons_of_mem m hm')

/-! Files again -/

theorem file_repeats {mode expected : Nat} {body : Archive.Body}
    (h : (file t path mode expected body).result = .ok ()) (hmode : t.mayWrite mode = true)
    (hreopens : Reopens (t.applyAll (file t path mode expected body).changes) now) :
    Again t now (file t path mode expected body) (file now path mode expected body) := by
  obtain ⟨loc, opened, hopen, -⟩ := file_ok h
  have hfirst := file_grows t path mode expected body
  have hstart := hfirst.trans hreopens.toGrows
  by_cases hdevice : ∃ d, t.at? loc = some (.device d)
  · obtain ⟨d, hat⟩ := hdevice
    have hthere := hstart.same hat rfl
    have hopen' := hstart.openForWriting hopen (Or.inr ⟨d, hthere⟩) mode
    obtain ⟨hresult, hlog⟩ := file_alike expected body hopen hopen' (by
      simp only [FileTree.write, hat, hthere])
    refine ⟨hresult.trans h, hlog, fun l => Or.inr ⟨?_, fun _ => ?_⟩⟩
    · rw [file_on_device expected body hopen' hthere]
    · rw [file_on_device expected body hopen hat]
  · have hnot := not_exists.mp hdevice
    have hat := file_on_place expected body hopen hnot
    obtain ⟨mode', data', hthere, hwrite⟩ := hreopens.writable ((hat loc).trans (if_pos rfl)) (by
      rw [hfirst.caller, mayWrite_masked, hmode])
    have hopen' := hstart.openForWriting hopen (Or.inl ⟨mode', data', hthere, hwrite⟩) mode
    have hat' := file_on_place expected body hopen' (by simp [hthere])
    obtain ⟨hresult, hlog⟩ := file_alike expected body hopen hopen' (by
      simp [FileTree.write, hnot, hthere])
    refine ⟨hresult.trans h, hlog, fun l => ?_⟩
    rw [Repeats, hat, hat']
    by_cases hl : l = loc
    · rw [if_pos hl, if_pos hl]
      exact Or.inl ⟨rfl, Option.some_ne_none _⟩
    · rw [if_neg hl, if_neg hl]
      exact Or.inr ⟨rfl, fun _ => rfl⟩

/-! Directories -/

/-- A directory is there the second time; an empty path makes nothing either time. -/
theorem directory_repeats (h : (directory t path).result = .ok ())
    (hgrows : Grows (t.applyAll (directory t path).changes) now) :
    Again t now (directory t path) (directory now path) := by
  have hkept (loc : Location) (htaken : t.at? loc ≠ none) :
      (t.applyAll (directory t path).changes).at? loc = t.at? loc :=
    ((directory_changes t path).at? loc).resolve_right fun hnew => htaken hnew.1
  have hlog : (directory now path).log = (directory t path).log := by
    rw [directory_log, directory_log]
  have hnothing : directory now path = ⟨[], [], .ok ()⟩ := by
    by_cases hempty : path.text = ""
    · cases hstat : now.stat path with
      | ok found =>
        have hcheck := FileTree.checkPath_of_stat hstat
        exact absurd hempty (FileTree.checkPath_eq_ok.mp hcheck).2.1
      | error e =>
        simp only [directory, hstat, FileTree.makeDirs_noText hempty]
    · obtain ⟨loc, e, hthere, -⟩ := directory_ok h hempty
      obtain ⟨e', hstat, -⟩ := hgrows.stat hthere
      rw [directory, hstat]
  exact .idle (by rw [hnothing]) hlog (by rw [hnothing]) hkept

/-! Members -/

theorem member_repeats (h : (member t dest m).result = .ok ())
    (hmode : LeavesWritable t.toCaller m)
    (hreopens : Reopens (t.applyAll (member t dest m).changes) now) :
    Again t now (member t dest m) (member now dest m) := by
  by_cases hname : m.name = ""
  · rw [member_of_nameless hname, member_of_nameless hname]
    exact .idle rfl rfl rfl fun _ _ => rfl
  obtain ⟨path, htarget⟩ := target?_of_ok h hname
  cases hkind : m.kind with
  | regular =>
    obtain ⟨size, mode, hsize, hdeclared, hfile⟩ := file_of_ok h htarget hkind
    rw [hfile] at h hreopens ⊢
    rw [member_of_file htarget hkind hsize hdeclared]
    exact file_repeats h (hmode hkind mode hdeclared) hreopens
  | directory =>
    rw [member_of_directory htarget hkind] at h hreopens ⊢
    rw [member_of_directory htarget hkind]
    exact directory_repeats h hreopens.toGrows
  | _ =>
    rw [member_of_target? htarget, member_of_target? htarget]
    simp only [hkind]
    exact .idle rfl rfl rfl fun _ _ => rfl

theorem members_repeat {ending : Except Archive.Error Unit} {ms : List Archive.Member}
    (h : (members t dest ending ms).result = .ok ())
    (hmodes : ∀ m ∈ ms, LeavesWritable t.toCaller m)
    (hreopens : Reopens (t.applyAll (members t dest ending ms).changes) now) :
    Again t now (members t dest ending ms) (members now dest ending ms) := by
  induction ms generalizing t now with
  | nil => exact .idle h rfl rfl fun _ _ => rfl
  | cons m rest ih =>
    obtain ⟨hmember, hrest⟩ := members_ok h
    have hmode := hmodes m List.mem_cons_self
    have hcaller := (member_grows t dest m).caller
    have hothers : ∀ m' ∈ rest,
        LeavesWritable (t.applyAll (member t dest m).changes).toCaller m' := fun m' hm' =>
      hcaller ▸ hmodes m' (List.mem_cons_of_mem m hm')
    rw [members_cons_of_ok hmember] at hreopens ⊢
    rw [Effect.andThen, FileTree.applyAll_append] at hreopens
    have hfirst := member_repeats hmember hmode ((members_reopen hrest hothers).trans hreopens)
    have hnow : now.toCaller = t.toCaller :=
      hreopens.caller.trans ((members_grows _ dest ending rest).caller.trans hcaller)
    have hlater :=
      ih hrest hothers (hreopens.trans (member_reopens hfirst.result (hnow ▸ hmode)))
    rw [members_cons_of_ok hfirst.result]
    refine ⟨hlater.result, ?_, fun loc => ?_⟩
    · rw [Effect.andThen, Effect.andThen, hfirst.log, hlater.log]
    · rw [Effect.andThen, Effect.andThen, FileTree.applyAll_append, FileTree.applyAll_append]
      exact (hfirst.places loc).trans (hlater.places loc)

/-- An archive that was unpacked is unpacked a second time onto what has come of it. Where its files
leave their owner the right to write them, or whoever unpacks it does not need that right, it
succeeds, tells the same and leaves every place as it is, whatever links the tree has. -/
theorem unpacking_again_changes_nothing (t : FileTree) (dest : HostPath) (source : ByteSource)
    (h : (unpack source dest t).result = .ok ())
    (hmodes : t.privileged = true ∨ ∀ m ∈ (Archive.list source).members, m.kind = .regular →
      ∀ mode, m.header.mode = .ok mode → mode &&& 0o200 ≠ 0) :
    let after := t.applyAll (unpack source dest t).changes
    let again := unpack source dest after
    again.result = .ok () ∧ again.log = (unpack source dest t).log ∧
      (∀ loc, (after.applyAll again.changes).at? loc = after.at? loc) ∧
      (after.applyAll again.changes).toCaller = after.toCaller := by
  intro after again
  have hwritable : ∀ m ∈ (Archive.list source).members, LeavesWritable t.toCaller m := by
    intro m hm hkind mode hmode
    rcases hmodes with hprivileged | hbits
    · simp [Caller.mayWrite, hprivileged]
    · simp [Caller.mayWrite, hbits m hm hkind mode hmode]
  have hagain : Again t after (unpack source dest t) again :=
    members_repeat h hwritable (.refl after)
  refine ⟨hagain.result, hagain.log, fun loc => ?_, FileTree.caller_applyAll after _⟩
  rcases hagain.places loc with ⟨hmade, -⟩ | ⟨hsame, -⟩
  · exact hmade
  · exact hsame

/-- Two files that their owner may write, unpacked twice by someone who needs that right. -/
theorem smallTree_again_changes_nothing :
    let source := ByteSource.ofBytes (smallTree.flatMap Archive.Item.bytes)
    let t : FileTree := ⟨{ privileged := false }, []⟩
    let after := t.applyAll (unpack source ⟨"/"⟩ t).changes
    let again := unpack source ⟨"/"⟩ after
    (unpack source ⟨"/"⟩ t).result = .ok () ∧ t.privileged = false ∧
      (∀ m ∈ (Archive.list source).members, m.kind = .regular →
        ∀ mode, m.header.mode = .ok mode → mode &&& 0o200 ≠ 0) ∧
      again.result = .ok () ∧ again.log = (unpack source ⟨"/"⟩ t).log ∧
      (∀ loc, (after.applyAll again.changes).at? loc = after.at? loc) ∧
      (after.applyAll again.changes).toCaller = after.toCaller := by
  intro source t
  have hresult := smallTree_unpacked t.toCaller
  have hmodes : ∀ m ∈ (Archive.list source).members, m.kind = .regular →
      ∀ mode, m.header.mode = .ok mode → mode &&& 0o200 ≠ 0 := by
    intro m hm hkind mode hmode
    rw [list_smallTree] at hm
    obtain ⟨item, hitem, rfl⟩ := List.mem_map.mp hm
    simp only [smallTree, List.mem_cons, List.not_mem_nil, or_false] at hitem
    rcases hitem with rfl | rfl | rfl
    · cases Archive.Item.kind_eq.symm.trans hkind
    · cases (Archive.Item.mode_eq rfl (by decide)).symm.trans hmode
      decide
    · cases (Archive.Item.mode_eq rfl (by decide)).symm.trans hmode
      decide
  exact ⟨hresult, rfl, hmodes,
    unpacking_again_changes_nothing t ⟨"/"⟩ source hresult (Or.inr hmodes)⟩

/-! What the right is for -/

/-- A file that its mode forbids whoever unpacks it to write is not unpacked to its place again. -/
theorem file_denied {mode expected : Nat} {body : Archive.Body} {loc : Location}
    {opened : FileTree.Change} (hopen : t.openForWriting mode path = .ok (loc, opened))
    (hdevice : ∀ d, t.at? loc ≠ some (.device d)) (hmode : t.mayWrite mode = false) :
    file (t.applyAll (file t path mode expected body).changes) path mode expected body =
      failed [] ((Failure.ofCause (.io (.os .accessDenied))).context
        ("Failed to create " ++ path.text)) := by
  have hgrows := file_grows t path mode expected body
  have hat := (file_on_place expected body hopen hdevice loc).trans (if_pos rfl)
  have hdenied := hgrows.openForWriting_denied hopen hat
    (by rw [hgrows.caller, mayWrite_masked, hmode]) mode
  rw [file, hdenied]

end NodeLogs.Unpack
