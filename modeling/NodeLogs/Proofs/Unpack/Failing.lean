import NodeLogs.Proofs.Unpack.Sizes

/-!
What an unpacking that fails leaves. All members before the one that it fails at are unpacked, none
after it is, and of that one at most a file with the data that was there for it stays behind, or
directories above the one that could not be made.
-/

namespace NodeLogs.Unpack

open Archive (Delivered)

variable {source : ByteSource} {t now : FileTree} {dest path : HostPath} {m : Archive.Member}

/-- What a failing member makes of the tree that it finds, and the failure that is told. -/
inductive Remains (source : ByteSource) (dest : HostPath) (now after : FileTree)
    (m : Archive.Member) : Failure → Prop where
  | refused (upward : Archive.Unsafe m.name) (same : after = now) :
    Remains source dest now after m (.ofCause (.unsafeName m.name))
  /-- The mode in its header is none. The size is read before, when the member is listed. -/
  | unreadable {e : Archive.Error} (regular : m.kind = .regular) (mode : m.header.mode = .error e)
    (same : after = now) : Remains source dest now after m (readingFailure e)
  | unopened {path : HostPath} {mode : Nat} {e : IoError} (regular : m.kind = .regular)
    (named : target? dest m = some path) (opening : now.openForWriting mode path = .error e)
    (same : after = now) :
    Remains source dest now after m
      ((Failure.ofCause (.io e)).context ("Failed to create " ++ path.text))
  /-- Its file has the data that the stream had for it, and its mode. A device keeps nothing. -/
  | opened {path : HostPath} {mode size offset : Nat} {loc : Location} {f : Failure}
    (regular : m.kind = .regular) (named : target? dest m = some path)
    (declared : m.header.mode = .ok mode) (delivered : Delivered source offset size m)
    (place : now.leadsTo? path = some loc)
    (filled : after.at? loc = some (.file (mode &&& 0o7777) m.body.bytes) ∨
      ∃ d, now.at? loc = some (.device d) ∧ after.at? loc = some (.device d))
    (elsewhere : ∀ l, l ≠ loc → after.at? l = now.at? l)
    (told : f = .ofCause (.sizeMismatch path m.body.bytes.length size) ∨
      ∃ e, f = (Failure.ofCause (.io e)).context ("error writing to " ++ path.text)) :
    Remains source dest now after m f
  /-- Directories on the way to the one above it are new, where nothing was. -/
  | unmade {path : HostPath} {e : IoError} (directory : m.kind = .directory)
    (named : target? dest m = some path)
    (above : ∀ l, after.at? l = now.at? l ∨
      now.at? l = none ∧ (∃ parent, path.parent? = some parent ∧ now.Passes parent l) ∧
        ∃ mode, after.at? l = some (.dir mode)) :
    Remains source dest now after m
      ((Failure.ofCause (.io e)).context ("Failed to create directory " ++ path.text))

/-- Nothing that is done to a device shows. -/
theorem file_on_device {mode : Nat} (expected : Nat) (body : Archive.Body) {loc : Location}
    {opened : FileTree.Change} {d : Device}
    (hopen : now.openForWriting mode path = .ok (loc, opened))
    (hat : now.at? loc = some (.device d)) :
    now.applyAll (file now path mode expected body).changes = now := by
  obtain rfl : opened = .truncate loc := by
    rcases (FileTree.openForWriting_spec hopen).2 with ⟨rfl, -⟩ | ⟨-, hfree, -⟩
    · rfl
    · rw [hat] at hfree
      cases hfree
  rw [file_changes_of_open hopen]
  rcases fill_changes (now.apply (.truncate loc)) loc body with hall | ⟨hnone, -⟩
  · rw [hall]
    simp [FileTree.applyAll, FileTree.apply, hat]
  · rw [hnone]
    simp [FileTree.applyAll, FileTree.apply, hat]

/-- Anywhere else there is a file with the data and the mode afterwards. -/
theorem file_on_place {mode : Nat} (expected : Nat) (body : Archive.Body) {loc : Location}
    {opened : FileTree.Change} (hopen : now.openForWriting mode path = .ok (loc, opened))
    (hdevice : ∀ d, now.at? loc ≠ some (.device d)) (l : Location) :
    (now.applyAll (file now path mode expected body).changes).at? l =
      if l = loc then some (.file (mode &&& 0o7777) body.bytes) else now.at? l := by
  obtain ⟨-, hopened⟩ := FileTree.openForWriting_spec hopen
  have hwritten : (fill (now.apply opened) loc body).1 = [.append loc body.bytes] := by
    refine (fill_changes _ loc body).resolve_right ?_
    rintro ⟨-, hfull⟩
    exact hdevice .full (@FileTree.device_of_applyAll now [opened] loc .full hfull)
  have hwhich : (opened = .truncate loc ∧ ∃ m data, now.at? loc = some (.file m data)) ∨
      opened = .createFile loc (now.masked mode) := by
    rcases hopened with ⟨hopened, ⟨m, data, hat, -⟩ | ⟨d, hother⟩⟩ | ⟨hopened, -⟩
    · exact Or.inl ⟨hopened, m, data, hat⟩
    · exact absurd hother (hdevice d)
    · exact Or.inr hopened
  have hroot : loc ≠ [] := by
    rintro rfl
    rcases hopened with ⟨-, ⟨m, data, hat, -⟩ | ⟨d, hat⟩⟩ | ⟨-, hat, -⟩ <;> cases hat
  rw [file_changes_of_open hopen, hwritten]
  exact FileTree.at?_written body.bytes hroot hwhich l

/-- What an opened file holds in the end, whether or not it came out well. -/
theorem file_leaves {mode : Nat} (expected : Nat) (body : Archive.Body) {loc : Location}
    {opened : FileTree.Change} (hopen : now.openForWriting mode path = .ok (loc, opened)) :
    ((now.applyAll (file now path mode expected body).changes).at? loc =
        some (.file (mode &&& 0o7777) body.bytes) ∨
      ∃ d, now.at? loc = some (.device d) ∧
        (now.applyAll (file now path mode expected body).changes).at? loc = some (.device d)) ∧
    ∀ l, l ≠ loc → (now.applyAll (file now path mode expected body).changes).at? l = now.at? l := by
  by_cases hdevice : ∃ d, now.at? loc = some (.device d)
  · obtain ⟨d, hat⟩ := hdevice
    rw [file_on_device expected body hopen hat]
    exact ⟨Or.inr ⟨d, hat, hat⟩, fun _ _ => rfl⟩
  · have hat := file_on_place expected body hopen (not_exists.mp hdevice)
    exact ⟨Or.inl ((hat loc).trans (if_pos rfl)), fun l hl => (hat l).trans (if_neg hl)⟩

/-- How a file fails that was opened. -/
theorem file_told {mode expected : Nat} {body : Archive.Body} {loc : Location}
    {opened : FileTree.Change} {f : Failure}
    (hopen : now.openForWriting mode path = .ok (loc, opened))
    (h : (file now path mode expected body).result = .error f) :
    f = .ofCause (.sizeMismatch path body.bytes.length expected) ∨
      ∃ e, f = (Failure.ofCause (.io e)).context ("error writing to " ++ path.text) := by
  unfold file at h
  simp only [hopen, failed] at h
  split at h
  · next e _ =>
    cases h
    exact Or.inr ⟨e, rfl⟩
  · split at h
    · cases h
    · cases h
      exact Or.inl rfl

theorem file_remains {mode size offset : Nat} {f : Failure} (regular : m.kind = .regular)
    (named : target? dest m = some path) (declared : m.header.mode = .ok mode)
    (delivered : Delivered source offset size m)
    (h : (file now path mode size m.body).result = .error f) :
    Remains source dest now (now.applyAll (file now path mode size m.body).changes) m f := by
  cases hopen : now.openForWriting mode path with
  | error e =>
    have hfile : file now path mode size m.body = failed []
        ((Failure.ofCause (.io e)).context ("Failed to create " ++ path.text)) := by
      rw [file, hopen]
    rw [hfile] at h ⊢
    cases h
    exact .unopened regular named hopen rfl
  | ok opening =>
    obtain ⟨loc, opened⟩ := opening
    obtain ⟨hfilled, helsewhere⟩ := file_leaves size m.body hopen
    exact .opened regular named declared delivered (FileTree.openForWriting_spec hopen).1 hfilled
      helsewhere (file_told hopen h)

theorem directory_remains {f : Failure} (isDirectory : m.kind = .directory)
    (named : target? dest m = some path) (h : (directory now path).result = .error f) :
    Remains source dest now (now.applyAll (directory now path).changes) m f := by
  rcases directory_cases now path with ⟨found, -, hthere⟩ | ⟨-, hmade⟩ | ⟨e, hfailed, hunmade⟩
  · rw [hthere] at h
    cases h
  · rw [hmade] at h
    cases h
  · rw [hunmade] at h ⊢
    cases h
    refine .unmade isDirectory named fun l => ?_
    rcases FileTree.makeDirs_failed hfailed with hnone | ⟨above, hparent, hmade⟩
    · rw [failed, hnone]
      exact Or.inl rfl
    · rcases hmade.at? l with hsame | ⟨hfree, hpass, hdir⟩
      · exact Or.inl hsame
      · exact Or.inr ⟨hfree, ⟨above, hparent, hpass⟩, hdir⟩

/-- What is left of a member that fails. -/
theorem member_remains {f : Failure}
    (delivered : m.kind = .regular → ∃ offset size, Delivered source offset size m)
    (h : (member now dest m).result = .error f) :
    Remains source dest now (now.applyAll (member now dest m).changes) m f := by
  by_cases hname : m.name = ""
  · rw [member_of_nameless hname] at h
    cases h
  cases htarget : target? dest m with
  | none =>
    have hunsafe : Archive.Unsafe m.name := by
      rw [target?, if_neg hname, Option.map_eq_none_iff] at htarget
      exact Archive.relativeParts?_eq_none.mp htarget
    have hmember : member now dest m = failed [] (.ofCause (.unsafeName m.name)) :=
      member_refused hunsafe
    rw [hmember] at h ⊢
    cases h
    exact .refused hunsafe rfl
  | some path =>
    rw [member_of_target? htarget] at h ⊢
    cases hkind : m.kind with
    | regular =>
      obtain ⟨offset, size, hdelivered⟩ := delivered hkind
      simp only [hkind, hdelivered.declared] at h ⊢
      cases hmode : m.header.mode with
      | error e =>
        simp only [hmode] at h ⊢
        cases h
        exact .unreadable hkind hmode rfl
      | ok mode =>
        simp only [hmode] at h ⊢
        exact file_remains hkind htarget hmode hdelivered h
    | directory =>
      simp only [hkind] at h ⊢
      exact directory_remains hkind htarget h
    | _ => simp [hkind] at h

/-- The members before the one that unpacking fails at, or all of them if reading fails. -/
theorem exists_failing {ending : Except Archive.Error Unit} {ms : List Archive.Member} {f : Failure}
    (h : (members t dest ending ms).result = .error f) :
    ∃ before, (members t dest (.ok ()) before).result = .ok () ∧
      ((ms = before ∧ ∃ e, ending = .error e ∧ f = readingFailure e) ∨
        ∃ m later, ms = before ++ m :: later ∧
          (member (t.applyAll (members t dest (.ok ()) before).changes) dest m).result =
            .error f) := by
  induction ms generalizing t with
  | nil =>
    cases ending with
    | ok _ => cases h
    | error e =>
      cases h
      exact ⟨[], rfl, Or.inl ⟨rfl, e, rfl, rfl⟩⟩
  | cons m rest ih =>
    cases hmember : (member t dest m).result with
    | error f' =>
      rw [members, hmember] at h
      cases h
      exact ⟨[], rfl, Or.inr ⟨m, rest, rfl, hmember⟩⟩
    | ok _ =>
      rw [members_cons_of_ok hmember] at h
      obtain ⟨before, hbefore, hstop⟩ := ih h
      refine ⟨m :: before, ?_, ?_⟩
      · rw [members_cons_of_ok hmember]
        exact hbefore
      · rw [members_cons_of_ok hmember, Effect.andThen, FileTree.applyAll_append]
        rcases hstop with ⟨rfl, hreading⟩ | ⟨m', later, rfl, hfailed⟩
        · exact Or.inl ⟨rfl, hreading⟩
        · exact Or.inr ⟨m', later, rfl, hfailed⟩

/-- An unpacking that fails leaves the tree that the members before have left, as they are unpacked
without the others, and tells their warnings and no more. Either all members were unpacked and
reading the next one failed; or a member failed, with at most the things that remain of it, and
nothing came of those behind. -/
theorem failed_unpacking_keeps_earlier_members (t : FileTree) (dest : HostPath)
    (source : ByteSource) {f : Failure} (h : (unpack source dest t).result = .error f) :
    ∃ before done, done = members t dest (.ok ()) before ∧ done.result = .ok () ∧
      warnings done.log = before.filterMap warning? ∧
      warnings (unpack source dest t).log = warnings done.log ∧
      ((∃ e, (Archive.list source).members = before ∧ (Archive.list source).ending = .error e ∧
          f = readingFailure e ∧ (unpack source dest t).changes = done.changes) ∨
        ∃ m later, (Archive.list source).members = before ++ m :: later ∧
          unpack source dest t = done.andThen (member (t.applyAll done.changes) dest m) ∧
          Remains source dest (t.applyAll done.changes)
            (t.applyAll (unpack source dest t).changes) m f) := by
  obtain ⟨before, hbefore, hstop⟩ := exists_failing h
  refine ⟨before, _, rfl, hbefore, members_warn hbefore, ?_⟩
  rcases hstop with ⟨hall, e, hending, rfl⟩ | ⟨m, later, hlist, hmember⟩
  · have hwhole : unpack source dest t =
        (members t dest (.ok ()) before).andThen ⟨[], [], .error (readingFailure e)⟩ := by
      have happend : members t dest (.error e) (before ++ []) = _ := members_append hbefore []
      rw [List.append_nil] at happend
      unfold unpack
      simp only [hall, hending]
      exact happend
    refine ⟨?_, Or.inl ⟨e, hall, hending, rfl, ?_⟩⟩
    · rw [hwhole, Effect.andThen, warnings_append]
      exact List.append_nil _
    · rw [hwhole]
      exact List.append_nil _
  · have hwhole : unpack source dest t = (members t dest (.ok ()) before).andThen
        (member (t.applyAll (members t dest (.ok ()) before).changes) dest m) := by
      unfold unpack
      simp only
      rw [hlist, members_append hbefore, members, hmember]
      simp only [Effect.andThen, hmember]
    have hlisted : m ∈ (Archive.list source).members := by
      rw [hlist]
      exact List.mem_append_right before List.mem_cons_self
    have hremains := member_remains (fun hregular =>
      Archive.list_delivered source m hlisted (by rw [hregular]; decide)) hmember
    refine ⟨?_, Or.inr ⟨m, later, hlist, hwhole, ?_⟩⟩
    · rw [hwhole, Effect.andThen, warnings_append, member_failed_log hmember]
      exact List.append_nil _
    · rw [hwhole, Effect.andThen, FileTree.applyAll_append]
      exact hremains

theorem resized_leaves_its_file :
    let left := FileTree.applyAll ⟨{}, []⟩ (unpack resized ⟨"/"⟩ ⟨{}, []⟩).changes
    (unpack resized ⟨"/"⟩ ⟨{}, []⟩).result = wrongSize ⟨"/f"⟩ 5 0 ∧
      Remains resized ⟨"/"⟩ ⟨{}, []⟩ left resizedMember (.ofCause (.sizeMismatch ⟨"/f"⟩ 5 0)) ∧
      left.at? ["f"] = some (.file 0o644 hello) := by
  intro left
  have hmember := member_of_file (t := ⟨{}, []⟩) resizedMember_target resizedMember_kind
    resizedMember_size resizedMember_mode
  have hresult : (unpack resized ⟨"/"⟩ ⟨{}, []⟩).result = wrongSize ⟨"/f"⟩ 5 0 :=
    resized_filled.result ((congrArg Effect.result hmember).trans (file_result open_resized rfl))
  obtain ⟨before, done, rfl, -, -, -, hstop⟩ :=
    failed_unpacking_keeps_earlier_members ⟨{}, []⟩ ⟨"/"⟩ resized hresult
  rcases hstop with ⟨e, -, hending, -⟩ | ⟨m, later, hlist, -, hremains⟩
  · rw [list_resized] at hending
    cases hending
  rw [list_resized] at hlist
  obtain ⟨rfl, rfl, -⟩ : before = [] ∧ m = resizedMember ∧ later = [] := by
    cases before with
    | nil => simpa [eq_comm] using hlist
    | cons first rest => simp at hlist
  refine ⟨hresult, hremains, ?_⟩
  cases hremains with
  | opened _ named declared _ place filled _ _ =>
    cases resizedMember_target.symm.trans named
    cases resizedMember_mode.symm.trans declared
    cases (FileTree.openForWriting_spec open_resized).1.symm.trans place
    rcases filled with hfile | ⟨d, hdevice, -⟩
    · exact hfile
    · cases hdevice

end NodeLogs.Unpack
