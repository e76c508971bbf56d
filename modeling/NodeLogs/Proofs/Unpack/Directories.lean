import NodeLogs.Proofs.Unpack.Names

/-!
What comes of a directory member. When all is unpacked its path leads to something, and to a
directory where nothing or a directory was before. But a file in its place, an older one or one that
an earlier member left, is taken for the directory: it stays, and nothing is told of it.
-/

namespace NodeLogs.Unpack

open FileTree (Grows)

variable {t : FileTree} {dest path : HostPath} {m : Archive.Member}

/-- Once a directory member is handled there is something, and what is new there is a directory. -/
theorem directory_ok (h : (directory t path).result = .ok ()) (hne : path.text ≠ "") :
    ∃ loc e, (t.applyAll (directory t path).changes).stat path = .ok (loc, e) ∧
      (t.at? loc = none → ∃ mode, e = .dir mode) := by
  rcases directory_cases t path with ⟨⟨loc, e⟩, hstat, hthere⟩ | ⟨hmakes, hmade⟩ | ⟨e, -, hunmade⟩
  · rw [hthere]
    refine ⟨loc, e, hstat, fun hfree => ?_⟩
    rw [(FileTree.stat_spec hstat).2] at hfree
    cases hfree
  · rw [hmade]
    obtain ⟨loc, mode, hstat⟩ := FileTree.stat_of_isDir (FileTree.isDir_of_makeDirs hmakes hne)
    exact ⟨loc, .dir mode, hstat, fun _ => ⟨mode, rfl⟩⟩
  · rw [hunmade] at h
    cases h

theorem isFile_of_writesAt? {loc : Location} (h : writesAt? t dest m = some loc) : IsFile m := by
  unfold writesAt? at h
  split at h
  · next hkind =>
    refine ⟨hkind, fun hname => ?_⟩
    rw [target?, if_pos hname] at h
    cases h
  · cases h

section Members

variable {ms before later : List Archive.Member} {ending : Except Archive.Error Unit}
  (h : (members t dest ending ms).result = .ok ())

include h

/-- Where a file was written there is no directory in the end. -/
theorem not_isDir_of_written {m' : Archive.Member} (hm' : m' ∈ ms) {loc : Location}
    (hwrites : writesAt? t dest m' = some loc) :
    ¬ (t.applyAll (members t dest ending ms).changes).IsDir loc := by
  obtain ⟨before, later, hms⟩ := List.append_of_mem hm'
  obtain ⟨now, hnow, hmember, hafter⟩ := member_of_ok h hms
  obtain ⟨place, hplace, hholds⟩ := member_holds (isFile_of_writesAt? hwrites) hmember
  rw [hnow, writesAt?_congr (members_sameLinks t dest (.ok ()) before), hwrites] at hplace
  obtain rfl := Option.some.inj hplace
  have hlater : Grows (now.applyAll (member now dest m').changes)
      (t.applyAll (members t dest ending ms).changes) := hafter ▸ members_grows ..
  rcases hholds with ⟨mode, -, hat⟩ | ⟨d, -, hat⟩
  · obtain ⟨mode', data', hfile⟩ := hlater.file hat
    exact FileTree.not_isDir_of_file hfile
  · rintro ⟨mode, hdir⟩
    cases (hlater.same hat rfl).symm.trans hdir

theorem members_yield_directories (hms : ms = before ++ m :: later) (hkind : m.kind = .directory)
    (hname : m.name ≠ "") :
    ∃ path, target? dest m = some path ∧
      (path.text ≠ "" → ∃ loc e,
        (t.applyAll (members t dest ending ms).changes).stat path = .ok (loc, e) ∧
          ((∃ mode, e = .dir mode) ↔
            (t.at? loc = none ∨ t.IsDir loc) ∧ ∀ m' ∈ before, writesAt? t dest m' ≠ some loc)) := by
  obtain ⟨now, hnow, hmember, hafter⟩ := member_of_ok h hms
  obtain ⟨path, htarget⟩ := target?_of_ok hmember hname
  refine ⟨path, htarget, fun hne => ?_⟩
  rw [member_of_directory htarget hkind] at hmember hafter
  obtain ⟨loc, e₀, hthere, hnew⟩ := directory_ok hmember hne
  have hlater : Grows (now.applyAll (directory now path).changes)
      (t.applyAll (members t dest ending ms).changes) := hafter ▸ members_grows ..
  obtain ⟨e, hstat, hsame⟩ := hlater.stat hthere
  have hat := (FileTree.stat_spec hstat).2
  refine ⟨loc, e, hstat, ⟨?_, ?_⟩⟩
  · rintro ⟨mode, rfl⟩
    constructor
    · cases hold : t.at? loc with
      | none => exact Or.inl rfl
      | some old =>
        obtain ⟨e', he', houtline⟩ := (members_grows t dest ending ms).kept loc old hold
        obtain rfl : Entry.dir mode = e' := Option.some.inj (hat.symm.trans he')
        obtain rfl := Entry.eq_of_outline houtline.symm rfl
        exact Or.inr ⟨mode, hold⟩
    · intro m' hm' hwrites
      exact not_isDir_of_written h (hms ▸ List.mem_append_left _ hm') hwrites ⟨mode, hat⟩
  · rintro ⟨hbefore, hothers⟩
    have of_isDir {t' : FileTree}
      (hgrows : Grows t' (t.applyAll (members t dest ending ms).changes))
        (hdir : t'.IsDir loc) : ∃ mode, e = .dir mode := by
      obtain ⟨mode, hmode⟩ := hgrows.isDir hdir
      exact ⟨mode, Option.some.inj (hat.symm.trans hmode)⟩
    rcases hbefore with hfree | hdir
    · have hunwritten : Unwritten loc t now := hnow ▸ members_unwritten hothers
      rcases hunwritten with hkept | ⟨-, hdir⟩
      · obtain ⟨mode, rfl⟩ := hnew (hkept.trans hfree)
        exact ⟨mode, Entry.eq_of_outline hsame rfl⟩
      · exact of_isDir ((directory_grows now path).trans hlater) hdir
    · exact of_isDir (members_grows t dest ending ms) hdir

end Members

/-- When an archive is unpacked, the path of each directory member leads to something; an empty path
apart, which leads nowhere. That is a directory just where nothing or a directory was before all of
them and no earlier member has written a file there. -/
theorem directory_members_yield_directories_iff (t : FileTree) (dest : HostPath)
    (source : ByteSource) (h : (unpack source dest t).result = .ok ())
    (before later : List Archive.Member) (m : Archive.Member)
    (hlist : (Archive.list source).members = before ++ m :: later) (hkind : m.kind = .directory)
    (hname : m.name ≠ "") :
    ∃ path, target? dest m = some path ∧
      (path.text ≠ "" → ∃ loc e,
        (t.applyAll (unpack source dest t).changes).stat path = .ok (loc, e) ∧
          ((∃ mode, e = .dir mode) ↔
            (t.at? loc = none ∨ t.IsDir loc) ∧ ∀ m' ∈ before, writesAt? t dest m' ≠ some loc)) :=
  members_yield_directories h hlist hkind hname

theorem list_oneDir :
    (Archive.list (.ofBytes oneDir.bytes)).members = [oneDir.member] ∧
      (Archive.list (.ofBytes oneDir.bytes)).ending = .ok () := by
  have hlimit : (ByteSource.ofBytes oneDir.bytes).bytes.length < Archive.limit := by
    rw [bytes_ofBytes, List.append_nil, Archive.Item.length_bytes]
    decide
  rw [Archive.Item.list_items grouped_intoEmpty.writable (by simpa using bytes_ofBytes oneDir.bytes)
    .stream hlimit]
  exact ⟨rfl, rfl⟩

theorem oneDir_named : oneDir.member.kind = .directory ∧ oneDir.member.name ≠ "" ∧
    target? ⟨"."⟩ oneDir.member = some ⟨"./d"⟩ := by
  have htarget := grouped_intoEmpty.target List.mem_cons_self
  refine ⟨Archive.Item.kind_eq, fun hname => ?_, htarget⟩
  rw [target?, if_pos hname] at htarget
  cases htarget

theorem oneDir_yields_directory :
    let source := ByteSource.ofBytes oneDir.bytes
    (unpack source ⟨"."⟩ grouped).result = .ok () ∧
      (Archive.list source).members = [] ++ oneDir.member :: [] ∧
      oneDir.member.kind = .directory ∧ oneDir.member.name ≠ "" ∧
      ∃ path, target? ⟨"."⟩ oneDir.member = some path ∧
        (path.text ≠ "" → ∃ loc e,
          (grouped.applyAll (unpack source ⟨"."⟩ grouped).changes).stat path = .ok (loc, e) ∧
            ((∃ mode, e = .dir mode) ↔
              (grouped.at? loc = none ∨ grouped.IsDir loc) ∧
                ∀ m' ∈ [], writesAt? grouped ⟨"."⟩ m' ≠ some loc)) := by
  intro source
  obtain ⟨hkind, hname, -⟩ := oneDir_named
  exact ⟨unpack_grouped.1, list_oneDir.1, hkind, hname,
    directory_members_yield_directories_iff grouped ⟨"."⟩ source unpack_grouped.1 [] []
      oneDir.member
      list_oneDir.1 hkind hname⟩

/-! A file in the place of a directory -/

def occupied : FileTree :=
  ⟨{ workingDir := ["out"] }, [(["out"], .dir 0o755), (["out", "d"], .file 0o644 [0x78])]⟩

theorem stat_occupied : occupied.stat ⟨"./d"⟩ = .ok (["out", "d"], .file 0o644 [0x78]) := by
  refine FileTree.stat_of_walkParts (FileTree.checkPath_eq_ok.mpr (by decide)) ?_
  change (occupied.walk true FileTree.mostLinks ["out"] [".", "d"]).mapError _ = _
  rw [FileTree.walk_step_idle _ _ _ _ (Or.inr rfl),
    FileTree.walk_last (e := .file 0o644 [0x78]) (by decide) (by decide) (by decide) rfl (by simp)]
  rfl

/-- A directory is unpacked where a file is. The unpacking succeeds and leaves the file there. -/
theorem file_stays_in_place_of_directory :
    let source := ByteSource.ofBytes oneDir.bytes
    let after := occupied.applyAll (unpack source ⟨"."⟩ occupied).changes
    (unpack source ⟨"."⟩ occupied).result = .ok () ∧
      oneDir.member ∈ (Archive.list source).members ∧
      oneDir.member.kind = .directory ∧ oneDir.member.name ≠ "" ∧
      target? ⟨"."⟩ oneDir.member = some ⟨"./d"⟩ ∧
      after.stat ⟨"./d"⟩ = .ok (["out", "d"], .file 0o644 [0x78]) := by
  intro source after
  obtain ⟨hlist, hending⟩ := list_oneDir
  obtain ⟨hkind, hname, htarget⟩ := oneDir_named
  have hmember : member occupied ⟨"."⟩ oneDir.member = ⟨[], [], .ok ()⟩ := by
    rw [member_of_directory htarget hkind, directory, stat_occupied]
  have hunpack : unpack source ⟨"."⟩ occupied = ⟨[], [], .ok ()⟩ := by
    rw [unpack, hlist, hending, members, hmember]
    rfl
  have hafter : after = occupied := by
    change occupied.applyAll (unpack source ⟨"."⟩ occupied).changes = occupied
    rw [hunpack]
    rfl
  rw [hunpack, hafter, hlist]
  exact ⟨rfl, List.mem_singleton_self _, hkind, hname, htarget, stat_occupied⟩

end NodeLogs.Unpack
