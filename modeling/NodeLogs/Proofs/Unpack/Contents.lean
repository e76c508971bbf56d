import NodeLogs.Proofs.Archive.Positions
import NodeLogs.Proofs.Unpack.RoundTrip

/-!
What an archive that was unpacked without a failure leaves behind in a tree of files and
directories: at each place the last file that was written there, what was there before, or a
directory that was made for a directory member.
-/

namespace NodeLogs.Unpack

open FileTree (Change SameLinks Settled)

variable {t : FileTree} {dest path : HostPath} {m : Archive.Member}

/-- The place that a regular member's file is written to. -/
def writesAt? (t : FileTree) (dest : HostPath) (m : Archive.Member) : Option Location :=
  if m.kind = .regular then (target? dest m).bind t.leadsTo? else none

/-- A place on the way of a directory member's path. -/
def OnWay (t : FileTree) (dest : HostPath) (m : Archive.Member) (loc : Location) : Prop :=
  m.kind = .directory ∧ ∃ path, target? dest m = some path ∧ t.Passes path loc

/-- The warning that a named member gets if it is neither a regular file nor a directory. -/
def warning? (m : Archive.Member) : Option String :=
  if m.name = "" ∨ m.kind = .regular ∨ m.kind = .directory then none
  else some ("tar file entry " ++ m.name ++ " contained unsupported file type " ++ m.kind.label)

theorem fill_ok {loc : Location} {body : Archive.Body} (h : (fill t loc body).2 = none) :
    (fill t loc body).1 = [.append loc body.bytes] := by
  unfold fill at h ⊢
  split at h
  · cases h
  · next written hwrite =>
    obtain rfl := FileTree.write_ok hwrite
    split at h
    · cases h
    · rfl

/-- A file that was unpacked was opened, got all of its data, and then its mode. -/
theorem file_ok {mode expected : Nat} {body : Archive.Body}
    (h : (file t path mode expected body).result = .ok ()) :
    ∃ loc opened, t.openForWriting mode path = .ok (loc, opened) ∧
      body.bytes.length = expected ∧
      (file t path mode expected body).changes =
        [opened, .append loc body.bytes, .setMode loc (mode &&& 0o7777)] ∧
      warnings (file t path mode expected body).log = [] := by
  unfold file at h ⊢
  cases hopen : t.openForWriting mode path with
  | error e => simp [hopen, failed] at h
  | ok opening =>
    obtain ⟨loc, opened⟩ := opening
    refine ⟨loc, opened, rfl, ?_⟩
    simp only [hopen] at h ⊢
    cases hfill : (fill (t.apply opened) loc body).2 with
    | some e => simp [hfill, failed] at h
    | none =>
      simp only [hfill] at h ⊢
      split at h
      · next hlength =>
        refine ⟨hlength, ?_⟩
        rw [if_pos hlength, fill_ok hfill]
        exact ⟨rfl, rfl⟩
      · simp [failed] at h

/-- A file that was unpacked into a plain tree stands where its path leads, and all else is as it
was. -/
theorem file_settled (plain : t.Plain) {mode expected : Nat} {body : Archive.Body}
    (h : (file t path mode expected body).result = .ok ()) :
    ∃ loc, t.leadsTo? path = some loc ∧
      (t.applyAll (file t path mode expected body).changes).Plain ∧
      Settled t (t.applyAll (file t path mode expected body).changes)
        (fun l => if l = loc then some (.file (mode &&& 0o7777) body.bytes) else none)
        (fun _ => False) := by
  obtain ⟨loc, opened, hopen, -, hchanges, -⟩ := file_ok h
  obtain ⟨hlead, hopened⟩ := FileTree.openForWriting_spec hopen
  have hplace : ¬ t.IsDir loc ∧ t.IsDir loc.dropLast ∧
      ((opened = .truncate loc ∧ ∃ m data, t.at? loc = some (.file m data)) ∨
        opened = .createFile loc (t.masked mode)) := by
    rcases hopened with ⟨hopened, ⟨m, data, hat, -⟩ | ⟨d, hat⟩⟩ | ⟨hopened, hfree, hdir⟩
    · exact ⟨FileTree.not_isDir_of_file hat, plain.isDir_dropLast (by simp [hat]),
        Or.inl ⟨hopened, m, data, hat⟩⟩
    · rcases plain.kinds loc _ hat with ⟨_, _, hkind⟩ | ⟨_, hkind⟩ <;> cases hkind
    · exact ⟨FileTree.not_isDir_of_free hfree, hdir plain.toSound, Or.inr hopened⟩
  obtain ⟨hnot, hdir, hwhich⟩ := hplace
  have hroot : loc ≠ [] := by
    rintro rfl
    exact hnot (FileTree.isDir_nil t)
  refine ⟨loc, hlead, ?_⟩
  rw [hchanges]
  exact FileTree.settled_withFile plain (FileTree.caller_applyAll t _) hdir hnot
    (FileTree.at?_written body.bytes hroot hwhich)

theorem directory_settled (plain : t.Plain) (h : (directory t path).result = .ok ()) :
    (t.applyAll (directory t path).changes).Plain ∧
      Settled t (t.applyAll (directory t path).changes) (fun _ => none) (t.Passes path) ∧
      ∀ loc, t.Passes path loc → (t.applyAll (directory t path).changes).at? loc ≠ none := by
  obtain ⟨hplain, hsettled⟩ := (directory_changes t path).settled plain
  refine ⟨hplain, hsettled, ?_⟩
  intro loc hpass
  rcases directory_cases t path with ⟨found, hstat, hthere⟩ | ⟨hmakes, hmade⟩ | ⟨e, -, hunmade⟩
  · rw [hthere]
    exact plain.stat_passed hstat hpass
  · rw [hmade]
    exact FileTree.makeDirs_passed plain.toSound hmakes hpass
  · rw [hunmade] at h
    cases h

/-- The file that a regular member leaves. -/
def left? (m : Archive.Member) : Option Entry :=
  match m.header.mode with
  | .ok mode => some (.file (mode &&& 0o7777) m.body.bytes)
  | .error _ => none

/-- What members have written last at each place. -/
def lastWritten (t : FileTree) (dest : HostPath) : List Archive.Member → Location → Option Entry
  | [], _ => none
  | m :: later, loc =>
    (lastWritten t dest later loc).or (if writesAt? t dest m = some loc then left? m else none)

/-- A tree after members have been unpacked into a plain tree. -/
structure Unpacks (t : FileTree) (dest : HostPath) (ms : List Archive.Member)
    (after : FileTree) : Prop where
  plain : after.Plain
  whole : ∀ m ∈ ms, ∀ loc, writesAt? t dest m = some loc →
    m.header.size = .ok m.body.bytes.length ∧ left? m ≠ none
  settled : Settled t after (lastWritten t dest ms) (fun loc => ∃ m ∈ ms, OnWay t dest m loc)
  made : ∀ m ∈ ms, ∀ loc, OnWay t dest m loc → after.at? loc ≠ none

namespace Unpacks

theorem sameLinks {ms : List Archive.Member} {after : FileTree} (plain : t.Plain)
    (h : Unpacks t dest ms after) : SameLinks t after :=
  ⟨funext fun loc => by rw [h.plain.link?, plain.link?], h.settled.caller⟩

theorem nil (plain : t.Plain) : Unpacks t dest [] t where
  plain := plain
  whole := nofun
  settled := (Settled.refl t _).mono fun _ h => h
  made := nofun

end Unpacks

/-- What nothing was written for and nothing was made for is as it was. -/
theorem unpacks_unchanged (plain : t.Plain) (hwrites : writesAt? t dest m = none)
    (hway : ∀ loc, ¬ OnWay t dest m loc) : Unpacks t dest [m] t where
  plain := plain
  whole := by simp [hwrites]
  settled := by
    have hnone : lastWritten t dest [m] = fun _ => none := by
      funext loc
      simp [lastWritten, hwrites]
    rw [hnone]
    exact (Settled.refl t fun _ => False).mono fun _ h => h.elim
  made := by simp [hway]

theorem unpacks_file (plain : t.Plain) (htarget : target? dest m = some path)
    (hkind : m.kind = .regular) {size mode : Nat} (hsize : m.header.size = .ok size)
    (hmode : m.header.mode = .ok mode) (h : (file t path mode size m.body).result = .ok ()) :
    Unpacks t dest [m] (t.applyAll (file t path mode size m.body).changes) := by
  obtain ⟨loc, hlead, hplain, hsettled⟩ := file_settled plain h
  obtain ⟨-, -, -, hlength, -⟩ := file_ok h
  have hwrites : writesAt? t dest m = some loc := by
    rw [writesAt?, if_pos hkind, htarget, Option.bind_some, hlead]
  have hleft : left? m = some (.file (mode &&& 0o7777) m.body.bytes) := by rw [left?, hmode]
  refine ⟨hplain, ?_, ?_, ?_⟩
  · simp [hsize, hlength, hleft]
  · have hlast : lastWritten t dest [m] =
        fun l => if l = loc then some (.file (mode &&& 0o7777) m.body.bytes) else none := by
      funext l
      simp [lastWritten, hwrites, hleft, eq_comm]
    rw [hlast]
    exact hsettled.mono fun _ h => h.elim
  · simp [OnWay, hkind]

theorem unpacks_directory (plain : t.Plain) (htarget : target? dest m = some path)
    (hkind : m.kind = .directory) (h : (directory t path).result = .ok ()) :
    Unpacks t dest [m] (t.applyAll (directory t path).changes) := by
  obtain ⟨hplain, hsettled, hmade⟩ := directory_settled plain h
  refine ⟨hplain, ?_, ?_, ?_⟩
  · simp [writesAt?, hkind]
  · have hlast : lastWritten t dest [m] = fun _ => none := by
      funext l
      simp [lastWritten, writesAt?, hkind]
    rw [hlast]
    exact hsettled.mono fun l hl => ⟨m, List.mem_cons_self, hkind, path, htarget, hl⟩
  · simp only [List.mem_singleton, forall_eq]
    rintro l ⟨-, q, hq, hpass⟩
    obtain rfl : path = q := Option.some.inj (htarget.symm.trans hq)
    exact hmade l hpass

theorem directory_log (t : FileTree) (path : HostPath) : (directory t path).log = [] := by
  rcases directory_cases t path with ⟨found, -, hthere⟩ | ⟨-, hmade⟩ | ⟨e, -, hunmade⟩
  · rw [hthere]
  · rw [hmade]
  · rw [hunmade, failed]

theorem file_failed_log {mode expected : Nat} {body : Archive.Body} {f : Failure}
    (h : (file t path mode expected body).result = .error f) :
    (file t path mode expected body).log = [] := by
  unfold file at h ⊢
  cases hopen : t.openForWriting mode path with
  | error e => rfl
  | ok opening =>
    simp only [hopen, failed] at h ⊢
    split at h
    · rfl
    · split at h
      · cases h
      · next hlength => rw [if_neg hlength]

/-- A member that fails writes nothing to the log. -/
theorem member_failed_log {f : Failure} (h : (member t dest m).result = .error f) :
    (member t dest m).log = [] := by
  by_cases hname : m.name = ""
  · rw [member_of_nameless hname]
  cases htarget : target? dest m with
  | none =>
    rw [target?, if_neg hname, Option.map_eq_none_iff, Archive.relativeParts?_eq_none] at htarget
    have hmember : member t dest m = failed [] (.ofCause (.unsafeName m.name)) :=
      member_refused htarget
    rw [hmember]
    rfl
  | some path =>
    rw [member_of_target? htarget] at h ⊢
    cases hkind : m.kind with
    | regular =>
      simp only [hkind] at h ⊢
      split
      · rfl
      · rfl
      · next hsize hmode =>
        simp only [hsize, hmode] at h
        exact file_failed_log h
    | directory =>
      simp only [directory_log]
    | _ => simp [hkind] at h

/-- A member that was unpacked is warned of just where its kind calls for that. -/
theorem member_warns (h : (member t dest m).result = .ok ()) :
    warnings (member t dest m).log = (warning? m).toList := by
  by_cases hname : m.name = ""
  · rw [member_of_nameless hname, warning?, if_pos (Or.inl hname)]
    rfl
  obtain ⟨path, htarget⟩ := target?_of_ok h hname
  cases hkind : m.kind with
  | regular =>
    obtain ⟨size, mode, -, -, hfile⟩ := file_of_ok h htarget hkind
    rw [hfile] at h ⊢
    obtain ⟨-, -, -, -, -, hlog⟩ := file_ok h
    rw [warning?, if_pos (Or.inr (Or.inl hkind))]
    exact hlog
  | directory =>
    rw [warning?, if_pos (Or.inr (Or.inr hkind)), member_of_directory htarget hkind, directory_log]
    rfl
  | _ => simp [member_of_target? htarget, warning?, hname, hkind, warnings, LogLine.warn]

theorem members_warn {ending : Except Archive.Error Unit} {ms : List Archive.Member}
    (h : (members t dest ending ms).result = .ok ()) :
    warnings (members t dest ending ms).log = ms.filterMap warning? := by
  induction ms generalizing t with
  | nil => rfl
  | cons m later ih =>
    obtain ⟨hmember, hrest⟩ := members_ok h
    rw [members_cons_of_ok hmember, Effect.andThen, warnings_append, member_warns hmember, ih hrest]
    cases hm : warning? m <;> simp [hm]

/-- What one member that was unpacked leaves. -/
theorem member_unpacks (plain : t.Plain) (h : (member t dest m).result = .ok ()) :
    Unpacks t dest [m] (t.applyAll (member t dest m).changes) := by
  by_cases hname : m.name = ""
  · have htarget : target? dest m = none := if_pos hname
    rw [member_of_nameless hname]
    refine unpacks_unchanged plain ?_ ?_
    · simp [writesAt?, htarget]
    · simp [OnWay, htarget]
  obtain ⟨path, htarget⟩ := target?_of_ok h hname
  cases hkind : m.kind with
  | regular =>
    obtain ⟨size, mode, hsize, hmode, hfile⟩ := file_of_ok h htarget hkind
    rw [hfile] at h ⊢
    exact unpacks_file plain htarget hkind hsize hmode h
  | directory =>
    rw [member_of_directory htarget hkind] at h ⊢
    exact unpacks_directory plain htarget hkind h
  | _ =>
    rw [member_of_target? htarget]
    simp only [hkind]
    refine unpacks_unchanged plain ?_ ?_
    · simp [writesAt?, hkind]
    · simp [OnWay, hkind]

theorem writesAt?_congr {t t' : FileTree} (h : SameLinks t t') (dest : HostPath) :
    writesAt? t' dest = writesAt? t dest := by
  funext m
  simp only [writesAt?, funext h.leadsTo?]

theorem onWay_congr {t t' : FileTree} (h : SameLinks t t') (dest : HostPath) :
    OnWay t' dest = OnWay t dest := by
  funext m loc
  simp only [OnWay, h.passes_iff]

theorem lastWritten_congr {t t' : FileTree} (h : SameLinks t t') (dest : HostPath) :
    lastWritten t' dest = lastWritten t dest := by
  funext ms loc
  induction ms with
  | nil => rfl
  | cons m later ih => rw [lastWritten, lastWritten, ih, writesAt?_congr h]

theorem lastWritten_append (before later : List Archive.Member) (loc : Location) :
    lastWritten t dest (before ++ later) loc =
      (lastWritten t dest later loc).or (lastWritten t dest before loc) := by
  induction before with
  | nil => simp [lastWritten]
  | cons m before ih => rw [List.cons_append, lastWritten, lastWritten, ih, Option.or_assoc]

/-- Members that are unpacked after others. -/
theorem Unpacks.append {t₁ t₂ : FileTree} {before later : List Archive.Member} (plain : t.Plain)
    (h : Unpacks t dest before t₁) (h' : Unpacks t₁ dest later t₂) :
    Unpacks t dest (before ++ later) t₂ := by
  have hsame := h.sameLinks plain
  have hsettled := h'.settled
  rw [lastWritten_congr hsame, onWay_congr hsame] at hsettled
  refine ⟨h'.plain, ?_, ?_, ?_⟩
  · intro m hm loc hwrites
    rcases List.mem_append.mp hm with hm | hm
    · exact h.whole m hm loc hwrites
    · exact h'.whole m hm loc (by rwa [writesAt?_congr hsame])
  · have hlast : lastWritten t dest (before ++ later) =
        fun loc => (lastWritten t dest later loc).or (lastWritten t dest before loc) :=
      funext (lastWritten_append before later)
    rw [hlast]
    refine (h.settled.trans hsettled).mono ?_
    rintro loc (⟨m, hm, hway⟩ | ⟨m, hm, hway⟩)
    · exact ⟨m, List.mem_append_left later hm, hway⟩
    · exact ⟨m, List.mem_append_right before hm, hway⟩
  · intro m hm loc hway
    rcases List.mem_append.mp hm with hm | hm
    · exact hsettled.present (h.made m hm loc hway)
    · exact h'.made m hm loc (by rwa [onWay_congr hsame])

theorem members_unpacks (plain : t.Plain) {ending : Except Archive.Error Unit}
    {ms : List Archive.Member} (h : (members t dest ending ms).result = .ok ()) :
    Unpacks t dest ms (t.applyAll (members t dest ending ms).changes) := by
  induction ms generalizing t with
  | nil => exact .nil plain
  | cons m later ih =>
    obtain ⟨hmember, hrest⟩ := members_ok h
    have hone := member_unpacks plain hmember
    rw [members_cons_of_ok hmember, Effect.andThen, FileTree.applyAll_append]
    exact hone.append plain (ih hone.plain hrest)

theorem lastWritten_of_none {ms : List Archive.Member} {loc : Location}
    (h : ∀ m ∈ ms, writesAt? t dest m ≠ some loc) : lastWritten t dest ms loc = none := by
  induction ms with
  | nil => rfl
  | cons m later ih =>
    rw [lastWritten, ih fun m' hm' => h m' (List.mem_cons_of_mem m hm'),
      if_neg (h m List.mem_cons_self)]
    rfl

/-- A tree that members leave when all of them have been unpacked. -/
structure Leaves (t : FileTree) (dest : HostPath) (ms : List Archive.Member)
    (after : FileTree) : Prop where
  /-- The last member that writes to a place leaves all of its data there, and its mode. -/
  written : ∀ before m later loc, ms = before ++ m :: later → writesAt? t dest m = some loc →
    (∀ m' ∈ later, writesAt? t dest m' ≠ some loc) →
    m.header.size = .ok m.body.bytes.length ∧
      ∃ mode, m.header.mode = .ok mode ∧
        after.at? loc = some (.file (mode &&& 0o7777) m.body.bytes)
  /-- Whatever else was there is as it was. -/
  kept : ∀ loc e, (∀ m ∈ ms, writesAt? t dest m ≠ some loc) → t.at? loc = some e →
    after.at? loc = some e
  /-- Whatever else is new is a directory on the way of a directory member, with the mode that the
  caller's mask leaves of 0755, and all of these are there. -/
  made : ∀ loc, (∀ m ∈ ms, writesAt? t dest m ≠ some loc) → t.at? loc = none →
    ((∃ m ∈ ms, OnWay t dest m loc) ∧ ∃ above, after.at? loc.dropLast = some (.dir above) ∧
      after.at? loc = some (.dir (t.masked 0o755 ||| (above &&& 0o2000)))) ∨
    ((∀ m ∈ ms, ¬ OnWay t dest m loc) ∧ after.at? loc = none)

theorem Unpacks.leaves {ms : List Archive.Member} {after : FileTree}
    (h : Unpacks t dest ms after) : Leaves t dest ms after where
  written := by
    rintro before m later loc rfl hwrites hlast
    have hm : m ∈ before ++ m :: later := List.mem_append_right before List.mem_cons_self
    obtain ⟨hsize, hleft⟩ := h.whole m hm loc hwrites
    refine ⟨hsize, ?_⟩
    unfold left? at hleft
    split at hleft
    · next mode hmode =>
      refine ⟨mode, hmode, h.settled.file loc _ ?_⟩
      rw [lastWritten_append, lastWritten, lastWritten_of_none hlast, if_pos hwrites, left?, hmode]
      rfl
    · exact absurd rfl hleft
  kept loc e hnone hat := h.settled.old loc e (lastWritten_of_none hnone) hat
  made loc hnone hfree := by
    cases hat : after.at? loc with
    | none => exact Or.inr ⟨fun m hm hway => h.made m hm loc hway hat, rfl⟩
    | some e =>
      obtain ⟨hway, above, habove, rfl⟩ := h.settled.new loc e (lastWritten_of_none hnone) hfree hat
      exact Or.inl ⟨hway, above, habove, rfl⟩

/-- An archive that is unpacked without a failure into a tree of files and directories leaves
exactly what its members say: the headers and the data are those in the stream, and there is one
warning for each named member of another kind, in order. Of the mode 0755 the standard mask takes
nothing. -/
theorem unpacked_tree_is_told_by_members (t : FileTree) (plain : t.Plain) (source : ByteSource)
    (dest : HostPath) (h : (unpack source dest t).result = .ok ()) :
    Archive.StandFrom source.bytes 0 (Archive.list source).members ∧
      Leaves t dest (Archive.list source).members
        (t.applyAll (unpack source dest t).changes) ∧
      (t.umask = 0o022 → t.masked 0o755 = 0o755) ∧
      warnings (unpack source dest t).log =
        (Archive.list source).members.filterMap warning? := by
  exact ⟨Archive.list_stand source, (members_unpacks plain h).leaves, Caller.masked_standard,
    members_warn h⟩

theorem smallTree_is_told_by_members :
    let source := ByteSource.ofBytes (smallTree.flatMap Archive.Item.bytes)
    FileTree.Plain ⟨{}, []⟩ ∧ (unpack source ⟨"/"⟩ ⟨{}, []⟩).result = .ok () ∧
      Leaves ⟨{}, []⟩ ⟨"/"⟩ (Archive.list source).members
        (FileTree.applyAll ⟨{}, []⟩ (unpack source ⟨"/"⟩ ⟨{}, []⟩).changes) := by
  intro source
  have hresult := smallTree_unpacked {}
  obtain ⟨-, hleaves, -, -⟩ :=
    unpacked_tree_is_told_by_members ⟨{}, []⟩ FileTree.plain_nil source ⟨"/"⟩ hresult
  exact ⟨FileTree.plain_nil, hresult, hleaves⟩

/-- A new directory does not have the mode 0755 where the one above it gives its group away. -/
theorem unpacked_directory_takes_group_bit :
    grouped.Plain ∧ grouped.at? ["out", "d"] = none ∧
      (unpack (.ofBytes oneDir.bytes) ⟨"."⟩ grouped).result = .ok () ∧
      (grouped.applyAll (unpack (.ofBytes oneDir.bytes) ⟨"."⟩ grouped).changes).at? ["out", "d"] =
        some (.dir 0o2755) := by
  have hfree : FileTree.at? ⟨{}, []⟩ ["out"] = none := by decide
  have hmade : FileTree.Plain (FileTree.apply ⟨{}, []⟩ (.makeDir ["out"] 0o2755)) :=
    FileTree.plain_nil.apply (FileTree.isDir_nil _) (FileTree.not_isDir_of_free hfree)
  have hplain : grouped.Plain :=
    { above := hmade.above, workingDir := ⟨0o2755, by decide⟩, kinds := hmade.kinds }
  exact ⟨hplain, by decide, unpack_grouped⟩

end NodeLogs.Unpack
