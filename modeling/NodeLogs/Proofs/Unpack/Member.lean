import NodeLogs.Unpack
import NodeLogs.Proofs.FileTree.Access

/-!
What unpacking one member changes. A regular member changes only the place that its path leads to;
a directory makes directories on the way there; nothing else changes anything.
-/

namespace NodeLogs

theorem warnings_append (before later : List LogLine) :
    warnings (before ++ later) = warnings before ++ warnings later := by
  simp [warnings]

namespace Unpack

open FileTree (Change SameLinks MakesOnWay)
open HostPath (IsName below)

/-- The path that a member is unpacked to. -/
def target? (dest : HostPath) (m : Archive.Member) : Option HostPath :=
  if m.name = "" then none
  else (Archive.relativeParts? m.name).map fun names => dest.join (below names)

theorem target?_spec {dest path : HostPath} {m : Archive.Member}
    (h : target? dest m = some path) :
    ∃ names, Archive.relativeParts? m.name = some names ∧ (∀ name ∈ names, IsName name) ∧
      path = dest.join (below names) := by
  unfold target? at h
  split at h
  · cases h
  · obtain ⟨names, hnames, rfl⟩ := Option.map_eq_some_iff.mp h
    exact ⟨names, hnames, (Archive.relativeParts?_eq_some hnames).2, rfl⟩

variable {t : FileTree} {dest path : HostPath} {m : Archive.Member}

theorem member_of_nameless (h : m.name = "") : member t dest m = ⟨[], [], .ok ()⟩ := by
  rw [member, if_pos h]

theorem member_refused (h : Archive.Unsafe m.name) :
    member t dest m = failed [] (.ofCause (.unsafeName m.name)) := by
  have hname : m.name ≠ "" := by
    intro hempty
    rcases h with ⟨rest, hrest⟩ | hup
    · simp [hempty] at hrest
    · simp [hempty, Text.split, split] at hup
  rw [member, if_neg hname, Archive.descent?_eq_relativeParts?,
    Archive.relativeParts?_eq_none.mpr h]
  rfl

/-- A member that is neither nameless nor refused. -/
theorem member_of_target? (h : target? dest m = some path) :
    member t dest m =
      match m.kind with
      | .regular =>
        match m.header.size, m.header.mode with
        | .error e, _ => failed [] (readingFailure e)
        | .ok _, .error e => failed [] (readingFailure e)
        | .ok size, .ok mode => file t path mode size m.body
      | .directory => directory t path
      | kind =>
        ⟨[], [.warn ("tar file entry " ++ m.name ++ " contained unsupported file type " ++
          kind.label)], .ok ()⟩ := by
  unfold target? at h
  split at h
  · cases h
  · next hname =>
    obtain ⟨names, hnames, rfl⟩ := Option.map_eq_some_iff.mp h
    rw [member, if_neg hname, Archive.descent?_eq_relativeParts?, hnames]
    rfl

theorem member_of_directory (htarget : target? dest m = some path) (hkind : m.kind = .directory) :
    member t dest m = directory t path := by
  rw [member_of_target? htarget]
  simp only [hkind]

theorem member_of_file {size mode : Nat} (htarget : target? dest m = some path)
    (hkind : m.kind = .regular) (hsize : m.header.size = .ok size)
    (hmode : m.header.mode = .ok mode) : member t dest m = file t path mode size m.body := by
  rw [member_of_target? htarget]
  simp only [hkind, hsize, hmode]

/-- All that a member can do to the tree. -/
theorem member_acts (t : FileTree) (dest : HostPath) (m : Archive.Member) :
    (member t dest m).changes = [] ∨
      ∃ path, target? dest m = some path ∧
        ((m.kind = .regular ∧ ∃ size mode, member t dest m = file t path mode size m.body) ∨
          (m.kind = .directory ∧ member t dest m = directory t path)) := by
  by_cases hname : m.name = ""
  · rw [member_of_nameless hname]
    exact Or.inl rfl
  cases htarget : target? dest m with
  | none =>
    rw [target?, if_neg hname, Option.map_eq_none_iff] at htarget
    rw [member_refused (Archive.relativeParts?_eq_none.mp htarget)]
    exact Or.inl rfl
  | some path =>
    cases hkind : m.kind with
    | regular =>
      cases hsize : m.header.size with
      | error e => simp [member_of_target? htarget, hkind, hsize, failed]
      | ok size =>
        cases hmode : m.header.mode with
        | error e => simp [member_of_target? htarget, hkind, hsize, hmode, failed]
        | ok mode =>
          exact Or.inr ⟨path, rfl, Or.inl ⟨rfl, size, mode,
            member_of_file htarget hkind hsize hmode⟩⟩
    | directory => exact Or.inr ⟨path, rfl, Or.inr ⟨rfl, member_of_directory htarget hkind⟩⟩
    | _ => simp [member_of_target? htarget, hkind]

theorem file_of_error {mode expected : Nat} {body : Archive.Body} {e : IoError}
    (h : t.openForWriting mode path = .error e) :
    (file t path mode expected body).result ≠ .ok () := by
  unfold file
  rw [h]
  exact nofun

/-- A file that was opened is changed alone: opened first, then written to, and its mode set
last. -/
theorem file_changes_of_open {mode expected : Nat} {body : Archive.Body} {loc : Location}
    {opened : Change} (h : t.openForWriting mode path = .ok (loc, opened)) :
    (file t path mode expected body).changes =
      opened :: (fill (t.apply opened) loc body).1 ++ [.setMode loc (mode &&& 0o7777)] := by
  unfold file
  simp only [h, failed]
  split
  · rfl
  · split <;> rfl

/-- One that cannot be opened changes nothing. -/
theorem file_changes (t : FileTree) (path : HostPath) (mode expected : Nat) (body : Archive.Body) :
    (file t path mode expected body).changes = [] ∨
      ∃ loc opened, t.openForWriting mode path = .ok (loc, opened) ∧
        (file t path mode expected body).changes =
          opened :: (fill (t.apply opened) loc body).1 ++ [.setMode loc (mode &&& 0o7777)] := by
  cases hopen : t.openForWriting mode path with
  | error e => exact Or.inl (by rw [file, hopen]; rfl)
  | ok opening =>
    obtain ⟨loc, opened⟩ := opening
    exact Or.inr ⟨loc, opened, rfl, file_changes_of_open hopen⟩

/-- What is told of a file of another size than its header says. -/
def wrongSize (path : HostPath) (written expected : Nat) : Outcome Unit :=
  .error (.ofCause (.sizeMismatch path written expected))

/-- How a file comes out that was opened and takes its data. -/
theorem file_result {mode expected : Nat} {body : Archive.Body} {loc : Location}
    {opened written : FileTree.Change} (hopen : t.openForWriting mode path = .ok (loc, opened))
    (hwrite : (t.apply opened).write loc body.bytes = .ok written) :
    (file t path mode expected body).result =
      match body.cut with
      | some (.failed e) =>
        .error ((Failure.ofCause (.io e)).context ("error writing to " ++ path.text))
      | _ =>
        if body.bytes.length = expected then .ok ()
        else wrongSize path body.bytes.length expected := by
  obtain ⟨bytes, cut⟩ := body
  simp only at hwrite
  rcases cut with _ | _ | e
  · by_cases hlength : bytes.length = expected <;> simp only [file, hopen, fill, hwrite, hlength,
      if_true, if_false, failed, wrongSize]
  · by_cases hlength : bytes.length = expected <;> simp only [file, hopen, fill, hwrite, hlength,
      if_true, if_false, failed, wrongSize]
  · simp only [file, hopen, fill, hwrite, failed]

/-- A file that can be opened and is no device takes data that is all there. -/
theorem file_succeeds {mode : Nat} {loc : Location} {opened : Change} (data : Bytes)
    (hopen : t.openForWriting mode path = .ok (loc, opened))
    (hdevice : ∀ d, t.at? loc ≠ some (.device d)) :
    (file t path mode data.length ⟨data, none⟩).result = .ok () := by
  have hwrite : (t.apply opened).write loc data = .ok (.append loc data) := by
    rw [FileTree.write, if_neg]
    rintro ⟨hfull, -⟩
    exact hdevice .full (@FileTree.device_of_applyAll t [opened] loc .full hfull)
  rw [file_result hopen hwrite]
  exact if_pos rfl

/-- All of the data is written, unless a full device takes none of it. -/
theorem fill_changes (t : FileTree) (loc : Location) (body : Archive.Body) :
    (fill t loc body).1 = [.append loc body.bytes] ∨
      (fill t loc body).1 = [] ∧ t.at? loc = some (.device .full) := by
  unfold fill
  cases hwrite : t.write loc body.bytes with
  | error e =>
    refine Or.inr ⟨rfl, ?_⟩
    unfold FileTree.write at hwrite
    split at hwrite
    · next hfull => exact hfull.1
    · cases hwrite
  | ok written =>
    obtain rfl := FileTree.write_ok hwrite
    refine Or.inl ?_
    simp only
    split <;> rfl

theorem fill_places (t : FileTree) (loc : Location) (body : Archive.Body) :
    ∀ c ∈ (fill t loc body).1, c.place = loc := by
  intro c hc
  rcases fill_changes t loc body with hall | ⟨hnone, -⟩
  · rw [hall] at hc
    cases List.mem_singleton.mp hc
    rfl
  · rw [hnone] at hc
    cases hc

/-- All that a file's unpacking changes is at the place that its path leads to. -/
theorem file_places (t : FileTree) (path : HostPath) (mode expected : Nat) (body : Archive.Body) :
    (file t path mode expected body).changes = [] ∨
      ∃ loc, t.leadsTo? path = some loc ∧ t.link? loc = none ∧
        ∀ c ∈ (file t path mode expected body).changes, c.place = loc := by
  refine (file_changes t path mode expected body).imp_right ?_
  rintro ⟨loc, opened, hopen, hchanges⟩
  obtain ⟨hlead, hopened⟩ := FileTree.openForWriting_spec hopen
  refine ⟨loc, hlead, ?_, ?_⟩
  · rcases hopened with ⟨-, ⟨m, data, hat, -⟩ | ⟨d, hat⟩⟩ | ⟨-, hat, -⟩ <;>
      simp [FileTree.link?, hat]
  · intro c hc
    simp only [hchanges, List.cons_append, List.mem_cons, List.mem_append, List.not_mem_nil,
      or_false] at hc
    rcases hc with rfl | hc | rfl
    · rcases hopened with ⟨rfl, -⟩ | ⟨rfl, -⟩ <;> rfl
    · exact fill_places _ _ _ c hc
    · rfl

/-- Something is there already, or the directory is made, or it cannot be made. -/
theorem directory_cases (t : FileTree) (path : HostPath) :
    (∃ found, t.stat path = .ok found ∧ directory t path = ⟨[], [], .ok ()⟩) ∨
    ((t.makeDirs 0o755 path).2 = .ok () ∧
      directory t path = ⟨(t.makeDirs 0o755 path).1, [], .ok ()⟩) ∨
    ∃ e, (t.makeDirs 0o755 path).2 = .error e ∧
      directory t path = failed (t.makeDirs 0o755 path).1
        ((Failure.ofCause (.io e)).context ("Failed to create directory " ++ path.text)) := by
  unfold directory
  cases hstat : t.stat path with
  | ok found => exact Or.inl ⟨found, rfl, rfl⟩
  | error _ =>
    right
    cases hmake : t.makeDirs 0o755 path with
    | mk changes result =>
      cases result with
      | ok _ => exact Or.inl ⟨rfl, rfl⟩
      | error e => exact Or.inr ⟨e, rfl, rfl⟩

theorem directory_changes (t : FileTree) (path : HostPath) :
    MakesOnWay 0o755 path t (directory t path).changes := by
  rcases directory_cases t path with ⟨found, -, hthere⟩ | ⟨-, hmade⟩ | ⟨e, -, hunmade⟩
  · rw [hthere]
    trivial
  · rw [hmade]
    exact FileTree.makeDirs_makesOnWay 0o755 t path
  · rw [hunmade]
    exact FileTree.makeDirs_makesOnWay 0o755 t path

/-- One effect after another. The first is taken to have succeeded. -/
def Effect.andThen (e f : Effect) : Effect := ⟨e.changes ++ f.changes, e.log ++ f.log, f.result⟩

theorem members_cons_of_ok {ending : Except Archive.Error Unit} {rest : List Archive.Member}
    (h : (member t dest m).result = .ok ()) :
    members t dest ending (m :: rest) =
      (member t dest m).andThen
        (members (t.applyAll (member t dest m).changes) dest ending rest) := by
  rw [members, h]
  rfl

/-- Where the first members succeed, the others go on from what these have left. -/
theorem members_append {ending : Except Archive.Error Unit} {before : List Archive.Member}
    (h : (members t dest (.ok ()) before).result = .ok ()) (rest : List Archive.Member) :
    members t dest ending (before ++ rest) =
      (members t dest (.ok ()) before).andThen
        (members (t.applyAll (members t dest (.ok ()) before).changes) dest ending rest) := by
  induction before generalizing t with
  | nil => rfl
  | cons first others ih =>
    cases hfirst : (member t dest first).result with
    | error f =>
      rw [members, hfirst] at h
      cases h
    | ok _ =>
      rw [members_cons_of_ok hfirst] at h
      rw [List.cons_append, members_cons_of_ok hfirst, members_cons_of_ok hfirst, ih h]
      simp [Effect.andThen, FileTree.applyAll_append, List.append_assoc]

theorem members_ok {ending : Except Archive.Error Unit} {rest : List Archive.Member}
    (h : (members t dest ending (m :: rest)).result = .ok ()) :
    (member t dest m).result = .ok () ∧
      (members (t.applyAll (member t dest m).changes) dest ending rest).result = .ok () := by
  cases hfirst : (member t dest m).result with
  | error f =>
    rw [members, hfirst] at h
    cases h
  | ok _ =>
    rw [members_cons_of_ok hfirst] at h
    exact ⟨rfl, h⟩

/-- Members that succeed together succeed in two parts, one after the other. -/
theorem members_ok_append {ending : Except Archive.Error Unit} {before later : List Archive.Member}
    (h : (members t dest ending (before ++ later)).result = .ok ()) :
    (members t dest (.ok ()) before).result = .ok () ∧
      (members (t.applyAll (members t dest (.ok ()) before).changes) dest ending later).result =
        .ok () := by
  induction before generalizing t with
  | nil => exact ⟨rfl, h⟩
  | cons first others ih =>
    obtain ⟨hfirst, hrest⟩ := members_ok h
    rw [members_cons_of_ok hfirst, Effect.andThen, FileTree.applyAll_append]
    exact ih hrest

theorem target?_of_ok (h : (member t dest m).result = .ok ()) (hname : m.name ≠ "") :
    ∃ path, target? dest m = some path := by
  cases hparts : Archive.relativeParts? m.name with
  | none =>
    rw [member_refused (Archive.relativeParts?_eq_none.mp hparts)] at h
    cases h
  | some names => exact ⟨_, by rw [target?, if_neg hname, hparts]; rfl⟩

/-- A regular member that was unpacked has a size and a mode. -/
theorem file_of_ok (h : (member t dest m).result = .ok ()) (htarget : target? dest m = some path)
    (hkind : m.kind = .regular) :
    ∃ size mode, m.header.size = .ok size ∧ m.header.mode = .ok mode ∧
      member t dest m = file t path mode size m.body := by
  rw [member_of_target? htarget] at h
  simp only [hkind] at h
  cases hsize : m.header.size with
  | error e => simp [hsize, failed] at h
  | ok size =>
    cases hmode : m.header.mode with
    | error e => simp [hsize, hmode, failed] at h
    | ok mode => exact ⟨size, mode, rfl, rfl, member_of_file htarget hkind hsize hmode⟩

end Unpack

end NodeLogs
