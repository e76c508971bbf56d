import NodeLogs.Proofs.Text.Decoding
import NodeLogs.Proofs.Unpack.Containment
import NodeLogs.Proofs.Unpack.Growing

/-!
Which members share a file. A name is decoded before it becomes a path, and what is no UTF-8 in it
is replaced. So names that decode alike, part by part, have one file, which holds the last of their
members; names that decode apart never meet. Names that are UTF-8 decode alike only if they are
spelled alike.
-/

namespace NodeLogs

namespace Archive

open HostPath (steps)

/-- The parts of a path that say something, byte for byte. -/
def spelled (path : Bytes) : List Bytes :=
  (split 0x2F path).filter fun part => part ≠ [] ∧ part ≠ [0x2E]

/-- The same parts as they are decoded. -/
def decoded (path : Bytes) : List String := (spelled path).map Utf8.decodeLossy

theorem steps_decodeLossy (path : Bytes) : steps ⟨Utf8.decodeLossy path⟩ = decoded path := by
  rw [steps, HostPath.parts, Utf8.split_decodeLossy, HostPath.significant, List.filter_map, decoded,
    spelled]
  simp [Function.comp_def, HostPath.Idle, Utf8.decodeLossy_eq_empty, Utf8.decodeLossy_eq_dot]

theorem spelled_encode (text : String) :
    spelled (Utf8.encode text) = (steps ⟨text⟩).map Utf8.encode := by
  have hempty (part : String) : Utf8.encode part = [] ↔ part = "" :=
    ⟨fun h => Utf8.eq_of_encode_eq h, fun h => h ▸ rfl⟩
  have hdot (part : String) : Utf8.encode part = [0x2E] ↔ part = "." :=
    ⟨fun h => Utf8.eq_of_encode_eq h, fun h => h ▸ rfl⟩
  rw [spelled, Utf8.split_encode, List.filter_map, steps, HostPath.significant, HostPath.parts]
  simp [Function.comp_def, HostPath.Idle, hempty, hdot]

/-- Paths that are UTF-8 decode alike only if they are spelled alike. -/
theorem decoded_eq_iff {path path' : Bytes} (h : ∃ text, path = Utf8.encode text)
    (h' : ∃ text, path' = Utf8.encode text) :
    decoded path = decoded path' ↔ spelled path = spelled path' := by
  obtain ⟨text, rfl⟩ := h
  obtain ⟨text', rfl⟩ := h'
  rw [← steps_decodeLossy, ← steps_decodeLossy, Utf8.decodeLossy_encode, Utf8.decodeLossy_encode,
    spelled_encode, spelled_encode]
  exact (List.map_inj_right fun _ _ => Utf8.eq_of_encode_eq).symm

end Archive

namespace Unpack

open Archive (decoded spelled)
open FileTree (SameLinks)
open HostPath (IsName below)

variable {t : FileTree} {dest path : HostPath} {loc : Location} {m : Archive.Member}
  {ms : List Archive.Member} {ending : Except Archive.Error Unit}

theorem target?_decoded (h : target? dest m = some path) :
    path = dest.join (below (decoded m.path)) ∧ ∀ part ∈ decoded m.path, IsName part := by
  obtain ⟨names, hparts, hnames, rfl⟩ := target?_spec h
  obtain rfl : names = decoded m.path := by
    rw [(Archive.relativeParts?_eq_some hparts).1, Archive.Member.name, Archive.steps_decodeLossy]
  exact ⟨rfl, hnames⟩

theorem join_below_inj {names names' : List String} (h : ∀ name ∈ names, IsName name)
    (h' : ∀ name ∈ names', IsName name) :
    dest.join (below names) = dest.join (below names') ↔ names = names' := by
  constructor
  · intro hpath
    have hsteps := congrArg HostPath.steps hpath
    rwa [HostPath.steps_join h, HostPath.steps_join h', List.append_cancel_left_eq] at hsteps
  · rintro rfl
    rfl

/-! What a file holds that was unpacked -/

/-- What was written for a member is at the place, unless a device is there. -/
def Holds (t : FileTree) (loc : Location) (m : Archive.Member) (after : FileTree) : Prop :=
  (∃ mode, m.header.mode = .ok mode ∧ after.at? loc = some (.file (mode &&& 0o7777) m.body.bytes)) ∨
    ∃ d, t.at? loc = some (.device d) ∧ after.at? loc = some (.device d)

theorem member_holds (hfile : IsFile m) (h : (member t dest m).result = .ok ()) :
    ∃ loc, writesAt? t dest m = some loc ∧
      Holds t loc m (t.applyAll (member t dest m).changes) := by
  obtain ⟨path, htarget⟩ := target?_of_ok h hfile.2
  obtain ⟨size, mode, -, hmode, hmember⟩ := file_of_ok h htarget hfile.1
  rw [hmember] at h ⊢
  obtain ⟨loc, opened, hopen, -⟩ := file_ok h
  refine ⟨loc, ?_, ?_⟩
  · rw [writesAt?, if_pos hfile.1, htarget, Option.bind_some,
      (FileTree.openForWriting_spec hopen).1]
  · exact (file_leaves size m.body hopen).1.imp_left fun hat => ⟨mode, hmode, hat⟩

theorem Holds.started {cs : List FileTree.Change} {after : FileTree}
    (h : Holds (t.applyAll cs) loc m after) : Holds t loc m after :=
  h.imp_right fun ⟨d, hbefore, hafter⟩ => ⟨d, FileTree.device_of_applyAll hbefore, hafter⟩

/-- Members that write elsewhere leave it there. -/
theorem Holds.kept {now : FileTree} (h : Holds t loc m now) (ending : Except Archive.Error Unit)
    (hothers : ∀ m' ∈ ms, writesAt? now dest m' ≠ some loc) :
    Holds t loc m (now.applyAll (members now dest ending ms).changes) := by
  have htaken : now.at? loc ≠ none := by
    rcases h with ⟨mode, -, hat⟩ | ⟨d, -, hat⟩ <;> simp [hat]
  have hunwritten : Unwritten loc now (now.applyAll (members now dest ending ms).changes) :=
    members_unwritten hothers
  rwa [Holds, hunwritten.resolve_right fun hnew => htaken hnew.1]

/-! Which members share one -/

/-- What is told of a member says which file it shares: members told apart are written to paths and
places apart, and a file holds the last of those told alike. -/
structure FilesTold {α : Type _} (t : FileTree) (dest : HostPath) (ms : List Archive.Member)
    (after : FileTree) (told : Archive.Member → α) : Prop where
  paths : ∀ m ∈ ms, ∀ m' ∈ ms, IsFile m → IsFile m' →
    ∃ path path', target? dest m = some path ∧ target? dest m' = some path' ∧
      (path = path' ↔ told m = told m')
  places : t.Unlinked dest → ∀ m ∈ ms, ∀ m' ∈ ms, IsFile m → IsFile m' →
    ∃ loc loc', writesAt? t dest m = some loc ∧ writesAt? t dest m' = some loc' ∧
      (loc = loc' ↔ told m = told m')
  last : t.Unlinked dest → ∀ before m later, ms = before ++ m :: later → IsFile m →
    (∀ m' ∈ later, IsFile m' → told m' ≠ told m) →
    ∃ loc, writesAt? t dest m = some loc ∧ Holds t loc m after

theorem FilesTold.congr {α β : Type _} {after : FileTree} {told : Archive.Member → α}
    {told' : Archive.Member → β} (h : FilesTold t dest ms after told)
    (hsame : ∀ m ∈ ms, ∀ m' ∈ ms, IsFile m → IsFile m' → (told m = told m' ↔ told' m = told' m')) :
    FilesTold t dest ms after told' where
  paths m hm m' hm' hfile hfile' := by
    rw [← hsame m hm m' hm' hfile hfile']
    exact h.paths m hm m' hm' hfile hfile'
  places hunlinked m hm m' hm' hfile hfile' := by
    rw [← hsame m hm m' hm' hfile hfile']
    exact h.places hunlinked m hm m' hm' hfile hfile'
  last := by
    rintro hunlinked before m later rfl hfile hlast
    refine h.last hunlinked before m later rfl hfile fun m' hm' hfile' => ?_
    have hm : m ∈ before ++ m :: later := by simp
    have hm'' : m' ∈ before ++ m :: later := by simp [hm']
    rw [Ne, hsame m' hm'' m hm hfile' hfile]
    exact hlast m' hm' hfile'

/-- The tree that a member of an unpacked archive finds, and what comes of it there. -/
theorem member_of_ok (h : (members t dest ending ms).result = .ok ())
    {before later : List Archive.Member} (hms : ms = before ++ m :: later) :
    ∃ now, now = t.applyAll (members t dest (.ok ()) before).changes ∧
      (member now dest m).result = .ok () ∧
      (t.applyAll (members t dest ending ms).changes) =
        (now.applyAll (member now dest m).changes).applyAll
          (members (now.applyAll (member now dest m).changes) dest ending later).changes := by
  subst hms
  obtain ⟨hbefore, hrest⟩ := members_ok_append h
  obtain ⟨hmember, -⟩ := members_ok hrest
  refine ⟨_, rfl, hmember, ?_⟩
  rw [members_append hbefore, members_cons_of_ok hmember, Effect.andThen, Effect.andThen,
    FileTree.applyAll_append, FileTree.applyAll_append]

theorem exists_target? (h : (members t dest ending ms).result = .ok ()) (hm : m ∈ ms)
    (hfile : IsFile m) : ∃ path, target? dest m = some path := by
  obtain ⟨before, later, hms⟩ := List.append_of_mem hm
  obtain ⟨now, -, hmember, -⟩ := member_of_ok h hms
  exact target?_of_ok hmember hfile.2

theorem exists_writesAt? (hunlinked : t.Unlinked dest)
    (h : (members t dest ending ms).result = .ok ()) (hm : m ∈ ms) (hfile : IsFile m) :
    ∃ loc, writesAt? t dest m = some loc := by
  obtain ⟨before, later, hms⟩ := List.append_of_mem hm
  obtain ⟨now, rfl, hmember, -⟩ := member_of_ok h hms
  obtain ⟨loc, hwrites, -⟩ := member_holds hfile hmember
  rw [writesAt?_congr (members_stays hunlinked (.ok ()) before).sameLinks] at hwrites
  exact ⟨loc, hwrites⟩

/-- A file is written right where its decoded name leads from the destination. -/
theorem writesAt?_decoded (hunlinked : t.Unlinked dest) (h : writesAt? t dest m = some loc) :
    IsFile m ∧ ∃ base, t.leadsTo? dest = some base ∧ loc = base ++ decoded m.path := by
  unfold writesAt? at h
  split at h
  · next hkind =>
    obtain ⟨path, htarget, hlead⟩ := Option.bind_eq_some_iff.mp h
    obtain ⟨rfl, hnames⟩ := target?_decoded htarget
    rw [FileTree.leadsTo?_join hnames hunlinked, Option.map_eq_some_iff] at hlead
    obtain ⟨base, hbase, rfl⟩ := hlead
    have hname : m.name ≠ "" := by
      intro hempty
      rw [target?, if_pos hempty] at htarget
      cases htarget
    exact ⟨⟨hkind, hname⟩, base, hbase, rfl⟩
  · cases h

theorem members_told (h : (members t dest ending ms).result = .ok ()) :
    FilesTold t dest ms (t.applyAll (members t dest ending ms).changes)
      fun m => decoded m.path where
  paths m hm m' hm' hfile hfile' := by
    obtain ⟨path, htarget⟩ := exists_target? h hm hfile
    obtain ⟨path', htarget'⟩ := exists_target? h hm' hfile'
    refine ⟨path, path', htarget, htarget', ?_⟩
    obtain ⟨rfl, hnames⟩ := target?_decoded htarget
    obtain ⟨rfl, hnames'⟩ := target?_decoded htarget'
    exact join_below_inj hnames hnames'
  places hunlinked m hm m' hm' hfile hfile' := by
    obtain ⟨loc, hwrites⟩ := exists_writesAt? hunlinked h hm hfile
    obtain ⟨loc', hwrites'⟩ := exists_writesAt? hunlinked h hm' hfile'
    refine ⟨loc, loc', hwrites, hwrites', ?_⟩
    obtain ⟨-, base, hbase, rfl⟩ := writesAt?_decoded hunlinked hwrites
    obtain ⟨-, base', hbase', rfl⟩ := writesAt?_decoded hunlinked hwrites'
    obtain rfl : base = base' := Option.some.inj (hbase.symm.trans hbase')
    exact List.append_right_inj base
  last hunlinked before m later hms hfile hlast := by
    obtain ⟨now, hnow, hmember, hafter⟩ := member_of_ok h hms
    have hsame : SameLinks t now := hnow ▸ (members_stays hunlinked (.ok ()) before).sameLinks
    have hnext := (member_stays (hsame.unlinked hunlinked) m).sameLinks
    obtain ⟨loc, hwrites, hholds⟩ := member_holds hfile hmember
    rw [writesAt?_congr hsame] at hwrites
    refine ⟨loc, hwrites, ?_⟩
    have hothers : ∀ m' ∈ later, writesAt? t dest m' ≠ some loc := by
      intro m' hm' hwrites'
      obtain ⟨-, base, hbase, rfl⟩ := writesAt?_decoded hunlinked hwrites
      obtain ⟨hfile', base', hbase', hloc⟩ := writesAt?_decoded hunlinked hwrites'
      obtain rfl : base = base' := Option.some.inj (hbase.symm.trans hbase')
      exact hlast m' hm' hfile' (List.append_cancel_left hloc).symm
    rw [hafter]
    rw [← writesAt?_congr (hsame.trans hnext)] at hothers
    have hkept := hholds.kept ending hothers
    rw [hnow] at hkept ⊢
    exact hkept.started

/-- Unpacked files share a path and a place just where their names decode alike, and the last of
them is what is there. So where all names are UTF-8, files have one place just where their names are
spelled alike. -/
theorem files_are_told_by_decoded_names (t : FileTree) (dest : HostPath) (source : ByteSource)
    (h : (unpack source dest t).result = .ok ()) :
    FilesTold t dest (Archive.list source).members (t.applyAll (unpack source dest t).changes)
        (fun m => decoded m.path) ∧
      ((∀ m ∈ (Archive.list source).members, IsFile m → ∃ text, m.path = Utf8.encode text) →
        FilesTold t dest (Archive.list source).members (t.applyAll (unpack source dest t).changes)
          fun m => spelled m.path) := by
  have htold := members_told h
  refine ⟨htold, fun htext => htold.congr ?_⟩
  intro m hm m' hm' hfile hfile'
  exact Archive.decoded_eq_iff (htext m hm hfile) (htext m' hm' hfile')

theorem smallTree_files_are_told :
    let source := ByteSource.ofBytes (smallTree.flatMap Archive.Item.bytes)
    (unpack source ⟨"/"⟩ ⟨{}, []⟩).result = .ok () ∧
      (∀ m ∈ (Archive.list source).members, IsFile m → ∃ text, m.path = Utf8.encode text) ∧
      FilesTold ⟨{}, []⟩ ⟨"/"⟩ (Archive.list source).members
        (FileTree.applyAll ⟨{}, []⟩ (unpack source ⟨"/"⟩ ⟨{}, []⟩).changes)
        fun m => spelled m.path := by
  intro source
  have hresult := smallTree_unpacked {}
  have hlist : (Archive.list source).members = smallTree.map Archive.Item.member := by
    rw [list_smallTree]
  have htext : ∀ m ∈ (Archive.list source).members, IsFile m →
    ∃ text, m.path = Utf8.encode text := by
    intro m hm _
    rw [hlist] at hm
    obtain ⟨item, hitem, rfl⟩ := List.mem_map.mp hm
    refine ⟨item.path, Archive.Item.path_eq ((smallTree_intoEmpty {}).writable item hitem) ?_⟩
    exact Archive.nul_not_mem_path fun name hname =>
      (smallTree_makesTree.names item hitem name hname).2
  obtain ⟨-, htold⟩ := files_are_told_by_decoded_names ⟨{}, []⟩ ⟨"/"⟩ source hresult
  exact ⟨hresult, htext, htold htext⟩

/-! Two files whose names are a byte that is no UTF-8 -/

/-- A byte that is no text by itself. -/
structure Stranger (b : UInt8) : Prop where
  nonzero : b ≠ 0
  replaced : Utf8.decodeLossy [b] = "\uFFFD"

instance (b : UInt8) : Decidable (Stranger b) :=
  decidable_of_iff (b ≠ 0 ∧ Utf8.decodeLossy [b] = "\uFFFD")
    ⟨fun ⟨nonzero, replaced⟩ => ⟨nonzero, replaced⟩, fun h => ⟨h.nonzero, h.replaced⟩⟩

/-- A file with this name and text. -/
def byteFile (b : UInt8) (text : String) : Archive.Parcel := .ofFile [b] (Utf8.encode text)

section ByteFile

variable {b : UInt8}

variable (h : Stranger b) (text : String)
include h

theorem byteFile_path : (byteFile b text).member.path = [b] :=
  Archive.Parcel.ofFile_path (by simp) (by simpa using h.nonzero.symm)

theorem byteFile_isFile : IsFile (byteFile b text).member := by
  refine ⟨Archive.Parcel.ofFile_kind, ?_⟩
  rw [Archive.Member.name, byteFile_path h, h.replaced]
  decide

theorem byteFile_target : target? ⟨"/"⟩ (byteFile b text).member = some ⟨"/\uFFFD"⟩ := by
  rw [target?, Archive.Member.name, byteFile_path h, h.replaced]
  decide +kernel

theorem byteFile_unpacked (t : FileTree)
    (hholds : Archive.SizeForm.octal.Holds (Utf8.encode text).length) :
    member t ⟨"/"⟩ (byteFile b text).member =
      file t ⟨"/\uFFFD"⟩ 0o644 (Utf8.encode text).length ⟨Utf8.encode text, none⟩ := by
  rw [member_of_file (byteFile_target h text) Archive.Parcel.ofFile_kind
    (Archive.Parcel.ofFile_size hholds) Archive.Parcel.ofFile_mode, byteFile,
    Archive.Parcel.ofFile_member]

end ByteFile

theorem puts_of_file {mode : Nat} {opened : FileTree.Change} (data : Bytes)
    (hopen : t.openForWriting mode path = .ok (loc, opened)) (hfree : t.at? loc = none) :
    FileTree.Puts t (t.applyAll (file t path mode data.length ⟨data, none⟩).changes) loc
      (mode &&& 0o7777) data := by
  obtain ⟨hfilled, hothers⟩ := file_leaves data.length ⟨data, none⟩ hopen
  refine ⟨Or.inl hfree, hfilled.resolve_right ?_, hothers, FileTree.caller_applyAll t _⟩
  rintro ⟨d, hdevice, -⟩
  rw [hfree] at hdevice
  cases hdevice

/-- Where a path has put a file that may be written, it puts another one. -/
theorem file_again {mode : Nat} {opened : FileTree.Change} (data more : Bytes)
    (hopen : t.openForWriting mode path = .ok (loc, opened)) (hfree : t.at? loc = none)
    (hmode : t.mayWrite (mode &&& 0o7777) = true) :
    (file (t.applyAll (file t path mode data.length ⟨data, none⟩).changes) path mode more.length
      ⟨more, none⟩).result = .ok () := by
  have hputs := puts_of_file data hopen hfree
  refine file_succeeds more (hputs.openForWriting hopen hmode mode) ?_
  intro d hdevice
  rw [hputs.after] at hdevice
  cases hdevice

def strangers : List Archive.Parcel := [byteFile 0xFF "one", byteFile 0xFE "two"]

theorem stranger_ff : Stranger 0xFF := by decide +kernel

theorem stranger_fe : Stranger 0xFE := by decide +kernel

theorem list_strangers :
    Archive.list (.ofBytes (strangers.flatMap Archive.Parcel.bytes)) =
      ⟨strangers.map Archive.Parcel.member, .ok ()⟩ := by
  have hcomplete : ∀ p ∈ strangers, p.Complete := by
    simp only [strangers, List.mem_cons, List.not_mem_nil, or_false, forall_eq_or_imp, forall_eq]
    exact ⟨Archive.Parcel.ofFile_complete (by decide +kernel),
      Archive.Parcel.ofFile_complete (by decide +kernel)⟩
  refine Archive.list_parcels hcomplete (bytes_ofBytes _) .stream ?_
  rw [bytes_ofBytes, List.append_nil]
  simp only [strangers, byteFile, List.flatMap_cons, List.flatMap_nil, List.length_append,
    List.length_nil, Archive.Parcel.length_ofFile, Archive.length_padded]
  decide +kernel

theorem open_stranger :
    FileTree.openForWriting ⟨{}, []⟩ 0o644 ⟨"/\uFFFD"⟩ =
      .ok (["\uFFFD"], .createFile ["\uFFFD"] 0o644) :=
  FileTree.openForWriting_in_root (by decide +kernel) (by decide) (by decide) rfl
    (FileTree.checkPath_eq_ok.mpr (by decide)) 0o644

theorem unpack_strangers :
    (unpack (.ofBytes (strangers.flatMap Archive.Parcel.bytes)) ⟨"/"⟩ ⟨{}, []⟩).result =
      .ok () := by
  have hone := byteFile_unpacked stranger_ff "one" ⟨{}, []⟩ (by decide +kernel)
  have hfirst : (member ⟨{}, []⟩ ⟨"/"⟩ (byteFile 0xFF "one").member).result = .ok () := by
    rw [hone]
    exact file_succeeds _ open_stranger nofun
  have hsecond : (member (FileTree.applyAll ⟨{}, []⟩
      (member ⟨{}, []⟩ ⟨"/"⟩ (byteFile 0xFF "one").member).changes) ⟨"/"⟩
      (byteFile 0xFE "two").member).result = .ok () := by
    rw [byteFile_unpacked stranger_fe "two" _ (by decide +kernel), hone]
    exact file_again _ _ open_stranger rfl rfl
  rw [unpack, list_strangers, strangers]
  simp only [List.map_cons, List.map_nil]
  rw [members_cons_of_ok hfirst, Effect.andThen, members_cons_of_ok hsecond]
  rfl

/-- The members of an archive have names of one byte each, 0xFF and 0xFE. Unpacking both succeeds,
into one file, and nothing is left of the first one's data. -/
theorem undecodable_names_share_one_file :
    let source := ByteSource.ofBytes (strangers.flatMap Archive.Parcel.bytes)
    let after := FileTree.applyAll ⟨{}, []⟩ (unpack source ⟨"/"⟩ ⟨{}, []⟩).changes
    (Archive.list source).members = strangers.map Archive.Parcel.member ∧
      (strangers.map fun p => spelled p.member.path) = [[[0xFF]], [[0xFE]]] ∧
      (unpack source ⟨"/"⟩ ⟨{}, []⟩).result = .ok () ∧
      after.at? ["\uFFFD"] = some (.file 0o644 (Utf8.encode "two")) ∧
      ¬ FilesTold ⟨{}, []⟩ ⟨"/"⟩ (Archive.list source).members after fun m => spelled m.path := by
  intro source after
  have hlist : (Archive.list source).members = strangers.map Archive.Parcel.member := by
    rw [list_strangers]
  have hone := byteFile_isFile stranger_ff "one"
  have htwo := byteFile_isFile stranger_fe "two"
  refine ⟨hlist, ?spelled, unpack_strangers, ?overwritten, ?shared⟩
  case spelled =>
    rw [strangers, List.map_cons, List.map_singleton, byteFile_path stranger_ff,
      byteFile_path stranger_fe]
    decide
  case overwritten =>
    obtain ⟨loc, hwrites, hholds⟩ := (members_told unpack_strangers).last
      (fun l _ => FileTree.plain_nil.link? l) [(byteFile 0xFF "one").member] _ [] hlist htwo nofun
    rw [writesAt?, if_pos htwo.1, byteFile_target stranger_fe, Option.bind_some,
      (FileTree.openForWriting_spec open_stranger).1] at hwrites
    cases hwrites
    rcases hholds with ⟨mode, hmode, hat⟩ | ⟨d, hdevice, -⟩
    · rw [byteFile, Archive.Parcel.ofFile_mode] at hmode
      rw [byteFile, Archive.Parcel.ofFile_member] at hat
      cases hmode
      exact hat
    · cases hdevice
  case shared =>
    intro htold
    obtain ⟨path, path', htarget, htarget', hiff⟩ := htold.paths (byteFile 0xFF "one").member
      (by simp [hlist, strangers]) (byteFile 0xFE "two").member
      (by simp [hlist, strangers]) hone htwo
    rw [byteFile_target stranger_ff] at htarget
    rw [byteFile_target stranger_fe] at htarget'
    have hsame := hiff.mp (Option.some.inj (htarget.symm.trans htarget'))
    rw [byteFile_path stranger_ff, byteFile_path stranger_fe] at hsame
    exact absurd hsame (by decide)

end Unpack

end NodeLogs
