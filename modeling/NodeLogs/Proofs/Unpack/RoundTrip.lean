import NodeLogs.Proofs.Unpack.Layout

/-!
Unpacking undoes archiving. A tree that was written to an archive, its members in any order that has
directories before what is in them and their paths in any form, is there again when the archive has
been unpacked into an empty directory.
-/

namespace NodeLogs

namespace Unpack

open Archive (Item Content)
open HostPath (IsName below)

variable {t : FileTree} {dest : HostPath} {base : Location} {mode : Nat}

/-- Unpacking what was written for items handles their members. -/
theorem unpack_items {items : List Item} (hwritable : ∀ item ∈ items, item.Writable)
    {source : ByteSource} {tail : Bytes} (hsource : source.bytes = items.flatMap Item.bytes ++ tail)
    (hend : Archive.Reader.Ends tail source.ending) (hlimit : source.bytes.length < Archive.limit) :
    unpack source dest t = members t dest (.ok ()) (items.map Item.member) := by
  rw [unpack, Item.list_items hwritable hsource hend hlimit]

theorem unpack_laid {items : List Item} (given : IntoEmpty t dest base mode items)
    (hshort : ∀ item ∈ items, ShortEnough dest item) {source : ByteSource} {tail : Bytes}
    (hsource : source.bytes = items.flatMap Item.bytes ++ tail)
    (hend : Archive.Reader.Ends tail source.ending) (hlimit : source.bytes.length < Archive.limit) :
    (unpack source dest t).result = .ok () ∧ warnings (unpack source dest t).log = [] ∧
      Laid t base (newMode t mode) items (t.applyAll (unpack source dest t).changes) := by
  rw [unpack_items given.writable hsource hend hlimit]
  exact members_laid given hshort (List.nil_append items).symm ⟨fun loc => rfl, rfl⟩

/-- A directory with two files in it. The paths of the first two stand in extension members. -/
def smallTree : List Item :=
  [.plain ["d"] .dir (.longName .blank .octal true),
    .plain ["d", "f"] (.file 0o640 [0x68, 0x69]) (.record .blank .octal 2),
    .plain ["d", "g"] (.file 0o600 []) .field]

theorem smallTree_makesTree : MakesTree smallTree where
  distinct := by decide
  names := by
    have hd : IsName "d" ∧ '\x00' ∉ "d".toList := by decide
    have hf : IsName "f" ∧ '\x00' ∉ "f".toList := by decide
    have hg : IsName "g" ∧ '\x00' ∉ "g".toList := by decide
    simp [smallTree, Item.plain, hd, hf, hg]
  top := by simp [smallTree, Item.plain]
  above before item later hitems hne := by
    rcases before with _ | ⟨first, _ | ⟨second, _ | ⟨third, others⟩⟩⟩
    · cases hitems
      exact absurd rfl hne
    · cases hitems
      exact ⟨_, List.mem_cons_self, rfl, rfl⟩
    · cases hitems
      exact ⟨_, List.mem_cons_self, rfl, rfl⟩
    · simp [smallTree] at hitems

theorem stat_root (who : Caller) : FileTree.stat ⟨who, []⟩ ⟨"/"⟩ = .ok ([], .dir 0o755) :=
  FileTree.stat_of_idle (FileTree.checkPath_eq_ok.mpr (by decide)) (by decide) rfl

theorem root_empty (who : Caller) (loc : Location) (_ : [] <+: loc) (h : loc ≠ []) :
    FileTree.at? ⟨who, []⟩ loc = none := by
  simp [FileTree.at?, h]

theorem smallTree_intoEmpty (who : Caller) : IntoEmpty ⟨who, []⟩ ⟨"/"⟩ [] 0o755 smallTree where
  dir := stat_root who
  empty := root_empty who
  tree := smallTree_makesTree
  writable := by
    intro item hitem
    simp only [smallTree, List.mem_cons, List.not_mem_nil, or_false] at hitem
    rcases hitem with rfl | rfl | rfl
    · exact ⟨by decide +kernel, by decide, nofun⟩
    · exact ⟨by decide +kernel, by decide, by rintro mode data ⟨⟩; decide⟩
    · exact ⟨by decide +kernel, by decide, by rintro mode data ⟨⟩; decide⟩

theorem smallTree_length : (smallTree.flatMap Item.bytes).length < Archive.limit := by
  simp only [smallTree, List.flatMap_cons, List.flatMap_nil, List.length_append, Item.length_bytes]
  decide +kernel

theorem smallTree_shortEnough : ∀ item ∈ smallTree, ShortEnough ⟨"/"⟩ item := by
  intro item hitem
  simp only [smallTree, List.mem_cons, List.not_mem_nil, or_false] at hitem
  rcases hitem with rfl | rfl | rfl <;> exact ⟨by decide +kernel, by decide +kernel⟩

theorem bytes_ofBytes (bs : Bytes) : (ByteSource.ofBytes bs).bytes = bs ++ [] := by
  simp [ByteSource.bytes, ByteSource.ofBytes]

theorem list_smallTree :
    Archive.list (.ofBytes (smallTree.flatMap Item.bytes)) =
      ⟨smallTree.map Item.member, .ok ()⟩ := by
  refine Item.list_items (smallTree_intoEmpty {}).writable (bytes_ofBytes _) .stream ?_
  rw [bytes_ofBytes, List.append_nil]
  exact smallTree_length

/-- Whoever unpacks it, it comes out. -/
theorem smallTree_unpacked (who : Caller) :
    (unpack (.ofBytes (smallTree.flatMap Item.bytes)) ⟨"/"⟩ ⟨who, []⟩).result = .ok () :=
  (unpack_laid (smallTree_intoEmpty who) smallTree_shortEnough (bytes_ofBytes _) .stream
    (by rw [bytes_ofBytes, List.append_nil]; exact smallTree_length)).1

section Lone

variable {name : String} {content : Content} {form : Archive.NameForm}

theorem IntoEmpty.lone (hdir : t.stat dest = .ok (base, .dir mode))
    (hempty : ∀ loc, base <+: loc → loc ≠ base → t.at? loc = none)
    (hname : IsName name ∧ '\x00' ∉ name.toList)
    (hwritable : (Item.plain [name] content form).Writable) :
    IntoEmpty t dest base mode [.plain [name] content form] where
  dir := hdir
  empty := hempty
  tree :=
    { distinct := by simp
      names := by simpa [Item.plain] using hname
      top := by simp [Item.plain]
      above := by
        intro before item later hitems hne
        rcases before with _ | ⟨first, others⟩
        · cases hitems
          exact absurd rfl hne
        · simp at hitems }
  writable := by simpa using hwritable

/-- A name or a path that is too long is not opened. -/
theorem openForWriting_too_long (bits : Nat) (hdir : t.stat dest = .ok (base, .dir mode))
    (hname : IsName name)
    (hlong : FileTree.longestName < name.utf8ByteSize ∨
      FileTree.longestPath < (dest.join (below [name])).text.utf8ByteSize) :
    ∃ e, t.openForWriting bits (dest.join (below [name])) = .error e := by
  refine FileTree.openForWriting_error fun spot hcheck => ?_
  rcases hlong with hlong | hlong
  · have hnames : ∀ n ∈ [name], IsName n := by simpa using hname
    obtain ⟨left, hleft⟩ := FileTree.walkParts_join hdir hnames
    have hparts : HostPath.parts ⟨below [name]⟩ = [name] :=
      HostPath.parts_slashed (by simp) (by simpa using hname.noSlash)
    rw [hleft, hparts, FileTree.walk_step_long t true left base hname hlong]
    exact nofun
  · exact absurd (FileTree.checkPath_eq_ok.mp hcheck).2.2 (Nat.not_le.mpr hlong)

theorem unpack_too_long {bits : Nat} {data : Bytes}
    (given : IntoEmpty t dest base mode [.plain [name] (.file bits data) form])
    (hlong : FileTree.longestName < name.utf8ByteSize ∨
      FileTree.longestPath < (dest.join (below [name])).text.utf8ByteSize)
    (hlimit : (Item.plain [name] (.file bits data) form).bytes.length < Archive.limit) :
    (unpack (.ofBytes (Item.plain [name] (.file bits data) form).bytes) dest t).result ≠
      .ok () := by
  have hname := given.tree.names _ List.mem_cons_self name List.mem_cons_self
  obtain ⟨e, he⟩ := openForWriting_too_long bits given.dir hname.1 hlong
  have hmember :
      (member t dest (Item.plain [name] (.file bits data) form).member).result ≠ .ok () := by
    rw [given.member_of_file List.mem_cons_self rfl]
    exact file_of_error he
  rw [unpack_items given.writable (by simpa using bytes_ofBytes _) .stream
    (by rwa [bytes_ofBytes, List.append_nil]), List.map_singleton, members]
  cases hresult : (member t dest (Item.plain [name] (.file bits data) form).member).result with
  | error f => simp
  | ok _ => exact absurd hresult hmember

/-- A file of which the data reaches behind the last position is not read. -/
theorem unpack_too_far {bits : Nat} {data : Bytes} (hdata : data.length = Archive.limit - 512) :
    (unpack (.ofBytes (Item.plain [name] (.file bits data) .field).bytes) dest t).result ≠
      .ok () := by
  generalize hitem : Item.plain [name] (.file bits data) .field = item
  have hsize : item.fields.size = Archive.SizeForm.binary.field data.length := by rw [← hitem]; rfl
  have hholds : Archive.SizeForm.binary.Holds data.length := by
    change data.length < Archive.limit
    rw [hdata]
    decide
  have hbytes : (Archive.Reader.start (.ofBytes item.bytes)).source.bytes =
      [] ++ (item.fields.header.block ++ Archive.padded data) := by
    rw [← hitem]
    simp [Archive.Reader.start, ByteSource.bytes, ByteSource.ofBytes, Item.bytes, Item.plain,
      Archive.NameForm.extension?, Archive.Fields.header, Content.data]
  obtain ⟨r, hheader, -, -, hnext, -⟩ :=
    Archive.Reader.header?_ahead hbytes rfl (by decide) item.fields.length_block
      item.fields.header_not_blank
  have hfar : r.member .empty item.fields.header = .error .sizeOverflow := by
    refine Archive.Reader.member_too_far hsize hholds rfl ?_
    rw [hnext, hdata]
    change Archive.limit ≤
      Archive.kept (0 + Archive.blockSize) + (Archive.limit - 512 + 511) / 512 * 512
    decide
  have hlist : Archive.list (.ofBytes item.bytes) = .stop (.error .sizeOverflow) :=
    Archive.members_of_error hheader item.fields.header_check Item.role_eq hfar
  rw [unpack, hlist]
  intro hok
  cases hok

theorem length_bytes_longName {names : List String} (own : Archive.Fields)
    (size : Archive.SizeForm) (ended : Bool) :
    (Item.plain names content (.longName own size ended)).bytes.length =
      Archive.blockSize + ((Archive.NameForm.longNameData ended
        (Item.plain names content (.longName own size ended)).path).length + 511) / 512 * 512 +
        (Archive.blockSize + (content.data.length + 511) / 512 * 512) :=
  Item.length_bytes _

end Lone

theorem not_mem_letters {c : Char} (h : c ≠ 'a') (n : Nat) :
    c ∉ (String.ofList (List.replicate n 'a')).toList := by
  rw [String.toList_ofList]
  exact fun hmem => h (List.eq_of_mem_replicate hmem)

theorem split_slashes (n : Nat) :
    split '/' (List.replicate n '/') = List.replicate (n + 1) [] := by
  induction n with
  | zero => rfl
  | succ n ih => rw [List.replicate_succ, split, if_pos rfl, ih, List.replicate_succ (n := n + 1)]

theorem utf8ByteSize_slashes (n : Nat) :
    (String.ofList (List.replicate n '/')).utf8ByteSize = n := by
  induction n with
  | zero => rfl
  | succ n ih =>
    rw [List.replicate_succ', String.ofList_append, String.utf8ByteSize_append, ih]
    rfl

/-- The root, with more slashes than it needs. -/
theorem stat_slashes {n : Nat} (hsome : 0 < n) (hshort : n ≤ FileTree.longestPath) :
    FileTree.stat ⟨{}, []⟩ ⟨String.ofList (List.replicate n '/')⟩ = .ok ([], .dir 0o755) := by
  have hcheck : FileTree.checkPath ⟨String.ofList (List.replicate n '/')⟩ = .ok () := by
    rw [FileTree.checkPath_eq_ok, utf8ByteSize_slashes]
    refine ⟨by simp, fun hempty => ?_, hshort⟩
    have hsize := (utf8ByteSize_slashes n).symm.trans (congrArg String.utf8ByteSize hempty)
    exact absurd hsize (Nat.ne_of_gt hsome)
  have hidle : ∀ part ∈ HostPath.parts ⟨String.ofList (List.replicate n '/')⟩,
      HostPath.Idle part := by
    intro part hpart
    rw [HostPath.parts, Text.split, String.toList_ofList, split_slashes] at hpart
    obtain ⟨cs, hcs, rfl⟩ := List.mem_map.mp hpart
    rw [List.eq_of_mem_replicate hcs]
    exact Or.inl rfl
  have hstart : FileTree.start ⟨{}, []⟩ ⟨String.ofList (List.replicate n '/')⟩ = [] := ite_self _
  have hat :
      FileTree.at? ⟨{}, []⟩ (FileTree.start ⟨{}, []⟩ ⟨String.ofList (List.replicate n '/')⟩) =
        some (.dir 0o755) := by
    rw [hstart]
    rfl
  have hstat := FileTree.stat_of_idle hcheck hidle hat
  rwa [hstart] at hstat

/-! Inputs at which each of the bounds is missed, and one where the bit of the group is set -/

def longNamed : Item :=
  .plain [String.ofList (List.replicate 256 'a')] (.file 0o644 []) (.longName .blank .octal true)

def farDown : HostPath := ⟨String.ofList (List.replicate 4095 '/')⟩

def oneFile : Item := .plain ["f"] (.file 0o644 []) .field

def hugeFile : Item := .plain ["f"] (.file 0o644 (List.replicate (Archive.limit - 512) 0)) .field

def grouped : FileTree := ⟨{ workingDir := ["out"] }, [(["out"], .dir 0o2755)]⟩

def oneDir : Item := .plain ["d"] .dir .field

theorem longNamed_intoEmpty : IntoEmpty ⟨{}, []⟩ ⟨"/"⟩ [] 0o755 [longNamed] ∧
    longNamed.bytes.length < Archive.limit := by
  have hname : IsName (String.ofList (List.replicate 256 'a')) ∧
      '\x00' ∉ (String.ofList (List.replicate 256 'a')).toList :=
    ⟨⟨by decide +kernel, by decide +kernel, not_mem_letters (by decide) 256⟩,
      not_mem_letters (by decide) 256⟩
  have hlength : (Archive.NameForm.longNameData true longNamed.path).length = 257 := by
    rw [Archive.NameForm.longNameData, List.length_append, Utf8.length_encode]
    decide +kernel
  have hwritable : longNamed.Writable := by
    refine ⟨?_, by decide, by rintro mode data ⟨⟩; decide⟩
    change (Archive.NameForm.longNameData true longNamed.path).length < _
    rw [hlength]
    decide
  refine ⟨.lone (stat_root {}) (root_empty {}) hname hwritable, ?_⟩
  rw [longNamed, length_bytes_longName, ← longNamed, hlength]
  decide

theorem oneFile_intoEmpty : IntoEmpty ⟨{}, []⟩ farDown [] 0o755 [oneFile] := by
  have hname : IsName "f" ∧ '\x00' ∉ "f".toList := by decide
  have hdir : FileTree.stat ⟨{}, []⟩ farDown = .ok ([], .dir 0o755) :=
    stat_slashes (by decide) (by decide)
  exact .lone hdir (root_empty {}) hname
    ⟨by decide +kernel, by decide, by rintro mode data ⟨⟩; decide⟩

theorem farDown_long : FileTree.longestPath < (farDown.join (below ["f"])).text.utf8ByteSize := by
  have hname : ∀ n ∈ ["f"], IsName n := by decide
  have hsize : farDown.text.utf8ByteSize = 4095 := utf8ByteSize_slashes 4095
  rcases HostPath.text_join hname with htext | htext <;> rw [htext] <;>
    simp only [String.utf8ByteSize_append, hsize] <;> decide

theorem hugeFile_intoEmpty : IntoEmpty ⟨{}, []⟩ ⟨"/"⟩ [] 0o755 [hugeFile] := by
  have hname : IsName "f" ∧ '\x00' ∉ "f".toList := by decide
  refine .lone (stat_root {}) (root_empty {}) hname
    ⟨by decide +kernel, ?_, by rintro mode data ⟨⟩; decide⟩
  change (List.replicate (Archive.limit - 512) (0 : UInt8)).length < Archive.limit
  rw [List.length_replicate]
  decide

theorem grouped_intoEmpty : IntoEmpty grouped ⟨"."⟩ ["out"] 0o2755 [oneDir] := by
  have hname : IsName "d" ∧ '\x00' ∉ "d".toList := by decide
  have hfree : ∀ loc, ["out"] <+: loc → loc ≠ ["out"] → grouped.at? loc = none := by
    rintro loc ⟨more, rfl⟩ hne
    obtain ⟨name, names, rfl⟩ :=
      List.exists_cons_of_ne_nil fun hnil : more = [] => hne (by simp [hnil])
    simp [grouped, FileTree.at?, List.lookup_cons]
  have hdir : grouped.stat ⟨"."⟩ = .ok (["out"], .dir 0o2755) :=
    FileTree.stat_of_idle (FileTree.checkPath_eq_ok.mpr (by decide)) (by decide) rfl
  exact .lone hdir hfree hname ⟨by decide +kernel, by decide, by rintro mode data ⟨⟩⟩

theorem unpack_grouped :
    (unpack (.ofBytes oneDir.bytes) ⟨"."⟩ grouped).result = .ok () ∧
      (grouped.applyAll (unpack (.ofBytes oneDir.bytes) ⟨"."⟩ grouped).changes).at? ["out", "d"] =
        some (.dir 0o2755) := by
  have hshort : ∀ item ∈ [oneDir], ShortEnough ⟨"."⟩ item := by
    intro item hitem
    cases List.mem_singleton.mp hitem
    exact ⟨by decide +kernel, by decide +kernel⟩
  have hlimit : (ByteSource.ofBytes oneDir.bytes).bytes.length < Archive.limit := by
    rw [bytes_ofBytes, List.append_nil, Item.length_bytes]
    decide
  obtain ⟨hresult, -, hlaid⟩ := unpack_laid grouped_intoEmpty hshort
    (by simpa using bytes_ofBytes oneDir.bytes) .stream hlimit
  refine ⟨hresult, ?_⟩
  rw [hlaid.at?]
  decide

end Unpack

end NodeLogs
