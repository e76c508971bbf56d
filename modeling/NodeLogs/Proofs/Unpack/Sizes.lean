import NodeLogs.Proofs.Archive.Sizes
import NodeLogs.Proofs.Unpack.Cuts
import NodeLogs.Proofs.Unpack.RoundTrip

/-!
When a file is told to have the wrong size. The data of a file goes as far as the size in force for
it, which may come from the records before it, but is held against the size in its header. So where
both are the same, a file has the wrong size when the stream ends before all of it, and only then;
where they are not, a file that is all there has the wrong size as well.
-/

namespace NodeLogs.Unpack

open Archive (Delivered Item blockSize)

variable {t : FileTree} {dest path : HostPath} {m : Archive.Member}

/-- It has the wrong size if its data did not break off with an error and is not as long as
expected. -/
theorem file_wrongSize {mode expected : Nat} {body : Archive.Body} {loc : Location}
    {opened written : FileTree.Change} (hopen : t.openForWriting mode path = .ok (loc, opened))
    (hwrite : (t.apply opened).write loc body.bytes = .ok written) :
    (∃ p n k, (file t path mode expected body).result = wrongSize p n k) ↔
      (∀ e, body.cut ≠ some (.failed e)) ∧ body.bytes.length ≠ expected := by
  rw [file_result hopen hwrite]
  split
  · next e hcut =>
    constructor
    · rintro ⟨p, n, k, ⟨⟩⟩
    · intro h
      exact absurd hcut (h.1 e)
  · next hcut =>
    constructor
    · rintro ⟨p, n, k, hresult⟩
      refine ⟨hcut, ?_⟩
      intro hlength
      rw [if_pos hlength] at hresult
      cases hresult
    · rintro ⟨-, hlength⟩
      exact ⟨path, body.bytes.length, expected, if_neg hlength⟩

theorem file_result_of_wrongSize {mode expected : Nat} {body : Archive.Body} {loc : Location}
    {opened written : FileTree.Change} (hopen : t.openForWriting mode path = .ok (loc, opened))
    (hwrite : (t.apply opened).write loc body.bytes = .ok written)
    (h : ∃ p n k, (file t path mode expected body).result = wrongSize p n k) :
    (file t path mode expected body).result = wrongSize path body.bytes.length expected := by
  obtain ⟨hcut, hlength⟩ := (file_wrongSize hopen hwrite).mp h
  rw [file_result hopen hwrite]
  split
  · next e hfailed => exact absurd hfailed (hcut e)
  · exact if_neg hlength

/-- A regular member that unpacking comes to after these, with a file that it opens and fills. -/
structure Filled (source : ByteSource) (dest : HostPath) (t : FileTree)
    (before : List Archive.Member) (m : Archive.Member) (path : HostPath) : Prop where
  listed : ∃ later, (Archive.list source).members = before ++ m :: later
  reached : (members t dest (.ok ()) before).result = .ok ()
  regular : m.kind = .regular
  named : target? dest m = some path
  filled : ∃ mode loc opened written, m.header.mode = .ok mode ∧
    (t.applyAll (members t dest (.ok ()) before).changes).openForWriting mode path =
      .ok (loc, opened) ∧
    ((t.applyAll (members t dest (.ok ()) before).changes).apply opened).write loc m.body.bytes =
      .ok written

/-- Whether a member is found to have the wrong size after these. -/
def HasWrongSize (dest : HostPath) (t : FileTree) (before : List Archive.Member)
    (m : Archive.Member) : Prop :=
  ∃ p n k, (member (t.applyAll (members t dest (.ok ()) before).changes) dest m).result =
    wrongSize p n k

/-- Unpacking ends with the failure of the member that it comes to. -/
theorem Filled.result {source : ByteSource} {before : List Archive.Member}
    (h : Filled source dest t before m path) {f : Failure}
    (hfailed : (member (t.applyAll (members t dest (.ok ()) before).changes) dest m).result =
      .error f) : (unpack source dest t).result = .error f := by
  obtain ⟨later, hlist⟩ := h.listed
  unfold unpack
  simp only
  rw [hlist, members_append h.reached]
  simp only [Effect.andThen, members, hfailed]

/-- The data did not break off with an error just when the stream has all of it, or ends without
one. -/
theorem cut_ne_failed {source : ByteSource} {offset size : Nat}
    (h : Delivered source offset size m) : (∀ e, m.body.cut ≠ some (.failed e)) ↔
      m.effective size ≤ source.bytes.length - (offset + blockSize) ∨ source.ending = .done := by
  rw [h.cut]
  by_cases henough : m.effective size ≤ source.bytes.length - (offset + blockSize)
  · simp [henough]
  · rw [if_neg henough]
    cases source.ending with
    | done => simp
    | failed e => simp [henough]

/-- A file has the wrong size if what the stream has of its data is not as long as its header says,
unless reading that data failed. So where the size in force is the one that the header says, it has
the wrong size just when the stream ends before all of it; where it is another one, a file that is
all there has the wrong size too. -/
theorem wrong_size_iff {source : ByteSource} {before : List Archive.Member}
    (h : Filled source dest t before m path) :
    ∃ offset size, Delivered source offset size m ∧
      (HasWrongSize dest t before m ↔
        (m.effective size ≤ source.bytes.length - (offset + blockSize) ∨ source.ending = .done) ∧
          min (m.effective size) (source.bytes.length - (offset + blockSize)) ≠ size) ∧
      (HasWrongSize dest t before m →
        (unpack source dest t).result = wrongSize path
          (min (m.effective size) (source.bytes.length - (offset + blockSize))) size) ∧
      (m.effective size = size →
        (HasWrongSize dest t before m ↔
          source.bytes.length - (offset + blockSize) < m.effective size ∧ source.ending = .done)) ∧
      (m.effective size ≠ size → m.effective size ≤ source.bytes.length - (offset + blockSize) →
        HasWrongSize dest t before m) := by
  obtain ⟨later, hlist⟩ := h.listed
  have hmem : m ∈ (Archive.list source).members := by
    rw [hlist]
    exact List.mem_append_right before List.mem_cons_self
  have hsparse : m.kind ≠ .sparse := by
    rw [h.regular]
    decide
  obtain ⟨offset, size, hdelivered⟩ := Archive.list_delivered source m hmem hsparse
  obtain ⟨mode, loc, opened, written, hmode, hopen, hwrite⟩ := h.filled
  have hmember := member_of_file (t := t.applyAll (members t dest (.ok ()) before).changes) h.named
    h.regular hdelivered.declared hmode
  have hwrong : HasWrongSize dest t before m ↔
      (m.effective size ≤ source.bytes.length - (offset + blockSize) ∨ source.ending = .done) ∧
        min (m.effective size) (source.bytes.length - (offset + blockSize)) ≠ size := by
    unfold HasWrongSize
    rw [hmember, file_wrongSize hopen hwrite, cut_ne_failed hdelivered, hdelivered.length_data]
  refine ⟨offset, size, hdelivered, hwrong, ?_, ?_, ?_⟩
  · intro hsize
    unfold HasWrongSize at hsize
    rw [hmember] at hsize
    have hresult := file_result_of_wrongSize hopen hwrite hsize
    rw [← hmember, hdelivered.length_data] at hresult
    exact h.result hresult
  · intro heffective
    rw [hwrong, heffective]
    constructor
    · rintro ⟨hend, hshort⟩
      have hless : source.bytes.length - (offset + blockSize) < size := by omega
      exact ⟨hless, hend.resolve_left (Nat.not_le_of_lt hless)⟩
    · rintro ⟨hless, hend⟩
      exact ⟨Or.inr hend, by omega⟩
  · intro hother henough
    rw [hwrong]
    exact ⟨Or.inl henough, by omega⟩

/-! A file whose size stands in the records before it alone -/

/-- A record that says five bytes. -/
def sizeRecord : Bytes := Utf8.encode "9 size=5\n"

def sizeRecordFields : Archive.Fields :=
  { Archive.Fields.blank with
    kind := 0x78
    size := Archive.SizeForm.octal.field sizeRecord.length }

def hello : Bytes := Utf8.encode "hello"

/-- The header of an empty file. -/
def emptyFields : Archive.Fields :=
  { Archive.Fields.blank with
    name := .text 100 (Utf8.encode "f")
    mode := Archive.modeField 0o644
    kind := 0x30
    size := Archive.SizeForm.octal.field 0 }

/-- What the record says, the header of the file, and its five bytes. -/
def resized : ByteSource :=
  .ofBytes (sizeRecordFields.block ++ (Archive.padded sizeRecord ++
    (emptyFields.block ++ Archive.padded hello)))

def resizedMember : Archive.Member :=
  ⟨emptyFields.header, ⟨none, none, some sizeRecord⟩, ⟨hello, none⟩⟩

theorem resizedMember_effective : resizedMember.effective 0 = 5 := by decide +kernel

theorem resizedMember_kind : resizedMember.kind = .regular := by
  rw [Archive.Member.kind, resizedMember, Archive.Fields.header_kind]
  rfl

theorem emptyFields_size : emptyFields.size = Archive.SizeForm.octal.field 0 := rfl

theorem resizedMember_size : resizedMember.header.size = .ok 0 :=
  Archive.Fields.header_size _ emptyFields_size (by decide)

theorem resizedMember_mode : resizedMember.header.mode = .ok 0o644 :=
  Archive.Fields.header_mode _ rfl (by decide)

theorem resizedMember_target : target? ⟨"/"⟩ resizedMember = some ⟨"/f"⟩ := by
  have hbefore : Archive.textField emptyFields.before.bytes = [] :=
    Archive.textField_text (Nat.zero_le 155) List.not_mem_nil
  have hheader : emptyFields.header.name = Utf8.encode "f" :=
    emptyFields.header_name_text rfl (by decide) (by decide) (Or.inr hbefore)
  have hrecord : Archive.Extensions.path? ⟨none, none, some sizeRecord⟩ = none := by decide +kernel
  have hname : resizedMember.name = "f" := by
    rw [Archive.Member.name, Archive.Member.path, resizedMember, hrecord, Option.getD_none, hheader,
      Utf8.decodeLossy_encode]
  rw [target?, hname]
  decide +kernel

def resizedParcel : Archive.Parcel :=
  .written [.written sizeRecordFields sizeRecord] emptyFields hello

theorem emptyFields_not_sparse : emptyFields.header.kind ≠ .sparse := by
  rw [show emptyFields.header.kind = .regular from resizedMember_kind]
  decide

theorem role_sizeRecord : Archive.Reader.role sizeRecordFields.header = .records :=
  Item.role_records .blank _

theorem said_sizeRecord :
    Archive.Parcel.said .empty [.written sizeRecordFields sizeRecord] =
      ⟨none, none, some sizeRecord⟩ := by
  rw [Archive.Parcel.said, List.foldl_cons, Archive.Extra.role, Archive.Extra.written,
    role_sizeRecord]
  rfl

theorem resizedParcel_complete : resizedParcel.Complete := by
  refine Archive.Parcel.complete_written .octal ?_ (by simp) emptyFields_size (by decide) ?_
    emptyFields_not_sparse ?_
  · intro e he
    cases List.mem_singleton.mp he
    exact Archive.Extra.complete_written .octal rfl (by decide +kernel)
      (by rw [role_sizeRecord]; decide)
  · have hforce : Archive.Extensions.size? ⟨none, none, some sizeRecord⟩ = some 5 := by
      decide +kernel
    rw [said_sizeRecord, hforce]
    decide
  · rw [Archive.Fields.header_role]
    rfl

/-- The whole archive is read: nothing of the file is missing. -/
theorem list_resized : Archive.list resized = ⟨[resizedMember], .ok ()⟩ := by
  have hbytes : resized.bytes = [resizedParcel].flatMap Archive.Parcel.bytes ++ [] := by
    simp only [resized, ByteSource.ofBytes, ByteSource.bytes, List.flatten_cons, List.flatten_nil,
      List.append_nil, List.flatMap_cons, List.flatMap_nil, resizedParcel,
      Archive.Parcel.bytes_written, Archive.Extra.bytes_written, List.append_assoc]
  have hlength : resized.bytes.length < Archive.limit := by
    simp only [resized, ByteSource.ofBytes, ByteSource.bytes, List.flatten_cons, List.flatten_nil,
      List.append_nil, List.length_append, Archive.Fields.length_block, Archive.length_padded]
    decide +kernel
  have hmember : resizedParcel.member = resizedMember := by
    rw [resizedParcel, Archive.Parcel.member_written emptyFields_not_sparse, said_sizeRecord]
    rfl
  rw [Archive.list_parcels (by simpa using resizedParcel_complete) hbytes .stream hlength,
    List.map_singleton, hmember]

theorem open_resized :
    FileTree.openForWriting ⟨{}, []⟩ 0o644 ⟨"/f"⟩ = .ok (["f"], .createFile ["f"] 0o644) :=
  FileTree.openForWriting_in_root (by decide +kernel) (by decide) (by decide) rfl
    (FileTree.checkPath_eq_ok.mpr (by decide)) 0o644

theorem resized_filled : Filled resized ⟨"/"⟩ ⟨{}, []⟩ [] resizedMember ⟨"/f"⟩ where
  listed := ⟨[], by rw [list_resized]; rfl⟩
  reached := rfl
  regular := resizedMember_kind
  named := resizedMember_target
  filled := ⟨0o644, ["f"], _, _, resizedMember_mode, open_resized, rfl⟩

theorem resized_has_wrong_size :
    Filled resized ⟨"/"⟩ ⟨{}, []⟩ [] resizedMember ⟨"/f"⟩ ∧
      HasWrongSize ⟨"/"⟩ ⟨{}, []⟩ [] resizedMember := by
  obtain ⟨offset, size, hdelivered, -, -, -, hother⟩ := wrong_size_iff resized_filled
  obtain rfl : 0 = size := Except.ok.inj (resizedMember_size.symm.trans hdelivered.declared)
  refine ⟨resized_filled, hother ?_ ?_⟩
  · rw [resizedMember_effective]
    decide
  · -- Data that is not cut off is all there.
    by_contra hshort
    have hcut := hdelivered.cut
    rw [if_neg hshort] at hcut
    cases hcut

/-- An archive that is all there: the record in force says five bytes, the stream has them, and five
are written; but the header says none, and unpacking fails. -/
theorem complete_file_has_wrong_size :
    (Archive.list resized).ending = .ok () ∧ Filled resized ⟨"/"⟩ ⟨{}, []⟩ [] resizedMember ⟨"/f"⟩ ∧
      resizedMember.effective 0 = 5 ∧ resizedMember.body = ⟨hello, none⟩ ∧
      (unpack resized ⟨"/"⟩ ⟨{}, []⟩).result = wrongSize ⟨"/f"⟩ 5 0 := by
  refine ⟨by rw [list_resized], resized_filled, resizedMember_effective, rfl, ?_⟩
  refine resized_filled.result ?_
  have hmember := member_of_file (t := ⟨{}, []⟩) resizedMember_target resizedMember_kind
    resizedMember_size resizedMember_mode
  refine (congrArg Effect.result hmember).trans ?_
  exact file_result open_resized rfl

end NodeLogs.Unpack
