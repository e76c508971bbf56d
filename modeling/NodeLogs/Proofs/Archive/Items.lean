import Mathlib.Data.List.TakeDrop
import NodeLogs.Proofs.Archive.Parcels
import NodeLogs.Proofs.HostPath

/-!
Members as they are written, with every way of writing their path, and what is read for them.
Whatever the way, the member that is read has the written path for a name, and its kind, size, mode
and data.
-/

namespace NodeLogs.Archive

/-- What is archived: a file with its mode, or a directory. -/
inductive Content where
  | file (mode : Nat) (data : Bytes)
  | dir

def Content.data : Content → Bytes
  | .file _ data => data
  | .dir => []

def Content.kind : Content → Kind
  | .file .. => .regular
  | .dir => .directory

/-! Records -/

section Records

/-- The length of a record that names a path, with so many digits for the length itself. -/
def recordLength (width : Nat) (path : String) : Nat := width + (Utf8.encode path).length + 7

/-- A record without its end. -/
def pathLine (width : Nat) (path : String) : Bytes :=
  Utf8.encode (numeral 10 width (recordLength width path)) ++
    0x20 :: (Utf8.encode "path" ++ 0x3D :: Utf8.encode path)

def pathRecord (width : Nat) (path : String) : Bytes := pathLine width path ++ [0x0A]

theorem length_pathLine (width : Nat) (path : String) :
    (pathLine width path).length + 1 = recordLength width path := by
  have hkey : (Utf8.encode "path").length = 4 := by decide
  simp only [pathLine, recordLength, List.length_append, List.length_cons, hkey,
    length_encode_numeral (by decide : 0 < 10 ∧ 10 ≤ 10)]
  omega

theorem length_pathRecord (width : Nat) (path : String) :
    (pathRecord width path).length = recordLength width path := by
  rw [pathRecord, List.length_append, ← length_pathLine]
  rfl

theorem cut?_append {sep : UInt8} {before : Bytes} (h : ∀ b ∈ before, b ≠ sep) (after : Bytes) :
    Record.cut? sep (before ++ sep :: after) = some (before, after) := by
  have htake : (before ++ sep :: after).takeWhile (· ≠ sep) = before := by
    rw [List.takeWhile_append_of_pos (by simpa using h)]
    simp
  have hdrop : (before ++ sep :: after).dropWhile (· ≠ sep) = sep :: after := by
    rw [List.dropWhile_append_of_pos (by simpa using h)]
    simp
  rw [Record.cut?, List.span_eq_takeWhile_dropWhile, htake, hdrop]

variable {width : Nat} {path : String}

theorem ofLine?_pathLine (hroom : recordLength width path < capacity 10 width)
    (hlimit : recordLength width path < limit) :
    Record.ofLine? (pathLine width path) = some ⟨Utf8.encode "path", Utf8.encode path⟩ := by
  have hwidth : 0 < width := by
    cases width with
    | zero => simp only [recordLength, capacity] at hroom; omega
    | succ width => exact Nat.succ_pos width
  have hcount : Record.cut? 0x20 (pathLine width path) =
      some (Utf8.encode (numeral 10 width (recordLength width path)),
        Utf8.encode "path" ++ 0x3D :: Utf8.encode path) :=
    cut?_append (fun b hb => (mem_encode_numeral (by decide) hb).2.2.1) _
  have hkey : Utf8.encode "path" = [0x70, 0x61, 0x74, 0x68] := by decide
  have hpair : Record.cut? 0x3D (Utf8.encode "path" ++ 0x3D :: Utf8.encode path) =
      some (Utf8.encode "path", Utf8.encode path) :=
    cut?_append (by simp [hkey]) _
  have hnumber : unsigned? 10 (numeral 10 width (recordLength width path)).toList =
      some (recordLength width path) := by
    rw [numeral, String.toList_ofList]
    exact unsigned?_digits (by decide) hwidth hroom hlimit
  simp [Record.ofLine?, hcount, hpair, Utf8.decode?_encode, hnumber, length_pathLine, guard]

/-- A record that was written is the only one of its data. -/
theorem ofData_pathRecord (hline : '\n' ∉ path.toList)
    (hroom : recordLength width path < capacity 10 width)
    (hlimit : recordLength width path < limit) :
    Record.ofData (pathRecord width path) = [some ⟨Utf8.encode "path", Utf8.encode path⟩] := by
  have hpath : 0x0A ∉ Utf8.encode path := fun hb =>
    hline (Utf8.mem_of_mem_encode hb (by decide))
  have hcount : 0x0A ∉ Utf8.encode (numeral 10 width (recordLength width path)) := fun hb =>
    (mem_encode_numeral (by decide) hb).2.2.2 rfl
  have hkey : (0x0A : UInt8) ∉ Utf8.encode "path" := by decide
  have hnone : 0x0A ∉ pathLine width path := by
    simp [pathLine, hpath, hcount, hkey]
  have hne : pathLine width path ≠ [] := by simp [pathLine]
  rw [Record.ofData, pathRecord, split_append_sep, split_of_not_mem hnone]
  simp [split, hne, ofLine?_pathLine hroom hlimit]

theorem path?_pathRecord (hline : '\n' ∉ path.toList)
    (hroom : recordLength width path < capacity 10 width)
    (hlimit : recordLength width path < limit) :
    Record.path? (pathRecord width path) = some (Utf8.encode path) := by
  rw [Record.path?, ofData_pathRecord hline hroom hlimit]
  simp

theorem size?_pathRecord (hline : '\n' ∉ path.toList)
    (hroom : recordLength width path < capacity 10 width)
    (hlimit : recordLength width path < limit) : Record.size? (pathRecord width path) = none := by
  have hkey : Utf8.encode "path" ≠ Utf8.encode "size" := by decide
  rw [Record.size?, ofData_pathRecord hline hroom hlimit]
  simp [hkey]

end Records

/-! Paths -/

/-- How the path of a member is written: in the name field, cut in two at a slash, or in an
extension member before it, of which the header's other fields may hold anything. -/
inductive NameForm where
  | field
  | fields (before name : String)
  | longName (own : Fields) (size : SizeForm) (ended : Bool)
  | record (own : Fields) (size : SizeForm) (width : Nat)

namespace NameForm

/-- The data of a long name, which may end in a NUL. -/
def longNameData (ended : Bool) (path : String) : Bytes :=
  Utf8.encode path ++ if ended then [0] else []

/-- Whether a path can be written so. -/
def Writes (path : String) : NameForm → Prop
  | .field => (Utf8.encode path).length ≤ 100
  | .fields before name =>
    path = before ++ "/" ++ name ∧ before ≠ "" ∧ (Utf8.encode before).length ≤ 155 ∧
      (Utf8.encode name).length ≤ 100
  | .longName _ size ended => size.Holds (longNameData ended path).length
  | .record _ size width =>
    '\n' ∉ path.toList ∧ recordLength width path < capacity 10 width ∧
      size.Holds (recordLength width path)

instance (path : String) : (form : NameForm) → Decidable (form.Writes path)
  | .field => inferInstanceAs (Decidable (_ ≤ _))
  | .fields .. => inferInstanceAs (Decidable (_ ∧ _))
  | .longName _ size _ => inferInstanceAs (Decidable (size.Holds _))
  | .record .. => inferInstanceAs (Decidable (_ ∧ _))

/-- The header and the data of the extension member. -/
def extension? (path : String) : NameForm → Option (Fields × Bytes)
  | .longName own size ended =>
    some ({ own with kind := 0x4C, size := size.field (longNameData ended path).length },
      longNameData ended path)
  | .record own size width =>
    some ({ own with kind := 0x78, size := size.field (recordLength width path) },
      pathRecord width path)
  | _ => none

/-- What the extension member says. -/
def extensions (path : String) : NameForm → Extensions
  | .longName _ _ ended => { Extensions.empty with longName := some (longNameData ended path) }
  | .record _ _ width => { Extensions.empty with records := some (pathRecord width path) }
  | _ => .empty

/-- The member's own header with the path in it, where it is there. -/
def name (path : String) (besides : Fields) : NameForm → Fields
  | .field =>
    { besides with
      name := .text 100 (Utf8.encode path)
      before := if besides.gnu then besides.before else .text 155 [] }
  | .fields before name =>
    { besides with
      gnu := false
      name := .text 100 (Utf8.encode name)
      before := .text 155 (Utf8.encode before) }
  | _ => besides

end NameForm

/-- One member as it is written. What its header says besides is not looked at. -/
structure Item where
  names : List String
  content : Content
  /-- Whether the path starts with a dot and a slash, and whether that of a directory ends in
  one. -/
  dotted : Bool
  slashed : Bool
  form : NameForm
  size : SizeForm
  /-- Whether a regular file has the type byte of the oldest format. -/
  old : Bool
  besides : Fields

/-- A member of which no more is told than must be. -/
def Item.plain (names : List String) (content : Content) (form : NameForm) : Item where
  names
  content
  dotted := false
  slashed := false
  form
  size := .binary
  old := false
  besides := .blank

namespace Item

variable (item : Item)

/-- The path that is written. -/
def path : String :=
  (if item.dotted then "./" else "") ++ HostPath.below item.names ++
    match item.content with
    | .file .. => ""
    | .dir => if item.slashed then "/" else ""

def kindByte : UInt8 :=
  match item.content with
  | .file .. => if item.old then 0 else 0x30
  | .dir => 0x35

def fields : Fields :=
  { item.form.name item.path item.besides with
    kind := item.kindByte
    mode := match item.content with
      | .file mode _ => modeField mode
      | .dir => item.besides.mode
    size := item.size.field item.content.data.length }

def bytes : Bytes :=
  (match item.form.extension? item.path with
    | some (own, data) => own.block ++ padded data
    | none => []) ++ (item.fields.block ++ padded item.content.data)

theorem length_bytes : item.bytes.length =
    (match item.form.extension? item.path with
      | some (_, data) => blockSize + (data.length + 511) / 512 * 512
      | none => 0) + (blockSize + (item.content.data.length + 511) / 512 * 512) := by
  unfold bytes
  split <;> simp only [List.length_append, Fields.length_block, length_padded, List.length_nil]

/-- The member that is read. -/
def member : Member :=
  ⟨item.fields.header, item.form.extensions item.path, ⟨item.content.data, none⟩⟩

/-- Whether there is room for the path, the size and the mode. -/
structure Writable : Prop where
  path : item.form.Writes item.path
  size : item.size.Holds item.content.data.length
  mode : ∀ mode data, item.content = .file mode data → mode < 0o10000

variable {item : Item}

theorem kind_eq : item.fields.header.kind = item.content.kind := by
  have hbytes : (∀ old : Bool, Kind.ofByte (if old then 0 else 0x30) = .regular) ∧
      Kind.ofByte 0x35 = .directory := by decide
  rw [Fields.header_kind]
  change Kind.ofByte item.kindByte = _
  rw [kindByte]
  cases item.content with
  | file mode data => exact hbytes.1 item.old
  | dir => exact hbytes.2

theorem kind_ne_sparse : item.fields.header.kind ≠ .sparse := by
  rw [kind_eq]
  cases item.content <;> simp [Content.kind]

theorem role_eq : Reader.role item.fields.header = .plain := by
  rw [Reader.role, if_neg item.fields.header_ne_old, kind_eq]
  cases item.content <;> rfl

theorem size_eq (h : item.size.Holds item.content.data.length) :
    item.member.header.size = .ok item.content.data.length :=
  Fields.header_size _ rfl h

theorem mode_eq {mode : Nat} {data : Bytes} (hcontent : item.content = .file mode data)
    (hmode : mode < 0o10000) : item.member.header.mode = .ok mode := by
  refine Fields.header_mode _ ?_ (Nat.lt_trans hmode (by decide))
  rw [fields, hcontent]

theorem role_longName (own : Fields) (size : Field 12) :
    Reader.role { own with kind := 0x4C, size }.header = .longName := by
  rw [Fields.header_role]
  rfl

theorem role_records (own : Fields) (size : Field 12) :
    Reader.role { own with kind := 0x78, size }.header = .records := by
  rw [Fields.header_role]
  rfl

/-- The item as it stands in an archive. -/
def parcel (item : Item) : Parcel :=
  .written ((item.form.extension? item.path).map fun own => Extra.written own.1 own.2).toList
    item.fields item.content.data

theorem bytes_parcel (item : Item) : item.parcel.bytes = item.bytes := by
  rw [parcel, Parcel.bytes_written, bytes]
  cases item.form.extension? item.path with
  | none => rfl
  | some own => exact congrArg (· ++ _) (List.flatMap_singleton ..)

theorem said_parcel (item : Item) :
    Parcel.said .empty item.parcel.extras = item.form.extensions item.path := by
  unfold parcel
  cases item.form with
  | field | fields => rfl
  | longName own size ended =>
    simp [Parcel.written, Parcel.said, NameForm.extension?, Extra.written, Extra.role,
      role_longName, NameForm.extensions, Reader.extend]
  | record own size width =>
    simp [Parcel.written, Parcel.said, NameForm.extension?, Extra.written, Extra.role, role_records,
      NameForm.extensions, Reader.extend]

theorem member_parcel (item : Item) : item.parcel.member = item.member := by
  rw [parcel, Parcel.member_written kind_ne_sparse, member, ← said_parcel]
  rfl

/-- Whatever gives the path says nothing about the size. -/
theorem size?_extensions (hwrites : item.form.Writes item.path) :
    (item.form.extensions item.path).size? = none := by
  cases hform : item.form with
  | field | fields | longName => rfl
  | record own size width =>
    rw [hform] at hwrites
    obtain ⟨hline, hroom, hholds⟩ := hwrites
    simp only [NameForm.extensions, Extensions.size?, Option.bind_some]
    exact size?_pathRecord hline hroom hholds.lt_limit

theorem complete_parcel (hitem : item.Writable) : item.parcel.Complete := by
  have hwrites := hitem.path
  have hforce : (Parcel.said .empty item.parcel.extras).size?.getD item.content.data.length =
      item.content.data.length := by
    rw [said_parcel, size?_extensions hwrites, Option.getD_none]
  refine Parcel.complete_written item.size ?_ ?_ rfl hitem.size hforce kind_ne_sparse role_eq
  · cases hform : item.form with
    | field | fields => exact nofun
    | longName own size ended =>
      rw [hform] at hwrites
      intro e he
      cases List.mem_singleton.mp he
      exact Extra.complete_written size rfl hwrites (by rw [role_longName]; decide)
    | record own size width =>
      rw [hform] at hwrites
      obtain ⟨-, -, hholds⟩ := hwrites
      rw [← length_pathRecord] at hholds
      intro e he
      cases List.mem_singleton.mp he
      refine Extra.complete_written size ?_ hholds (by rw [role_records]; decide)
      rw [length_pathRecord]
  · cases item.form.extension? item.path <;> simp

/-- An archive of items is read as their members. -/
theorem list_items {items : List Item} {source : ByteSource} {tail : Bytes}
    (hitems : ∀ item ∈ items, item.Writable) (h : source.bytes = items.flatMap Item.bytes ++ tail)
    (hend : Reader.Ends tail source.ending) (hroom : source.bytes.length < limit) :
    list source = ⟨items.map Item.member, .ok ()⟩ := by
  have hbytes : (items.map Item.parcel).flatMap Parcel.bytes = items.flatMap Item.bytes := by
    rw [List.flatMap_map, funext fun item : Item => item.bytes_parcel]
  have hmembers : (items.map Item.parcel).map Parcel.member = items.map Item.member := by
    rw [List.map_map]
    exact List.map_congr_left fun item _ => item.member_parcel
  rw [← hbytes] at h
  rw [← hmembers]
  refine list_parcels ?_ h hend hroom
  intro p hp
  obtain ⟨item, hitem, rfl⟩ := List.mem_map.mp hp
  exact complete_parcel (hitems item hitem)

/-! The name -/

theorem zero_not_mem_encode {text : String} (h : '\x00' ∉ text.toList) :
    0 ∉ Utf8.encode text :=
  fun hzero => h (Utf8.mem_of_mem_encode hzero (by decide))

theorem path?_longName {text : String} (h : '\x00' ∉ text.toList) (own : Fields) (size : SizeForm)
    (ended : Bool) :
    ((NameForm.longName own size ended).extensions text).path? = some (Utf8.encode text) := by
  have hzero := zero_not_mem_encode h
  simp only [NameForm.extensions, Extensions.path?, NameForm.longNameData]
  cases ended with
  | true => simp
  | false =>
    rw [if_neg]
    · simp
    · intro hlast
      exact hzero (List.mem_of_getLast? (by simpa using hlast))

theorem path_eq (hitem : item.Writable) (hnul : '\x00' ∉ item.path.toList) :
    item.member.path = Utf8.encode item.path := by
  have hzero := zero_not_mem_encode hnul
  have hwrites := hitem.path
  unfold Member.path member
  cases hform : item.form with
  | field =>
    rw [hform] at hwrites
    have hname : item.fields.name = .text 100 (Utf8.encode item.path) := by
      rw [fields, hform]
      rfl
    have hbefore : item.fields.gnu = true ∨ textField item.fields.before.bytes = [] := by
      rw [fields, hform]
      cases hgnu : item.besides.gnu with
      | true => exact Or.inl hgnu
      | false =>
        right
        simp only [NameForm.name, hgnu, Bool.false_eq_true, if_false]
        exact textField_text (Nat.zero_le 155) List.not_mem_nil
    change item.fields.header.name = _
    exact Fields.header_name_text _ hname hwrites hzero hbefore
  | fields before name =>
    rw [hform] at hwrites
    obtain ⟨hpath, hne, hbefore, hname⟩ := hwrites
    have hencoded : Utf8.encode item.path = Utf8.encode before ++ 0x2F :: Utf8.encode name := by
      rw [hpath, Utf8.encode_append, Utf8.encode_append, List.append_assoc]
      rfl
    rw [hencoded] at hzero ⊢
    obtain ⟨hzeroBefore, hzeroName⟩ : 0 ∉ Utf8.encode before ∧ 0 ∉ Utf8.encode name := by
      simpa using hzero
    have hfront : textField item.fields.before.bytes = Utf8.encode before := by
      rw [fields, hform]
      exact textField_text hbefore hzeroBefore
    have hback : textField item.fields.name.bytes = Utf8.encode name := by
      rw [fields, hform]
      exact textField_text hname hzeroName
    have hgnu : item.fields.gnu = false := by
      rw [fields, hform]
      rfl
    have hsome : Utf8.encode before ≠ [] := fun hnil => hne (Utf8.eq_of_encode_eq hnil)
    change item.fields.header.name = _
    rw [Fields.header_name_of_before _ hgnu (by rwa [hfront]), hfront, hback]
  | longName own size ended => rw [path?_longName hnul, Option.getD_some]
  | record own size width =>
    rw [hform] at hwrites
    obtain ⟨hline, hroom, hholds⟩ := hwrites
    simp only [NameForm.extensions, Extensions.path?, Extensions.empty, Option.bind_some]
    rw [path?_pathRecord hline hroom hholds.lt_limit, Option.getD_some]

/-- The name that is read is the path that was written. -/
theorem name_eq (hitem : item.Writable) (hnul : '\x00' ∉ item.path.toList) :
    item.member.name = item.path := by
  rw [Member.name, path_eq hitem hnul, Utf8.decodeLossy_encode]

end Item

end NodeLogs.Archive
