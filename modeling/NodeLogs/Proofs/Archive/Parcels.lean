import NodeLogs.Proofs.Archive.ReadBack

/-!
Members as they stand in an archive: a header with its data in whole blocks, behind the extension
members that describe it. Whatever the headers say besides, each such parcel is read as its own
member, and nothing of it is left for the next one.
-/

namespace NodeLogs.Archive

/-- A block that is found to be a header. -/
structure Header.Sound (h : Header) : Prop where
  length : h.block.length = blockSize
  check : h.check = .ok ()

theorem Header.Sound.not_blank {h : Header} (sound : h.Sound) : h.isBlank = false := by
  rw [Bool.eq_false_iff]
  intro hblank
  have hzeros : h = ⟨List.replicate blockSize 0⟩ := by
    rw [Header.isBlank, List.all_eq_true] at hblank
    have hblock : h.block = List.replicate blockSize 0 :=
      List.eq_replicate_iff.mpr ⟨sound.length, fun b hb => by simpa using hblank b hb⟩
    rw [← hblock]
  have hcheck : (Header.check ⟨List.replicate blockSize 0⟩).toOption = none := by decide +kernel
  rw [← hzeros, sound.check] at hcheck
  cases hcheck

/-- Blocks that continue a sparse map. All but the last say that another one follows. -/
inductive SparseMap.Continued : SparseMap → List Bytes → SparseMap → Prop where
  | last {m m' : SparseMap} {block : Bytes} (length : block.length = blockSize)
    (added : m.addAll 21 block = .ok m') (ends : (block.drop 504).headD 0 ≠ 1) :
    Continued m [block] m'
  | more {m m₁ m' : SparseMap} {block : Bytes} {blocks : List Bytes}
    (length : block.length = blockSize) (added : m.addAll 21 block = .ok m₁)
    (follows : (block.drop 504).headD 0 = 1) (rest : Continued m₁ blocks m') :
    Continued m (block :: blocks) m'

/-- The sparse map of a header for data of this size, with the blocks that continue it. -/
def Header.Maps (h : Header) (size : Nat) (blocks : List Bytes) (map : SparseMap) : Prop :=
  ∃ first, (SparseMap.start size).addAll 4 (h.field 386 96) = .ok first ∧
    ((h.field 482 1).headD 0 ≠ 1 ∧ blocks = [] ∧ map = first ∨
      (h.field 482 1).headD 0 = 1 ∧ first.Continued blocks map)

/-- An extension member, its data filled up to whole blocks. -/
structure Extra where
  header : Header
  data : Bytes
  gap : Bytes

namespace Extra

variable (e : Extra)

def bytes : Bytes := e.header.block ++ (e.data ++ e.gap)

def role : Reader.Role := Reader.role e.header

structure Complete : Prop where
  header : e.header.Sound
  role : e.role ≠ .plain
  size : e.header.size = .ok e.data.length
  filled : Fills e.gap e.data.length

/-- A written header with its data. -/
def written (f : Fields) (data : Bytes) : Extra := ⟨f.header, data, padding data.length⟩

end Extra

/-- A member with the extension members before it. The blocks that continue a sparse map stand
before the data. -/
structure Parcel where
  extras : List Extra
  header : Header
  map : List Bytes
  data : Bytes
  gap : Bytes

namespace Parcel

variable (p : Parcel)

def bytes : Bytes :=
  p.extras.flatMap Extra.bytes ++ (p.header.block ++ (p.map.flatten ++ (p.data ++ p.gap)))

/-- What extension members say together. -/
def said (x : Extensions) (extras : List Extra) : Extensions :=
  extras.foldl (fun x e => Reader.extend x e.data e.role) x

def extensions : Extensions := said .empty p.extras

/-- The member that it is. The data of a sparse one is not looked at. -/
def member : Member :=
  ⟨p.header, p.extensions, if p.header.kind = .sparse then ⟨[], none⟩ else ⟨p.data, none⟩⟩

/-- It has all of its data, as much as is in force for it, and at most one extension member of a
kind. -/
structure Complete : Prop where
  extras : ∀ e ∈ p.extras, e.Complete
  once : (p.extras.map Extra.role).Nodup
  header : p.header.Sound
  plain : Reader.role p.header = .plain
  size : ∃ size, p.header.size = .ok size ∧ p.extensions.size?.getD size = p.data.length
  filled : Fills p.gap p.data.length
  sparse : p.header.kind = .sparse → p.header.format = .gnu ∧
    ∃ map, p.header.Maps p.data.length p.map map ∧ Reader.checkMap p.header map = .ok ()
  whole : p.header.kind ≠ .sparse → p.map = []

/-- A written header with its data, behind these extension members. -/
def written (extras : List Extra) (f : Fields) (data : Bytes) : Parcel :=
  ⟨extras, f.header, [], data, padding data.length⟩

end Parcel

section Written

variable {f : Fields} {data : Bytes}

theorem Fields.header_sound (f : Fields) : f.header.Sound := ⟨f.length_block, f.header_check⟩

theorem Fields.header_role (f : Fields) :
    Reader.role f.header = match Kind.ofByte f.kind with
      | .longName => .longName
      | .longLink => .longLink
      | .records => .records
      | _ => .plain := by
  cases hkind : Kind.ofByte f.kind <;>
    simp only [Reader.role, if_neg f.header_ne_old, f.header_kind, hkind]

theorem Extra.complete_written (form : SizeForm) (hsize : f.size = form.field data.length)
    (hholds : form.Holds data.length) (hrole : Reader.role f.header ≠ .plain) :
    (Extra.written f data).Complete where
  header := f.header_sound
  role := hrole
  size := f.header_size hsize hholds
  filled := padding_fills _

theorem Parcel.complete_written (form : SizeForm) {extras : List Extra} {size : Nat}
    (complete : ∀ e ∈ extras, e.Complete) (once : (extras.map Extra.role).Nodup)
    (hsize : f.size = form.field size) (hholds : form.Holds size)
    (hforce : (said .empty extras).size?.getD size = data.length)
    (hkind : f.header.kind ≠ .sparse) (hrole : Reader.role f.header = .plain) :
    (Parcel.written extras f data).Complete where
  extras := complete
  once := once
  header := f.header_sound
  plain := hrole
  size := ⟨size, f.header_size hsize hholds, hforce⟩
  filled := padding_fills _
  sparse := fun hsparse => absurd hsparse hkind
  whole := fun _ => rfl

theorem Extra.bytes_written (f : Fields) (data : Bytes) :
    (Extra.written f data).bytes = f.block ++ padded data := rfl

theorem Parcel.bytes_written (extras : List Extra) (f : Fields) (data : Bytes) :
    (Parcel.written extras f data).bytes =
      extras.flatMap Extra.bytes ++ (f.block ++ padded data) := rfl

theorem Parcel.member_written {extras : List Extra} (hkind : f.header.kind ≠ .sparse) :
    (Parcel.written extras f data).member = ⟨f.header, said .empty extras, ⟨data, none⟩⟩ := by
  rw [member, written, if_neg hkind]
  rfl

end Written

/-! Files whose name, size and mode stand in one header -/

section OfFile

variable {name data : Bytes}

def Fields.ofFile (name : Bytes) (size : Nat) : Fields :=
  { Fields.blank with
    name := .text 100 name
    mode := modeField 0o644
    kind := 0x30
    size := SizeForm.octal.field size }

/-- A file with this name and data. -/
def Parcel.ofFile (name data : Bytes) : Parcel := .written [] (.ofFile name data.length) data

namespace Parcel

theorem ofFile_member (name data : Bytes) :
    (ofFile name data).member = ⟨(Fields.ofFile name data.length).header, .empty, ⟨data, none⟩⟩ :=
  member_written (by rw [Fields.header_kind]; exact nofun)

theorem ofFile_kind : (ofFile name data).member.kind = .regular := by
  rw [ofFile_member, Member.kind, Fields.header_kind]
  rfl

theorem ofFile_size (h : SizeForm.octal.Holds data.length) :
    (ofFile name data).member.header.size = .ok data.length := by
  have hsize : (Fields.ofFile name data.length).size = SizeForm.octal.field data.length := rfl
  rw [ofFile_member]
  exact Fields.header_size _ hsize h

theorem ofFile_mode : (ofFile name data).member.header.mode = .ok 0o644 := by
  rw [ofFile_member]
  exact Fields.header_mode _ rfl (by decide)

theorem ofFile_path (hlength : name.length ≤ 100) (hzero : 0 ∉ name) :
    (ofFile name data).member.path = name := by
  have hheader : (Fields.ofFile name data.length).header.name = name :=
    Fields.header_name_text _ rfl hlength hzero
      (Or.inr (textField_text (Nat.zero_le 155) List.not_mem_nil))
  have hnone : Extensions.path? .empty = none := rfl
  rw [Member.path, ofFile_member, hnone, Option.getD_none, hheader]

theorem ofFile_complete (h : SizeForm.octal.Holds data.length) : (ofFile name data).Complete := by
  refine complete_written .octal nofun List.nodup_nil rfl h rfl ?_ ?_
  · rw [Fields.header_kind]
    exact nofun
  · rw [Fields.header_role]
    rfl

theorem length_ofFile (name data : Bytes) :
    (ofFile name data).bytes.length = blockSize + (padded data).length := by
  rw [ofFile, bytes_written, List.flatMap_nil, List.nil_append, List.length_append,
    Fields.length_block]

end Parcel

end OfFile

namespace Reader

variable {r : Reader} {todo : Bytes}

theorem repeated?_extend (x : Extensions) (data : Bytes) {first next : Role} (h : next ≠ first) :
    repeated? (extend x data first) next = repeated? x next := by
  cases first <;> cases next <;> first | rfl | exact absurd rfl h

/-- Extension members of different kinds are read one after the other. -/
theorem members_extras {extras : List Extra} {x : Extensions}
    (complete : ∀ e ∈ extras, e.Complete) (once : (extras.map Extra.role).Nodup)
    (new : ∀ e ∈ extras, repeated? x e.role = none)
    (h : r.Faces (extras.flatMap Extra.bytes ++ todo)) :
    ∃ r', members x r = members (Parcel.said x extras) r' ∧ r'.Faces todo ∧
      r'.source.ending = r.source.ending := by
  induction extras generalizing x r with
  | nil => exact ⟨r, rfl, h, rfl⟩
  | cons e rest ih =>
    obtain ⟨hheader, hrole, hsize, hfilled⟩ := complete e List.mem_cons_self
    obtain ⟨hfirst, hrest⟩ := List.nodup_cons.mp once
    rw [List.flatMap_cons, Extra.bytes, List.append_assoc, List.append_assoc,
      List.append_assoc] at h
    obtain ⟨r₁, hread, hfaces, hposition, hending⟩ :=
      header?_faced h hheader.length hheader.not_blank
    obtain ⟨r₂, hextension, hfaces₂, hending₂⟩ :=
      extension_faced hfaces hfilled hposition hsize (new e List.mem_cons_self)
    obtain ⟨r₃, hmembers, hfaces₃, hending₃⟩ :=
      ih (x := extend x e.data e.role)
        (fun e' he' => complete e' (List.mem_cons_of_mem e he')) hrest
        (fun e' he' => by
          rw [repeated?_extend, new e' (List.mem_cons_of_mem e he')]
          exact fun heq => hfirst (heq ▸ List.mem_map_of_mem he'))
        hfaces₂
    refine ⟨r₃, ?_, hfaces₃, hending₃.trans (hending₂.trans hending)⟩
    rw [members_of_extension hread hheader.check hrole hextension]
    exact hmembers

/-- Blocks right ahead of a reader that continue a map are read, and the next header is further off
by as much. -/
theorem sparseBlocks_ahead {m m' : SparseMap} {blocks : List Bytes}
    (hblocks : m.Continued blocks m') (h : r.source.bytes = blocks.flatten ++ todo) :
    ∃ r', sparseBlocks m r = .ok (m', r') ∧ r'.source.bytes = todo ∧
      r'.position = r.position + blocks.flatten.length ∧
      r'.next = r.next + blocks.flatten.length ∧ r'.source.ending = r.source.ending := by
  induction hblocks generalizing r with
  | @last m m' block hlength hadded hends =>
    rw [List.flatten_singleton] at h ⊢
    obtain ⟨r₁, hblock, hrest, hposition, hnext, hending⟩ := block?_append h hlength
    refine ⟨{ r₁ with next := r₁.next + blockSize }, ?_, hrest, ?_, ?_, hending⟩
    · rw [sparseBlocks_of_block hblock, hadded]
      simp only [if_neg hends]
    · rw [hlength]
      exact hposition
    · rw [hlength, ← hnext]
  | @more m m₁ m' block blocks hlength hadded hfollows _ ih =>
    rw [List.flatten_cons, List.append_assoc] at h
    obtain ⟨r₁, hblock, hrest, hposition, hnext, hending⟩ := block?_append h hlength
    obtain ⟨r₂, hblocks, hrest₂, hposition₂, hnext₂, hending₂⟩ :=
      ih (r := { r₁ with next := r₁.next + blockSize }) hrest
    refine ⟨r₂, ?_, hrest₂, ?_, ?_, hending₂.trans hending⟩
    · rw [sparseBlocks_of_block hblock, hadded]
      simp only [if_pos hfollows]
      exact hblocks
    · rw [hposition₂, hposition, List.flatten_cons, List.length_append, hlength, Nat.add_assoc]
    · rw [hnext₂, hnext, List.flatten_cons, List.length_append, hlength, Nat.add_assoc]

theorem sparseMap_ahead {head : Header} {size : Nat} {blocks : List Bytes} {map : SparseMap}
    (hmap : head.Maps size blocks map) (h : r.source.bytes = blocks.flatten ++ todo) :
    ∃ r', r.sparseMap head size = .ok (map, r') ∧ r'.source.bytes = todo ∧
      r'.position = r.position + blocks.flatten.length ∧
      r'.next = r.next + blocks.flatten.length ∧ r'.source.ending = r.source.ending := by
  obtain ⟨first, hfirst, ⟨hlone, rfl, rfl⟩ | ⟨hmore, hblocks⟩⟩ := hmap
  · refine ⟨r, ?_, h, rfl, rfl, rfl⟩
    unfold sparseMap
    simp only [hfirst, if_neg hlone]
  · obtain ⟨r', hread, hrest⟩ := sparseBlocks_ahead hblocks h
    refine ⟨r', ?_, hrest⟩
    unfold sparseMap
    simp only [hfirst, if_pos hmore, hread]

/-- A sparse member is read up to its data, which the next header stands behind. -/
theorem member_sparse {x : Extensions} {head : Header} {size : Nat} {blocks : List Bytes}
    {map : SparseMap} {data gap : Bytes}
    (h : r.Faces (blocks.flatten ++ (data ++ (gap ++ todo)))) (hfills : Fills gap data.length)
    (hposition : r.position = r.next) (hsize : head.size = .ok size)
    (hx : x.size?.getD size = data.length) (hkind : head.kind = .sparse)
    (hformat : head.format = .gnu) (hmap : head.Maps data.length blocks map)
    (hcheck : checkMap head map = .ok ()) :
    ∃ r', r.member x head = .ok (⟨head, x, ⟨[], none⟩⟩, r') ∧ r'.Faces todo ∧
      r'.source.ending = r.source.ending := by
  obtain ⟨before, hbytes, hbefore⟩ := h.ahead
  obtain rfl : before = [] := List.eq_nil_of_length_eq_zero (by omega)
  have hroom := h.room
  rw [List.length_append, List.length_append, List.length_append] at hroom
  rw [Fills] at hfills
  have hplace : r.place data.length =
      .ok { r with next := r.next + (data.length + 511) / 512 * 512 } := by
    have hkept := kept_le r.next
    rw [place, if_neg]
    simp only [limit] at *
    omega
  obtain ⟨r', hread, hrest, hposition', hnext, hending⟩ :=
    sparseMap_ahead (r := { r with next := r.next + (data.length + 511) / 512 * 512 }) hmap hbytes
  refine ⟨r', ?_, ⟨⟨data ++ gap, ?_, ?_⟩, ?_⟩, hending⟩
  · unfold member
    simp only [hsize, hx, hplace, if_pos hkind, hformat, ne_eq, not_true, if_false, hread, hcheck]
    rfl
  · rw [hrest, List.append_assoc]
  · rw [List.length_append]
    simp only at hposition' hnext
    omega
  · simp only at hnext
    omega

end Reader

variable {r : Reader} {todo : Bytes}

/-- What is read of a parcel is its member, with all that follows still ahead. -/
theorem members_parcel {p : Parcel} (complete : p.Complete) (h : r.Faces (p.bytes ++ todo)) :
    ∃ r', members .empty r = .cons p.member (members .empty r') ∧ r'.Faces todo ∧
      r'.source.ending = r.source.ending := by
  obtain ⟨size, hsize, hforce⟩ := complete.size
  rw [Parcel.bytes, List.append_assoc] at h
  obtain ⟨r₁, hextras, hfaces₁, hending₁⟩ :=
    Reader.members_extras (x := .empty) complete.extras complete.once
      (fun e _ => by cases e.role <;> rfl) h
  rw [List.append_assoc] at hfaces₁
  obtain ⟨r₂, hheader, hfaces₂, hposition, hending₂⟩ :=
    Reader.header?_faced hfaces₁ complete.header.length complete.header.not_blank
  rw [List.append_assoc, List.append_assoc] at hfaces₂
  have hmember : ∃ r₃, r₂.member p.extensions p.header = .ok (p.member, r₃) ∧ r₃.Faces todo ∧
      r₃.source.ending = r₂.source.ending := by
    unfold Parcel.member
    by_cases hkind : p.header.kind = .sparse
    · obtain ⟨hformat, map, hmap, hcheck⟩ := complete.sparse hkind
      rw [if_pos hkind]
      exact Reader.member_sparse hfaces₂ complete.filled hposition hsize hforce hkind hformat hmap
        hcheck
    · rw [if_neg hkind]
      rw [complete.whole hkind] at hfaces₂
      exact Reader.member_faced hfaces₂ complete.filled hposition hsize hforce hkind
  obtain ⟨r₃, hmember, hfaces₃, hending₃⟩ := hmember
  refine ⟨r₃, ?_, hfaces₃, hending₃.trans (hending₂.trans hending₁)⟩
  rw [hextras]
  exact members_of_member hheader complete.header.check complete.plain hmember

theorem members_parcels {parcels : List Parcel} {tail : Bytes}
    (complete : ∀ p ∈ parcels, p.Complete) (h : r.Faces (parcels.flatMap Parcel.bytes ++ tail))
    (hend : Reader.Ends tail r.source.ending) :
    members .empty r = ⟨parcels.map Parcel.member, .ok ()⟩ := by
  induction parcels generalizing r with
  | nil => exact members_of_end (Reader.header?_end h hend)
  | cons p rest ih =>
    rw [List.flatMap_cons, List.append_assoc] at h
    obtain ⟨r', hmembers, hfaces, hending⟩ := members_parcel (complete p List.mem_cons_self) h
    rw [hmembers, ih (fun q hq => complete q (List.mem_cons_of_mem p hq)) hfaces (hending ▸ hend)]
    rfl

/-- An archive of complete members is read as these. -/
theorem list_parcels {parcels : List Parcel} {source : ByteSource} {tail : Bytes}
    (complete : ∀ p ∈ parcels, p.Complete)
    (h : source.bytes = parcels.flatMap Parcel.bytes ++ tail)
    (hend : Reader.Ends tail source.ending) (hroom : source.bytes.length < limit) :
    list source = ⟨parcels.map Parcel.member, .ok ()⟩ :=
  members_parcels complete
    ⟨⟨[], h, rfl⟩, by rw [← h, Reader.start, Nat.zero_add]; exact hroom⟩ hend

end NodeLogs.Archive
