import NodeLogs.Archive.Member
import NodeLogs.HostPath
import NodeLogs.Proofs.Archive.Numerals

/-!
Archives as they are written: header blocks from their fields, and members with their path in the
header alone, cut in two, or in an extension member before it. What the fields of a header say is
read back from its block.
-/

namespace NodeLogs.Archive

theorem Header.field_append {pre mid post : Bytes} {offset length : Nat}
    (hpre : pre.length = offset) (hmid : mid.length = length) :
    Header.field ⟨pre ++ mid ++ post⟩ offset length = mid := by
  subst hpre hmid
  rw [field, List.append_assoc, List.drop_left, List.take_left]

/-- A field within a field. -/
theorem Header.field_field {h : Header} {offset length inner count : Nat}
    (hle : inner + count ≤ length) :
    h.field (offset + inner) count = ((h.field offset length).drop inner).take count := by
  simp only [field, List.drop_take, List.drop_drop, List.take_take]
  rw [Nat.min_eq_left (by omega)]

/-- The bytes of one field. -/
structure Field (width : Nat) where
  bytes : Bytes
  fits : bytes.length = width

/-- Text, with NULs up to the end of the field. -/
def Field.text (width : Nat) (bs : Bytes) : Field width where
  bytes := (bs ++ List.replicate width 0).take width
  fits := by simp

theorem Field.text_of_le {width : Nat} {bs : Bytes} (h : bs.length ≤ width) :
    (Field.text width bs).bytes = bs ++ List.replicate (width - bs.length) 0 := by
  change (bs ++ List.replicate width 0).take width = _
  rw [List.take_append, List.take_of_length_le h, List.take_replicate]
  congr 2
  omega

theorem textField_text {width : Nat} {bs : Bytes} (h : bs.length ≤ width) (hnul : 0 ∉ bs) :
    textField (Field.text width bs).bytes = bs := by
  have hne : ∀ b ∈ bs, b ≠ 0 := fun b hb hzero => hnul (hzero ▸ hb)
  rw [Field.text_of_le h]
  cases width - bs.length with
  | zero => rw [List.replicate_zero, List.append_nil, textField_self hne]
  | succ n => rw [List.replicate_succ, textField_append_nul hne]

/-- The number of a mode has seven octal digits. -/
def modeField (mode : Nat) : Field 8 where
  bytes := Utf8.encode (numeral 8 7 mode) ++ [0]
  fits := by rw [List.length_append, length_encode_numeral (by decide)]; rfl

/-- A size is written in eleven octal digits, or in binary. -/
inductive SizeForm where
  | octal
  | binary
deriving Repr, DecidableEq

namespace SizeForm

def field (size : Nat) : SizeForm → Field 12
  | .octal =>
    ⟨Utf8.encode (numeral 8 11 size) ++ [0], by
      rw [List.length_append, length_encode_numeral (by decide)]; rfl⟩
  | .binary => ⟨[0x80, 0, 0, 0] ++ Archive.binary 8 size, by
      rw [List.length_append, length_binary]; rfl⟩

/-- Whether there is room for a size. -/
def Holds (size : Nat) : SizeForm → Prop
  | .octal => size < capacity 8 11
  | .binary => size < limit

instance (size : Nat) : (form : SizeForm) → Decidable (form.Holds size)
  | .octal => inferInstanceAs (Decidable (_ < _))
  | .binary => inferInstanceAs (Decidable (_ < _))

theorem Holds.lt_limit {form : SizeForm} {size : Nat} (h : form.Holds size) : size < limit := by
  cases form with
  | octal => exact Nat.lt_trans h (by decide)
  | binary => exact h

theorem octalOrBinary_field {form : SizeForm} {size : Nat} (h : form.Holds size) :
    octalOrBinary (form.field size).bytes = .ok size := by
  cases form with
  | octal => exact octalOrBinary_numeral (by decide) h h.lt_limit []
  | binary => exact octalOrBinary_binary h

end SizeForm

/-- All fields of a header but its checksum. -/
structure Fields where
  name : Field 100
  mode : Field 8
  ids : Field 16
  size : Field 12
  time : Field 12
  kind : UInt8
  link : Field 100
  gnu : Bool
  owners : Field 80
  before : Field 155
  last : Field 12

/-- Fields that say nothing. -/
def Fields.blank : Fields where
  name := .text 100 []
  mode := .text 8 []
  ids := .text 16 []
  size := .text 12 []
  time := .text 12 []
  kind := 0
  link := .text 100 []
  gnu := false
  owners := .text 80 []
  before := .text 155 []
  last := .text 12 []

namespace Fields

variable (f : Fields)

def magic : Bytes := if f.gnu then Utf8.encode "ustar  \x00" else Utf8.encode "ustar\x0000"

/-- What stands before the checksum. -/
def front : Bytes :=
  f.name.bytes ++ f.mode.bytes ++ f.ids.bytes ++ f.size.bytes ++ f.time.bytes

/-- What stands behind the checksum. -/
def back : Bytes :=
  f.kind :: (f.link.bytes ++ f.magic ++ f.owners.bytes ++ f.before.bytes ++ f.last.bytes)

def sum : Nat := (f.front ++ f.back).foldl (fun n b => n + b.toNat) (8 * 32)

def block : Bytes := f.front ++ (Utf8.encode (numeral 8 6 f.sum) ++ [0, 0x20]) ++ f.back

def header : Header := ⟨f.block⟩

theorem length_magic : f.magic.length = 8 := by
  unfold magic
  split <;> decide

theorem length_front : f.front.length = 148 := by
  simp only [front, List.length_append, Field.fits]

theorem length_back : f.back.length = 356 := by
  simp only [back, List.length_cons, List.length_append, Field.fits, length_magic]

theorem length_checksum : (Utf8.encode (numeral 8 6 f.sum) ++ [0, 0x20]).length = 8 := by
  rw [List.length_append, length_encode_numeral (by decide)]
  rfl

theorem length_block : f.block.length = blockSize := by
  rw [block, List.length_append, List.length_append, length_front, length_checksum, length_back]
  rfl

/-! Fields read back -/

theorem field_name : f.header.field 0 100 = f.name.bytes := by
  have hblock : f.block = [] ++ f.name.bytes ++ (f.mode.bytes ++ f.ids.bytes ++ f.size.bytes ++
      f.time.bytes ++ (Utf8.encode (numeral 8 6 f.sum) ++ [0, 0x20]) ++ f.back) := by
    simp only [block, front, List.append_assoc, List.nil_append]
  rw [header, hblock]
  exact Header.field_append rfl f.name.fits

theorem field_mode : f.header.field 100 8 = f.mode.bytes := by
  have hblock : f.block = f.name.bytes ++ f.mode.bytes ++ (f.ids.bytes ++ f.size.bytes ++
      f.time.bytes ++ (Utf8.encode (numeral 8 6 f.sum) ++ [0, 0x20]) ++ f.back) := by
    simp only [block, front, List.append_assoc]
  rw [header, hblock]
  exact Header.field_append f.name.fits f.mode.fits

theorem field_size : f.header.field 124 12 = f.size.bytes := by
  have hblock : f.block = (f.name.bytes ++ f.mode.bytes ++ f.ids.bytes) ++ f.size.bytes ++
      (f.time.bytes ++ (Utf8.encode (numeral 8 6 f.sum) ++ [0, 0x20]) ++ f.back) := by
    simp only [block, front, List.append_assoc]
  rw [header, hblock]
  refine Header.field_append ?_ f.size.fits
  simp only [List.length_append, Field.fits]

theorem field_checksum :
    f.header.field 148 8 = Utf8.encode (numeral 8 6 f.sum) ++ [0, 0x20] :=
  Header.field_append f.length_front f.length_checksum

theorem field_kind : f.header.field 156 1 = [f.kind] := by
  have hblock : f.block = (f.front ++ (Utf8.encode (numeral 8 6 f.sum) ++ [0, 0x20])) ++ [f.kind] ++
      (f.link.bytes ++ f.magic ++ f.owners.bytes ++ f.before.bytes ++ f.last.bytes) := by
    simp only [block, back, List.append_assoc, List.cons_append, List.nil_append]
  rw [header, hblock]
  refine Header.field_append ?_ rfl
  rw [List.length_append, length_front, length_checksum]

theorem field_magic : f.header.field 257 8 = f.magic := by
  have hblock : f.block = (f.front ++ (Utf8.encode (numeral 8 6 f.sum) ++ [0, 0x20]) ++ f.kind ::
      f.link.bytes) ++ f.magic ++ (f.owners.bytes ++ f.before.bytes ++ f.last.bytes) := by
    simp only [block, back, List.append_assoc, List.cons_append]
  rw [header, hblock]
  refine Header.field_append ?_ f.length_magic
  rw [List.length_append, List.length_append, length_front, length_checksum, List.length_cons,
    f.link.fits]

theorem field_before : f.header.field 345 155 = f.before.bytes := by
  have hblock : f.block = (f.front ++ (Utf8.encode (numeral 8 6 f.sum) ++ [0, 0x20]) ++ f.kind ::
      (f.link.bytes ++ f.magic ++ f.owners.bytes)) ++ f.before.bytes ++ f.last.bytes := by
    simp only [block, back, List.append_assoc, List.cons_append]
  rw [header, hblock]
  refine Header.field_append ?_ f.before.fits
  rw [List.length_append, List.length_append, length_front, length_checksum, List.length_cons,
    List.length_append, List.length_append, f.link.fits, length_magic, f.owners.fits]

theorem field_in_before (inner count : Nat) (h : inner + count ≤ 155) :
    f.header.field (345 + inner) count = (f.before.bytes.drop inner).take count := by
  rw [Header.field_field h, field_before]

theorem header_kind : f.header.kind = Kind.ofByte f.kind := by
  rw [Header.kind, field_kind]
  rfl

theorem header_format : f.header.format = if f.gnu then .gnu else .ustar := by
  rw [Header.format, field_magic, magic]
  cases f.gnu <;> decide

theorem header_ne_old : f.header.format ≠ .old := by
  rw [header_format]
  split <;> decide

/-- In the ustar format a prefix belongs to the name. -/
theorem header_name_of_before (hgnu : f.gnu = false) (hbefore : textField f.before.bytes ≠ []) :
    f.header.name = textField f.before.bytes ++ 0x2F :: textField f.name.bytes := by
  rw [Header.name, field_name, field_before, header_format, hgnu]
  simp [hbefore]

theorem header_name_of_no_before (h : f.gnu = true ∨ textField f.before.bytes = []) :
    f.header.name = textField f.name.bytes := by
  rw [Header.name, field_name, field_before, header_format]
  rcases h with hgnu | hbefore
  · simp [hgnu]
  · simp [hbefore]

theorem header_name_text {name : Bytes} (hname : f.name = .text 100 name)
    (hlength : name.length ≤ 100) (hzero : 0 ∉ name)
    (h : f.gnu = true ∨ textField f.before.bytes = []) :
    f.header.name = name := by
  rw [f.header_name_of_no_before h, hname, textField_text hlength hzero]

theorem header_size {form : SizeForm} {size : Nat} (hsize : f.size = form.field size)
    (h : form.Holds size) : f.header.size = .ok size := by
  rw [Header.size, field_size, hsize, SizeForm.octalOrBinary_field h]
  rfl

theorem header_mode {mode : Nat} (hmode : f.mode = modeField mode) (h : mode < capacity 8 7) :
    f.header.mode = .ok mode := by
  have hlt : mode < 0x100000000 := Nat.lt_trans h (by decide)
  have hoctal : octal (modeField mode).bytes = .ok mode :=
    octal_numeral (by decide) h (Nat.lt_trans h (by decide)) []
  rw [Header.mode, field_mode, hmode, hoctal]
  exact congrArg Except.ok (Nat.mod_eq_of_lt hlt)

theorem sum_le (bs : Bytes) (n : Nat) :
    bs.foldl (fun n b => n + b.toNat) n ≤ n + 255 * bs.length := by
  induction bs generalizing n with
  | nil => simp
  | cons b bs ih =>
    have hb := b.toNat_lt
    have hrest := ih (n + b.toNat)
    simp only [List.foldl_cons, List.length_cons]
    omega

theorem header_sum : f.header.sum = f.sum := by
  have hfront : f.block.take 148 = f.front := by
    rw [block, List.append_assoc, ← f.length_front, List.take_left]
  have hback : f.block.drop 156 = f.back := by
    have hlength : (f.front ++ (Utf8.encode (numeral 8 6 f.sum) ++ [0, 0x20])).length = 156 := by
      rw [List.length_append, length_front, length_checksum]
    rw [block, ← hlength, List.drop_left]
  rw [Header.sum, header, hfront, hback, sum]

theorem sum_lt : f.sum < capacity 8 6 := by
  have hle := sum_le (f.front ++ f.back) (8 * 32)
  rw [List.length_append, length_front, length_back] at hle
  exact Nat.lt_of_le_of_lt hle (by decide)

/-- A block that was written adds up to its checksum. -/
theorem header_check : f.header.check = .ok () := by
  have hlt := f.sum_lt
  have hsmall : f.sum < 0x100000000 := Nat.lt_trans hlt (by decide)
  have hoctal : octal (Utf8.encode (numeral 8 6 f.sum) ++ [0, 0x20]) = .ok f.sum :=
    octal_numeral (by decide) hlt (Nat.lt_trans hlt (by decide)) [0x20]
  have hchecksum : f.header.checksum = .ok f.sum := by
    rw [Header.checksum, field_checksum, hoctal]
    exact congrArg Except.ok (Nat.mod_eq_of_lt hsmall)
  simp [Header.check, hchecksum, header_sum, bind, Except.bind]

theorem header_not_blank : f.header.isBlank = false := by
  have hmem : (0x75 : UInt8) ∈ f.block := by
    have hmagic : (0x75 : UInt8) ∈ f.magic := by
      unfold magic
      split <;> decide
    simp [block, back, hmagic]
  rw [Header.isBlank, Bool.eq_false_iff, ne_eq, List.all_eq_true]
  intro hall
  have := hall _ hmem
  simp at this

end Fields

end NodeLogs.Archive
