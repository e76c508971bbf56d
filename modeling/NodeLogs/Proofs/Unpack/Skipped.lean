import Mathlib.Data.List.Flatten
import NodeLogs.Proofs.Archive.Parcels
import NodeLogs.Proofs.Unpack.Contents

/-!
Members that unpacking makes nothing of. Wherever such members are put into an archive, with all
that belongs to them, everything else comes out as it did before, and each one with a name is warned
of in its place.
-/

namespace NodeLogs.Unpack

open Archive (Parcel)

variable {t : FileTree} {dest : HostPath}

/-- A member of an archive, and whether it was put in. -/
structure Slot where
  parcel : Parcel
  added : Bool

namespace Slot

def member (s : Slot) : Archive.Member := s.parcel.member

/-- The members that were there before. -/
def old (slots : List Slot) : List Slot := slots.filter fun s => !s.added

/-- The archive as it stands. -/
def bytes (slots : List Slot) : Bytes := slots.flatMap fun s => s.parcel.bytes

end Slot

/-- An archive of complete members, and the one that others were put into, both as far as positions
go. -/
structure Inserted (slots : List Slot) (original extended : ByteSource) : Prop where
  complete : ∀ s ∈ slots, s.parcel.Complete
  bytes : ∃ tail, original.bytes = Slot.bytes (Slot.old slots) ++ tail ∧
    extended.bytes = Slot.bytes slots ++ tail ∧ Archive.Reader.Ends tail original.ending
  ending : extended.ending = original.ending
  room : extended.bytes.length < Archive.limit

/-- Whether nothing comes of a member: it has no name, or one that is not refused and is neither a
regular file's nor a directory's. -/
def Passed (m : Archive.Member) : Prop :=
  m.name = "" ∨ ¬ Archive.Unsafe m.name ∧ m.kind ≠ .regular ∧ m.kind ≠ .directory

theorem member_of_passed {m : Archive.Member} (h : Passed m) :
    member t dest m = ⟨[], (warning? m).toList.map .warn, .ok ()⟩ := by
  by_cases hname : m.name = ""
  · rw [member_of_nameless hname, warning?, if_pos (Or.inl hname)]
    rfl
  obtain ⟨hsafe, hregular, hdirectory⟩ := h.resolve_left hname
  obtain ⟨names, hnames⟩ :=
    Option.ne_none_iff_exists'.mp (mt Archive.relativeParts?_eq_none.mp hsafe)
  have htarget : target? dest m = some (dest.join (HostPath.below names)) := by
    rw [target?, if_neg hname, hnames]
    rfl
  rw [member_of_target? htarget, warning?, if_neg (by simp [hname, hregular, hdirectory])]
  cases hkind : m.kind with
  | regular => exact absurd hkind hregular
  | directory => exact absurd hkind hdirectory
  | _ => rfl

/-- A member that is passed over is warned of if it has a name. -/
theorem warning?_of_passed {m : Archive.Member} (h : Passed m) :
    warning? m = if m.name = "" then none
      else some ("tar file entry " ++ m.name ++ " contained unsupported file type " ++
        m.kind.label) := by
  by_cases hname : m.name = ""
  · rw [warning?, if_pos (Or.inl hname), if_pos hname]
  · obtain ⟨-, hregular, hdirectory⟩ := h.resolve_left hname
    rw [warning?, if_neg (by simp [hname, hregular, hdirectory]), if_neg hname]

/-- What was done up to some point, with the members that were put in and without them. -/
def Told (slots : List Slot) (whole part : Effect) : Prop :=
  ∃ done, done <+: slots ∧ (whole.result = .ok () → done = slots) ∧
    warnings whole.log = done.filterMap (fun s => warning? s.member) ∧
    warnings part.log = (Slot.old done).filterMap fun s => warning? s.member

theorem filterMap_warning? (s : Slot) (slots : List Slot) :
    (s :: slots).filterMap (fun s => warning? s.member) =
      (warning? s.member).toList ++ slots.filterMap fun s => warning? s.member := by
  cases h : warning? s.member <;> simp [h]

theorem Slot.old_cons (s : Slot) (slots : List Slot) :
    old (s :: slots) = if s.added then old slots else s :: old slots := by
  cases h : s.added <;> simp [old, h]

/-- A member that was unpacked and warned of where that is called for is told before the others;
without it nothing is told of it. -/
theorem Told.cons {s : Slot} {rest : List Slot} {first whole part : Effect}
    (hlog : warnings first.log = (warning? s.member).toList) (h : Told rest whole part) :
    Told (s :: rest) (first.andThen whole) (if s.added then part else first.andThen part) := by
  obtain ⟨done, hdone, hall, hwhole, hpart⟩ := h
  refine ⟨s :: done, List.cons_prefix_cons.mpr ⟨rfl, hdone⟩, ?_, ?_, ?_⟩
  · intro hend
    rw [hall hend]
  · rw [Effect.andThen, warnings_append, hlog, filterMap_warning?, hwhole]
  · rw [Slot.old_cons]
    cases s.added with
    | true => exact hpart
    | false =>
      simp only [Bool.false_eq_true, if_false]
      rw [Effect.andThen, warnings_append, hlog, filterMap_warning?, hpart]

/-- Two runs that stop before any of the members have told nothing of them. -/
theorem Told.stopped {slots : List Slot} {whole part : Effect} {f : Failure}
    (hresult : whole.result = .error f) (hwhole : warnings whole.log = [])
    (hpart : warnings part.log = []) : Told slots whole part := by
  refine ⟨[], List.nil_prefix, ?_, hwhole, hpart⟩
  intro hend
  rw [hresult] at hend
  cases hend

/-- One member after the other, those that were put in change nothing. -/
theorem members_passed {ending : Except Archive.Error Unit} {slots : List Slot}
    (passed : ∀ s ∈ slots, s.added = true → Passed s.member) :
    (members t dest ending (slots.map Slot.member)).result =
        (members t dest ending ((Slot.old slots).map Slot.member)).result ∧
      (members t dest ending (slots.map Slot.member)).changes =
        (members t dest ending ((Slot.old slots).map Slot.member)).changes ∧
      Told slots (members t dest ending (slots.map Slot.member))
        (members t dest ending ((Slot.old slots).map Slot.member)) := by
  induction slots generalizing t with
  | nil => exact ⟨rfl, rfl, [], List.nil_prefix, fun _ => rfl, rfl, rfl⟩
  | cons s rest ih =>
    have hrest (s' : Slot) (hs' : s' ∈ rest) := passed s' (List.mem_cons_of_mem s hs')
    rw [List.map_cons, Slot.old_cons]
    cases hadded : s.added with
    | true =>
      have hmember : member t dest s.member = ⟨[], _, .ok ()⟩ :=
        member_of_passed (passed s List.mem_cons_self hadded)
      have hok : (member t dest s.member).result = .ok () := by rw [hmember]
      have hnone : (member t dest s.member).changes = [] := by rw [hmember]
      obtain ⟨hresult, hchanges, htold⟩ := ih (t := t) hrest
      have htold := htold.cons (member_warns hok)
      rw [if_pos hadded] at htold
      rw [members_cons_of_ok hok, hnone, if_pos rfl]
      exact ⟨hresult, by rw [Effect.andThen, hnone]; exact hchanges, htold⟩
    | false =>
      rw [if_neg Bool.false_ne_true, List.map_cons]
      cases hmember : (member t dest s.member).result with
      | error f =>
        -- Neither goes on, and a member that fails has not warned of anything.
        have hlog := member_failed_log hmember
        rw [members, members, hmember]
        exact ⟨rfl, rfl, .stopped rfl (congrArg warnings hlog) (congrArg warnings hlog)⟩
      | ok _ =>
        obtain ⟨hresult, hchanges, htold⟩ :=
          ih (t := t.applyAll (member t dest s.member).changes) hrest
        have htold := htold.cons (member_warns hmember)
        rw [if_neg (by simp [hadded])] at htold
        rw [members_cons_of_ok hmember, members_cons_of_ok hmember]
        exact ⟨hresult, congrArg (_ ++ ·) hchanges, htold⟩

/-- An archive is unpacked as its members are. -/
theorem unpack_slots {slots : List Slot} {source : ByteSource} {tail : Bytes}
    (complete : ∀ s ∈ slots, s.parcel.Complete) (hbytes : source.bytes = Slot.bytes slots ++ tail)
    (hend : Archive.Reader.Ends tail source.ending) (hroom : source.bytes.length < Archive.limit) :
    unpack source dest t = members t dest (.ok ()) (slots.map Slot.member) := by
  have hparcels : ∀ p ∈ slots.map Slot.parcel, p.Complete := by
    intro p hp
    obtain ⟨s, hs, rfl⟩ := List.mem_map.mp hp
    exact complete s hs
  rw [Slot.bytes, ← List.flatMap_map] at hbytes
  rw [unpack, Archive.list_parcels hparcels hbytes hend hroom, List.map_map]
  rfl

/-- Putting complete members into an archive that unpacking passes over makes no difference to what
comes of it, or of its failing. Up to where it ends, one warning more is told for each of them that
has a name, in its place among the others. -/
theorem skipped_members_are_transparent (t : FileTree) (dest : HostPath) {slots : List Slot}
    {original extended : ByteSource} (inserted : Inserted slots original extended)
    (passed : ∀ s ∈ slots, s.added = true → Passed s.member) :
    (unpack extended dest t).result = (unpack original dest t).result ∧
      (unpack extended dest t).changes = (unpack original dest t).changes ∧
      Told slots (unpack extended dest t) (unpack original dest t) ∧
      ∀ s ∈ slots, s.added = true →
        warning? s.member =
          if s.member.name = "" then none
          else some ("tar file entry " ++ s.member.name ++ " contained unsupported file type " ++
            s.member.kind.label) := by
  obtain ⟨tail, horiginal, hextended, hend⟩ := inserted.bytes
  have hold : (Slot.old slots).Sublist slots := List.filter_sublist
  have hroom : original.bytes.length < Archive.limit := by
    refine Nat.lt_of_le_of_lt ?_ inserted.room
    rw [horiginal, hextended, List.length_append, List.length_append]
    exact Nat.add_le_add_right (hold.flatMap _).length_le _
  rw [unpack_slots inserted.complete hextended (inserted.ending ▸ hend) inserted.room,
    unpack_slots (fun s hs => inserted.complete s (hold.subset hs)) horiginal hend hroom]
  have htold (s : Slot) (hs : s ∈ slots) (hadded : s.added = true) :=
    warning?_of_passed (passed s hs hadded)
  obtain ⟨hresult, hchanges, hwarned⟩ := members_passed passed
  exact ⟨hresult, hchanges, hwarned, htold⟩

/-! Two members put in around a directory: a file without a name, and a pipe whose name stands
before it -/

def unnamedFields : Archive.Fields :=
  { Archive.Fields.blank with kind := 0x30, size := Archive.SizeForm.octal.field 2 }

def pipeNameFields : Archive.Fields :=
  { Archive.Fields.blank with kind := 0x4C, size := Archive.SizeForm.octal.field 2 }

def pipeFields : Archive.Fields :=
  { Archive.Fields.blank with kind := 0x36, size := Archive.SizeForm.octal.field 0 }

def aroundOneDir : List Slot :=
  [⟨.written [] unnamedFields [0x68, 0x69], true⟩,
    ⟨oneDir.parcel, false⟩,
    ⟨.written [.written pipeNameFields [0x70, 0]] pipeFields [], true⟩]

theorem role_pipeName : Archive.Reader.role pipeNameFields.header = .longName := by
  rw [Archive.Fields.header_role]
  rfl

theorem said_pipeName :
    Parcel.said .empty [.written pipeNameFields [0x70, 0]] = ⟨some [0x70, 0], none, none⟩ := by
  rw [Parcel.said, List.foldl_cons, Archive.Extra.role, Archive.Extra.written, role_pipeName]
  rfl

theorem unnamed_kind : unnamedFields.header.kind = .regular := by
  rw [Archive.Fields.header_kind]
  rfl

theorem pipe_kind : pipeFields.header.kind = .fifo := by
  rw [Archive.Fields.header_kind]
  rfl

theorem aroundOneDir_complete : ∀ s ∈ aroundOneDir, s.parcel.Complete := by
  simp only [aroundOneDir, List.mem_cons, List.not_mem_nil, or_false, forall_eq_or_imp, forall_eq]
  refine ⟨?_, ?_, ?_⟩
  · refine Parcel.complete_written .octal nofun List.nodup_nil rfl (by decide) rfl ?_ ?_
    · rw [unnamed_kind]
      decide
    · rw [Archive.Fields.header_role]
      rfl
  · refine Archive.Item.complete_parcel ⟨?_, ?_, nofun⟩ <;> decide
  · refine Parcel.complete_written .octal ?_ (by simp) rfl (by decide) ?_ ?_ ?_
    · intro e he
      cases List.mem_singleton.mp he
      exact Archive.Extra.complete_written .octal rfl (by decide)
        (by rw [role_pipeName]; decide)
    · rw [said_pipeName]
      rfl
    · rw [pipe_kind]
      decide
    · rw [Archive.Fields.header_role]
      rfl

theorem unnamed_name :
    Archive.Member.name (Parcel.written [] unnamedFields [0x68, 0x69]).member = "" := by
  have hname : unnamedFields.header.name = [] :=
    unnamedFields.header_name_text rfl (Nat.zero_le 100) List.not_mem_nil
      (Or.inr (Archive.textField_text (Nat.zero_le 155) List.not_mem_nil))
  have hmember : (Parcel.written [] unnamedFields [0x68, 0x69]).member =
      ⟨unnamedFields.header, .empty, ⟨[0x68, 0x69], none⟩⟩ :=
    Parcel.member_written (by rw [unnamed_kind]; decide)
  rw [Archive.Member.name, Archive.Member.path, hmember, hname]
  exact Utf8.decodeLossy_encode ""

theorem pipe_name :
    Archive.Member.name (Parcel.written [.written pipeNameFields [0x70, 0]] pipeFields []).member =
      "p" := by
  have hextensions : (Parcel.written [.written pipeNameFields [0x70, 0]] pipeFields []).extensions =
      ⟨some [0x70, 0], none, none⟩ := said_pipeName
  have hpath : Archive.Extensions.path? ⟨some [0x70, 0], none, none⟩ = some [0x70] := by decide
  rw [Archive.Member.name, Archive.Member.path, Parcel.member, hextensions, hpath]
  decide +kernel

theorem aroundOneDir_passed : ∀ s ∈ aroundOneDir, s.added = true → Passed s.member := by
  simp only [aroundOneDir, List.mem_cons, List.not_mem_nil, or_false, forall_eq_or_imp, forall_eq]
  refine ⟨fun _ => Or.inl unnamed_name, nofun, fun _ => Or.inr ?_⟩
  have hkind : Archive.Member.kind
      (Parcel.written [.written pipeNameFields [0x70, 0]] pipeFields []).member = .fifo := pipe_kind
  rw [Slot.member, hkind, pipe_name]
  refine ⟨?_, by decide, by decide⟩
  rw [← Archive.relativeParts?_eq_none]
  decide +kernel

theorem aroundOneDir_inserted :
    Inserted aroundOneDir (.ofBytes (Slot.bytes (Slot.old aroundOneDir)))
      (.ofBytes (Slot.bytes aroundOneDir)) where
  complete := aroundOneDir_complete
  bytes := ⟨[], bytes_ofBytes _, bytes_ofBytes _, .stream⟩
  ending := rfl
  room := by
    rw [bytes_ofBytes, List.append_nil]
    simp only [Slot.bytes, aroundOneDir, List.flatMap_cons, List.flatMap_nil, Parcel.bytes_written,
      Archive.Extra.bytes_written, Archive.Item.bytes_parcel, List.length_append,
      Archive.Item.length_bytes, Archive.length_padded, Archive.Fields.length_block]
    decide

theorem aroundOneDir_is_transparent :
    let original := ByteSource.ofBytes (Slot.bytes (Slot.old aroundOneDir))
    let extended := ByteSource.ofBytes (Slot.bytes aroundOneDir)
    Inserted aroundOneDir original extended ∧
      (∀ s ∈ aroundOneDir, s.added = true → Passed s.member) ∧
      (unpack extended ⟨"."⟩ grouped).result = .ok () ∧
      warnings (unpack extended ⟨"."⟩ grouped).log =
        ["tar file entry p contained unsupported file type Fifo"] := by
  intro original extended
  have horiginal : original = .ofBytes oneDir.bytes := by
    rw [← Archive.Item.bytes_parcel]
    exact congrArg ByteSource.ofBytes (List.flatMap_singleton ..)
  obtain ⟨hresult, -, ⟨done, -, hall, hwarnings, -⟩, hadded⟩ :=
    skipped_members_are_transparent grouped ⟨"."⟩ aroundOneDir_inserted aroundOneDir_passed
  have hok : (unpack extended ⟨"."⟩ grouped).result = .ok () := by
    rw [hresult]
    exact (congrArg (fun s => (unpack s ⟨"."⟩ grouped).result) horiginal).trans unpack_grouped.1
  refine ⟨aroundOneDir_inserted, aroundOneDir_passed, hok, ?_⟩
  have hdirectory : warning? oneDir.parcel.member = none := by
    rw [Archive.Item.member_parcel]
    exact if_pos (Or.inr (Or.inr Archive.Item.kind_eq))
  simp only [aroundOneDir, List.mem_cons, List.not_mem_nil, or_false, forall_eq_or_imp, forall_eq,
    Slot.member, unnamed_name, pipe_name, forall_const, if_true] at hadded
  obtain ⟨hunnamed, -, hpipe⟩ := hadded
  rw [if_neg (by decide), show Archive.Member.kind
    (Parcel.written [.written pipeNameFields [0x70, 0]] pipeFields []).member = .fifo
      from pipe_kind]
    at hpipe
  rw [hwarnings, hall hok]
  simp only [aroundOneDir, Slot.member, List.filterMap_cons, List.filterMap_nil, hunnamed,
    hdirectory, hpipe]
  rfl

end NodeLogs.Unpack
