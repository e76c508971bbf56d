import NodeLogs.Proofs.Archive.Positions
import NodeLogs.Proofs.Archive.Writing

/-!
Reading back what was written. A reader that has a header and its data ahead of it takes exactly
these, and has all that stands behind them ahead of it afterwards, in whatever chunks the bytes
come.
-/

namespace NodeLogs.Archive

/-- Whether bytes behind some data go up to the end of its last block. -/
def Fills (gap : Bytes) (size : Nat) : Prop := size + gap.length = (size + 511) / 512 * 512

/-- NULs up to the end of the last block of some data. -/
def padding (size : Nat) : Bytes := List.replicate ((size + 511) / 512 * 512 - size) 0

theorem padding_fills (size : Nat) : Fills (padding size) size := by
  rw [Fills, padding, List.length_replicate]
  omega

/-- Data in whole blocks. -/
def padded (bs : Bytes) : Bytes := bs ++ padding bs.length

theorem length_padded (bs : Bytes) : (padded bs).length = (bs.length + 511) / 512 * 512 := by
  rw [padded, List.length_append]
  exact padding_fills bs.length

namespace Reader

/-- A reader that has these bytes ahead of it from the next header on, and room for the positions of
all of them. -/
structure Faces (r : Reader) (todo : Bytes) : Prop where
  ahead : ∃ gap, r.source.bytes = gap ++ todo ∧ r.position + gap.length = r.next
  room : r.next + todo.length < limit

variable {r : Reader} {todo : Bytes}

theorem read_append {bs rest : Bytes} (h : r.source.bytes = bs ++ rest) :
    (r.read bs.length).1 = bs ∧ (r.read bs.length).2.source.bytes = rest ∧
      (r.read bs.length).2.position = r.position + bs.length ∧
      (r.read bs.length).2.next = r.next ∧
      (r.read bs.length).2.source.ending = r.source.ending := by
  have hfst : (r.source.read bs.length).1 = bs := by rw [ByteSource.read_fst, h, List.take_left]
  refine ⟨hfst, ?_, ?_, rfl, rfl⟩
  · change (r.source.read bs.length).2.bytes = rest
    rw [ByteSource.bytes_read, h, List.drop_left]
  · change r.position + (r.source.read bs.length).1.length = _
    rw [hfst]

theorem skip_ahead {gap : Bytes} (h : r.source.bytes = gap ++ todo)
    (hgap : r.position + gap.length = r.next) (hnear : gap.length < limit) :
    ∃ r', r.skip = .ok r' ∧ r'.source.bytes = todo ∧ r'.position = r.next ∧ r'.next = r.next ∧
      r'.source.ending = r.source.ending := by
  obtain ⟨hfst, hrest, hposition, hnext, hending⟩ := read_append h
  have hlength : r.gap = gap.length := by
    rw [gap_eq (by omega) (by omega)]
    omega
  refine ⟨(r.read gap.length).2, ?_, hrest, by omega, hnext, hending⟩
  rw [skip, hlength, hfst, if_pos rfl]

theorem block?_append {bs rest : Bytes} (h : r.source.bytes = bs ++ rest)
    (hlength : bs.length = blockSize) :
    ∃ r', r.block? = .ok (some (bs, r')) ∧ r'.source.bytes = rest ∧
      r'.position = r.position + blockSize ∧ r'.next = r.next ∧
      r'.source.ending = r.source.ending := by
  obtain ⟨hfst, hrest, hposition, hnext, hending⟩ := read_append h
  rw [hlength] at hfst hrest hposition hnext hending
  refine ⟨(r.read blockSize).2, ?_, hrest, hposition, hnext, hending⟩
  rw [block?, hfst, if_pos hlength, ← hfst]

/-- A block ahead that is not blank is the next header, and what follows it is ahead. -/
theorem header?_ahead {head : Header} {gap : Bytes}
    (h : r.source.bytes = gap ++ (head.block ++ todo)) (hgap : r.position + gap.length = r.next)
    (hnear : gap.length < limit) (hlength : head.block.length = blockSize)
    (hblank : head.isBlank = false) :
    ∃ r', r.header? = .ok (some (head, r')) ∧ r'.source.bytes = todo ∧
      r'.position = r'.next ∧ r'.next = r.next + blockSize ∧
      r'.source.ending = r.source.ending := by
  obtain ⟨r₁, hskip, hbytes, hposition, hnext, hending⟩ := skip_ahead h hgap hnear
  obtain ⟨r₂, hblock, hrest, hposition₂, hnext₂, hending₂⟩ := block?_append hbytes hlength
  refine ⟨{ r₂ with next := r₂.next + blockSize }, ?_, hrest, ?_, ?_, hending₂.trans hending⟩
  · rw [header?, hskip]
    simp only [hblock]
    exact if_neg (Bool.eq_false_iff.mp hblank)
  · simp only [hposition₂, hposition, hnext₂, hnext]
  · simp only [hnext₂, hnext]

theorem header?_faced {head : Header} (h : r.Faces (head.block ++ todo))
    (hlength : head.block.length = blockSize) (hblank : head.isBlank = false) :
    ∃ r', r.header? = .ok (some (head, r')) ∧ r'.Faces todo ∧ r'.position = r'.next ∧
      r'.source.ending = r.source.ending := by
  obtain ⟨gap, hbytes, hgap⟩ := h.ahead
  have hroom := h.room
  obtain ⟨r', hheader, hrest, hposition, hnext, hending⟩ :=
    header?_ahead hbytes hgap (by omega) hlength hblank
  rw [List.length_append, hlength] at hroom
  exact ⟨r', hheader, ⟨⟨[], hrest, hposition⟩, by omega⟩, hposition, hending⟩

/-- How an archive may end: the stream ends, or a block of zeros comes, with anything behind it. -/
inductive Ends : Bytes → Ending → Prop where
  | stream : Ends [] .done
  | zeros (more : Bytes) (ending : Ending) : Ends (List.replicate blockSize 0 ++ more) ending

theorem header?_end (h : r.Faces todo) (hend : Ends todo r.source.ending) :
    r.header? = .ok none := by
  obtain ⟨gap, hbytes, hgap⟩ := h.ahead
  have hroom := h.room
  obtain ⟨r₁, hskip, hbytes, -, -, hending⟩ := skip_ahead hbytes hgap (by omega)
  rw [header?, hskip]
  rw [← hending] at hend
  generalize hstream : r₁.source.ending = ending at hend
  cases hend with
  | stream =>
    have hfst : (r₁.read blockSize).1 = [] := by
      change (r₁.source.read blockSize).1 = []
      rw [ByteSource.read_fst, hbytes, List.take_nil]
    have hblock : r₁.block? = .ok none := by
      rw [block?, hfst, hstream]
      rfl
    simp only [hblock]
  | zeros more =>
    obtain ⟨r₂, hblock, -⟩ := block?_append hbytes List.length_replicate
    have hblank : Header.isBlank ⟨List.replicate blockSize 0⟩ = true := by
      simp [Header.isBlank]
    simp only [hblock, hblank, if_true]

/-- Data right ahead of a reader is read whole, and the reader goes on behind the last block of
it. -/
theorem place_faced {bs gap : Bytes} (h : r.Faces (bs ++ (gap ++ todo)))
    (hfills : Fills gap bs.length) (hposition : r.position = r.next) :
    ∃ r', r.place bs.length = .ok r' ∧ r'.source.ending = r.source.ending ∧
      (r'.read bs.length).1 = bs ∧ (r'.read bs.length).2.Faces todo := by
  obtain ⟨before, hbytes, hbefore⟩ := h.ahead
  obtain rfl : before = [] := List.eq_nil_of_length_eq_zero (by omega)
  have hroom := h.room
  rw [List.length_append, List.length_append] at hroom
  rw [Fills] at hfills
  refine ⟨{ r with next := r.next + (bs.length + 511) / 512 * 512 }, ?_, rfl, ?_⟩
  · have hkept := kept_le r.next
    rw [place, if_neg]
    simp only [limit] at *
    omega
  · have hahead :
        ({ r with next := r.next + (bs.length + 511) / 512 * 512 } : Reader).source.bytes =
          bs ++ (gap ++ todo) := hbytes
    obtain ⟨hfst, hrest, hposition₂, hnext, -⟩ := read_append hahead
    refine ⟨hfst, ⟨gap, hrest, ?_⟩, ?_⟩
    · rw [hposition₂, hnext]
      simp only
      omega
    · rw [hnext]
      simp only
      omega

variable {x : Extensions} {head : Header} {size : Nat} {bs gap : Bytes}

/-- A member is read with as much data as the size in force for it says. -/
theorem member_faced (h : r.Faces (bs ++ (gap ++ todo))) (hfills : Fills gap bs.length)
    (hposition : r.position = r.next) (hsize : head.size = .ok size)
    (hx : x.size?.getD size = bs.length) (hkind : head.kind ≠ .sparse) :
    ∃ r', r.member x head = .ok (⟨head, x, ⟨bs, none⟩⟩, r') ∧ r'.Faces todo ∧
      r'.source.ending = r.source.ending := by
  obtain ⟨r₁, hplace, hending, hread, hfaces⟩ := place_faced h hfills hposition
  refine ⟨(r₁.read bs.length).2, ?_, hfaces, hending⟩
  unfold member
  simp only [hsize, hx, hplace, if_neg hkind, body, hread, if_true]

theorem extension_faced (h : r.Faces (bs ++ (gap ++ todo))) (hfills : Fills gap bs.length)
    (hposition : r.position = r.next) (hsize : head.size = .ok bs.length)
    (hrepeated : repeated? x (role head) = none) :
    ∃ r', r.extension x head = .ok (extend x bs (role head), r') ∧ r'.Faces todo ∧
      r'.source.ending = r.source.ending := by
  obtain ⟨r₁, hplace, hending, hread, hfaces⟩ := place_faced h hfills hposition
  refine ⟨(r₁.read bs.length).2, ?_, hfaces, hending⟩
  have hdata : r₁.data bs.length = .ok (bs, (r₁.read bs.length).2) := by
    have hpair : r₁.read bs.length = (bs, (r₁.read bs.length).2) := Prod.ext hread rfl
    unfold data
    split
    · rw [hread, if_pos rfl, ← hpair]
    · rw [← hpair]
  unfold extension
  simp only [hsize, hplace, hrepeated, hdata]

/-- A member whose data would reach behind the last position is refused. -/
theorem member_too_far {f : Fields} {form : SizeForm} (hsize : f.size = form.field size)
    (hholds : form.Holds size) (hx : x.size? = none)
    (hfar : limit ≤ kept r.next + (size + 511) / 512 * 512) :
    r.member x f.header = .error .sizeOverflow := by
  have hplace : r.place size = .error .sizeOverflow := by rw [place, if_pos (Or.inr hfar)]
  unfold member
  simp only [f.header_size hsize hholds, hx, Option.getD_none, hplace]

end Reader

variable {x : Extensions} {r r₁ r₂ : Reader} {h : Header}

theorem members_of_member {m : Member} (hheader : r.header? = .ok (some (h, r₁)))
    (hcheck : h.check = .ok ()) (hrole : Reader.role h = .plain)
    (hmember : r₁.member x h = .ok (m, r₂)) :
    members x r = .cons m (members .empty r₂) := by
  rw [members_of_header hheader hcheck, if_pos hrole, hmember]

theorem members_of_error {e : Error} (hheader : r.header? = .ok (some (h, r₁)))
    (hcheck : h.check = .ok ()) (hrole : Reader.role h = .plain)
    (hmember : r₁.member x h = .error e) : members x r = .stop (.error e) := by
  rw [members_of_header hheader hcheck, if_pos hrole, hmember]

theorem members_of_extension {x' : Extensions} (hheader : r.header? = .ok (some (h, r₁)))
    (hcheck : h.check = .ok ()) (hrole : Reader.role h ≠ .plain)
    (hextension : r₁.extension x h = .ok (x', r₂)) : members x r = members x' r₂ := by
  rw [members_of_header hheader hcheck, if_neg hrole, hextension]

theorem members_of_end (hheader : r.header? = .ok none) : members .empty r = ⟨[], .ok ()⟩ := by
  rw [members_eq, hheader]
  rfl

end NodeLogs.Archive
