import NodeLogs.Archive.Member
import NodeLogs.Archive.Sparse

/-!
Reading an archive from a stream. Every header stands at a multiple of 512 bytes, and a member's
data fills whole blocks up to the next one. The listing holds the members that can be told apart,
in order, and says how the reading ended; whoever uses a member's data uses it before the next
header is looked for.
-/

namespace NodeLogs.Archive

/-- How many bytes have been read, and where the next header starts. These are the places
themselves; all that is decided by them is decided by the numbers of 64 bits that are kept of
them. -/
structure Reader where
  source : ByteSource
  position : Nat
  next : Nat
deriving Repr, DecidableEq

namespace Reader

def start (s : ByteSource) : Reader := ⟨s, 0, 0⟩

/-- The number of bytes still to come. -/
def remaining (r : Reader) : Nat := r.source.bytes.length

def read (n : Nat) (r : Reader) : Bytes × Reader :=
  let (bs, source) := r.source.read n
  (bs, { r with source, position := r.position + bs.length })

theorem remaining_read (n : Nat) (r : Reader) :
    (r.read n).2.remaining = r.remaining - (r.read n).1.length := by
  simp only [read, remaining, ByteSource.read_fst, ByteSource.bytes_read, List.length_drop,
    List.length_take]
  omega

/-- How far it is to the next header, as the difference of the numbers kept. -/
def gap (r : Reader) : Nat := kept (kept r.next + limit - kept r.position)

/-- Numbers that have run over still have the right difference. -/
theorem gap_eq {r : Reader} (hbehind : r.position ≤ r.next) (hnear : r.next < r.position + limit) :
    r.gap = r.next - r.position := by
  simp only [gap, kept, limit] at *
  omega

/-- Reads over what is left of the member before. -/
def skip (r : Reader) : Except Error Reader :=
  if (r.read r.gap).1.length = r.gap then .ok (r.read r.gap).2
  else match r.source.ending with
    | .done => .error .cutSkip
    | .failed e => .error (.source e)

theorem remaining_skip {r r' : Reader} (h : r.skip = .ok r') : r'.remaining ≤ r.remaining := by
  have := remaining_read r.gap r
  unfold skip at h
  split at h
  · cases h
    omega
  · split at h <;> cases h

/-- A whole block, or none where the stream ends before its first byte. -/
def block? (r : Reader) : Except Error (Option (Bytes × Reader)) :=
  if (r.read blockSize).1.length = blockSize then .ok (some (r.read blockSize))
  else match r.source.ending with
    | .failed e => .error (.source e)
    | .done => if (r.read blockSize).1 = [] then .ok none else .error .cutBlock

theorem remaining_block? {r r' : Reader} {bs : Bytes} (h : r.block? = .ok (some (bs, r'))) :
    r'.remaining < r.remaining := by
  have hr := remaining_read blockSize r
  have hs : (r.read blockSize).1.length ≤ r.remaining := by
    simp only [read, remaining, ByteSource.read_fst, List.length_take]
    omega
  unfold block? at h
  split at h
  · next hl =>
    have e : r.read blockSize = (bs, r') := by simpa using h
    rw [e] at hr hs hl
    simp only [blockSize] at *
    omega
  · split at h
    · cases h
    · split at h <;> cases h

/-- The next header. A block of zeros ends the archive, and so does the end of the stream. -/
def header? (r : Reader) : Except Error (Option (Header × Reader)) :=
  match r.skip with
  | .error e => .error e
  | .ok r =>
    match r.block? with
    | .error e => .error e
    | .ok none => .ok none
    | .ok (some (bs, r)) =>
      if Header.isBlank ⟨bs⟩ then .ok none
      else .ok (some (⟨bs⟩, { r with next := r.next + blockSize }))

theorem remaining_header? {r r' : Reader} {h : Header} (e : r.header? = .ok (some (h, r'))) :
    r'.remaining < r.remaining := by
  unfold header? at e
  split at e
  · cases e
  · next r₁ h₁ =>
    have := remaining_skip h₁
    split at e
    · cases e
    · cases e
    · next bs r₂ h₂ =>
      have h₃ := remaining_block? h₂
      split at e
      · cases e
      · cases e
        simp only [remaining] at *
        omega

/-- Where the header after data of this size starts: at the next multiple of 512, if the sums on the
way there are numbers of 64 bits. -/
def place (size : Nat) (r : Reader) : Except Error Reader :=
  if limit ≤ size + 511 ∨ limit ≤ kept r.next + (size + 511) / 512 * 512 then .error .sizeOverflow
  else .ok { r with next := r.next + (size + 511) / 512 * 512 }

theorem remaining_place {r r' : Reader} {n : Nat} (h : r.place n = .ok r') :
    r'.remaining = r.remaining := by
  unfold place at h
  split at h <;> cases h
  rfl

/-- All of an extension member's data that the stream holds. -/
def data (size : Nat) (r : Reader) : Except Error (Bytes × Reader) :=
  match r.source.ending with
  | .failed e =>
    if (r.read size).1.length = size then .ok (r.read size) else .error (.source e)
  | .done => .ok (r.read size)

theorem remaining_data {r r' : Reader} {n : Nat} {bs : Bytes} (h : r.data n = .ok (bs, r')) :
    r'.remaining ≤ r.remaining := by
  have hr := remaining_read n r
  have e : r.read n = (bs, r') := by
    unfold data at h
    split at h
    · split at h
      · simpa using h
      · cases h
    · simpa using h
  rw [e] at hr
  simp only at hr
  omega

/-- A member's data, as far as the stream holds it. -/
def body (size : Nat) (r : Reader) : Body × Reader :=
  (⟨(r.read size).1, if (r.read size).1.length = size then none else some r.source.ending⟩,
    (r.read size).2)

theorem remaining_body (n : Nat) (r : Reader) : (r.body n).2.remaining ≤ r.remaining := by
  have := remaining_read n r
  simp only [body]
  omega

/-- The blocks that continue a sparse map, each saying whether another one follows. The next header
is further off by each of them, and whether the number kept of its place runs over is not looked
at. -/
def sparseBlocks (m : SparseMap) (r : Reader) : Except Error (SparseMap × Reader) :=
  match _h : r.block? with
  | .error e => .error e
  | .ok none => .error .sparseExtension
  | .ok (some (bs, r')) =>
    match m.addAll 21 bs with
    | .error e => .error e
    | .ok m =>
      if (bs.drop 504).headD 0 = 1 then sparseBlocks m { r' with next := r'.next + blockSize }
      else .ok (m, { r' with next := r'.next + blockSize })
termination_by r.remaining
decreasing_by
  show r'.remaining < r.remaining
  exact remaining_block? _h

theorem remaining_sparseBlocks {m m' : SparseMap} {r r' : Reader}
    (h : sparseBlocks m r = .ok (m', r')) : r'.remaining ≤ r.remaining := by
  fun_induction sparseBlocks m r with
  | case1 => cases h
  | case2 => cases h
  | case3 => cases h
  | case4 m r bs r₁ hb m₁ hm hx ih =>
    have h₁ := ih h
    have h₂ := remaining_block? hb
    simp only [remaining] at *
    omega
  | case5 m r bs r₁ hb m₁ hm hx =>
    have h₂ := remaining_block? hb
    cases h
    simp only [remaining] at *
    omega

/-- The whole map of a sparse member, with the reader behind it. -/
def sparseMap (h : Header) (size : Nat) (r : Reader) : Except Error (SparseMap × Reader) :=
  match (SparseMap.start size).addAll 4 (h.field 386 96) with
  | .error e => .error e
  | .ok m => if (h.field 482 1).headD 0 = 1 then sparseBlocks m r else .ok (m, r)

theorem remaining_sparseMap {h : Header} {n : Nat} {m : SparseMap} {r r' : Reader}
    (e : r.sparseMap h n = .ok (m, r')) : r'.remaining ≤ r.remaining := by
  unfold sparseMap at e
  split at e
  · cases e
  · split at e
    · exact remaining_sparseBlocks e
    · cases e
      omega

/-- The map must fill the member's data exactly and end at its real size. -/
def checkMap (h : Header) (m : SparseMap) : Except Error Unit := do
  if m.reach ≠ (← h.realSize) then throw .sparseRealSize
  if m.left ≠ 0 then throw .sparseSize

/-- A member that is no extension, with the reader behind what has been read of it. The records may
give it another size than its header does. -/
def member (x : Extensions) (h : Header) (r : Reader) : Except Error (Member × Reader) :=
  match h.size with
  | .error e => .error e
  | .ok size =>
    match r.place (x.size?.getD size) with
    | .error e => .error e
    | .ok r =>
      if h.kind = .sparse then
        if h.format ≠ .gnu then .error .sparseHeader
        else
          match r.sparseMap h (x.size?.getD size) with
          | .error e => .error e
          | .ok (m, r) => (checkMap h m).map fun _ => (⟨h, x, ⟨[], none⟩⟩, r)
      else .ok (⟨h, x, (r.body (x.size?.getD size)).1⟩, (r.body (x.size?.getD size)).2)

theorem remaining_member {x : Extensions} {h : Header} {r r' : Reader} {m : Member}
    (e : r.member x h = .ok (m, r')) : r'.remaining ≤ r.remaining := by
  unfold member at e
  split at e
  · cases e
  · next size _ =>
    split at e
    · cases e
    · next r₁ h₁ =>
      have hp := remaining_place h₁
      split at e
      · split at e
        · cases e
        · split at e
          · cases e
          · next m r₂ h₂ =>
            have := remaining_sparseMap h₂
            cases hc : checkMap h m <;> simp only [hc, Except.map] at e <;> cases e
            omega
      · cases e
        have := remaining_body (x.size?.getD size) r₁
        omega

/-- What an extension member adds to what is known about the member to come. Only headers of the
later formats have such members, and only one of a kind may describe a member. -/
inductive Role where
  | longName
  | longLink
  | records
  | plain
deriving Repr, DecidableEq

def role (h : Header) : Role :=
  if h.format = .old then .plain
  else match h.kind with
    | .longName => .longName
    | .longLink => .longLink
    | .records => .records
    | _ => .plain

/-- Whether a second extension member of its kind stands before the same member. -/
def repeated? (x : Extensions) : Role → Option Error
  | .longName => if x.longName.isSome then some .secondLongName else none
  | .longLink => if x.longLink.isSome then some .secondLongName else none
  | .records => if x.records.isSome then some .secondRecords else none
  | .plain => none

def extend (x : Extensions) (data : Bytes) : Role → Extensions
  | .longName => { x with longName := some data }
  | .longLink => { x with longLink := some data }
  | .records => { x with records := some data }
  | .plain => x

def extension (x : Extensions) (h : Header) (r : Reader) :
    Except Error (Extensions × Reader) :=
  match h.size with
  | .error e => .error e
  | .ok size =>
    match r.place size with
    | .error e => .error e
    | .ok r =>
      match repeated? x (role h) with
      | some e => .error e
      | none =>
        match r.data size with
        | .error e => .error e
        | .ok (bs, r) => .ok (extend x bs (role h), r)

theorem remaining_extension {x x' : Extensions} {h : Header} {r r' : Reader}
    (e : r.extension x h = .ok (x', r')) : r'.remaining ≤ r.remaining := by
  unfold extension at e
  split at e
  · cases e
  · split at e
    · cases e
    · next r₁ h₁ =>
      have hp := remaining_place h₁
      split at e
      · cases e
      · split at e
        · cases e
        · next bs r₂ h₂ =>
          cases e
          have := remaining_data h₂
          omega

end Reader

/-- The members in order, and how the reading ended after the last of them. -/
structure Listing where
  members : List Member
  ending : Except Error Unit

namespace Listing

def stop (ending : Except Error Unit) : Listing := ⟨[], ending⟩

def cons (m : Member) (l : Listing) : Listing := { l with members := m :: l.members }

end Listing

/-- All members from here on, when these extensions wait for the next one. -/
def members (x : Extensions) (r : Reader) : Listing :=
  match _h : r.header? with
  | .error e => .stop (.error e)
  | .ok none => .stop (if x.isEmpty then .ok () else .error .nothingDescribed)
  | .ok (some (h, r₁)) =>
    match h.check with
    | .error e => .stop (.error e)
    | .ok () =>
      if Reader.role h = .plain then
        match _hm : r₁.member x h with
        | .error e => .stop (.error e)
        | .ok (m, r₂) => .cons m (members .empty r₂)
      else
        match _hx : r₁.extension x h with
        | .error e => .stop (.error e)
        | .ok (x, r₂) => members x r₂
termination_by r.remaining
decreasing_by
  · have h₁ := Reader.remaining_header? _h
    have h₂ := Reader.remaining_member _hm
    omega
  · have h₁ := Reader.remaining_header? _h
    have h₂ := Reader.remaining_extension _hx
    omega

def list (s : ByteSource) : Listing := members .empty (.start s)

end NodeLogs.Archive
