import NodeLogs.Proofs.Archive.Cuts

/-!
The blocks that a reader takes for headers. Each is read where the one before says, which is found
by adding up numbers of 64 bits. The sums that a size goes into are looked at, and one that runs
over ends the reading; the one that goes on by a block that continues a sparse map is not.
-/

namespace NodeLogs.Archive

/-- A header block that was read whole, with what was known of the member to come before it was
read, and how many whole blocks that continue its sparse map were read behind it. -/
structure Visit where
  offset : Nat
  header : Header
  known : Extensions
  continued : Nat
deriving Repr, DecidableEq

namespace Visit

/-- Where the data starts. -/
def data (v : Visit) : Nat := v.offset + (v.continued + 1) * blockSize

/-- The size of the data, where the header can be read on from. What records say counts for a member
and not for another extension of it. -/
def size? (v : Visit) : Option Nat :=
  if v.header.isBlank then none
  else match v.header.check, v.header.size with
    | .ok (), .ok size =>
      some (if Reader.role v.header = .plain then v.known.size?.getD size else size)
    | _, _ => none

/-- Where the header behind data of this size stands. -/
def next (v : Visit) (size : Nat) : Nat := v.data + (size + 511) / 512 * 512

/-- The block is there at its place, and so are those that continue it. -/
structure Stands (bytes : Bytes) (v : Visit) : Prop where
  aligned : v.offset % blockSize = 0
  block : v.header.block = (bytes.drop v.offset).take blockSize
  whole : v.data ≤ bytes.length

/-- One of the sums on the way to the next header that are looked at runs over. -/
def Refused (v : Visit) (size : Nat) : Prop :=
  limit ≤ size + 511 ∨ limit ≤ kept (v.offset + blockSize) + (size + 511) / 512 * 512

/-- One of all the sums on the way to the next header runs over: those that are looked at, and those
that go on by a block. -/
def Overflows (v : Visit) (size : Nat) : Prop :=
  limit ≤ size + 511 ∨
    limit ≤ kept v.offset + (v.continued + 1) * blockSize + (size + 511) / 512 * 512

/-- Where no sum runs over, the number kept of the next position is the one kept of this position
and all that was added to it. -/
theorem kept_next {v : Visit} {size : Nat} (h : ¬ v.Overflows size) :
    kept (v.next size) =
      kept v.offset + (v.continued + 1) * blockSize + (size + 511) / 512 * 512 := by
  simp only [Overflows, not_or, Nat.not_le] at h
  simp only [next, data, kept, limit] at *
  omega

/-- A sum that runs over without being looked at, on the way from a place that is no larger than it
can be told, is one for a block that continues a sparse map. -/
theorem Overflows.runs_over {v : Visit} {size : Nat} (h : v.Overflows size)
    (hmissed : ¬ v.Refused size) (hdata : v.data < limit) :
    0 < v.continued ∧ v.next size = kept (v.next size) + limit := by
  simp only [Refused, not_or, Nat.not_le] at hmissed
  have hoffset : v.offset + blockSize ≤ v.data := by
    simp only [data, blockSize]
    omega
  rw [kept_of_lt (by omega)] at hmissed
  have hsum := h.resolve_left (Nat.not_le_of_lt hmissed.1)
  rw [kept_of_lt (by omega)] at hsum
  refine ⟨?_, ?_⟩ <;> simp only [next, data, kept, blockSize, limit] at * <;> omega

end Visit

/-- What a header and the data behind it come to. -/
inductive Taken where
  | member (m : Member)
  | extension (x : Extensions)

/-- Fields of zeros say nothing of a map. -/
theorem SparseMap.addAll_zeros (m : SparseMap) (count n : Nat) :
    m.addAll count (List.replicate n 0) = .ok m := by
  have hstep (i : Nat) : m.add (((List.replicate n 0).drop (24 * i)).take 12)
      (((List.replicate n 0).drop (24 * i + 12)).take 12) = .ok m := by
    have hzero : (((List.replicate n (0 : UInt8)).drop (24 * i)).take 12).headD 0 = 0 := by
      rw [List.drop_replicate, List.take_replicate]
      cases min 12 (n - 24 * i) <;> rfl
    rw [add, if_pos (Or.inl hzero)]
    rfl
  rw [addAll]
  induction List.range count with
  | nil => rfl
  | cons i rest ih =>
    rw [List.foldlM_cons, hstep]
    exact ih

namespace Reader

/-- What comes of a header that was just read. -/
def take (x : Extensions) (h : Header) (r : Reader) : Except Error (Taken × Reader) :=
  match h.check with
  | .error e => .error e
  | .ok () =>
    if role h = .plain then (r.member x h).map fun found => (.member found.1, found.2)
    else (r.extension x h).map fun found => (.extension found.1, found.2)

/-- How many whole blocks are read where a sparse map goes on. -/
def continuing (m : SparseMap) (r : Reader) : Nat :=
  match _h : r.block? with
  | .ok (some (bs, r')) =>
    match m.addAll 21 bs with
    | .error _ => 1
    | .ok m =>
      if (bs.drop 504).headD 0 = 1 then continuing m { r' with next := r'.next + blockSize } + 1
      else 1
  | _ => 0
termination_by r.remaining
decreasing_by
  show r'.remaining < r.remaining
  exact remaining_block? _h

/-- How many whole blocks are read behind a header that was just read, to continue its sparse
map. -/
def continued (x : Extensions) (h : Header) (r : Reader) : Nat :=
  match h.check, h.size with
  | .ok (), .ok size =>
    match r.place (x.size?.getD size),
      (SparseMap.start (x.size?.getD size)).addAll 4 (h.field 386 96) with
    | .ok r, .ok m =>
      if h.kind = .sparse ∧ h.format = .gnu ∧ (h.field 482 1).headD 0 = 1 then r.continuing m else 0
    | _, _ => 0
  | _, _ => 0

/-- A reader that has not gone past the end of the stream. -/
structure Within (bytes : Bytes) (r : Reader) : Prop extends Reads bytes r where
  inside : r.position ≤ bytes.length

variable {bytes : Bytes} {r r' : Reader}

theorem within_start (s : ByteSource) : Within s.bytes (start s) := ⟨reads_start s, Nat.zero_le _⟩

theorem Within.read (h : Within bytes r) {n : Nat} (hn : r.position + n ≤ r.next) :
    Within bytes (r.read n).2 := by
  refine ⟨reads_read h.toReads hn, ?_⟩
  have hinside := h.inside
  rw [position_read, read_fst h.toReads, List.length_take, List.length_drop]
  omega

theorem block?_whole (h : Reads bytes r) {bs : Bytes} (hblock : r.block? = .ok (some (bs, r'))) :
    r.position + blockSize ≤ bytes.length := by
  obtain ⟨hbs, hlength, -⟩ := block?_spec h hblock
  rw [hbs, List.length_take, List.length_drop] at hlength
  simp only [blockSize] at *
  omega

theorem Within.block? (h : Within bytes r) {bs : Bytes} (hblock : r.block? = .ok (some (bs, r'))) :
    Within bytes { r' with next := r'.next + blockSize } := by
  refine ⟨reads_block? h.toReads hblock, ?_⟩
  have hposition := (block?_spec h.toReads hblock).2.2.2.1
  exact hposition ▸ block?_whole h.toReads hblock

theorem Within.place (h : Within bytes r) (hat : r.position = r.next) {size : Nat}
    (hplace : r.place size = .ok r') : Within bytes r' := by
  obtain ⟨hreads, hposition, -⟩ := place_spec h.toReads hat hplace
  exact ⟨hreads, hposition ▸ h.inside⟩

/-- A stream that ends before the next header has none. -/
theorem Within.header?_beyond (h : Within bytes r) (hnext : bytes.length < r.next) :
    ∃ e, r.header? = .error e := by
  have hinside := h.inside
  have hshort : (r.read r.gap).1.length ≠ r.gap := by
    rw [read_fst h.toReads, List.length_take, List.length_drop, h.gap]
    omega
  unfold header? skip
  rw [if_neg hshort]
  cases r.source.ending with
  | done => exact ⟨_, rfl⟩
  | failed e => exact ⟨_, rfl⟩

theorem Within.header? (h : Within bytes r) {head : Header}
    (hheader : r.header? = .ok (some (head, r'))) :
    Within bytes r' ∧ r'.position = r.next + blockSize ∧ r'.next = r.next + blockSize ∧
      head.block = (bytes.drop r.next).take blockSize ∧ head.isBlank = false := by
  obtain ⟨hblock, hreads, hposition, hnext⟩ := header?_spec h.toReads hheader
  obtain ⟨r₀, bs, r₂, hskip, hfound, hblank, rfl, -⟩ := header?_some hheader
  obtain ⟨h₀, hposition₀, -⟩ := skip_spec h.toReads hskip
  have hwhole := block?_whole h₀ hfound
  exact ⟨⟨hreads, by omega⟩, hposition, hnext, hblock, hblank⟩

theorem continuing_eq (m : SparseMap) {bs : Bytes} (hblock : r.block? = .ok (some (bs, r'))) :
    continuing m r =
      match m.addAll 21 bs with
      | .error _ => 1
      | .ok m =>
        if (bs.drop 504).headD 0 = 1 then continuing m { r' with next := r'.next + blockSize } + 1
        else 1 := by
  rw [continuing]
  split
  · next bs₁ r₁ hfound =>
    rw [hblock] at hfound
    cases hfound
    rfl
  · next hnone => exact absurd hblock (hnone bs r')

/-- Whatever a sparse map comes to, the blocks that were read for it are there. -/
theorem Within.continuing (h : Within bytes r) (m : SparseMap) :
    r.position + r.continuing m * blockSize ≤ bytes.length := by
  fun_induction Reader.continuing m r with
  | case1 m r bs r' hblock _ _ => simpa using block?_whole h.toReads hblock
  | case2 m r bs r' hblock m' _ _ ih =>
    have hrest := ih (h.block? hblock)
    have hposition := (block?_spec h.toReads hblock).2.2.2.1
    simp only [blockSize] at *
    omega
  | case3 m r bs r' hblock _ _ _ => simpa using block?_whole h.toReads hblock
  | case4 => simpa using h.inside

/-- The blocks that continue a sparse map move the next header on by as much as they take. -/
theorem sparseBlocks_continuing {m m' : SparseMap} (h : Within bytes r)
    (hblocks : sparseBlocks m r = .ok (m', r')) :
    Within bytes r' ∧ r'.next = r.next + r.continuing m * blockSize := by
  fun_induction sparseBlocks m r with
  | case1 | case2 | case3 => cases hblocks
  | case4 m r bs r₁ hblock m₁ hmap hmore ih =>
    obtain ⟨h', hnext⟩ := ih (h.block? hblock) hblocks
    have hsame := (block?_spec h.toReads hblock).2.2.2.2
    rw [continuing_eq m hblock, hmap]
    simp only [if_pos hmore]
    exact ⟨h', by rw [hnext, hsame]; simp only [blockSize]; omega⟩
  | case5 m r bs r₁ hblock m₁ hmap hlast =>
    have hsame := (block?_spec h.toReads hblock).2.2.2.2
    rw [continuing_eq m hblock, hmap]
    simp only [if_neg hlast]
    cases hblocks
    exact ⟨h.block? hblock, by simp only [hsame, Nat.one_mul]⟩

theorem Within.continued (h : Within bytes r) (hat : r.position = r.next) (x : Extensions)
    (head : Header) : r.position + r.continued x head * blockSize ≤ bytes.length := by
  have hinside := h.inside
  unfold Reader.continued
  split
  · split
    · next r₁ m hplace hmap =>
      split
      · have hposition := (place_spec h.toReads hat hplace).2.1
        exact hposition ▸ (h.place hat hplace).continuing m
      · omega
    · omega
  · omega

theorem sparseMap_next {head : Header} {size : Nat} {m : SparseMap} (h : Within bytes r)
    (hmap : r.sparseMap head size = .ok (m, r')) :
    ∃ first, (SparseMap.start size).addAll 4 (head.field 386 96) = .ok first ∧ Within bytes r' ∧
      r'.next = r.next +
        (if (head.field 482 1).headD 0 = 1 then r.continuing first else 0) * blockSize := by
  unfold sparseMap at hmap
  split at hmap
  · cases hmap
  · next first hfirst =>
    refine ⟨first, hfirst, ?_⟩
    split at hmap
    · next hmore =>
      rw [if_pos hmore]
      exact sparseBlocks_continuing h hmap
    · next hmore =>
      cases hmap
      rw [if_neg hmore, Nat.zero_mul, Nat.add_zero]
      exact ⟨h, rfl⟩

theorem continued_of_not_sparse {x : Extensions} {head : Header} (h : head.kind ≠ .sparse) :
    r.continued x head = 0 := by
  unfold Reader.continued
  split
  · split
    · rw [if_neg fun hsparse => h hsparse.1]
    · rfl
  · rfl

/-- A member ends where its size and the blocks that continue its sparse map put the next header. -/
theorem member_next {x : Extensions} {head : Header} {m : Member} (h : Within bytes r)
    (hat : r.position = r.next) (hcheck : head.check = .ok ())
    (hmember : r.member x head = .ok (m, r')) :
    ∃ size, head.size = .ok size ∧
      ¬ (limit ≤ x.size?.getD size + 511 ∨
        limit ≤ kept r.next + (x.size?.getD size + 511) / 512 * 512) ∧
      Within bytes r' ∧
      r'.next = r.next + (x.size?.getD size + 511) / 512 * 512 +
        r.continued x head * blockSize := by
  obtain ⟨size, r₁, hsize, hplace, hdone⟩ := member_ok hmember
  have h₁ := h.place hat hplace
  obtain ⟨hfits, hr₁⟩ := place_ok hplace
  have hnext₁ : r₁.next = r.next + (x.size?.getD size + 511) / 512 * 512 := by rw [hr₁]
  have hposition₁ : r₁.position = r.position := by rw [hr₁]
  refine ⟨size, hsize, hfits, ?_⟩
  rw [← hnext₁]
  rcases hdone with ⟨hkind, -, rfl⟩ | ⟨hkind, hformat, -, map, hmap, -⟩
  · rw [continued_of_not_sparse hkind, Nat.zero_mul, Nat.add_zero]
    exact ⟨h₁.read (by omega), rfl⟩
  · obtain ⟨first, hfirst, h', hnext⟩ := sparseMap_next h₁ hmap
    refine ⟨h', ?_⟩
    rw [hnext, Reader.continued, hcheck, hsize]
    simp only [hplace, hfirst, hkind, hformat, true_and]

theorem extension_next {x x' : Extensions} {head : Header} (h : Within bytes r)
    (hat : r.position = r.next) (hextension : r.extension x head = .ok (x', r')) :
    ∃ size, head.size = .ok size ∧
      ¬ (limit ≤ size + 511 ∨ limit ≤ kept r.next + (size + 511) / 512 * 512) ∧
      Within bytes r' ∧ r'.next = r.next + (size + 511) / 512 * 512 := by
  obtain ⟨size, r₁, bs, hsize, hplace, -, hdata, -⟩ := extension_ok hextension
  have h₁ := h.place hat hplace
  obtain ⟨hfits, rfl⟩ := place_ok hplace
  have hread := data_spec hdata
  have hdone := h₁.read (n := size) (by simp only; omega)
  have hnext := next_read { r with next := r.next + (size + 511) / 512 * 512 } size
  rw [hread] at hdone hnext
  exact ⟨size, hsize, hfits, hdone, hnext⟩

/-- The visit to the header that was just read. -/
def visit (x : Extensions) (h : Header) (r : Reader) : Visit :=
  ⟨r.position - blockSize, h, x, r.continued x h⟩

theorem take_of_member {x : Extensions} {head : Header} (hcheck : head.check = .ok ())
    (hrole : role head = .plain) :
    r.take x head = (r.member x head).map fun found => (.member found.1, found.2) := by
  rw [take, hcheck]
  exact if_pos hrole

theorem take_of_extension {x : Extensions} {head : Header} (hcheck : head.check = .ok ())
    (hrole : role head ≠ .plain) :
    r.take x head = (r.extension x head).map fun found => (.extension found.1, found.2) := by
  rw [take, hcheck]
  exact if_neg hrole

theorem take_cases {x : Extensions} {head : Header} {taken : Taken}
    (h : r.take x head = .ok (taken, r')) :
    head.check = .ok () ∧
      ((role head = .plain ∧ ∃ m, taken = .member m ∧ r.member x head = .ok (m, r')) ∨
        (role head ≠ .plain ∧ ∃ x', taken = .extension x' ∧
          r.extension x head = .ok (x', r'))) := by
  cases hcheck : head.check with
  | error e =>
    rw [take, hcheck] at h
    cases h
  | ok _ =>
    refine ⟨rfl, ?_⟩
    by_cases hrole : role head = .plain
    · rw [take_of_member hcheck hrole] at h
      cases hmember : r.member x head with
      | error e =>
        rw [hmember] at h
        cases h
      | ok found =>
        rw [hmember] at h
        cases h
        exact .inl ⟨hrole, _, rfl, rfl⟩
    · rw [take_of_extension hcheck hrole] at h
      cases hextension : r.extension x head with
      | error e =>
        rw [hextension] at h
        cases h
      | ok found =>
        rw [hextension] at h
        cases h
        exact .inr ⟨hrole, _, rfl, rfl⟩

theorem take_header {x : Extensions} {head : Header} {m : Member}
    (h : r.take x head = .ok (.member m, r')) : m.header = head := by
  obtain ⟨-, ⟨-, _, hm, hmember⟩ | ⟨-, _, hm, -⟩⟩ := take_cases h
  · cases hm
    obtain ⟨_, _, -, -, ⟨-, rfl, -⟩ | ⟨-, -, rfl, -⟩⟩ := member_ok hmember <;> rfl
  · cases hm

theorem role_of_sparse {head : Header} (h : head.kind = .sparse) : role head = .plain := by
  unfold role
  rw [h]
  split <;> rfl

/-- A sparse member is there when its map has been read and checked, with the blocks that continue
it. -/
theorem take_sparse {x : Extensions} {head : Header} {size : Nat} {first last : SparseMap}
    {r r₁ r₂ : Reader} (hcheck : head.check = .ok ()) (hkind : head.kind = .sparse)
    (hformat : head.format = .gnu) (hsize : head.size = .ok size)
    (hplace : r.place (x.size?.getD size) = .ok r₁)
    (hfirst : (SparseMap.start (x.size?.getD size)).addAll 4 (head.field 386 96) = .ok first)
    (hmore : (head.field 482 1).headD 0 = 1) (hblocks : sparseBlocks first r₁ = .ok (last, r₂))
    (hchecked : checkMap head last = .ok ()) :
    r.take x head = .ok (.member ⟨head, x, ⟨[], none⟩⟩, r₂) ∧
      r.continued x head = r₁.continuing first := by
  have hmember : r.member x head = .ok (⟨head, x, ⟨[], none⟩⟩, r₂) := by
    unfold member sparseMap
    simp only [hsize, hplace, hkind, hformat, hfirst, hblocks, hchecked, if_pos hmore, if_true,
      ne_eq, not_true_eq_false, if_false]
    rfl
  constructor
  · rw [take_of_member hcheck (role_of_sparse hkind), hmember]
    rfl
  · unfold continued
    simp only [hcheck, hsize, hplace, hfirst, hkind, hformat, hmore, and_self, if_true]

theorem continued_of_extension {x : Extensions} {head : Header} (h : role head ≠ .plain) :
    r.continued x head = 0 := by
  exact continued_of_not_sparse fun hsparse => h (role_of_sparse hsparse)

variable {r₁ : Reader} {head : Header}

theorem Within.visit (h : Within bytes r) (hheader : r.header? = .ok (some (head, r₁)))
    (x : Extensions) : (r₁.visit x head).offset = r.next ∧ (r₁.visit x head).Stands bytes := by
  obtain ⟨h₁, hposition, hnext, hblock, -⟩ := h.header? hheader
  have hoffset : (r₁.visit x head).offset = r.next := by
    rw [Reader.visit, hposition, Nat.add_sub_cancel]
  refine ⟨hoffset, ⟨?_, ?_, ?_⟩⟩
  · rw [hoffset]
    exact h.aligned
  · rw [hoffset]
    exact hblock
  · have hcontinued := h₁.continued (hposition.trans hnext.symm) x head
    have hdata : (r₁.visit x head).data = r.next + (r₁.continued x head + 1) * blockSize := by
      rw [Visit.data, hoffset, Reader.visit]
    rw [hdata, Nat.add_mul]
    omega

/-- The block of zeros stands like any other. -/
theorem Within.marked (h : Within bytes r) {bs : Bytes} {r₂ : Reader} (hskip : r.skip = .ok r₁)
    (hblock : r₁.block? = .ok (some (bs, r₂))) {x : Extensions} :
    Visit.Stands bytes ⟨r.next, ⟨bs⟩, x, 0⟩ := by
  obtain ⟨h₁, hposition, -⟩ := skip_spec h.toReads hskip
  have hwhole := block?_whole h₁ hblock
  obtain ⟨hbs, -⟩ := block?_spec h₁ hblock
  rw [hposition] at hbs hwhole
  refine ⟨h.aligned, hbs, ?_⟩
  rw [Visit.data, Nat.zero_add, Nat.one_mul]
  exact hwhole

/-- The step: the size of what was taken puts the next header behind all of it, and no sum that was
looked at has run over. -/
theorem take_next (h : Within bytes r) (hheader : r.header? = .ok (some (head, r₁)))
    {x : Extensions} {taken : Taken} (htake : r₁.take x head = .ok (taken, r')) :
    ∃ size, (r₁.visit x head).size? = some size ∧ ¬ (r₁.visit x head).Refused size ∧
      Within bytes r' ∧ r'.next = (r₁.visit x head).next size := by
  obtain ⟨h₁, hposition, hnext₁, -, hblank⟩ := h.header? hheader
  have hat : r₁.position = r₁.next := hposition.trans hnext₁.symm
  have hoffset := (h.visit hheader x).1
  simp only [Visit.Refused, Visit.next, Visit.data, Nat.add_mul, Nat.one_mul, hoffset, ← hnext₁]
  obtain ⟨hcheck, ⟨hrole, m, -, hmember⟩ | ⟨hrole, x', -, hextension⟩⟩ := take_cases htake
  · obtain ⟨size, hsize, hfits, h', hnext⟩ := member_next h₁ hat hcheck hmember
    refine ⟨x.size?.getD size, ?_, hfits, h', ?_⟩
    · simp [Visit.size?, Reader.visit, hblank, hcheck, hsize, hrole]
    · rw [hnext, hnext₁, Reader.visit]
      simp only
      omega
  · obtain ⟨size, hsize, hfits, h', hnext⟩ := extension_next h₁ hat hextension
    refine ⟨size, ?_, hfits, h', ?_⟩
    · simp [Visit.size?, Reader.visit, hblank, hcheck, hsize, hrole]
    · rw [hnext, hnext₁, Reader.visit]
      simp only [continued_of_extension hrole]
      omega

/-- A sum that runs over and is looked at is found out before anything behind the header is read. -/
theorem take_refused (h : Within bytes r) (hheader : r.header? = .ok (some (head, r₁)))
    {x : Extensions} {size : Nat} (hsize : (r₁.visit x head).size? = some size)
    (hlarge : (r₁.visit x head).Refused size) : r₁.take x head = .error .sizeOverflow := by
  obtain ⟨-, -, hnext₁, -⟩ := h.header? hheader
  rw [Visit.Refused, (h.visit hheader x).1, ← hnext₁] at hlarge
  have hplace : r₁.place size = .error .sizeOverflow := if_pos hlarge
  unfold Visit.size? Reader.visit at hsize
  split at hsize
  · cases hsize
  · split at hsize
    · next own hcheck hown =>
      simp only at hcheck hown
      cases hsize
      by_cases hrole : role head = .plain
      · rw [if_pos hrole] at hplace
        rw [take_of_member hcheck hrole, member, hown]
        simp only [hplace]
        rfl
      · rw [if_neg hrole] at hplace
        rw [take_of_extension hcheck hrole, extension, hown]
        simp only [hplace]
        rfl
    · cases hsize

end Reader

/-- One header, what it comes to, and the members behind that. -/
theorem members_take (x : Extensions) {r r₁ : Reader} {head : Header}
    (hheader : r.header? = .ok (some (head, r₁))) :
    members x r =
      match r₁.take x head with
      | .error e => .stop (.error e)
      | .ok (.member m, r₂) => .cons m (members .empty r₂)
      | .ok (.extension x', r₂) => members x' r₂ := by
  rw [members_eq, hheader]
  cases hcheck : head.check with
  | error e => simp only [Reader.take, hcheck]
  | ok _ =>
    by_cases hrole : Reader.role head = .plain
    · rw [Reader.take_of_member hcheck hrole]
      simp only [if_pos hrole, hcheck]
      cases r₁.member x head <;> rfl
    · rw [Reader.take_of_extension hcheck hrole]
      simp only [if_neg hrole, hcheck]
      cases r₁.extension x head <;> rfl

/-! Visits in order -/

namespace Visit

/-- Visits one after the other from a position on, each after the first one where the one before
puts it, where no sum that is looked at on the way there runs over. -/
inductive InOrder (bytes : Bytes) : Nat → List Visit → Prop
  | none (start : Nat) : InOrder bytes start []
  | last {v : Visit} (stands : v.Stands bytes) : InOrder bytes v.offset [v]
  | more {v : Visit} {size : Nat} {rest : List Visit} (stands : v.Stands bytes)
      (known : v.size? = some size) (fits : ¬ v.Refused size)
      (behind : InOrder bytes (v.next size) rest) : InOrder bytes v.offset (v :: rest)

/-- All blocks that were read in these visits. -/
def blocks : List Visit → Nat
  | [] => 0
  | v :: rest => v.continued + 1 + blocks rest

variable {bytes : Bytes} {start : Nat} {visits : List Visit}

theorem length_le_blocks (visits : List Visit) : visits.length ≤ blocks visits := by
  induction visits with
  | nil => exact Nat.le_refl 0
  | cons v rest ih =>
    rw [blocks, List.length_cons]
    omega

theorem offset_lt_data (v : Visit) : v.offset < v.data := by
  simp only [data, blockSize]
  omega

theorem data_le_next (v : Visit) (size : Nat) : v.data + size ≤ v.next size := by
  rw [next]
  omega

namespace InOrder

/-- The blocks follow one another in the stream, so there is room for all of them. -/
theorem blocks_le (h : InOrder bytes start visits) :
    blocks visits * blockSize ≤ bytes.length - start := by
  induction h with
  | none => simp [blocks]
  | @last v stands =>
    have hwhole := stands.whole
    simp only [data, blocks, blockSize] at *
    omega
  | @more v size rest stands known fits behind ih =>
    have hwhole := stands.whole
    have hnext := v.data_le_next size
    simp only [data, blocks, Nat.add_mul] at hwhole hnext ih ⊢
    omega

theorem stands (h : InOrder bytes start visits) : ∀ v ∈ visits, v.Stands bytes := by
  induction h with
  | none => nofun
  | last stands => exact List.forall_mem_singleton.mpr stands
  | more stands _ _ _ ih => exact List.forall_mem_cons.mpr ⟨stands, ih⟩

theorem start_le (h : InOrder bytes start visits) : ∀ v ∈ visits, start ≤ v.offset := by
  induction h with
  | none => nofun
  | last => exact List.forall_mem_singleton.mpr (Nat.le_refl _)
  | @more v size rest stands known fits behind ih =>
    refine List.forall_mem_cons.mpr ⟨Nat.le_refl _, fun v' hv' => ?_⟩
    have hoffset := v.offset_lt_data
    have hnext := v.data_le_next size
    have hlater := ih v' hv'
    omega

/-- Every header stands behind all the data of every one before. -/
theorem pairwise (h : InOrder bytes start visits) :
    visits.Pairwise fun v v' => v.offset < v'.offset ∧
      ∃ size, v.size? = some size ∧ v.data + size ≤ v'.offset := by
  induction h with
  | none => exact .nil
  | last => exact List.pairwise_singleton _ _
  | @more v size rest stands known fits behind ih =>
    refine .cons (fun v' hv' => ?_) ih
    have hoffset := v.offset_lt_data
    have hbehind := Nat.le_trans (v.data_le_next size) (behind.start_le v' hv')
    exact ⟨by omega, size, known, hbehind⟩

end InOrder

end Visit

end NodeLogs.Archive
