import NodeLogs.Archive.Reader

/-!
Where the members of a listing stand in the stream. A reader that has come to a position has all
bytes from there on before it, so what it takes for a header or for data is found in the stream at
the place where it was read. Headers stand at multiples of the block size, each behind the one
before.
-/

namespace NodeLogs.Archive

/-- A member's header and data stand in the stream, the data right behind the header. -/
structure StandsAt (bytes : Bytes) (offset : Nat) (m : Member) : Prop where
  aligned : offset % blockSize = 0
  header : m.header.block = (bytes.drop offset).take blockSize
  body : m.body.bytes = (bytes.drop (offset + blockSize)).take m.body.bytes.length

/-- Members from a position on, each behind the data of the one before. -/
def StandFrom (bytes : Bytes) : Nat → List Member → Prop
  | _, [] => True
  | start, m :: rest =>
    ∃ offset, start ≤ offset ∧ StandsAt bytes offset m ∧
      StandFrom bytes (offset + blockSize + m.body.bytes.length) rest

theorem StandFrom.mono {bytes : Bytes} {start start' : Nat} {ms : List Member}
    (h : StandFrom bytes start ms) (hle : start' ≤ start) : StandFrom bytes start' ms := by
  cases ms with
  | nil => trivial
  | cons m rest =>
    obtain ⟨offset, hoffset, hrest⟩ := h
    exact ⟨offset, Nat.le_trans hle hoffset, hrest⟩

namespace Reader

/-- A reader that has read these bytes up to its position. The next header is never so far ahead
that the distance could not be told from the numbers kept. -/
structure Reads (bytes : Bytes) (r : Reader) : Prop where
  left : r.source.bytes = bytes.drop r.position
  behind : r.position ≤ r.next
  near : r.next < r.position + limit
  aligned : r.next % blockSize = 0

variable {bytes : Bytes} {r r' : Reader}

theorem reads_start (s : ByteSource) : Reads s.bytes (start s) where
  left := rfl
  behind := Nat.le_refl 0
  near := show 0 < 0 + limit by decide
  aligned := rfl

theorem Reads.gap (h : Reads bytes r) : r.gap = r.next - r.position := gap_eq h.behind h.near

/-- Where a reader stands right at the next header, the distance is told whatever it is. -/
theorem near_of_at {position next : Nat} (hat : position = next) : next < position + limit := by
  simp only [limit]
  omega

theorem left_read (h : Reads bytes r) (n : Nat) :
    (r.read n).2.source.bytes = bytes.drop (r.read n).2.position := by
  simp only [read, ByteSource.bytes_read, ByteSource.read_fst, h.left, List.drop_drop,
    List.length_take, List.length_drop]
  by_cases hn : n ≤ bytes.length - r.position
  · rw [Nat.min_eq_left hn]
  · rw [Nat.min_eq_right (by omega), List.drop_of_length_le (by omega),
      List.drop_of_length_le (by omega)]

theorem read_fst (h : Reads bytes r) (n : Nat) :
    (r.read n).1 = (bytes.drop r.position).take n := by
  simp only [read, ByteSource.read_fst, h.left]

theorem position_read (r : Reader) (n : Nat) :
    (r.read n).2.position = r.position + (r.read n).1.length := rfl

theorem next_read (r : Reader) (n : Nat) : (r.read n).2.next = r.next := rfl

/-- What is read over ends where the next header starts. -/
theorem skip_spec (h : Reads bytes r) (hskip : r.skip = .ok r') :
    Reads bytes r' ∧ r'.position = r.next ∧ r'.next = r.next := by
  have hbehind := h.behind
  unfold skip at hskip
  rw [h.gap] at hskip
  split at hskip
  · next hlength =>
    cases hskip
    have hposition : (r.read (r.next - r.position)).2.position = r.next := by
      rw [position_read, hlength]
      omega
    exact ⟨⟨left_read h _, Nat.le_of_eq hposition, near_of_at hposition, h.aligned⟩, hposition, rfl⟩
  · split at hskip <;> cases hskip

theorem block?_spec (h : Reads bytes r) {bs : Bytes} (hblock : r.block? = .ok (some (bs, r'))) :
    bs = (bytes.drop r.position).take blockSize ∧ bs.length = blockSize ∧
      r'.source.bytes = bytes.drop r'.position ∧ r'.position = r.position + blockSize ∧
      r'.next = r.next := by
  unfold block? at hblock
  split at hblock
  · next hlength =>
    have hread : r.read blockSize = (bs, r') := by simpa using hblock
    have hfst := read_fst h blockSize
    have hleft := left_read h blockSize
    have hposition := position_read r blockSize
    have hnext := next_read r blockSize
    rw [hread] at hfst hleft hposition hnext hlength
    exact ⟨hfst, hlength, hleft, by rw [hposition, hlength], hnext⟩
  · split at hblock
    · cases hblock
    · split at hblock <;> cases hblock

theorem header?_spec (h : Reads bytes r) {head : Header}
    (hheader : r.header? = .ok (some (head, r'))) :
    head.block = (bytes.drop r.next).take blockSize ∧ Reads bytes r' ∧
      r'.position = r.next + blockSize ∧ r'.next = r.next + blockSize := by
  unfold header? at hheader
  split at hheader
  · cases hheader
  · next r₁ hskip =>
    obtain ⟨h₁, hposition, hnext⟩ := skip_spec h hskip
    split at hheader
    · cases hheader
    · cases hheader
    · next bs r₂ hblock =>
      obtain ⟨hbs, -, hleft, hposition₂, hnext₂⟩ := block?_spec h₁ hblock
      split at hheader
      · cases hheader
      · cases hheader
        refine ⟨by rw [hbs, hposition], ⟨hleft, ?_, near_of_at ?_, ?_⟩, ?_, ?_⟩
        · simp only [hposition₂, hposition, hnext₂, hnext, Nat.le_refl]
        · simp only [hposition₂, hposition, hnext₂, hnext]
        · have := h.aligned
          simp only [hnext₂, hnext, blockSize] at *
          omega
        · rw [hposition₂, hposition]
        · rw [hnext₂, hnext]

theorem place_spec (h : Reads bytes r) (hat : r.position = r.next) {size : Nat}
    (hplace : r.place size = .ok r') :
    Reads bytes r' ∧ r'.position = r.position ∧ r.next ≤ r'.next ∧
      r.next + size ≤ r'.next := by
  unfold place at hplace
  split at hplace
  · cases hplace
  · cases hplace
    have haligned := h.aligned
    refine ⟨⟨h.left, ?_, ?_, ?_⟩, rfl, ?_, ?_⟩ <;> simp only [blockSize] at * <;> omega

theorem data_spec {size : Nat} {bs : Bytes} (hdata : r.data size = .ok (bs, r')) :
    r.read size = (bs, r') := by
  unfold data at hdata
  split at hdata
  · split at hdata
    · simpa using hdata
    · cases hdata
  · simpa using hdata

/-- Reading no further than the next header keeps the reader on its way. -/
theorem reads_read (h : Reads bytes r) {n : Nat} (hn : r.position + n ≤ r.next) :
    Reads bytes (r.read n).2 := by
  have hnear := h.near
  have hposition : (r.read n).2.position = r.position + (r.read n).1.length := position_read r n
  have hlength : (r.read n).1.length ≤ n := by
    rw [read_fst h, List.length_take]
    exact Nat.min_le_left _ _
  refine ⟨left_read h n, ?_, ?_, h.aligned⟩ <;> rw [hposition, next_read] <;> omega

/-- A block read out of turn moves the next header on by as much. -/
theorem reads_block? (h : Reads bytes r) {bs : Bytes} (hblock : r.block? = .ok (some (bs, r'))) :
    Reads bytes { r' with next := r'.next + blockSize } := by
  obtain ⟨-, -, hleft, hposition, hnext⟩ := block?_spec h hblock
  have hbehind := h.behind
  have hnear := h.near
  have haligned := h.aligned
  refine ⟨hleft, ?_, ?_, ?_⟩ <;> simp only [hposition, hnext, blockSize] at * <;> omega

/-- One block of a sparse map, and those after it. -/
theorem sparseBlocks_eq (m : SparseMap) (r : Reader) :
    sparseBlocks m r =
      match r.block? with
      | .error e => .error e
      | .ok none => .error .sparseExtension
      | .ok (some (bs, r')) =>
        match m.addAll 21 bs with
        | .error e => .error e
        | .ok m =>
          if (bs.drop 504).headD 0 = 1 then sparseBlocks m { r' with next := r'.next + blockSize }
          else .ok (m, { r' with next := r'.next + blockSize }) := by
  rw [sparseBlocks]
  generalize r.block? = found
  rcases found with e | _ | ⟨bs, r'⟩ <;> rfl

theorem sparseBlocks_of_block {m : SparseMap} {r₁ : Reader} {bs : Bytes}
    (hblock : r.block? = .ok (some (bs, r₁))) :
    sparseBlocks m r =
      match m.addAll 21 bs with
      | .error e => .error e
      | .ok m =>
        if (bs.drop 504).headD 0 = 1 then sparseBlocks m { r₁ with next := r₁.next + blockSize }
        else .ok (m, { r₁ with next := r₁.next + blockSize }) := by
  rw [sparseBlocks_eq, hblock]

theorem sparseBlocks_spec {m m' : SparseMap} (h : Reads bytes r)
    (hblocks : sparseBlocks m r = .ok (m', r')) : Reads bytes r' ∧ r.next ≤ r'.next := by
  fun_induction sparseBlocks m r with
  | case1 | case2 | case3 => cases hblocks
  | case4 m r bs r₁ hb m₁ hm hx ih =>
    obtain ⟨hreads, hnext⟩ := ih (reads_block? h hb) hblocks
    have hsame := (block?_spec h hb).2.2.2.2
    exact ⟨hreads, by simp only [hsame] at hnext; omega⟩
  | case5 m r bs r₁ hb m₁ hm hx =>
    have hsame := (block?_spec h hb).2.2.2.2
    cases hblocks
    exact ⟨reads_block? h hb, by simp only [hsame]; omega⟩

theorem sparseMap_spec {head : Header} {size : Nat} {m : SparseMap} (h : Reads bytes r)
    (hmap : r.sparseMap head size = .ok (m, r')) : Reads bytes r' ∧ r.next ≤ r'.next := by
  unfold sparseMap at hmap
  split at hmap
  · cases hmap
  · split at hmap
    · exact sparseBlocks_spec h hmap
    · cases hmap
      exact ⟨h, Nat.le_refl _⟩

/-- A member's data is what comes next in the stream. -/
theorem member_spec {x : Extensions} {head : Header} {m : Member} (h : Reads bytes r)
    (hat : r.position = r.next) (hmember : r.member x head = .ok (m, r')) :
    m.header = head ∧ m.body.bytes = (bytes.drop r.position).take m.body.bytes.length ∧
      Reads bytes r' ∧ r.next + m.body.bytes.length ≤ r'.next := by
  unfold member at hmember
  split at hmember
  · cases hmember
  · next size hsize =>
    split at hmember
    · cases hmember
    · next r₁ hplace =>
      obtain ⟨h₁, hposition, hle, hroom⟩ := place_spec h hat hplace
      split at hmember
      · split at hmember
        · cases hmember
        · split at hmember
          · cases hmember
          · next map r₂ hmap =>
            obtain ⟨h₂, hle₂⟩ := sparseMap_spec h₁ hmap
            cases hcheck : checkMap head map <;> rw [hcheck] at hmember <;> cases hmember
            exact ⟨rfl, rfl, h₂, Nat.le_trans hle hle₂⟩
      · cases hmember
        have hbehind := h.behind
        have hread := read_fst h₁ (x.size?.getD size)
        rw [hposition] at hread
        refine ⟨rfl, ?_, reads_read h₁ (by omega), ?_⟩
        · simp only [body, hread]
          exact List.prefix_iff_eq_take.mp (List.take_prefix _ _)
        · simp only [body, hread, next_read, List.length_take]
          omega

theorem extension_spec {x x' : Extensions} {head : Header} (h : Reads bytes r)
    (hat : r.position = r.next) (hextension : r.extension x head = .ok (x', r')) :
    Reads bytes r' ∧ r.next ≤ r'.next := by
  unfold extension at hextension
  split at hextension
  · cases hextension
  · next size hsize =>
    split at hextension
    · cases hextension
    · next r₁ hplace =>
      obtain ⟨h₁, hposition, hle, hroom⟩ := place_spec h hat hplace
      split at hextension
      · cases hextension
      · split at hextension
        · cases hextension
        · next bs r₂ hdata =>
          cases hextension
          have hread := data_spec hdata
          have hbehind := h.behind
          have hreads := reads_read h₁ (n := size) (by omega)
          have hnext := next_read r₁ size
          rw [hread] at hreads hnext
          exact ⟨hreads, by rw [hnext]; exact hle⟩

end Reader

/-- One header, and the members behind it. -/
theorem members_eq (x : Extensions) (r : Reader) :
    members x r =
      match r.header? with
      | .error e => .stop (.error e)
      | .ok none => .stop (if x.isEmpty then .ok () else .error .nothingDescribed)
      | .ok (some (h, r₁)) =>
        match h.check with
        | .error e => .stop (.error e)
        | .ok () =>
          if Reader.role h = .plain then
            match r₁.member x h with
            | .error e => .stop (.error e)
            | .ok (m, r₂) => .cons m (members .empty r₂)
          else
            match r₁.extension x h with
            | .error e => .stop (.error e)
            | .ok (x, r₂) => members x r₂ := by
  rw [members]
  split
  · next hheader => rw [hheader]
  · next hheader => rw [hheader]
  · next h r₁ hheader =>
    rw [hheader]
    simp only
    cases hcheck : h.check with
    | error e => rfl
    | ok _ =>
      simp only
      split
      · split <;> next hmember => simp only [hmember]
      · split <;> next hextension => simp only [hextension]

/-- What comes after a header that was read and checked. -/
theorem members_of_header {x : Extensions} {r r₁ : Reader} {h : Header}
    (hheader : r.header? = .ok (some (h, r₁))) (hcheck : h.check = .ok ()) :
    members x r =
      if Reader.role h = .plain then
        match r₁.member x h with
        | .error e => .stop (.error e)
        | .ok (m, r₂) => .cons m (members .empty r₂)
      else
        match r₁.extension x h with
        | .error e => .stop (.error e)
        | .ok (x, r₂) => members x r₂ := by
  rw [members_eq, hheader]
  simp only [hcheck]

/-- All members of a listing stand in the stream, in order, from the next header on. -/
theorem members_stand {bytes : Bytes} (x : Extensions) {r : Reader} (h : r.Reads bytes) :
    StandFrom bytes r.next (members x r).members := by
  fun_induction members x r with
  | case1 | case2 | case3 | case4 | case6 => trivial
  | case5 x r head r₁ hheader hcheck hrole m r₂ hmember ih =>
    obtain ⟨hblock, h₁, hposition, hnext⟩ := Reader.header?_spec h hheader
    obtain ⟨rfl, hbody, h₂, hle⟩ := Reader.member_spec h₁ (hposition.trans hnext.symm) hmember
    rw [hposition] at hbody
    exact ⟨r.next, Nat.le_refl _, ⟨h.aligned, hblock, hbody⟩, (ih h₂).mono (by omega)⟩
  | case7 x r head r₁ hheader hcheck hrole x' r₂ hextension ih =>
    obtain ⟨-, h₁, hposition, hnext⟩ := Reader.header?_spec h hheader
    obtain ⟨h₂, hle⟩ := Reader.extension_spec h₁ (hposition.trans hnext.symm) hextension
    exact (ih h₂).mono (by omega)

theorem list_stand (source : ByteSource) : StandFrom source.bytes 0 (list source).members :=
  members_stand .empty (Reader.reads_start source)

end NodeLogs.Archive
