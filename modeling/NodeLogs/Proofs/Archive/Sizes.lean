import NodeLogs.Proofs.Archive.Spans

/-!
How much of a member's data is read. A reader never changes how its stream will end, and takes all
of the data that the member's size calls for, as far as the stream has it. The records before a
member may give it another size than its header does.
-/

namespace NodeLogs.Archive

/-- What the records say, or else what the header says. -/
def Member.effective (m : Member) (size : Nat) : Nat := m.extensions.size?.getD size

/-- A member whose header stands here and says this size, with the data that follows, as far as the
stream has it. -/
structure Delivered (s : ByteSource) (offset size : Nat) (m : Member) : Prop where
  header : m.header.block = (s.bytes.drop offset).take blockSize
  declared : m.header.size = .ok size
  data : m.body.bytes = (s.bytes.drop (offset + blockSize)).take (m.effective size)
  cut : m.body.cut =
    if m.effective size ≤ s.bytes.length - (offset + blockSize) then none else some s.ending

namespace Reader

variable {r r' : Reader}

theorem ending_skip (h : r.skip = .ok r') : r'.source.ending = r.source.ending := by
  unfold skip at h
  split at h
  · cases h
    rfl
  · split at h <;> cases h

theorem ending_block? {bs : Bytes} (h : r.block? = .ok (some (bs, r'))) :
    r'.source.ending = r.source.ending := by
  unfold block? at h
  split at h
  · have hread : r.read blockSize = (bs, r') := by simpa using h
    exact congrArg (fun found => found.2.source.ending) hread.symm
  · split at h
    · cases h
    · split at h <;> cases h

theorem ending_header? {head : Header} (h : r.header? = .ok (some (head, r'))) :
    r'.source.ending = r.source.ending := by
  unfold header? at h
  split at h
  · cases h
  · next r₁ hskip =>
    split at h
    · cases h
    · cases h
    · next bs r₂ hblock =>
      split at h
      · cases h
      · cases h
        have hending := ending_block? hblock
        exact hending.trans (ending_skip hskip)

theorem ending_place {size : Nat} (h : r.place size = .ok r') :
    r'.source.ending = r.source.ending := by
  obtain ⟨-, rfl⟩ := place_ok h
  rfl

theorem ending_sparseBlocks {m m' : SparseMap} (h : sparseBlocks m r = .ok (m', r')) :
    r'.source.ending = r.source.ending := by
  fun_induction sparseBlocks m r with
  | case1 | case2 | case3 => cases h
  | case4 m r bs r₁ hblock m₁ hmap hmore ih =>
    have hending := ending_block? hblock
    exact (ih h).trans hending
  | case5 m r bs r₁ hblock m₁ hmap hlast =>
    cases h
    have hending := ending_block? hblock
    exact hending

theorem ending_sparseMap {head : Header} {size : Nat} {m : SparseMap}
    (h : r.sparseMap head size = .ok (m, r')) : r'.source.ending = r.source.ending := by
  unfold sparseMap at h
  split at h
  · cases h
  · split at h
    · exact ending_sparseBlocks h
    · cases h
      rfl

theorem ending_member {x : Extensions} {head : Header} {m : Member}
    (h : r.member x head = .ok (m, r')) : r'.source.ending = r.source.ending := by
  obtain ⟨size, r₁, -, hplace, ⟨-, -, rfl⟩ | ⟨-, -, -, map, hmap, -⟩⟩ := member_ok h
  · have hending := ending_place hplace
    exact hending
  · exact (ending_sparseMap hmap).trans (ending_place hplace)

theorem ending_extension {x x' : Extensions} {head : Header}
    (h : r.extension x head = .ok (x', r')) : r'.source.ending = r.source.ending := by
  obtain ⟨size, r₁, bs, -, hplace, -, hdata, -⟩ := extension_ok h
  have hread := data_spec hdata
  rw [← ending_place hplace]
  exact congrArg (fun found => found.2.source.ending) hread.symm

/-- A reader on its way through a stream. -/
structure Along (s : ByteSource) (r : Reader) : Prop where
  reads : Reads s.bytes r
  ending : r.source.ending = s.ending

variable {s : ByteSource}

theorem along_start (s : ByteSource) : Along s (start s) := ⟨reads_start s, rfl⟩

/-- The data of a member that is not sparse is what comes next, up to the size in force. -/
theorem Along.delivered (h : Along s r) {x : Extensions} {head : Header} {m : Member} {offset : Nat}
    (hheader : head.block = (s.bytes.drop offset).take blockSize)
    (hposition : r.position = offset + blockSize) (hkind : m.kind ≠ .sparse)
    (hmember : r.member x head = .ok (m, r')) : ∃ size, Delivered s offset size m := by
  obtain ⟨size, r₁, hsize, hplace, ⟨-, rfl, -⟩ | ⟨hsparse, -, rfl, -⟩⟩ := member_ok hmember
  · obtain ⟨-, rfl⟩ := place_ok hplace
    refine ⟨size, hheader, hsize, ?_, ?_⟩
    · simp only [body, Member.effective, ← hposition, ← h.reads.left]
      exact ByteSource.read_fst _ _
    · change (if (r.source.read (x.size?.getD size)).1.length = x.size?.getD size then none
          else some r.source.ending) =
        if x.size?.getD size ≤ s.bytes.length - (offset + blockSize) then none else some s.ending
      have hlength : (r.source.read (x.size?.getD size)).1.length =
          min (x.size?.getD size) (s.bytes.length - (offset + blockSize)) := by
        rw [ByteSource.read_fst, h.reads.left, List.length_take, List.length_drop, hposition]
      rw [hlength, h.ending]
      by_cases henough : x.size?.getD size ≤ s.bytes.length - (offset + blockSize)
      · rw [if_pos (Nat.min_eq_left henough), if_pos henough]
      · rw [if_neg (by omega), if_neg henough]
  · exact absurd hsparse hkind

end Reader

/-- Whatever is listed and not sparse was delivered as far as it goes. -/
theorem members_delivered {s : ByteSource} (x : Extensions) {r : Reader} (h : r.Along s) :
    ∀ m ∈ (members x r).members, m.kind ≠ .sparse → ∃ offset size, Delivered s offset size m := by
  fun_induction members x r with
  | case1 | case2 | case3 | case4 | case6 => rintro m ⟨⟩
  | case5 x r head r₁ hheader hcheck hrole m r₂ hmember ih =>
    obtain ⟨hblock, hreads, hposition, hnext⟩ := Reader.header?_spec h.reads hheader
    have hending := (Reader.ending_header? hheader).trans h.ending
    obtain ⟨-, -, hreads₂, -⟩ :=
      Reader.member_spec hreads (hposition.trans hnext.symm) hmember
    have hbehind := ih ⟨hreads₂, (Reader.ending_member hmember).trans hending⟩
    intro m' hm' hkind
    rcases List.mem_cons.mp hm' with rfl | hlater
    · exact ⟨r.next, Reader.Along.delivered ⟨hreads, hending⟩ hblock hposition hkind hmember⟩
    · exact hbehind m' hlater hkind
  | case7 x r head r₁ hheader hcheck hrole x' r₂ hextension ih =>
    obtain ⟨-, hreads, hposition, hnext⟩ := Reader.header?_spec h.reads hheader
    have hending := (Reader.ending_header? hheader).trans h.ending
    obtain ⟨hreads₂, -⟩ :=
      Reader.extension_spec hreads (hposition.trans hnext.symm) hextension
    exact ih ⟨hreads₂, (Reader.ending_extension hextension).trans hending⟩

theorem list_delivered (s : ByteSource) :
    ∀ m ∈ (list s).members, m.kind ≠ .sparse → ∃ offset size, Delivered s offset size m :=
  members_delivered .empty (Reader.along_start s)

/-- What the stream has of a delivered member's data. -/
theorem Delivered.length_data {s : ByteSource} {offset size : Nat} {m : Member}
    (h : Delivered s offset size m) :
    m.body.bytes.length = min (m.effective size) (s.bytes.length - (offset + blockSize)) := by
  rw [h.data, List.length_take, List.length_drop]

end NodeLogs.Archive
