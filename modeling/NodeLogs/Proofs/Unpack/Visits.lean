import NodeLogs.Proofs.Archive.Parcels
import NodeLogs.Proofs.Archive.Visits
import NodeLogs.Proofs.Unpack.Member

/-!
The headers that unpacking reads. However a stream is made up, unpacking comes to an end after no
more headers than the stream has blocks, each behind all data that was said to be there before it.
-/

namespace NodeLogs.Unpack

open Archive (Extensions Header Member Reader Taken Visit)

/-- What is done where no header is left. -/
def finished (x : Extensions) : Effect :=
  ⟨[], [],
    (if x.isEmpty then .ok () else .error .nothingDescribed : Except Archive.Error Unit).mapError
      readingFailure⟩

/-- The ways in which unpacking goes on from a reader, with what is known of the member to come, one
header after the other: which headers are read, and what is done in all. -/
inductive Course (dest : HostPath) :
    FileTree → Extensions → Reader → List Visit → Effect → Prop
  | broken {t : FileTree} {x : Extensions} {r : Reader} {e : Archive.Error}
      (header : r.header? = .error e) : Course dest t x r [] (failed [] (readingFailure e))
  | ended {t : FileTree} {x : Extensions} {r r₁ : Reader} (skip : r.skip = .ok r₁)
      (nothing : r₁.block? = .ok none) : Course dest t x r [] (finished x)
  | marked {t : FileTree} {x : Extensions} {r r₁ r₂ : Reader} {bs : Bytes} (skip : r.skip = .ok r₁)
      (block : r₁.block? = .ok (some (bs, r₂))) (blank : Header.isBlank ⟨bs⟩ = true) :
      Course dest t x r [⟨r.next, ⟨bs⟩, x, 0⟩] (finished x)
  | refused {t : FileTree} {x : Extensions} {r r₁ : Reader} {head : Header} {e : Archive.Error}
      (header : r.header? = .ok (some (head, r₁))) (taking : r₁.take x head = .error e) :
      Course dest t x r [r₁.visit x head] (failed [] (readingFailure e))
  | extension {t : FileTree} {x x' : Extensions} {r r₁ r₂ : Reader} {head : Header}
      {visits : List Visit} {effect : Effect} (header : r.header? = .ok (some (head, r₁)))
      (taking : r₁.take x head = .ok (.extension x', r₂))
      (behind : Course dest t x' r₂ visits effect) :
      Course dest t x r (r₁.visit x head :: visits) effect
  | failing {t : FileTree} {x : Extensions} {r r₁ r₂ : Reader} {head : Header}
    {m : Member} {f : Failure}
      (header : r.header? = .ok (some (head, r₁))) (taking : r₁.take x head = .ok (.member m, r₂))
      (failing : (member t dest m).result = .error f) :
      Course dest t x r [r₁.visit x head] (member t dest m)
  | member {t : FileTree} {x : Extensions} {r r₁ r₂ : Reader} {head : Header} {m : Member}
      {visits : List Visit} {effect : Effect} (header : r.header? = .ok (some (head, r₁)))
      (taking : r₁.take x head = .ok (.member m, r₂)) (done : (member t dest m).result = .ok ())
      (behind : Course dest (t.applyAll (member t dest m).changes) .empty r₂ visits effect) :
      Course dest t x r (r₁.visit x head :: visits) ((member t dest m).andThen effect)

variable {dest : HostPath} {t : FileTree} {x : Extensions} {r : Reader} {visits : List Visit}
  {effect : Effect} {bytes : Bytes}

theorem members_of_error {ending : Except Archive.Error Unit} {m : Member} {f : Failure}
    (h : (member t dest m).result = .error f) (rest : List Member) :
    members t dest ending (m :: rest) = member t dest m := by
  rw [members, h]
  simp only [← h]

/-- A sparse member is passed over, and fails for its name alone. -/
theorem refused_of_sparse {m : Member} {f : Failure} (hkind : m.kind = .sparse)
    (h : (member t dest m).result = .error f) :
    Archive.Unsafe m.name ∧ f = .ofCause (.unsafeName m.name) := by
  by_cases hname : Archive.Unsafe m.name
  · rw [member_refused hname] at h
    exact ⟨hname, (Except.error.inj h).symm⟩
  · have hparts := mt Archive.relativeParts?_eq_none.mp hname
    by_cases hempty : m.name = ""
    · rw [member_of_nameless hempty] at h
      cases h
    · obtain ⟨names, hnames⟩ := Option.ne_none_iff_exists'.mp hparts
      have htarget : target? dest m = some (dest.join (HostPath.below names)) := by
        rw [target?, if_neg hempty, hnames, Option.map_some]
      rw [member_of_target? htarget, hkind] at h
      cases h

/-- Unpacking comes to an end from wherever a reader stands. -/
theorem exists_course (dest : HostPath) (t : FileTree) (x : Extensions) (r : Reader) :
    ∃ visits, Course dest t x r visits
      (members t dest (Archive.members x r).ending (Archive.members x r).members) := by
  fun_induction Archive.members x r generalizing t with
  | case1 x r e hheader => exact ⟨_, .broken hheader⟩
  | case2 x r hheader =>
    obtain ⟨r₁, hskip, hnone | ⟨bs, r₂, hblock, hblank⟩⟩ := Archive.header?_none hheader
    · exact ⟨_, .ended hskip hnone⟩
    · exact ⟨_, .marked hskip hblock hblank⟩
  | case3 x r head r₁ hheader e hcheck =>
    exact ⟨_, .refused hheader (by rw [Reader.take, hcheck])⟩
  | case4 x r head r₁ hheader hcheck hrole e hmember =>
    exact ⟨_, .refused hheader (by rw [Reader.take_of_member hcheck hrole, hmember]; rfl)⟩
  | case5 x r head r₁ hheader hcheck hrole m r₂ hmember ih =>
    have htake : r₁.take x head = .ok (.member m, r₂) := by
      rw [Reader.take_of_member hcheck hrole, hmember]
      rfl
    cases hdone : (member t dest m).result with
    | error f =>
      refine ⟨[r₁.visit x head], ?_⟩
      rw [Archive.Listing.cons, members_of_error hdone]
      exact .failing hheader htake hdone
    | ok _ =>
      obtain ⟨visits, hcourse⟩ := ih (t.applyAll (member t dest m).changes)
      refine ⟨r₁.visit x head :: visits, ?_⟩
      rw [Archive.Listing.cons, members_cons_of_ok hdone]
      exact .member hheader htake hdone hcourse
  | case6 x r head r₁ hheader hcheck hrole e hextension =>
    exact ⟨_, .refused hheader (by rw [Reader.take_of_extension hcheck hrole, hextension]; rfl)⟩
  | case7 x r head r₁ hheader hcheck hrole x' r₂ hextension ih =>
    have htake : r₁.take x head = .ok (.extension x', r₂) := by
      rw [Reader.take_of_extension hcheck hrole, hextension]
      rfl
    obtain ⟨visits, hcourse⟩ := ih t
    exact ⟨_, .extension hheader htake hcourse⟩

theorem last_of_rest {v first : Visit} {rest : List Visit} (h : rest.getLast? = some v) :
    (first :: rest).getLast? = some v := by
  rw [List.getLast?_cons, h, Option.getD_some]

namespace Course

/-- What is done is what unpacking does from there. -/
theorem effect_eq (h : Course dest t x r visits effect) :
    effect = members t dest (Archive.members x r).ending (Archive.members x r).members := by
  induction h with
  | broken hheader =>
    rw [Archive.members_of_broken hheader]
    rfl
  | @ended t x r r₁ hskip hnothing =>
    have hheader : r.header? = .ok none := by simp only [Reader.header?, hskip, hnothing]
    rw [Archive.members_of_nothing hheader]
    rfl
  | @marked t x r r₁ r₂ bs hskip hblock hblank =>
    have hheader : r.header? = .ok none := by
      simp only [Reader.header?, hskip, hblock, hblank, if_true]
    rw [Archive.members_of_nothing hheader]
    rfl
  | refused hheader htake =>
    rw [Archive.members_take _ hheader, htake]
    rfl
  | extension hheader htake _ ih => rw [Archive.members_take _ hheader, htake, ih]
  | failing hheader htake hfailing =>
    rw [Archive.members_take _ hheader, htake]
    exact (members_of_error hfailing _).symm
  | member hheader htake hdone _ ih =>
    rw [Archive.members_take _ hheader, htake, ih]
    exact (members_cons_of_ok hdone).symm

/-- The headers of a course stand in order, from where the reader looks for the first one. -/
theorem inOrder (h : Course dest t x r visits effect) (within : r.Within bytes) :
    Visit.InOrder bytes r.next visits := by
  induction h with
  | broken | ended => exact .none _
  | marked hskip hblock hblank => exact .last (within.marked hskip hblock)
  | refused hheader _ | failing hheader _ _ =>
    obtain ⟨hoffset, stands⟩ := within.visit hheader _
    exact hoffset ▸ .last stands
  | extension hheader htake _ ih | member hheader htake _ _ ih =>
    obtain ⟨hoffset, stands⟩ := within.visit hheader _
    obtain ⟨size, hsize, hfits, hwithin, hnext⟩ := Reader.take_next within hheader htake
    exact hoffset ▸ .more stands hsize hfits (hnext ▸ ih hwithin)

/-- A course that has to look for a header behind the end of the stream fails there. -/
theorem of_beyond (h : Course dest t x r visits effect) (within : r.Within bytes)
    (hbeyond : bytes.length < r.next) :
    visits = [] ∧ ∃ e, effect.result = .error (readingFailure e) := by
  obtain ⟨e, hbroken⟩ := within.header?_beyond hbeyond
  cases h with
  | broken hheader => exact ⟨rfl, _, rfl⟩
  | ended hskip hnothing => simp [Reader.header?, hskip, hnothing] at hbroken
  | marked hskip hblock hblank => simp [Reader.header?, hskip, hblock, hblank] at hbroken
  | refused hheader _ | extension hheader _ _ | failing hheader _ _ | member hheader _ _ _ =>
    rw [hheader] at hbroken
    cases hbroken

/-- Where a sum that is looked at runs over, the reading ends with that. -/
theorem refused_sum (h : Course dest t x r visits effect) (within : r.Within bytes) {v : Visit}
    {size : Nat} (hv : v ∈ visits) (hsize : v.size? = some size) (hlarge : v.Refused size) :
    visits.getLast? = some v ∧ effect.result = .error (readingFailure .sizeOverflow) := by
  induction h with
  | broken | ended => cases hv
  | marked hskip hblock hblank =>
    obtain rfl := List.mem_singleton.mp hv
    simp [Visit.size?, hblank] at hsize
  | refused hheader htake =>
    obtain rfl := List.mem_singleton.mp hv
    rw [Reader.take_refused within hheader hsize hlarge] at htake
    cases htake
    exact ⟨rfl, rfl⟩
  | failing hheader htake _ =>
    obtain rfl := List.mem_singleton.mp hv
    rw [Reader.take_refused within hheader hsize hlarge] at htake
    cases htake
  | extension hheader htake _ ih | member hheader htake _ _ ih =>
    rcases List.mem_cons.mp hv with rfl | hv
    · rw [Reader.take_refused within hheader hsize hlarge] at htake
      cases htake
    · obtain ⟨-, -, -, hwithin, -⟩ := Reader.take_next within hheader htake
      exact (ih hwithin hv).imp_left last_of_rest

/-- Where the next header would stand behind the end of the stream, however far, no other one is
read. That is a failure of reading, unless the member that was just read has already failed. -/
theorem beyond (h : Course dest t x r visits effect) (within : r.Within bytes)
    {v : Visit} {size : Nat} (hv : v ∈ visits) (hsize : v.size? = some size)
    (hbeyond : bytes.length < v.next size) :
    visits.getLast? = some v ∧ ((∃ e, effect.result = .error (readingFailure e)) ∨
      ∃ t m f, m.header = v.header ∧ (Unpack.member t dest m).result = .error f ∧
        effect.result = .error f) := by
  induction h with
  | broken | ended => cases hv
  | marked hskip hblock hblank =>
    obtain rfl := List.mem_singleton.mp hv
    simp [Visit.size?, hblank] at hsize
  | refused hheader htake =>
    obtain rfl := List.mem_singleton.mp hv
    exact ⟨rfl, .inl ⟨_, rfl⟩⟩
  | failing hheader htake hfailing =>
    obtain rfl := List.mem_singleton.mp hv
    exact ⟨rfl, .inr ⟨_, _, _, Reader.take_header htake, hfailing, hfailing⟩⟩
  | extension hheader htake hbehind ih | member hheader htake _ hbehind ih =>
    obtain ⟨size', hsize', -, hwithin, hnext⟩ := Reader.take_next within hheader htake
    rcases List.mem_cons.mp hv with rfl | hv
    · obtain rfl : size = size' := Option.some.inj (hsize.symm.trans hsize')
      obtain ⟨rfl, e, he⟩ := hbehind.of_beyond hwithin (hnext ▸ hbeyond)
      exact ⟨rfl, .inl ⟨e, he⟩⟩
    · exact (ih hwithin hv).imp_left last_of_rest

/-- Only sparse maps are continued. -/
theorem sparse_of_continued (h : Course dest t x r visits effect) {v : Visit} (hv : v ∈ visits)
    (hcontinued : 0 < v.continued) : v.header.kind = .sparse := by
  have hvisit (x : Extensions) (head : Header) (r : Reader) (h : 0 < (r.visit x head).continued) :
      head.kind = .sparse := by
    by_cases hkind : head.kind = .sparse
    · exact hkind
    · have hnone : r.continued x head = 0 := Reader.continued_of_not_sparse hkind
      rw [Reader.visit, hnone] at h
      exact absurd h (Nat.lt_irrefl 0)
  induction h with
  | broken | ended => cases hv
  | marked =>
    obtain rfl := List.mem_singleton.mp hv
    exact absurd hcontinued (Nat.lt_irrefl 0)
  | refused | failing =>
    obtain rfl := List.mem_singleton.mp hv
    exact hvisit _ _ _ hcontinued
  | extension _ _ _ ih | member _ _ _ _ ih =>
    rcases List.mem_cons.mp hv with rfl | hv
    · exact hvisit _ _ _ hcontinued
    · exact ih hv

/-- Where a sum runs over that is not looked at, in a stream of which all positions can be told, the
number kept of the next position is too small by what it ran over; there is no header at the
position itself. -/
theorem runs_over (h : Course dest t x r visits effect) (within : r.Within bytes)
    (hroom : bytes.length < Archive.limit) {v : Visit} {size : Nat} (hv : v ∈ visits)
    (hsize : v.size? = some size) (hlarge : v.Overflows size) (hmissed : ¬ v.Refused size) :
    0 < v.continued ∧ v.next size = Archive.kept (v.next size) + Archive.limit ∧
      visits.getLast? = some v ∧ ((∃ e, effect.result = .error (readingFailure e)) ∨
        ∃ m : Member, m.header = v.header ∧ Archive.Unsafe m.name ∧
          effect.result = .error (.ofCause (.unsafeName m.name))) := by
  have hwhole := ((h.inOrder within).stands v hv).whole
  obtain ⟨hcontinued, hnext⟩ := hlarge.runs_over hmissed (Nat.lt_of_le_of_lt hwhole hroom)
  obtain ⟨hlast, hreading | ⟨t, m, f, hheader, hfailed, hresult⟩⟩ :=
    h.beyond within hv hsize (by omega)
  · exact ⟨hcontinued, hnext, hlast, .inl hreading⟩
  · have hkind : m.kind = .sparse := by
      rw [Member.kind, hheader]
      exact h.sparse_of_continued hv hcontinued
    obtain ⟨hname, rfl⟩ := refused_of_sparse hkind hfailed
    exact ⟨hcontinued, hnext, hlast, .inr ⟨m, hheader, hname, hresult⟩⟩

end Course

/-- Unpacking comes to an end whatever it is given. It reads no more blocks as headers than the
stream has, those that continue a sparse map counted; each is there, at a multiple of the block
size, behind the header before and all data that was said to follow it. A sum with a size in it that
runs over ends the reading with a failure, and where no sum runs over the next position is kept
exactly. The sums that go on by a block of a sparse map are not looked at: one of them that runs
over leaves a number too small by 2^64. No header is found at the position itself, nor at any other
behind the end of the stream, and that is a failure of reading as well, but it comes too late where
the member that was just read is refused for its name. -/
theorem unpacking_ends (source : ByteSource) (dest : HostPath) (t : FileTree) :
    (∃ visits, Course dest t .empty (.start source) visits (unpack source dest t)) ∧
    ∀ visits effect, Course dest t .empty (.start source) visits effect →
      effect = unpack source dest t ∧
      Visit.InOrder source.bytes 0 visits ∧
      visits.length ≤ Visit.blocks visits ∧
      Visit.blocks visits ≤ source.bytes.length / Archive.blockSize ∧
      (∀ v ∈ visits, v.Stands source.bytes) ∧
      (visits.Pairwise fun v v' => v.offset < v'.offset ∧
        ∃ size, v.size? = some size ∧ v.data + size ≤ v'.offset) ∧
      (∀ v ∈ visits, ∀ size, v.size? = some size → v.Refused size →
        visits.getLast? = some v ∧ effect.result = .error (readingFailure .sizeOverflow)) ∧
      (∀ v ∈ visits, ∀ size, v.size? = some size → ¬ v.Overflows size →
        Archive.kept (v.next size) = Archive.kept v.offset +
          (v.continued + 1) * Archive.blockSize + (size + 511) / 512 * 512) ∧
      (source.bytes.length < Archive.limit → ∀ v ∈ visits, ∀ size, v.size? = some size →
        v.Overflows size → ¬ v.Refused size →
        0 < v.continued ∧ v.next size = Archive.kept (v.next size) + Archive.limit ∧
          visits.getLast? = some v ∧ ((∃ e, effect.result = .error (readingFailure e)) ∨
            ∃ m : Member, m.header = v.header ∧ Archive.Unsafe m.name ∧
              effect.result = .error (.ofCause (.unsafeName m.name)))) ∧
      ∀ v ∈ visits, ∀ size, v.size? = some size → source.bytes.length < v.next size →
        visits.getLast? = some v ∧ ((∃ e, effect.result = .error (readingFailure e)) ∨
          ∃ t m f, m.header = v.header ∧ (member t dest m).result = .error f ∧
            effect.result = .error f) := by
  refine ⟨exists_course dest t .empty (.start source), fun visits effect hcourse => ?_⟩
  have within := Reader.within_start source
  have hinOrder := hcourse.inOrder within
  have hblocks := hinOrder.blocks_le
  refine ⟨hcourse.effect_eq, hinOrder, Visit.length_le_blocks visits, ?_, hinOrder.stands,
    hinOrder.pairwise, fun v hv size => hcourse.refused_sum within hv,
    fun v _ size _ => Visit.kept_next, fun hroom v hv size => hcourse.runs_over within hroom hv,
    fun v hv size => hcourse.beyond within hv⟩
  exact (Nat.le_div_iff_mul_le (by decide)).mpr hblocks

/-! A position that runs over unnoticed -/

/-- So many bytes that there is room for their header before them, and for one more block. -/
def vastSize : Nat := Archive.limit - 2 * Archive.blockSize

def vastField : Archive.Field 12 := Archive.SizeForm.binary.field vastSize

/-- A sparse member with one stretch that is all of its data, whose map goes on in another block. -/
def vastFields : Archive.Fields :=
  { Archive.Fields.blank with
    name := .text 100 (Utf8.encode "../s")
    size := vastField
    kind := 0x53
    gnu := true
    before :=
      ⟨List.replicate 41 0 ++ (Archive.SizeForm.binary.field 0).bytes ++ vastField.bytes ++
        List.replicate 72 0 ++ 1 :: vastField.bytes ++ List.replicate 5 0, by
        simp only [List.length_append, List.length_cons, List.length_replicate,
          Archive.Field.fits]⟩ }

/-- Its header, and the block in which its map goes on. -/
def vast : ByteSource :=
  .ofBytes (vastFields.block ++ List.replicate Archive.blockSize 0)

def vastMember : Member := ⟨vastFields.header, .empty, ⟨[], none⟩⟩

def vastVisit : Visit := ⟨0, vastFields.header, .empty, 1⟩

theorem vastFields_form : vastFields.size = Archive.SizeForm.binary.field vastSize := rfl

theorem vastFields_size : vastFields.header.size = .ok vastSize :=
  vastFields.header_size vastFields_form (by decide)

theorem vastFields_map :
    (Archive.SparseMap.start vastSize).addAll 4 (vastFields.header.field 386 96) =
      .ok ⟨vastSize, vastSize, 0⟩ := by
  have hfield : vastFields.header.field 386 96 = (vastFields.before.bytes.drop 41).take 96 :=
    vastFields.field_in_before 41 96 (by decide)
  rw [hfield]
  rfl

theorem vastFields_goes_on : (vastFields.header.field 482 1).headD 0 = 1 := by
  have hfield : vastFields.header.field 482 1 = (vastFields.before.bytes.drop 137).take 1 :=
    vastFields.field_in_before 137 1 (by decide)
  rw [hfield]
  rfl

theorem vastFields_checked :
    Reader.checkMap vastFields.header ⟨vastSize, vastSize, 0⟩ = .ok () := by
  have hfield : vastFields.header.field 483 12 = (vastFields.before.bytes.drop 138).take 12 :=
    vastFields.field_in_before 138 12 (by decide)
  have hread : Archive.octalOrBinary (Archive.SizeForm.binary.field vastSize).bytes =
    .ok vastSize :=
    Archive.SizeForm.octalOrBinary_field (by decide)
  have hreal : vastFields.header.realSize = .ok vastSize := by
    rw [Header.realSize, hfield]
    exact congrArg (Except.mapError _) hread
  simp [Reader.checkMap, hreal, bind, Except.bind, pure, Except.pure]

theorem vastFields_kind : vastFields.header.kind = .sparse := by
  rw [Archive.Fields.header_kind]
  rfl

theorem vastMember_name : vastMember.name = "../s" := by
  have hname : vastFields.header.name = Utf8.encode "../s" :=
    vastFields.header_name_text rfl (by decide) (by decide) (Or.inl (by rfl))
  have hrecord : Extensions.path? .empty = none := rfl
  rw [Member.name, Member.path, vastMember, hrecord, Option.getD_none, hname,
    Utf8.decodeLossy_encode]

/-- What is read of it: a member, and the block that continues its map. -/
theorem vast_read : ∃ r₁ r₂, (Reader.start vast).header? = .ok (some (vastFields.header, r₁)) ∧
    r₁.take .empty vastFields.header = .ok (.member vastMember, r₂) ∧
    r₁.visit .empty vastFields.header = vastVisit := by
  have hlength : (List.replicate Archive.blockSize (0 : UInt8)).length = Archive.blockSize :=
    List.length_replicate
  have hmap := Archive.SparseMap.addAll_zeros ⟨vastSize, vastSize, 0⟩ 21 Archive.blockSize
  have hlast : ¬ ((List.replicate Archive.blockSize (0 : UInt8)).drop 504).headD 0 = 1 := by
    rw [List.drop_replicate]
    decide
  have hbytes : (Reader.start vast).source.bytes =
      [] ++ (vastFields.header.block ++ List.replicate Archive.blockSize 0) := by
    simp [Reader.start, vast, ByteSource.bytes, ByteSource.ofBytes, Archive.Fields.header]
  generalize List.replicate Archive.blockSize (0 : UInt8) = zeros at hlength hmap hlast hbytes
  obtain ⟨r₁, hheader, hrest, hat, hnext, -⟩ := Reader.header?_ahead hbytes rfl (by decide)
    vastFields.length_block vastFields.header_not_blank
  obtain ⟨r₂, hplace, hsource⟩ : ∃ r₂, r₁.place vastSize = .ok r₂ ∧ r₂.source = r₁.source := by
    refine ⟨{ r₁ with next := r₁.next + (vastSize + 511) / 512 * 512 }, if_neg ?_, rfl⟩
    rw [hnext]
    decide
  have hleft : r₂.source.bytes = zeros ++ [] := by rw [hsource, hrest, List.append_nil]
  obtain ⟨r₃, hblock, -⟩ := Reader.block?_append hleft hlength
  have hblocks := Reader.sparseBlocks_of_block (m := ⟨vastSize, vastSize, 0⟩) hblock
  have hcontinuing := Reader.continuing_eq ⟨vastSize, vastSize, 0⟩ hblock
  simp only [hmap, if_neg hlast] at hblocks hcontinuing
  obtain ⟨htake, hcontinued⟩ := Reader.take_sparse (x := .empty) vastFields.header_check
    vastFields_kind vastFields.header_format vastFields_size hplace vastFields_map
    vastFields_goes_on hblocks vastFields_checked
  refine ⟨r₁, _, hheader, htake, ?_⟩
  rw [Reader.visit, hat, hnext, hcontinued, hcontinuing]
  rfl

/-- A position that runs over, and no failure of reading comes of it: the member fails for its
name. -/
theorem position_runs_over_unnoticed :
    Course ⟨"/"⟩ ⟨{}, []⟩ .empty (.start vast) [vastVisit] (unpack vast ⟨"/"⟩ ⟨{}, []⟩) ∧
      vastVisit.size? = some vastSize ∧ vastVisit.Overflows vastSize ∧
      Archive.kept (vastVisit.next vastSize) = 0 ∧
      ∀ e, (unpack vast ⟨"/"⟩ ⟨{}, []⟩).result ≠ .error (readingFailure e) := by
  obtain ⟨r₁, r₂, hheader, htake, hvisit⟩ := vast_read
  have hunsafe : Archive.Unsafe vastMember.name := by
    rw [vastMember_name]
    exact Or.inr (by decide)
  have hmember : member ⟨{}, []⟩ ⟨"/"⟩ vastMember =
    failed [] (.ofCause (.unsafeName vastMember.name)) :=
    member_refused hunsafe
  have hcourse := Course.failing (t := ⟨{}, []⟩) hheader htake (by rw [hmember]; rfl)
  have hunpack : member ⟨{}, []⟩ ⟨"/"⟩ vastMember = unpack vast ⟨"/"⟩ ⟨{}, []⟩ := hcourse.effect_eq
  rw [hvisit, hunpack] at hcourse
  refine ⟨hcourse, ?_, Or.inr (by decide), by decide, ?_⟩
  · simp [Visit.size?, vastVisit, vastFields.header_not_blank, vastFields.header_check,
      vastFields_size, Reader.role_of_sparse vastFields_kind]
    rfl
  · intro e he
    rw [← hunpack, hmember] at he
    cases he

end NodeLogs.Unpack
