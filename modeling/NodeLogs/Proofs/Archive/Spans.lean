import NodeLogs.Proofs.Archive.Positions

/-!
Which stretch of the stream each member of an archive takes: from its first header, that of its
first extension where it has any, over its data to the next header. The stretches follow one another
without a gap, up to the block of zeros or the end of the stream.
-/

namespace NodeLogs.Archive

/-- A member with its stretch: where its first header stands, where its data starts, and where what
comes after it stands. -/
structure Span where
  member : Member
  start : Nat
  data : Nat
  stop : Nat
deriving Repr, DecidableEq

/-- A reading that ends well: the spans of the members to come, the first of which starts here, and
where the block of zeros that ended it ends, if there was one. -/
inductive Walk : Extensions → Nat → Reader → List Span → Option Nat → Prop
  | ended {r r₁ : Reader} (start : Nat) (skip : r.skip = .ok r₁) (nothing : r₁.block? = .ok none) :
      Walk .empty start r [] none
  | marked {r r₁ r₂ : Reader} {bs : Bytes} (start : Nat) (skip : r.skip = .ok r₁)
      (block : r₁.block? = .ok (some (bs, r₂))) (blank : Header.isBlank ⟨bs⟩ = true) :
      Walk .empty start r [] (some (r.next + blockSize))
  | member {x : Extensions} {start : Nat} {r r₁ r₂ : Reader} {head : Header} {m : Member}
      {rest : List Span} {marker : Option Nat} (header : r.header? = .ok (some (head, r₁)))
      (check : head.check = .ok ()) (role : Reader.role head = .plain)
      (reading : r₁.member x head = .ok (m, r₂)) (behind : Walk .empty r₂.next r₂ rest marker) :
      Walk x start r (⟨m, start, r₁.position, r₂.next⟩ :: rest) marker
  | extension {x x' : Extensions} {start : Nat} {r r₁ r₂ : Reader} {head : Header}
      {spans : List Span} {marker : Option Nat} (header : r.header? = .ok (some (head, r₁)))
      (check : head.check = .ok ()) (role : Reader.role head ≠ .plain)
      (reading : r₁.extension x head = .ok (x', r₂)) (behind : Walk x' start r₂ spans marker) :
      Walk x start r spans marker

theorem header?_none {r : Reader} (h : r.header? = .ok none) :
    ∃ r₁, r.skip = .ok r₁ ∧ (r₁.block? = .ok none ∨
      ∃ bs r₂, r₁.block? = .ok (some (bs, r₂)) ∧ Header.isBlank ⟨bs⟩ = true) := by
  unfold Reader.header? at h
  split at h
  · cases h
  · next r₁ hskip =>
    refine ⟨r₁, hskip, ?_⟩
    split at h
    · cases h
    · next hblock => exact Or.inl hblock
    · next bs r₂ hblock =>
      split at h
      · next hblank => exact Or.inr ⟨bs, r₂, hblock, hblank⟩
      · cases h

/-- A listing that ends well is that of a walk. -/
theorem exists_walk (x : Extensions) (start : Nat) (r : Reader)
    (h : (members x r).ending = .ok ()) :
    ∃ spans marker, Walk x start r spans marker ∧
      spans.map Span.member = (members x r).members := by
  fun_induction members x r generalizing start with
  | case1 | case3 | case4 | case6 => cases h
  | case2 x r hheader =>
    by_cases hx : x.isEmpty
    · obtain rfl : x = .empty := by simpa [Extensions.isEmpty] using hx
      obtain ⟨r₁, hskip, hnone | ⟨bs, r₂, hblock, hblank⟩⟩ := header?_none hheader
      · exact ⟨[], none, .ended start hskip hnone, rfl⟩
      · exact ⟨[], _, .marked start hskip hblock hblank, rfl⟩
    · rw [if_neg hx] at h
      cases h
  | case5 x r head r₁ hheader hcheck hrole m r₂ hmember ih =>
    obtain ⟨spans, marker, hwalk, hspans⟩ := ih r₂.next h
    refine ⟨_, marker, .member hheader hcheck hrole hmember hwalk, ?_⟩
    rw [List.map_cons, hspans]
    rfl
  | case7 x r head r₁ hheader hcheck hrole x' r₂ hextension ih =>
    obtain ⟨spans, marker, hwalk, hspans⟩ := ih start h
    exact ⟨spans, marker, .extension hheader hcheck hrole hextension hwalk, hspans⟩

/-- Spans that follow one another in a stream from a position on. A member stands in its span with
its header right before its data, which fills whole blocks unless the member is sparse. -/
inductive Tiles (bytes : Bytes) : Nat → List Span → Option Nat → Prop
  | ended {start : Nat} (all : bytes.length ≤ start) : Tiles bytes start [] none
  | marked {start : Nat} (blank : Header.isBlank ⟨(bytes.drop start).take blockSize⟩ = true)
      (whole : start + blockSize ≤ bytes.length) : Tiles bytes start [] (some (start + blockSize))
  | span {start : Nat} {s : Span} {rest : List Span} {marker : Option Nat}
    (begins : s.start = start)
      (aligned : s.stop % blockSize = 0)
      (header : s.member.header.block = (bytes.drop (s.data - blockSize)).take blockSize)
      (own : s.start + blockSize ≤ s.data)
      (data : s.member.body.bytes = (bytes.drop s.data).take s.member.body.bytes.length)
      (room : s.data + s.member.body.bytes.length ≤ s.stop)
      (filled : s.member.kind ≠ .sparse →
        s.stop = s.data + (s.member.body.bytes.length + 511) / 512 * 512)
      (behind : Tiles bytes s.stop rest marker) : Tiles bytes start (s :: rest) marker

namespace Reader

variable {bytes : Bytes} {r r' : Reader}

/-- A member that is not sparse: its data is what comes next, as far as the stream holds it. -/
theorem member_ok {x : Extensions} {head : Header} {m : Member}
    (h : r.member x head = .ok (m, r')) :
    ∃ size r₁, head.size = .ok size ∧ r.place (x.size?.getD size) = .ok r₁ ∧
      ((head.kind ≠ .sparse ∧ m = ⟨head, x, (r₁.body (x.size?.getD size)).1⟩ ∧
          r' = (r₁.body (x.size?.getD size)).2) ∨
        (head.kind = .sparse ∧ head.format = .gnu ∧ m = ⟨head, x, ⟨[], none⟩⟩ ∧
          ∃ map, r₁.sparseMap head (x.size?.getD size) = .ok (map, r') ∧
            checkMap head map = .ok ())) := by
  unfold member at h
  split at h
  · cases h
  · next size hsize =>
    split at h
    · cases h
    · next r₁ hplace =>
      refine ⟨size, r₁, hsize, hplace, ?_⟩
      split at h
      · next hsparse =>
        split at h
        · cases h
        · next hformat =>
          split at h
          · cases h
          · next map r₂ hmap =>
            cases hcheck : checkMap head map with
            | error e =>
              rw [hcheck] at h
              cases h
            | ok _ =>
              rw [hcheck] at h
              cases h
              exact Or.inr ⟨hsparse, Decidable.not_not.mp hformat, rfl, map, hmap, hcheck⟩
      · next hkind =>
        cases h
        exact Or.inl ⟨hkind, rfl, rfl⟩

theorem extension_ok {x x' : Extensions} {head : Header} (h : r.extension x head = .ok (x', r')) :
    ∃ size r₁ bs, head.size = .ok size ∧ r.place size = .ok r₁ ∧ repeated? x (role head) = none ∧
      r₁.data size = .ok (bs, r') ∧ x' = extend x bs (role head) := by
  unfold extension at h
  split at h
  · cases h
  · next size hsize =>
    split at h
    · cases h
    · next r₁ hplace =>
      split at h
      · cases h
      · next hrepeated =>
        split at h
        · cases h
        · next bs r₂ hdata =>
          cases h
          exact ⟨size, r₁, bs, hsize, hplace, hrepeated, hdata, rfl⟩

theorem place_ok {size : Nat} (h : r.place size = .ok r') :
    ¬ (limit ≤ size + 511 ∨ limit ≤ kept r.next + (size + 511) / 512 * 512) ∧
      r' = { r with next := r.next + (size + 511) / 512 * 512 } := by
  unfold place at h
  split at h
  · cases h
  · next hlimit =>
    cases h
    exact ⟨hlimit, rfl⟩

end Reader

namespace Reader

variable {bytes : Bytes} {r r' : Reader}

theorem length_read (r : Reader) (n : Nat) :
    (r.read n).1.length = min n r.source.bytes.length := by
  rw [read, ByteSource.read_fst, List.length_take]

/-- Where what is behind some data can be read over, the data was all there. -/
theorem length_read_of_skip {size : Nat} (hroom : r.position + size ≤ r.next)
    (hnear : r.next < r.position + limit) (hskip : (r.read size).2.skip = .ok r') :
    (r.read size).1.length = size := by
  have hlength := length_read r size
  rcases Nat.le_total size r.source.bytes.length with hle | hshort
  · rw [hlength, Nat.min_eq_left hle]
  · have hleft : (r.read size).2.source.bytes = [] := by
      simp only [read, ByteSource.bytes_read]
      exact List.drop_of_length_le hshort
    have hgap : (r.read size).2.gap = r.next - (r.position + (r.read size).1.length) :=
      gap_eq (by rw [next_read, position_read]; omega) (by rw [next_read, position_read]; omega)
    unfold skip at hskip
    split at hskip
    · next hmore =>
      rw [length_read, hleft, hgap, List.length_nil, Nat.min_zero] at hmore
      omega
    · split at hskip <;> cases hskip

/-- Where a member that is not sparse was all there, its data fills whole blocks up to the next
header. -/
theorem member_filled {x : Extensions} {head : Header} {m : Member} {r'' : Reader}
    (hnext : r.next = r.position) (h : r.member x head = .ok (m, r')) (hkind : head.kind ≠ .sparse)
    (hskip : r'.skip = .ok r'') :
    r'.next = r.position + (m.body.bytes.length + 511) / 512 * 512 := by
  obtain ⟨size, r₁, -, hplace, ⟨-, rfl, rfl⟩ | ⟨hsparse, -⟩⟩ := member_ok h
  · obtain ⟨hfits, rfl⟩ := place_ok hplace
    generalize x.size?.getD size = size at hskip hfits ⊢
    have hlength := length_read_of_skip (by simp only; omega) (by simp only; omega) hskip
    simp only [body, next_read, hlength]
    rw [hnext]
  · exact absurd hsparse hkind

/-- Whatever is still to come of the stream ends where the stream does. -/
theorem nothing_left (h : r.source.bytes = bytes.drop r.position) (hblock : r.block? = .ok none) :
    bytes.length ≤ r.position := by
  unfold block? at hblock
  split at hblock
  · cases hblock
  · split at hblock
    · cases hblock
    · split at hblock
      · next hnone =>
        have hlength := length_read r blockSize
        rw [hnone, h, List.length_drop, List.length_nil] at hlength
        simp only [blockSize] at hlength
        omega
      · cases hblock

end Reader

theorem Walk.skip {x : Extensions} {start : Nat} {r : Reader} {spans : List Span}
    {marker : Option Nat} (h : Walk x start r spans marker) : ∃ r₁, r.skip = .ok r₁ := by
  have hheader {found : Header × Reader} (hheader : r.header? = .ok (some found)) :
      ∃ r₁, r.skip = .ok r₁ := by
    unfold Reader.header? at hheader
    split at hheader
    · cases hheader
    · next r₁ hskip => exact ⟨r₁, hskip⟩
  cases h with
  | ended _ hskip | marked _ hskip => exact ⟨_, hskip⟩
  | member h | extension h => exact hheader h

theorem extend_ne_empty {x : Extensions} {role : Reader.Role} (data : Bytes) (h : role ≠ .plain) :
    Reader.extend x data role ≠ .empty := by
  cases role <;> simp_all [Reader.extend, Extensions.empty]

/-- The spans of a walk follow one another in the stream. -/
theorem Walk.tiles {bytes : Bytes} {x : Extensions} {start : Nat} {r : Reader} {spans : List Span}
    {marker : Option Nat} (hwalk : Walk x start r spans marker) (hreads : r.Reads bytes)
    (hstart : start ≤ r.next) (hempty : x = .empty → r.next = start) :
    Tiles bytes start spans marker := by
  induction hwalk with
  | @ended r r₁ start hskip hnothing =>
    obtain ⟨h₁, hposition, -⟩ := Reader.skip_spec hreads hskip
    rw [← hempty rfl, ← hposition]
    exact .ended (Reader.nothing_left h₁.left hnothing)
  | @marked r r₁ r₂ bs start hskip hblock hblank =>
    obtain ⟨h₁, hposition, -⟩ := Reader.skip_spec hreads hskip
    obtain ⟨hbs, hlength, -⟩ := Reader.block?_spec h₁ hblock
    rw [← hempty rfl, ← hposition]
    refine .marked (hbs ▸ hblank) ?_
    rw [hbs, List.length_take, List.length_drop] at hlength
    simp only [blockSize] at *
    omega
  | @member x start r r₁ r₂ head m rest marker hheader hcheck hrole hreading hbehind ih =>
    obtain ⟨hblock, h₁, hposition, hnext⟩ := Reader.header?_spec hreads hheader
    obtain ⟨rfl, hbody, h₂, hroom⟩ := Reader.member_spec h₁ (hposition.trans hnext.symm) hreading
    have htiles := ih h₂ (Nat.le_refl _) fun _ => rfl
    refine .span (s := ⟨m, start, r₁.position, r₂.next⟩) rfl h₂.aligned ?_ ?_ hbody ?_ ?_ htiles
    · rw [hposition, Nat.add_sub_cancel]
      exact hblock
    · change start + blockSize ≤ r₁.position
      omega
    · change r₁.position + m.body.bytes.length ≤ r₂.next
      omega
    · intro hkind
      obtain ⟨r₃, hskip⟩ := hbehind.skip
      exact Reader.member_filled (by omega) hreading hkind hskip
  | @extension x x' start r r₁ r₂ head spans marker hheader hcheck hrole hreading hbehind ih =>
    obtain ⟨hblock, h₁, hposition, hnext⟩ := Reader.header?_spec hreads hheader
    obtain ⟨h₂, hle⟩ := Reader.extension_spec h₁ (hposition.trans hnext.symm) hreading
    obtain ⟨size, -, bs, -, -, -, -, rfl⟩ := Reader.extension_ok hreading
    refine ih h₂ (by omega) fun h => absurd h (extend_ne_empty bs hrole)

end NodeLogs.Archive
