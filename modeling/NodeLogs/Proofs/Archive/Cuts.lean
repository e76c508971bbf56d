import NodeLogs.Proofs.Archive.ReadBack
import NodeLogs.Proofs.Archive.Spans

/-!
Archives that break off. A reader of the first bytes of a stream does what a reader of the whole
stream does as long as all that it reads is there. Where the bytes run out it sees that in what it
reads then, or, when it has read what there is of some data, at the latest before it looks for the
next header.
-/

namespace NodeLogs.Archive

/-- A member whose data breaks off after so many bytes. -/
def Member.upTo (k : Nat) (m : Member) : Member :=
  { m with body := ⟨m.body.bytes.take k, some .done⟩ }

namespace Reader

/-- A reader of a whole stream and one of its first bytes, at the same place. -/
structure Beside (bytes : Bytes) (n : Nat) (r r' : Reader) : Prop where
  left : r.source.bytes = bytes.drop r.position
  cutLeft : r'.source.bytes = (bytes.take n).drop r.position
  cutEnding : r'.source.ending = .done
  position : r'.position = r.position
  next : r'.next = r.next
  reached : r.position ≤ n
  whole : n ≤ bytes.length

/-- The bytes end before the next header. -/
structure Stalled (r : Reader) : Prop where
  short : r.position + r.source.bytes.length < r.next
  near : r.next < r.position + limit
  ending : r.source.ending = .done

variable {bytes : Bytes} {n : Nat} {r r' r₁ : Reader}

theorem Stalled.skip (h : Stalled r) : r.skip = .error .cutSkip := by
  have hshort := h.short
  have hgap : r.gap = r.next - r.position := gap_eq (by omega) h.near
  unfold Reader.skip
  rw [if_neg, h.ending]
  rw [length_read, hgap]
  omega

theorem Stalled.members (h : Stalled r) (x : Extensions) :
    members x r = .stop (.error .cutSkip) := by
  have hheader : r.header? = .error .cutSkip := by rw [header?, h.skip]
  rw [Archive.members]
  split
  · next e he => rw [hheader] at he; cases he; rfl
  · next he => rw [hheader] at he; cases he
  · next he => rw [hheader] at he; cases he

theorem header?_some {head : Header} (hheader : r.header? = .ok (some (head, r₁))) :
    ∃ r₀ bs r₂, r.skip = .ok r₀ ∧ r₀.block? = .ok (some (bs, r₂)) ∧
      Header.isBlank ⟨bs⟩ = false ∧ head = ⟨bs⟩ ∧ r₁ = { r₂ with next := r₂.next + blockSize } := by
  unfold Reader.header? at hheader
  split at hheader
  · cases hheader
  · next r₀ hskip =>
    split at hheader
    · cases hheader
    · cases hheader
    · next bs r₂ hblock =>
      split at hheader
      · cases hheader
      · next hblank =>
        cases hheader
        exact ⟨r₀, bs, r₂, hskip, hblock, by simpa using hblank, rfl, rfl⟩

namespace Beside

variable (h : Beside bytes n r r')

include h

theorem length_left : r'.source.bytes.length = n - r.position := by
  rw [h.cutLeft, List.length_drop, List.length_take, Nat.min_eq_left h.whole]

/-- What both hold they both read. -/
theorem read {k : Nat} (hk : r.position + k ≤ n) :
    (r'.read k).1 = (r.read k).1 ∧ (r.read k).1.length = k ∧
      Beside bytes n (r.read k).2 (r'.read k).2 := by
  have hreached := h.reached
  have hwhole := h.whole
  have hfst : (r'.read k).1 = (r.read k).1 := by
    simp only [Reader.read, ByteSource.read_fst, h.left, h.cutLeft, List.drop_take, List.take_take]
    rw [Nat.min_eq_left (by omega)]
  have hlength : (r.read k).1.length = k := by
    rw [length_read, h.left, List.length_drop]
    omega
  refine ⟨hfst, hlength, ?_, ?_, ?_, ?_, h.next, ?_, h.whole⟩
  · rw [position_read, hlength]
    simp only [Reader.read, ByteSource.bytes_read, h.left, List.drop_drop]
  · rw [position_read, hlength]
    simp only [Reader.read, ByteSource.bytes_read, h.cutLeft, List.drop_drop]
  · exact h.cutEnding
  · rw [position_read, position_read, hfst, h.position]
  · rw [position_read, hlength]
    exact hk

/-- Where the bytes run out, the rest of them is read. -/
theorem read_short {k : Nat} (hk : n < r.position + k) :
    (r'.read k).1 = (r.read k).1.take (n - r.position) ∧ (r'.read k).1.length = n - r.position ∧
      (r'.read k).2.source.bytes = [] := by
  have hreached := h.reached
  have hlength := h.length_left
  refine ⟨?_, ?_, ?_⟩
  · simp only [Reader.read, ByteSource.read_fst, h.left, h.cutLeft, List.drop_take, List.take_take]
    rw [Nat.min_comm]
  · rw [length_read, hlength]
    omega
  · simp only [Reader.read, ByteSource.bytes_read]
    exact List.drop_of_length_le (by omega)

theorem stalled (hnear : r.next < r.position + limit) (hnext : n < r.next) : Stalled r' where
  short := by
    have hreached := h.reached
    rw [h.length_left, h.position, h.next]
    omega
  near := by
    rw [h.position, h.next]
    exact hnear
  ending := h.cutEnding

theorem skip (hreads : Reads bytes r) (hskip : r.skip = .ok r₁) (hnext : r.next ≤ n) :
    ∃ r₁', r'.skip = .ok r₁' ∧ Beside bytes n r₁ r₁' := by
  have hbehind := hreads.behind
  have hgap := hreads.gap
  have hsame : r'.gap = r.gap := by rw [gap, gap, h.next, h.position]
  obtain ⟨hfst, hlength, hbeside⟩ := h.read (k := r.gap) (by omega)
  unfold Reader.skip at hskip ⊢
  rw [if_pos hlength] at hskip
  cases hskip
  rw [hsame, if_pos (hfst ▸ hlength)]
  exact ⟨_, rfl, hbeside⟩

/-- Blocks that are there whole are read by both. -/
theorem block? {bs : Bytes} (hblock : r.block? = .ok (some (bs, r₁)))
    (hk : r.position + blockSize ≤ n) :
    ∃ r₁', r'.block? = .ok (some (bs, r₁')) ∧ Beside bytes n r₁ r₁' := by
  obtain ⟨hfst, hlength, hbeside⟩ := h.read hk
  unfold Reader.block? at hblock ⊢
  rw [if_pos hlength] at hblock
  cases hblock
  rw [if_pos (hfst ▸ hlength)]
  refine ⟨(r'.read blockSize).2, ?_, hbeside⟩
  have hpair : r'.read blockSize = ((r.read blockSize).1, (r'.read blockSize).2) :=
    Prod.ext hfst rfl
  exact congrArg (fun found => Except.ok (some found)) hpair

theorem block?_none (hk : n = r.position) : r'.block? = .ok none := by
  obtain ⟨-, hlength, -⟩ := h.read_short (k := blockSize) (by simp only [blockSize]; omega)
  rw [hk, Nat.sub_self] at hlength
  unfold Reader.block?
  rw [if_neg (by rw [hlength]; simp [blockSize]), h.cutEnding,
    if_pos (List.eq_nil_of_length_eq_zero hlength)]

theorem block?_cut (hk : r.position < n) (hk' : n < r.position + blockSize) :
    r'.block? = .error .cutBlock := by
  obtain ⟨-, hlength, -⟩ := h.read_short hk'
  unfold Reader.block?
  rw [if_neg (by rw [hlength]; omega), h.cutEnding, if_neg]
  intro hnil
  rw [hnil, List.length_nil] at hlength
  omega

theorem moved (next : Nat) : Beside bytes n { r with next } { r' with next } :=
  ⟨h.left, h.cutLeft, h.cutEnding, h.position, rfl, h.reached, h.whole⟩

theorem place {size : Nat} (hplace : r.place size = .ok r₁) :
    ∃ r₁', r'.place size = .ok r₁' ∧ Beside bytes n r₁ r₁' := by
  obtain ⟨hlimit, rfl⟩ := place_ok hplace
  unfold Reader.place
  rw [h.next, if_neg hlimit]
  exact ⟨_, rfl, h.moved _⟩

/-! Headers -/

section

variable (hreads : Reads bytes r)

include hreads

/-- The bytes end where the next header would start. -/
theorem header?_none (hskip : r.skip = .ok r₁) (hn : n = r.next) : r'.header? = .ok none := by
  obtain ⟨r₁', hskip', hbeside⟩ := h.skip hreads hskip (by omega)
  obtain ⟨-, hposition, -⟩ := skip_spec hreads hskip
  rw [Reader.header?, hskip']
  simp only
  rw [hbeside.block?_none (by omega)]

/-- The bytes end within the next header. -/
theorem header?_cut (hskip : r.skip = .ok r₁) (hn : r.next < n) (hn' : n < r.next + blockSize) :
    r'.header? = .error .cutBlock := by
  obtain ⟨r₁', hskip', hbeside⟩ := h.skip hreads hskip (by omega)
  obtain ⟨-, hposition, -⟩ := skip_spec hreads hskip
  rw [Reader.header?, hskip']
  simp only
  rw [hbeside.block?_cut (by omega) (by omega)]

theorem header? {head : Header} (hheader : r.header? = .ok (some (head, r₁)))
    (hn : r.next + blockSize ≤ n) :
    ∃ r₁', r'.header? = .ok (some (head, r₁')) ∧ Beside bytes n r₁ r₁' := by
  obtain ⟨r₀, bs, r₂, hskip, hblock, hblank, rfl, rfl⟩ := header?_some hheader
  obtain ⟨r₀', hskip', hbeside⟩ := h.skip hreads hskip (by omega)
  obtain ⟨-, hposition, -⟩ := skip_spec hreads hskip
  obtain ⟨r₂', hblock', hbeside₂⟩ := hbeside.block? hblock (by omega)
  rw [Reader.header?, hskip']
  simp only
  rw [hblock']
  simp only
  rw [if_neg (by simp [hblank]), hbeside₂.next]
  exact ⟨_, rfl, hbeside₂.moved _⟩

/-- A block of zeros that is there ends both. -/
theorem header?_blank {bs : Bytes} {r₂ : Reader} (hskip : r.skip = .ok r₁)
    (hblock : r₁.block? = .ok (some (bs, r₂))) (hblank : Header.isBlank ⟨bs⟩ = true)
    (hn : r.next + blockSize ≤ n) : r'.header? = .ok none := by
  obtain ⟨r₁', hskip', hbeside⟩ := h.skip hreads hskip (by omega)
  obtain ⟨-, hposition, -⟩ := skip_spec hreads hskip
  obtain ⟨r₂', hblock', -⟩ := hbeside.block? hblock (by omega)
  rw [Reader.header?, hskip']
  simp only
  rw [hblock']
  simp only
  rw [if_pos hblank]

end

/-! Data -/

/-- Data that is there whole is the same for both. -/
theorem body (size : Nat) (hn : r.position + size ≤ n) :
    (r'.body size).1 = (r.body size).1 ∧ Beside bytes n (r.body size).2 (r'.body size).2 := by
  obtain ⟨hfst, hlength, hbeside⟩ := h.read hn
  refine ⟨?_, hbeside⟩
  simp only [Reader.body, hfst, hlength, if_pos]

theorem body_cut (size : Nat) (hn : n < r.position + size) (hroom : n < r.next)
    (hnear : r.next < r.position + limit) :
    (r'.body size).1 = ⟨(r.body size).1.bytes.take (n - r.position), some .done⟩ ∧
      Stalled (r'.body size).2 := by
  obtain ⟨hfst, hlength, hleft⟩ := h.read_short hn
  have hreached := h.reached
  refine ⟨?_, ?_, ?_, h.cutEnding⟩
  · simp only [Reader.body]
    rw [hfst, if_neg, h.cutEnding]
    rw [← hfst, hlength]
    omega
  · simp only [Reader.body]
    rw [hleft, position_read, next_read, hlength, h.position, h.next]
    simp only [List.length_nil]
    omega
  · simp only [Reader.body]
    rw [position_read, next_read, hlength, h.position, h.next]
    omega

/-! Sparse maps -/

/-- Where the bytes end within a block or before it, there is no map. -/
theorem sparseBlocks_cut (m : SparseMap) (hn : n < r.position + blockSize) :
    ∃ e, Reader.sparseBlocks m r' = .error e := by
  have hblock : r'.block? = .ok none ∨ r'.block? = .error .cutBlock := by
    rcases Nat.eq_or_lt_of_le h.reached with heq | hlt
    · exact Or.inl (h.block?_none heq.symm)
    · exact Or.inr (h.block?_cut hlt hn)
  rw [Reader.sparseBlocks]
  split
  · next e _ => exact ⟨e, rfl⟩
  · exact ⟨_, rfl⟩
  · next bs r₂ hsome =>
    rw [hsome] at hblock
    rcases hblock with hblock | hblock <;> cases hblock

theorem sparseBlocks {m m' : SparseMap} (hreads : Reads bytes r)
    (hblocks : Reader.sparseBlocks m r = .ok (m', r₁)) :
    (∃ r₁', Reader.sparseBlocks m r' = .ok (m', r₁') ∧ Beside bytes n r₁ r₁') ∨
      n < r₁.next ∧ ∃ e, Reader.sparseBlocks m r' = .error e := by
  fun_induction Reader.sparseBlocks m r generalizing r' with
  | case1 | case2 | case3 => cases hblocks
  | case4 m r bs r₂ hb m₁ hm hx ih =>
    have hreads₂ := reads_block? hreads hb
    obtain ⟨-, hnext⟩ := sparseBlocks_spec hreads₂ hblocks
    obtain ⟨-, -, -, -, hsame⟩ := block?_spec hreads hb
    have hbehind := hreads.behind
    rcases Nat.lt_or_ge n (r.position + blockSize) with hn | hn
    · refine Or.inr ⟨?_, h.sparseBlocks_cut m hn⟩
      simp only [hsame] at hnext
      omega
    · obtain ⟨r₂', hb', hbeside⟩ := h.block? hb hn
      rw [sparseBlocks_of_block hb', hm]
      simp only
      rw [if_pos hx, hbeside.next]
      exact ih (hbeside.moved _) hreads₂ hblocks
  | case5 m r bs r₂ hb m₁ hm hx =>
    obtain ⟨-, -, -, -, hsame⟩ := block?_spec hreads hb
    have hbehind := hreads.behind
    cases hblocks
    rcases Nat.lt_or_ge n (r.position + blockSize) with hn | hn
    · refine Or.inr ⟨?_, h.sparseBlocks_cut m hn⟩
      simp only [hsame]
      omega
    · obtain ⟨r₂', hb', hbeside⟩ := h.block? hb hn
      rw [sparseBlocks_of_block hb', hm]
      simp only
      rw [if_neg hx, hbeside.next]
      exact Or.inl ⟨_, rfl, hbeside.moved _⟩

theorem sparseMap {head : Header} {size : Nat} {m : SparseMap} (hreads : Reads bytes r)
    (hmap : r.sparseMap head size = .ok (m, r₁)) :
    (∃ r₁', r'.sparseMap head size = .ok (m, r₁') ∧ Beside bytes n r₁ r₁') ∨
      n < r₁.next ∧ ∃ e, r'.sparseMap head size = .error e := by
  unfold Reader.sparseMap at hmap ⊢
  split at hmap
  · cases hmap
  · next m₁ hm₁ =>
    split at hmap
    · next hmore =>
      rw [if_pos hmore]
      exact h.sparseBlocks hreads hmap
    · next hlast =>
      cases hmap
      rw [if_neg hlast]
      exact Or.inl ⟨r', rfl, h⟩

/-! Members -/

theorem member {x : Extensions} {head : Header} {m : Member} (hreads : Reads bytes r)
    (hat : r.position = r.next) (hn : n < bytes.length) (hmember : r.member x head = .ok (m, r₁)) :
    (∃ r₁', r'.member x head = .ok (m, r₁') ∧ Beside bytes n r₁ r₁' ∧
        r.position + m.body.bytes.length ≤ n) ∨
      (∃ r₁', r'.member x head = .ok (m.upTo (n - r.position), r₁') ∧ Stalled r₁' ∧
        n < r.position + m.body.bytes.length) ∨
      head.kind = .sparse ∧ n < r₁.next ∧ ∃ e, r'.member x head = .error e := by
  have hreached := h.reached
  obtain ⟨size, r₂, hsize, hplace, hrest⟩ := member_ok hmember
  obtain ⟨r₂', hplace', hbeside⟩ := h.place hplace
  obtain ⟨hreads₂, hposition, hle, hroom⟩ := place_spec hreads hat hplace
  unfold Reader.member
  simp only [hsize, hplace']
  generalize x.size?.getD size = size at hrest hroom ⊢
  rcases hrest with ⟨hkind, rfl, rfl⟩ | ⟨hkind, hformat, rfl, map, hmap, hcheck⟩
  · simp only [if_neg hkind]
    have hlength : (r₂.body size).1.bytes.length = min size (bytes.length - r.position) := by
      rw [← hposition, ← List.length_drop, ← hbeside.left]
      exact length_read r₂ size
    rcases Nat.lt_or_ge n (r.position + size) with hcut | hthere
    · obtain ⟨hbody, hstalled⟩ := hbeside.body_cut size (by omega) (by omega) hreads₂.near
      refine Or.inr (Or.inl ⟨(r₂'.body size).2, ?_, hstalled, ?_⟩)
      · rw [hbody, ← hposition]
        rfl
      · simp only [hlength]
        omega
    · obtain ⟨hbody, hbeside'⟩ := hbeside.body size (by omega)
      refine Or.inl ⟨(r₂'.body size).2, ?_, hbeside', ?_⟩
      · rw [hbody]
      · simp only [hlength]
        omega
  · simp only [if_pos hkind, if_neg (fun hne : head.format ≠ .gnu => hne hformat)]
    rcases hbeside.sparseMap hreads₂ hmap with ⟨r₁', hmap', hbeside'⟩ | ⟨hlt, e, hmap'⟩
    · simp only [hmap', hcheck]
      exact Or.inl ⟨r₁', rfl, hbeside', by simpa using hreached⟩
    · simp only [hmap']
      exact Or.inr (Or.inr ⟨hkind, hlt, e, rfl⟩)

theorem extension {x x' : Extensions} {head : Header} (hreads : Reads bytes r)
    (hat : r.position = r.next) (hextension : r.extension x head = .ok (x', r₁)) :
    (∃ r₁', r'.extension x head = .ok (x', r₁') ∧ Beside bytes n r₁ r₁') ∨
      n < r₁.next ∧ ∃ x'' r₁', r'.extension x head = .ok (x'', r₁') ∧ Stalled r₁' := by
  obtain ⟨size, r₂, bs, hsize, hplace, hrepeated, hdata, rfl⟩ := extension_ok hextension
  obtain ⟨r₂', hplace', hbeside⟩ := h.place hplace
  obtain ⟨hreads₂, hposition, hle, hroom⟩ := place_spec hreads hat hplace
  have hread := data_spec hdata
  have hdata' : r₂'.data size = .ok (r₂'.read size) := by rw [data, hbeside.cutEnding]
  unfold Reader.extension
  simp only [hsize, hplace', hrepeated, hdata']
  rcases Nat.lt_or_ge n (r.position + size) with hcut | hthere
  · obtain ⟨-, hstalled⟩ := hbeside.body_cut size (by omega) (by omega) hreads₂.near
    have hnext : r₁.next = r₂.next := by rw [← next_read r₂ size, hread]
    exact Or.inr ⟨by omega, _, _, rfl, hstalled⟩
  · obtain ⟨hfst, -, hbeside'⟩ := hbeside.read (k := size) (by omega)
    rw [hread] at hfst hbeside'
    refine Or.inl ⟨(r₂'.read size).2, ?_, hbeside'⟩
    rw [hfst]

end Beside

end Reader

/-- What a listing of the first bytes of a stream holds, the next member of which has its first
header at a position that is reached. -/
inductive CutListing (n : Nat) : Nat → List Span → Option Nat → Listing → Prop
  | boundary (spans : List Span) (marker : Option Nat) :
    CutListing n n spans marker (.stop (.ok ()))
  | marked {start marker : Nat} (behind : marker ≤ n) :
      CutListing n start [] (some marker) (.stop (.ok ()))
  | inMarker {start marker : Nat} (begun : start < n) (within : n < marker) :
      CutListing n start [] (some marker) (.stop (.error .cutBlock))
  | inHeaders {s : Span} {rest : List Span} {marker : Option Nat} (e : Error) (begun : s.start < n)
      (within : n < s.stop) (early : n < s.data ∨ s.member.kind = .sparse) :
      CutListing n s.start (s :: rest) marker (.stop (.error e))
  | inData {s : Span} {rest : List Span} {marker : Option Nat} (begun : s.data ≤ n)
      (within : n < s.data + s.member.body.bytes.length) :
      CutListing n s.start (s :: rest) marker
        ⟨[s.member.upTo (n - s.data)], .error .cutSkip⟩
  | inPadding {s : Span} {rest : List Span} {marker : Option Nat}
      (begun : s.data + s.member.body.bytes.length ≤ n) (within : n < s.stop) :
      CutListing n s.start (s :: rest) marker ⟨[s.member], .error .cutSkip⟩
  | behind {s : Span} {rest : List Span} {marker : Option Nat} {l : Listing} (ended : s.stop ≤ n)
      (later : CutListing n s.stop rest marker l) :
      CutListing n s.start (s :: rest) marker (l.cons s.member)

theorem members_of_nothing {x : Extensions} {r : Reader} (hheader : r.header? = .ok none) :
    members x r = .stop (if x.isEmpty then .ok () else .error .nothingDescribed) := by
  rw [members]
  split
  · next he =>
    rw [hheader] at he
    cases he
  · rfl
  · next he =>
    rw [hheader] at he
    cases he

theorem members_of_broken {x : Extensions} {r : Reader} {e : Error}
    (hheader : r.header? = .error e) : members x r = .stop (.error e) := by
  rw [members]
  split
  · next he =>
    rw [hheader] at he
    cases he
    rfl
  · next he =>
    rw [hheader] at he
    cases he
  · next he =>
    rw [hheader] at he
    cases he

theorem Extensions.isEmpty_iff {x : Extensions} : x.isEmpty = true ↔ x = .empty := by
  rw [isEmpty, decide_eq_true_eq]

/-- Where a header is still to be read for a member, its data is further on. -/
theorem Walk.first {bytes : Bytes} {x : Extensions} {start : Nat} {r : Reader} {spans : List Span}
    {marker : Option Nat} (hwalk : Walk x start r spans marker) (hreads : r.Reads bytes)
    (hx : x ≠ .empty) :
    ∃ s rest, spans = s :: rest ∧ s.start = start ∧ r.next + blockSize ≤ s.data ∧
      s.data ≤ s.stop := by
  induction hwalk with
  | ended | marked => exact absurd rfl hx
  | @member x start r r₁ r₂ head m rest marker hheader hcheck hrole hreading hbehind ih =>
    obtain ⟨-, h₁, hposition, hnext⟩ := Reader.header?_spec hreads hheader
    obtain ⟨-, -, -, hroom⟩ := Reader.member_spec h₁ (hposition.trans hnext.symm) hreading
    exact ⟨_, rest, rfl, rfl, Nat.le_of_eq hposition.symm, by simp only; omega⟩
  | @extension x x' start r r₁ r₂ head spans marker hheader hcheck hrole hreading hbehind ih =>
    obtain ⟨-, h₁, hposition, hnext⟩ := Reader.header?_spec hreads hheader
    obtain ⟨h₂, hle⟩ := Reader.extension_spec h₁ (hposition.trans hnext.symm) hreading
    obtain ⟨size, -, bs, -, -, -, -, rfl⟩ := Reader.extension_ok hreading
    obtain ⟨s, rest, rfl, hstart, hdata, hstop⟩ := ih h₂ (extend_ne_empty bs hrole)
    exact ⟨s, rest, rfl, hstart, by omega, hstop⟩

/-- A member starts with the header to be read next, or with an earlier one for it. -/
theorem begun_of_extensions {x : Extensions} {start next : Nat} (hempty : x = .empty → next = start)
    (hextended : x ≠ .empty → start < next) : start ≤ next := by
  by_cases hx : x = .empty
  · exact Nat.le_of_eq (hempty hx).symm
  · exact Nat.le_of_lt (hextended hx)

/-- The bytes end before a header of a member, or within it. -/
theorem cut_in_header {bytes : Bytes} {n : Nat} {x : Extensions} {r r' : Reader} {s : Span}
    {rest : List Span} {marker : Option Nat} {found : Header × Reader} (hreads : r.Reads bytes)
    (h : Reader.Beside bytes n r r') (hheader : r.header? = .ok (some found))
    (hreached : r.next ≤ n) (hcut : n < r.next + blockSize) (hempty : x = .empty → r.next = s.start)
    (hextended : x ≠ .empty → s.start < r.next) (hdata : r.next + blockSize ≤ s.data)
    (hstop : s.data ≤ s.stop) :
    CutListing n s.start (s :: rest) marker (members x r') := by
  obtain ⟨r₀, -, -, hskip, -⟩ := Reader.header?_some hheader
  rcases Nat.eq_or_lt_of_le hreached with heq | hlt
  · rw [members_of_nothing (h.header?_none hreads hskip heq.symm)]
    by_cases hx : x = .empty
    · rw [if_pos (Extensions.isEmpty_iff.mpr hx), ← hempty hx, heq]
      exact .boundary _ _
    · rw [if_neg (fun hx' => hx (Extensions.isEmpty_iff.mp hx'))]
      have hbegun := hextended hx
      exact .inHeaders _ (by omega) (by omega) (Or.inl (by omega))
  · rw [members_of_broken (h.header?_cut hreads hskip hlt hcut)]
    have hbegun : s.start ≤ r.next := begun_of_extensions hempty hextended
    exact .inHeaders _ (by omega) (by omega) (Or.inl (by omega))

/-- The first bytes of a stream that is an archive, from a header on that is reached. -/
theorem Walk.cut {bytes : Bytes} {n : Nat} {x : Extensions} {start : Nat} {r r' : Reader}
    {spans : List Span} {marker : Option Nat} (hwalk : Walk x start r spans marker)
    (hreads : r.Reads bytes) (h : Reader.Beside bytes n r r') (hn : n < bytes.length)
    (hreached : r.next ≤ n) (hempty : x = .empty → r.next = start)
    (hextended : x ≠ .empty → start < r.next) :
    CutListing n start spans marker (members x r') := by
  induction hwalk generalizing r' with
  | @ended r r₁ start hskip hnothing =>
    obtain ⟨h₁, hposition, -⟩ := Reader.skip_spec hreads hskip
    have := Reader.nothing_left h₁.left hnothing
    omega
  | @marked r r₁ r₂ bs start hskip hblock hblank =>
    obtain rfl := hempty rfl
    rcases Nat.eq_or_lt_of_le hreached with heq | hlt
    · rw [members_of_nothing (h.header?_none hreads hskip heq.symm)]
      subst heq
      exact .boundary [] _
    · rcases Nat.lt_or_ge n (r.next + blockSize) with hcut | hthere
      · rw [members_of_broken (h.header?_cut hreads hskip hlt hcut)]
        exact .inMarker hlt hcut
      · rw [members_of_nothing (h.header?_blank hreads hskip hblock hblank hthere)]
        exact .marked hthere
  | @member x start r r₁ r₂ head m rest marker hheader hcheck hrole hreading hbehind ih =>
    obtain ⟨-, h₁, hposition, hnext⟩ := Reader.header?_spec hreads hheader
    obtain ⟨hhead, -, h₂, hroom⟩ := Reader.member_spec h₁ (hposition.trans hnext.symm) hreading
    let s : Span := ⟨m, start, r₁.position, r₂.next⟩
    change CutListing n s.start (s :: rest) marker (members x r')
    have hdata : r.next + blockSize = s.data := hposition.symm
    have hstop : s.data + m.body.bytes.length ≤ s.stop := by
      change r₁.position + _ ≤ r₂.next
      omega
    rcases Nat.lt_or_ge n (r.next + blockSize) with hcut | hthere
    · exact cut_in_header hreads h hheader hreached hcut hempty hextended (Nat.le_of_eq hdata)
        (by omega)
    have hbegun : s.start ≤ r.next := begun_of_extensions hempty hextended
    obtain ⟨r₁', hheader', hbeside⟩ := h.header? hreads hheader hthere
    rcases hbeside.member h₁ (hposition.trans hnext.symm) hn hreading with
      ⟨r₂', hmember, hbeside₂, hlast⟩ |
      ⟨r₂', hmember, hstalled, hcut⟩ | ⟨hsparse, hcut, e, hmember⟩
    · rw [members_of_member hheader' hcheck hrole hmember]
      rcases Nat.lt_or_ge n r₂.next with hcut | hended
      · rw [(hbeside₂.stalled h₂.near hcut).members]
        exact .inPadding hlast hcut
      · exact .behind hended (ih h₂ hbeside₂ hended (fun _ => rfl) fun hne => absurd rfl hne)
    · rw [members_of_member hheader' hcheck hrole hmember, hstalled.members]
      exact .inData (by omega) hcut
    · rw [members_of_error hheader' hcheck hrole hmember]
      have hkind : s.member.kind = .sparse := by
        change m.header.kind = .sparse
        rw [hhead, hsparse]
      exact .inHeaders e (by simp only [blockSize] at hthere; omega) hcut (Or.inr hkind)
  | @extension x x' start r r₁ r₂ head spans marker hheader hcheck hrole hreading hbehind ih =>
    obtain ⟨-, h₁, hposition, hnext⟩ := Reader.header?_spec hreads hheader
    obtain ⟨h₂, hle⟩ := Reader.extension_spec h₁ (hposition.trans hnext.symm) hreading
    obtain ⟨size, -, bs, -, -, -, -, hx'⟩ := Reader.extension_ok hreading
    have hne : x' ≠ .empty := hx' ▸ extend_ne_empty bs hrole
    obtain ⟨s, rest, rfl, rfl, hdata, hstop⟩ := hbehind.first h₂ hne
    rcases Nat.lt_or_ge n (r.next + blockSize) with hcut | hthere
    · exact cut_in_header hreads h hheader hreached hcut hempty hextended (by omega) hstop
    have hbegun : s.start ≤ r.next := begun_of_extensions hempty hextended
    obtain ⟨r₁', hheader', hbeside⟩ := h.header? hreads hheader hthere
    have hlater : s.start < r₂.next := by
      simp only [blockSize] at hnext
      omega
    have hcutHere (hcut : n < r₂.next) {l : Listing} (hl : l = .stop (.error .cutSkip)) :
        CutListing n s.start (s :: rest) marker l := by
      rw [hl]
      exact .inHeaders _ (by simp only [blockSize] at hthere; omega) (by omega) (Or.inl (by omega))
    rcases hbeside.extension h₁ (hposition.trans hnext.symm) hreading with
      ⟨r₂', hextension, hbeside₂⟩ |
      ⟨hcut, x'', r₂', hextension, hstalled⟩
    · rw [members_of_extension hheader' hcheck hrole hextension]
      rcases Nat.lt_or_ge n r₂.next with hcut | hended
      · exact hcutHere hcut ((hbeside₂.stalled h₂.near hcut).members x')
      · exact ih h₂ hbeside₂ hended (fun hx => absurd hx hne) fun _ => hlater
    · rw [members_of_extension hheader' hcheck hrole hextension]
      exact hcutHere hcut (hstalled.members x'')

/-- The first bytes of a stream that is an archive. -/
theorem list_cut {source cut : ByteSource} {n : Nat} {spans : List Span} {marker : Option Nat}
    (hwalk : Walk .empty 0 (.start source) spans marker) (hcut : cut.bytes = source.bytes.take n)
    (hending : cut.ending = .done) (hn : n < source.bytes.length) :
    CutListing n 0 spans marker (list cut) := by
  have hbeside : Reader.Beside source.bytes n (.start source) (.start cut) :=
    ⟨rfl, hcut, hending, rfl, rfl, Nat.zero_le n, Nat.le_of_lt hn⟩
  exact hwalk.cut (Reader.reads_start source) hbeside hn (Nat.zero_le n) (fun _ => rfl)
    fun hne => absurd rfl hne

end NodeLogs.Archive
