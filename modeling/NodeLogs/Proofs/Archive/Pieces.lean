import NodeLogs.Proofs.Archive.Positions
import Mathlib.Data.Option.Defs

/-!
Streams that come in different pieces. Two readers whose streams still deliver the same bytes, and
end alike after them, take the same bytes whatever they ask for, and are at the same place again
behind them. So an archive has the same members and ends in the same way however its stream is cut.
-/

namespace NodeLogs

namespace ByteSource

/-- Streams that deliver the same bytes and then end alike, in whatever pieces. -/
structure SameBytes (s s' : ByteSource) : Prop where
  bytes : s.bytes = s'.bytes
  ending : s.ending = s'.ending

theorem SameBytes.read {s s' : ByteSource} (h : SameBytes s s') (n : Nat) :
    (s.read n).1 = (s'.read n).1 ∧ SameBytes (s.read n).2 (s'.read n).2 := by
  constructor
  · rw [read_fst, read_fst, h.bytes]
  · constructor
    · rw [bytes_read, bytes_read, h.bytes]
    · exact h.ending

/-- A single read, which gets bytes of one piece only. It gets none at the end of the stream. -/
def pull (most : Nat) (s : ByteSource) : Bytes × ByteSource :=
  match s.chunks with
  | [] => ([], s)
  | chunk :: rest =>
    if most < chunk.length then (chunk.take most, ⟨chunk.drop most :: rest, s.ending⟩)
    else (chunk, ⟨rest, s.ending⟩)

/-- No piece of the stream would be taken for its end. -/
def Flows (s : ByteSource) : Prop := ∀ chunk ∈ s.chunks, chunk ≠ []

theorem length_pull_le (most : Nat) (s : ByteSource) : (s.pull most).1.length ≤ most := by
  unfold pull
  split
  · exact Nat.zero_le _
  · split
    · exact List.length_take_le _ _
    · next hle => exact Nat.le_of_not_lt hle

theorem pull_spec (most : Nat) (s : ByteSource) :
    s.bytes = (s.pull most).1 ++ (s.pull most).2.bytes ∧ (s.pull most).2.ending = s.ending := by
  obtain ⟨chunks, ending⟩ := s
  cases chunks with
  | nil => exact ⟨rfl, rfl⟩
  | cons chunk rest =>
    simp only [pull]
    split
    · simp [bytes, ← List.append_assoc]
    · simp [bytes]

theorem Flows.pull {s : ByteSource} (h : Flows s) (most : Nat) : Flows (s.pull most).2 := by
  obtain ⟨chunks, ending⟩ := s
  cases chunks with
  | nil => exact h
  | cons chunk rest =>
    obtain ⟨-, hrest⟩ := List.forall_mem_cons.mp h
    simp only [ByteSource.pull]
    split
    · next hlt =>
      have hmore : chunk.drop most ≠ [] := by
        intro hnil
        have := List.drop_eq_nil_iff.mp hnil
        omega
      exact List.forall_mem_cons.mpr ⟨hmore, hrest⟩
    · exact hrest

theorem Flows.of_pull_nil {s : ByteSource} (h : Flows s) {most : Nat} (hmost : 0 < most)
    (hnil : (s.pull most).1 = []) : s.bytes = [] := by
  obtain ⟨chunks, ending⟩ := s
  cases chunks with
  | nil => rfl
  | cons chunk rest =>
    have hchunk : chunk ≠ [] := h chunk List.mem_cons_self
    simp only [ByteSource.pull] at hnil
    split at hnil
    · rcases List.take_eq_nil_iff.mp hnil with hzero | hempty
      · omega
      · exact absurd hempty hchunk
    · exact absurd hnil hchunk

/-- Reads again and again through a buffer of this size, until `n` bytes have come or a read gets
none. -/
def gather (buffer n : Nat) (s : ByteSource) : Bytes × ByteSource :=
  if _h : (s.pull (min buffer n)).1 = [] then s.pull (min buffer n)
  else
    let more := gather buffer (n - (s.pull (min buffer n)).1.length) (s.pull (min buffer n)).2
    ((s.pull (min buffer n)).1 ++ more.1, more.2)
termination_by n
decreasing_by
  have hle := length_pull_le (min buffer n) s
  have hpos := List.length_pos_iff.mpr _h
  omega

/-- Reading through a buffer gets what one read of all the bytes gets, and leaves the same. -/
theorem gather_spec {buffer : Nat} (hbuffer : 0 < buffer) (n : Nat) (s : ByteSource) (h : Flows s) :
    (s.gather buffer n).1 = (s.read n).1 ∧ SameBytes (s.gather buffer n).2 (s.read n).2 := by
  suffices hgather : (s.gather buffer n).1 = s.bytes.take n ∧
      (s.gather buffer n).2.bytes = s.bytes.drop n ∧ (s.gather buffer n).2.ending = s.ending by
    obtain ⟨htake, hdrop, hending⟩ := hgather
    exact ⟨by rw [htake, read_fst], ⟨by rw [hdrop, bytes_read], hending⟩⟩
  fun_induction gather buffer n s with
  | case1 n s hnil =>
    obtain ⟨hbytes, hending⟩ := pull_spec (min buffer n) s
    rw [hnil, List.nil_append] at hbytes
    refine ⟨?_, ?_, hending⟩
    · rw [hnil]
      rcases Nat.eq_zero_or_pos n with rfl | hn
      · rfl
      · rw [h.of_pull_nil (by omega) hnil, List.take_nil]
    · rw [← hbytes]
      rcases Nat.eq_zero_or_pos n with rfl | hn
      · rfl
      · rw [h.of_pull_nil (by omega) hnil, List.drop_nil]
  | case2 n s hsome more ih =>
    obtain ⟨hbytes, hending⟩ := pull_spec (min buffer n) s
    obtain ⟨htake, hdrop, hlast⟩ := ih (h.pull _)
    have hle := length_pull_le (min buffer n) s
    have hall : (s.pull (min buffer n)).1.take n = (s.pull (min buffer n)).1 :=
      List.take_of_length_le (by omega)
    have hnone : (s.pull (min buffer n)).1.drop n = [] := List.drop_of_length_le (by omega)
    refine ⟨?_, ?_, ?_⟩
    · rw [hbytes, List.take_append, hall, ← htake]
    · rw [hbytes, List.drop_append, hnone, List.nil_append]
      exact hdrop
    · rw [← hending]
      exact hlast

end ByteSource

namespace Archive

/-- The same error twice, or two results that belong together. -/
inductive Together {α : Type} (belongs : α → α → Prop) : Except Error α → Except Error α → Prop
  | failed (e : Error) : Together belongs (.error e) (.error e)
  | done {a a' : α} (both : belongs a a') : Together belongs (.ok a) (.ok a')

namespace Together

variable {α : Type} {belongs : α → α → Prop} {result result' : Except Error α}

theorem of_failed (h : Together belongs result result') {e : Error} (he : result = .error e) :
    result' = .error e := by
  subst he
  cases h with
  | failed => rfl

theorem of_done (h : Together belongs result result') {a : α} (ha : result = .ok a) :
    ∃ a', result' = .ok a' ∧ belongs a a' := by
  subst ha
  cases h with
  | done both => exact ⟨_, rfl, both⟩

end Together

namespace Reader

/-- Readers at the same place of streams that deliver the same bytes from there on. -/
structure Alike (r r' : Reader) : Prop where
  source : r.source.SameBytes r'.source
  position : r.position = r'.position
  next : r.next = r'.next

/-- The same found by both, and the readers behind it alike. -/
def Found {α : Type} (found found' : α × Reader) : Prop :=
  found.1 = found'.1 ∧ Alike found.2 found'.2

theorem found_none {α : Type} {result result' : Except Error (Option (α × Reader))}
    (h : Together (Option.Rel Found) result result') (hnone : result = .ok none) :
    result' = .ok none := by
  obtain ⟨found', hresult', hboth⟩ := h.of_done hnone
  cases hboth with
  | none => exact hresult'

theorem found_some {α : Type} {result result' : Except Error (Option (α × Reader))}
    (h : Together (Option.Rel Found) result result') {a : α} {r : Reader}
    (hsome : result = .ok (some (a, r))) : ∃ r', result' = .ok (some (a, r')) ∧ Alike r r' := by
  obtain ⟨found', hresult', hboth⟩ := h.of_done hsome
  cases hboth with
  | @some _ found' hfound =>
    obtain ⟨a', r'⟩ := found'
    obtain ⟨rfl, halike⟩ := hfound
    exact ⟨r', hresult', halike⟩

namespace Alike

variable {r r' : Reader}

theorem moved (h : Alike r r') (n : Nat) : Alike { r with next := n } { r' with next := n } :=
  ⟨h.source, h.position, rfl⟩

theorem read (h : Alike r r') (n : Nat) : Found (r.read n) (r'.read n) := by
  obtain ⟨hbytes, hsource⟩ := h.source.read n
  constructor
  · exact hbytes
  · constructor
    · exact hsource
    · change r.position + (r.source.read n).1.length = r'.position + (r'.source.read n).1.length
      rw [h.position, hbytes]
    · exact h.next

theorem gap (h : Alike r r') : r.gap = r'.gap := by rw [Reader.gap, Reader.gap, h.next, h.position]

theorem skip (h : Alike r r') : Together Alike r.skip r'.skip := by
  obtain ⟨hbytes, hreader⟩ := h.read r'.gap
  unfold Reader.skip
  rw [h.gap, hbytes, h.source.ending]
  split
  · exact .done hreader
  · split
    · exact .failed _
    · exact .failed _

theorem block? (h : Alike r r') : Together (Option.Rel Found) r.block? r'.block? := by
  have hfound := h.read blockSize
  unfold Reader.block?
  rw [hfound.1, h.source.ending]
  split
  · exact .done (.some hfound)
  · split
    · exact .failed _
    · split
      · exact .done .none
      · exact .failed _

theorem header? (h : Alike r r') : Together (Option.Rel Found) r.header? r'.header? := by
  have hskip := h.skip
  unfold Reader.header?
  generalize r.skip = skipped, r'.skip = skipped' at hskip ⊢
  cases hskip with
  | failed e => exact .failed e
  | @done r₁ r₁' h₁ =>
    have hblock := h₁.block?
    simp only
    generalize r₁.block? = block, r₁'.block? = block' at hblock ⊢
    cases hblock with
    | failed e => exact .failed e
    | done hboth =>
      cases hboth with
      | none => exact .done .none
      | @some found found' hfound =>
        obtain ⟨bs, r₂⟩ := found
        obtain ⟨bs', r₂'⟩ := found'
        obtain ⟨rfl, h₂⟩ := hfound
        simp only
        split
        · exact .done .none
        · exact .done (.some ⟨rfl, h₂.source, h₂.position, congrArg (· + blockSize) h₂.next⟩)

theorem place (h : Alike r r') (size : Nat) : Together Alike (r.place size) (r'.place size) := by
  unfold Reader.place
  rw [h.next]
  split
  · exact .failed _
  · exact .done (h.moved _)

theorem data (h : Alike r r') (size : Nat) : Together Found (r.data size) (r'.data size) := by
  have hfound := h.read size
  unfold Reader.data
  rw [hfound.1, h.source.ending]
  split
  · split
    · exact .done hfound
    · exact .failed _
  · exact .done hfound

theorem body (h : Alike r r') (size : Nat) : Found (r.body size) (r'.body size) := by
  obtain ⟨hbytes, hreader⟩ := h.read size
  constructor
  · simp only [Reader.body, hbytes, h.source.ending]
  · exact hreader

/-- As long as both find a block that continues the map, they go on to the next one together. -/
theorem sparseBlocks (h : Alike r r') (m : SparseMap) :
    Together Found (Reader.sparseBlocks m r) (Reader.sparseBlocks m r') := by
  fun_induction Reader.sparseBlocks m r generalizing r' with
  | case1 m r e hblock =>
    rw [sparseBlocks_eq, h.block?.of_failed hblock]
    exact .failed e
  | case2 m r hblock =>
    rw [sparseBlocks_eq, found_none h.block? hblock]
    exact .failed _
  | case3 m r bs r₁ hblock e hmap =>
    obtain ⟨r₁', hblock', -⟩ := found_some h.block? hblock
    rw [sparseBlocks_eq, hblock']
    simp only [hmap]
    exact .failed e
  | case4 m r bs r₁ hblock map hmap hmore ih =>
    obtain ⟨r₁', hblock', h₁⟩ := found_some h.block? hblock
    rw [sparseBlocks_eq m r', hblock']
    simp only [hmap, if_pos hmore]
    exact ih ⟨h₁.source, h₁.position, congrArg (· + blockSize) h₁.next⟩
  | case5 m r bs r₁ hblock map hmap hlast =>
    obtain ⟨r₁', hblock', h₁⟩ := found_some h.block? hblock
    rw [sparseBlocks_eq, hblock']
    simp only [hmap, if_neg hlast]
    exact .done ⟨rfl, h₁.source, h₁.position, congrArg (· + blockSize) h₁.next⟩

theorem sparseMap (h : Alike r r') (head : Header) (size : Nat) :
    Together Found (r.sparseMap head size) (r'.sparseMap head size) := by
  unfold Reader.sparseMap
  split
  · exact .failed _
  · split
    · exact h.sparseBlocks _
    · exact .done ⟨rfl, h⟩

theorem member (h : Alike r r') (x : Extensions) (head : Header) :
    Together Found (r.member x head) (r'.member x head) := by
  unfold Reader.member
  split
  · exact .failed _
  · next size _ =>
    have hplace := h.place (x.size?.getD size)
    generalize r.place (x.size?.getD size) = placed, r'.place (x.size?.getD size) = placed'
      at hplace ⊢
    cases hplace with
    | failed e => exact .failed e
    | @done r₁ r₁' h₁ =>
      simp only
      split
      · split
        · exact .failed _
        · have hmap := h₁.sparseMap head (x.size?.getD size)
          generalize r₁.sparseMap head (x.size?.getD size) = map,
            r₁'.sparseMap head (x.size?.getD size) = map' at hmap ⊢
          cases hmap with
          | failed e => exact .failed e
          | @done found found' hfound =>
            obtain ⟨m, r₂⟩ := found
            obtain ⟨m', r₂'⟩ := found'
            obtain ⟨rfl, h₂⟩ := hfound
            simp only
            cases checkMap head m with
            | error e => exact .failed e
            | ok _ => exact .done ⟨rfl, h₂⟩
      · obtain ⟨hbody, hreader⟩ := h₁.body (x.size?.getD size)
        rw [hbody]
        exact .done ⟨rfl, hreader⟩

theorem extension (h : Alike r r') (x : Extensions) (head : Header) :
    Together Found (r.extension x head) (r'.extension x head) := by
  unfold Reader.extension
  split
  · exact .failed _
  · next size _ =>
    have hplace := h.place size
    generalize r.place size = placed, r'.place size = placed' at hplace ⊢
    cases hplace with
    | failed e => exact .failed e
    | @done r₁ r₁' h₁ =>
      simp only
      split
      · exact .failed _
      · have hdata := h₁.data size
        generalize r₁.data size = data, r₁'.data size = data' at hdata ⊢
        cases hdata with
        | failed e => exact .failed e
        | @done found found' hfound =>
          obtain ⟨bs, r₂⟩ := found
          obtain ⟨bs', r₂'⟩ := found'
          obtain ⟨rfl, h₂⟩ := hfound
          exact .done ⟨rfl, h₂⟩

end Alike

end Reader

/-- Alike readers come upon the same members, and upon the same end. -/
theorem members_alike (x : Extensions) {r r' : Reader} (h : r.Alike r') :
    members x r = members x r' := by
  fun_induction members x r generalizing r' with
  | case1 x r e hheader => rw [members_eq, h.header?.of_failed hheader]
  | case2 x r hheader => rw [members_eq, Reader.found_none h.header? hheader]
  | case3 x r head r₁ hheader e hcheck =>
    obtain ⟨r₁', hheader', -⟩ := Reader.found_some h.header? hheader
    rw [members_eq, hheader']
    simp only [hcheck]
  | case4 x r head r₁ hheader hcheck hrole e hmember =>
    obtain ⟨r₁', hheader', h₁⟩ := Reader.found_some h.header? hheader
    have hmember' := (h₁.member x head).of_failed hmember
    rw [members_eq, hheader']
    simp only [hcheck, if_pos hrole, hmember']
  | case5 x r head r₁ hheader hcheck hrole m r₂ hmember ih =>
    obtain ⟨r₁', hheader', h₁⟩ := Reader.found_some h.header? hheader
    obtain ⟨⟨m', r₂'⟩, hmember', rfl, h₂⟩ := (h₁.member x head).of_done hmember
    rw [members_eq x r', hheader']
    simp only [hcheck, if_pos hrole, hmember', ih h₂]
  | case6 x r head r₁ hheader hcheck hrole e hextension =>
    obtain ⟨r₁', hheader', h₁⟩ := Reader.found_some h.header? hheader
    have hextension' := (h₁.extension x head).of_failed hextension
    rw [members_eq, hheader']
    simp only [hcheck, if_neg hrole, hextension']
  | case7 x r head r₁ hheader hcheck hrole x' r₂ hextension ih =>
    obtain ⟨r₁', hheader', h₁⟩ := Reader.found_some h.header? hheader
    obtain ⟨⟨x'', r₂'⟩, hextension', rfl, h₂⟩ := (h₁.extension x head).of_done hextension
    rw [members_eq x r', hheader']
    simp only [hcheck, if_neg hrole, hextension', ih h₂]

/-- The members of an archive, and how its reading ends, are told by the bytes of its stream and the
way that these end. -/
theorem list_sameBytes {s s' : ByteSource} (h : s.SameBytes s') : list s = list s' :=
  members_alike .empty ⟨h, rfl, rfl⟩

end Archive

end NodeLogs
