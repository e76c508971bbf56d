import NodeLogs.Proofs.Archive.Pieces
import NodeLogs.Proofs.Unpack.RoundTrip

/-!
Unpacking a stream that comes in pieces. Nothing that unpacking does or tells depends on where one
piece ends and the next one starts: not what it finds in the archive, nor how far the data of a file
came that broke off.
-/

namespace NodeLogs

/-- The reads that deliver some bytes, each of them at least one. -/
structure Splitting (bs : Bytes) where
  pieces : List Bytes
  flows : ∀ piece ∈ pieces, piece ≠ []
  joined : pieces.flatten = bs

namespace Splitting

variable {bs : Bytes}

def source (s : Splitting bs) (ending : Ending) : ByteSource := ⟨s.pieces, ending⟩

def singly (bs : Bytes) : Splitting bs where
  pieces := bs.map ([·])
  flows := by simp
  joined := by rw [← List.flatMap_def, List.flatMap_singleton']

def atOnce (h : bs ≠ []) : Splitting bs where
  pieces := [bs]
  flows := by simpa using h
  joined := by simp

theorem sameBytes (s s' : Splitting bs) (ending : Ending) :
    (s.source ending).SameBytes (s'.source ending) :=
  ⟨s.joined.trans s'.joined.symm, rfl⟩

end Splitting

namespace Unpack

/-- However a stream is split into reads, and whether it then ends or fails, unpacking it has the
same result, log and changes; and wherever it reads through a buffer, of whatever size, it gets the
bytes that are asked for, as far as the stream has them. -/
theorem unpacking_depends_on_bytes_alone {bs : Bytes} (s s' : Splitting bs) (ending : Ending)
    (dest : HostPath) (t : FileTree) :
    (∀ buffer n, 0 < buffer →
      ((s.source ending).gather buffer n).1 = bs.take n ∧
        ((s.source ending).gather buffer n).2.bytes = bs.drop n) ∧
      unpack (s.source ending) dest t = unpack (s'.source ending) dest t := by
  constructor
  · intro buffer n hbuffer
    obtain ⟨hfst, hleft⟩ := ByteSource.gather_spec hbuffer n (s.source ending) s.flows
    have hbytes : (s.source ending).bytes = bs := s.joined
    constructor
    · rw [hfst, ByteSource.read_fst, hbytes]
    · rw [hleft.bytes, ByteSource.bytes_read, hbytes]
  · unfold unpack
    rw [Archive.list_sameBytes (s.sameBytes s' ending)]

theorem smallTree_in_single_bytes :
    let bs := smallTree.flatMap Archive.Item.bytes
    ∃ h : bs ≠ [],
      unpack ((Splitting.singly bs).source (.failed (.os .noSpace))) ⟨"/"⟩ ⟨{}, []⟩ =
        unpack ((Splitting.atOnce h).source (.failed (.os .noSpace))) ⟨"/"⟩ ⟨{}, []⟩ := by
  intro bs
  have hbs : bs ≠ [] := by
    intro hnil
    have hlength := congrArg List.length hnil
    simp only [bs, smallTree, List.flatMap_cons, List.flatMap_nil, List.length_append,
      Archive.Item.length_bytes, List.length_nil] at hlength
    revert hlength
    decide +kernel
  exact ⟨hbs, (unpacking_depends_on_bytes_alone _ _ _ _ _).2⟩

end Unpack

end NodeLogs
