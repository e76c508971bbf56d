import NodeLogs.OsError
import NodeLogs.Text.Utf8

/-!
Byte streams as a reader meets them: the bytes come in chunks, and after the last one the stream
ends or fails. What has been read does not depend on the chunks.
-/

namespace NodeLogs

inductive Ending where
  | done
  | failed (e : IoError)
deriving Repr, DecidableEq

structure ByteSource where
  chunks : List Bytes
  ending : Ending
deriving Repr, DecidableEq

namespace ByteSource

def ofBytes (bs : Bytes) : ByteSource := ⟨[bs], .done⟩

/-- Pieces of `size` bytes, the last one shorter where the bytes run out. -/
def pieces (size : Nat) (bs : Bytes) : List Bytes :=
  if size = 0 ∨ bs = [] then [bs] else bs.take size :: pieces size (bs.drop size)
termination_by bs.length
decreasing_by
  have : bs.length ≠ 0 := by simp_all
  simp only [List.length_drop]
  omega

def chunked (size : Nat) (bs : Bytes) (ending : Ending) : ByteSource :=
  ⟨pieces size bs, ending⟩

/-- All the bytes that the stream still delivers. -/
def bytes (s : ByteSource) : Bytes := s.chunks.flatten

/-- Reads chunk after chunk until `n` bytes have come or there are no more. -/
def takeChunks : Nat → List Bytes → Bytes × List Bytes
  | _, [] => ([], [])
  | n, chunk :: chunks =>
    if n < chunk.length then (chunk.take n, chunk.drop n :: chunks)
    else
      let (more, rest) := takeChunks (n - chunk.length) chunks
      (chunk ++ more, rest)

/-- The next `n` bytes, fewer only when the stream ends or fails before. -/
def read (n : Nat) (s : ByteSource) : Bytes × ByteSource :=
  let (bs, rest) := takeChunks n s.chunks
  (bs, ⟨rest, s.ending⟩)

theorem takeChunks_eq (n : Nat) (chunks : List Bytes) :
    (takeChunks n chunks).1 = chunks.flatten.take n ∧
      (takeChunks n chunks).2.flatten = chunks.flatten.drop n := by
  induction chunks generalizing n with
  | nil => simp [takeChunks]
  | cons chunk chunks ih =>
    rw [takeChunks]
    split
    · next h => simp [List.take_append, List.drop_append, Nat.sub_eq_zero_of_le (Nat.le_of_lt h)]
    · next h =>
      obtain ⟨h₁, h₂⟩ := ih (n - chunk.length)
      simp [h₁, h₂, List.take_append, List.drop_append, List.take_of_length_le (Nat.le_of_not_lt h),
        List.drop_of_length_le (Nat.le_of_not_lt h)]

theorem read_fst (n : Nat) (s : ByteSource) : (s.read n).1 = s.bytes.take n :=
  (takeChunks_eq n s.chunks).1

theorem bytes_read (n : Nat) (s : ByteSource) : (s.read n).2.bytes = s.bytes.drop n :=
  (takeChunks_eq n s.chunks).2

end ByteSource

end NodeLogs
