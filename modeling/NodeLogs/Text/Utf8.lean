/-!
UTF-8: the bytes of a text, and the text of bytes. Bytes that are no UTF-8 are read character by
character; what begins no character is dropped up to the longest piece that could still have
become one, and stands as one replacement character.
-/

namespace NodeLogs

abbrev Bytes := List UInt8

namespace Utf8

def encode (s : String) : Bytes :=
  s.toList.flatMap String.utf8EncodeChar

/-- What a leading byte promises: so many bytes follow, the first of them within bounds, and the
leading byte's own bits of the code point. -/
structure Lead where
  following : Nat
  low : UInt8
  high : UInt8
  bits : Nat
deriving Repr, DecidableEq

/-- The bounds shut out overlong forms, surrogates and code points past the last plane. -/
def lead? (b : UInt8) : Option Lead :=
  let n := b.toNat
  if n < 0x80 then some ⟨0, 0x80, 0xBF, n⟩
  else if n < 0xC2 then none
  else if n < 0xE0 then some ⟨1, 0x80, 0xBF, n - 0xC0⟩
  else if n = 0xE0 then some ⟨2, 0xA0, 0xBF, 0⟩
  else if n = 0xED then some ⟨2, 0x80, 0x9F, 0xD⟩
  else if n < 0xF0 then some ⟨2, 0x80, 0xBF, n - 0xE0⟩
  else if n = 0xF0 then some ⟨3, 0x90, 0xBF, 0⟩
  else if n < 0xF4 then some ⟨3, 0x80, 0xBF, n - 0xF0⟩
  else if n = 0xF4 then some ⟨3, 0x80, 0x8F, 4⟩
  else none

/-- Reads the bytes that follow a leading byte; stops before the first that does not fit. -/
def follow : Nat → UInt8 → UInt8 → Nat → Bytes → Option Nat × Bytes
  | 0, _, _, bits, rest => (some bits, rest)
  | _ + 1, _, _, _, [] => (none, [])
  | n + 1, low, high, bits, b :: rest =>
    if low ≤ b ∧ b ≤ high then follow n 0x80 0xBF (bits * 64 + b.toNat % 64) rest
    else (none, b :: rest)

/-- One character, or `none` for a piece that is none, and the bytes after it. -/
def step (b : UInt8) (rest : Bytes) : Option Char × Bytes :=
  match lead? b with
  | none => (none, rest)
  | some l =>
    let (bits, rest) := follow l.following l.low l.high l.bits rest
    (bits.map Char.ofNat, rest)

theorem length_follow_le (n : Nat) (low high : UInt8) (bits : Nat) (bs : Bytes) :
    (follow n low high bits bs).2.length ≤ bs.length := by
  fun_induction follow n low high bits bs <;> grind

theorem length_step_le (b : UInt8) (rest : Bytes) : (step b rest).2.length ≤ rest.length := by
  unfold step
  split
  · simp
  · exact length_follow_le ..

def pieces : Bytes → List (Option Char)
  | [] => []
  | b :: rest => (step b rest).1 :: pieces (step b rest).2
termination_by bs => bs.length
decreasing_by
  have := length_step_le b rest
  simp only [List.length_cons]
  omega

def replacement : Char := Char.ofNat 0xFFFD

/-- Reads any bytes, with the replacement character for each piece that is no character. -/
def decodeLossy (bs : Bytes) : String :=
  String.ofList ((pieces bs).map fun c => c.getD replacement)

/-- Refuses bytes that are no UTF-8. -/
def decode? (bs : Bytes) : Option String :=
  ((pieces bs).mapM id).map String.ofList

end Utf8

end NodeLogs
