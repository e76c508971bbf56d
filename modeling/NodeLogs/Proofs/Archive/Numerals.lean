import NodeLogs.Archive.Number
import NodeLogs.Proofs.Text.Utf8

/-!
Numbers of a fixed width, the most significant digit first: as text for octal fields and record
lengths, and as bytes for binary fields. A number with room in its width is read back as it was
written.
-/

namespace NodeLogs.Archive

/-- How many numbers have so many digits. -/
def capacity (base : Nat) : Nat → Nat
  | 0 => 1
  | width + 1 => capacity base width * base

def digits (base : Nat) : Nat → Nat → List Nat
  | 0, _ => []
  | width + 1, n => digits base width (n / base) ++ [n % base]

def digitChar (d : Nat) : Char := Char.ofNat ('0'.toNat + d)

/-- A number as text with leading zeros. -/
def numeral (base width n : Nat) : String := String.ofList ((digits base width n).map digitChar)

/-- A number as bytes with leading zeros. -/
def binary (width n : Nat) : Bytes := (digits 256 width n).map UInt8.ofNat

theorem length_digits (base width n : Nat) : (digits base width n).length = width := by
  induction width generalizing n with
  | zero => rfl
  | succ width ih => rw [digits, List.length_append, ih]; rfl

theorem lt_of_mem_digits {base width n d : Nat} (hbase : 0 < base)
    (h : d ∈ digits base width n) : d < base := by
  induction width generalizing n with
  | zero => cases h
  | succ width ih =>
    rcases List.mem_append.mp h with h | h
    · exact ih h
    · rw [List.mem_singleton.mp h]
      exact Nat.mod_lt n hbase

/-- The value of digits behind a number that was read before. -/
theorem foldl_digits {base width n : Nat} (before : Nat) (h : n < capacity base width) :
    (digits base width n).foldl (fun value d => value * base + d) before =
      before * capacity base width + n := by
  induction width generalizing n with
  | zero =>
    obtain rfl : n = 0 := by simpa [capacity] using h
    simp [digits, capacity]
  | succ width ih =>
    have hdiv : n / base < capacity base width := Nat.div_lt_of_lt_mul (by rwa [Nat.mul_comm])
    rw [digits, List.foldl_append, ih hdiv, List.foldl_cons, List.foldl_nil, capacity,
      Nat.add_mul, Nat.mul_assoc, Nat.add_assoc, Nat.div_add_mod']

/-! Text -/

/-- The character of a digit up to nine: no sign and no blank, and one byte that is no NUL. -/
structure IsDigit (d : Nat) : Prop where
  value : (digitChar d).toNat - '0'.toNat = d
  low : '0' ≤ digitChar d
  notSign : digitChar d ≠ '+'
  notBlank : Text.isBlank (digitChar d) = false
  encoded : String.utf8EncodeChar (digitChar d) = [UInt8.ofNat ('0'.toNat + d)]
  notNul : UInt8.ofNat ('0'.toNat + d) ≠ 0
  notSpace : UInt8.ofNat ('0'.toNat + d) ≠ 0x20
  notLine : UInt8.ofNat ('0'.toNat + d) ≠ 0x0A
  ascii : ¬ (0x80 : UInt8) ≤ UInt8.ofNat ('0'.toNat + d)

theorem isDigit_of_lt {d : Nat} (h : d < 10) : IsDigit d := by
  have all : ∀ d < 10, (digitChar d).toNat - '0'.toNat = d ∧ '0' ≤ digitChar d ∧
      digitChar d ≠ '+' ∧ Text.isBlank (digitChar d) = false ∧
      String.utf8EncodeChar (digitChar d) = [UInt8.ofNat ('0'.toNat + d)] ∧
      UInt8.ofNat ('0'.toNat + d) ≠ 0 ∧ UInt8.ofNat ('0'.toNat + d) ≠ 0x20 ∧
      UInt8.ofNat ('0'.toNat + d) ≠ 0x0A ∧ ¬ (0x80 : UInt8) ≤ UInt8.ofNat ('0'.toNat + d) := by
        decide
  obtain ⟨h₁, h₂, h₃, h₄, h₅, h₆, h₇, h₈, h₉⟩ := all d h
  exact ⟨h₁, h₂, h₃, h₄, h₅, h₆, h₇, h₈, h₉⟩

theorem digits?_map {base : Nat} {ds : List Nat} (hbase : base ≤ 10) (hne : ds ≠ [])
    (h : ∀ d ∈ ds, d < base) :
    digits? base (ds.map digitChar) = some (ds.foldl (fun value d => value * base + d) 0) := by
  have hfold (before : Nat) : (ds.map digitChar).foldl
      (fun n c => n.bind fun n =>
        let d := c.toNat - '0'.toNat
        if '0' ≤ c ∧ d < base then some (n * base + d) else none) (some before) =
      some (ds.foldl (fun value d => value * base + d) before) := by
    clear hne
    induction ds generalizing before with
    | nil => rfl
    | cons d ds ih =>
      have hd : d < base := h d List.mem_cons_self
      have hdigit := isDigit_of_lt (Nat.lt_of_lt_of_le hd hbase)
      rw [List.map_cons, List.foldl_cons, Option.bind_some]
      simp only [hdigit.value, hdigit.low, hd, true_and, if_true]
      exact ih (fun d' hd' => h d' (List.mem_cons_of_mem d hd')) _
  cases ds with
  | nil => exact absurd rfl hne
  | cons d ds => exact hfold 0

/-- A number that has room in its width is read as it was written. -/
theorem unsigned?_digits {base width n : Nat} (hbase : 0 < base ∧ base ≤ 10) (hwidth : 0 < width)
    (hroom : n < capacity base width) (hlimit : n < limit) :
    unsigned? base ((digits base width n).map digitChar) = some n := by
  have hlt (d : Nat) (h : d ∈ digits base width n) : d < base := lt_of_mem_digits hbase.1 h
  have hne : digits base width n ≠ [] := by
    intro hnil
    have := length_digits base width n
    rw [hnil] at this
    simp only [List.length_nil] at this
    omega
  have hdigits := digits?_map hbase.2 hne hlt
  rw [foldl_digits 0 hroom, Nat.zero_mul, Nat.zero_add] at hdigits
  unfold unsigned?
  split
  · next rest hplus =>
    cases hds : digits base width n with
    | nil => exact absurd hds hne
    | cons d ds =>
      rw [hds, List.map_cons] at hplus
      have hd : d < 10 := Nat.lt_of_lt_of_le (hlt d (by simp [hds])) hbase.2
      exact absurd (List.cons.inj hplus).1 (isDigit_of_lt hd).notSign
  · simp [hdigits, Option.filter, hlimit]

theorem trimList_digits {ds : List Nat} (h : ∀ d ∈ ds, d < 10) :
    Text.trimList (ds.map digitChar) = ds.map digitChar := by
  have hdrop (es : List Nat) (h : ∀ d ∈ es, d < 10) :
      (es.map digitChar).dropWhile Text.isBlank = es.map digitChar := by
    cases es with
    | nil => rfl
    | cons d es =>
      rw [List.map_cons, List.dropWhile_cons_of_neg]
      simp [(isDigit_of_lt (h d List.mem_cons_self)).notBlank]
  rw [Text.trimList, hdrop ds h, ← List.map_reverse, hdrop, ← List.map_reverse,
    List.reverse_reverse]
  simpa using h

/-! Fields -/

theorem encode_numeral {base width n : Nat} (hbase : 0 < base ∧ base ≤ 10) :
    Utf8.encode (numeral base width n) =
      (digits base width n).map fun d => UInt8.ofNat ('0'.toNat + d) := by
  have hlt (d : Nat) (h : d ∈ digits base width n) : d < 10 :=
    Nat.lt_of_lt_of_le (lt_of_mem_digits hbase.1 h) hbase.2
  generalize hds : digits base width n = ds at hlt
  rw [Utf8.encode, numeral, String.toList_ofList, hds]
  clear hds
  induction ds with
  | nil => rfl
  | cons d ds ih =>
    rw [List.map_cons, List.flatMap_cons, (isDigit_of_lt (hlt d List.mem_cons_self)).encoded,
      ih fun d' hd' => hlt d' (List.mem_cons_of_mem d hd')]
    rfl

theorem length_encode_numeral {base width n : Nat} (hbase : 0 < base ∧ base ≤ 10) :
    (Utf8.encode (numeral base width n)).length = width := by
  rw [encode_numeral hbase, List.length_map, length_digits]

theorem mem_encode_numeral {base width n : Nat} (hbase : 0 < base ∧ base ≤ 10) {b : UInt8}
    (h : b ∈ Utf8.encode (numeral base width n)) :
    ¬ 0x80 ≤ b ∧ b ≠ 0 ∧ b ≠ 0x20 ∧ b ≠ 0x0A := by
  rw [encode_numeral hbase] at h
  obtain ⟨d, hd, rfl⟩ := List.mem_map.mp h
  have hdigit := isDigit_of_lt (Nat.lt_of_lt_of_le (lt_of_mem_digits hbase.1 hd) hbase.2)
  exact ⟨hdigit.ascii, hdigit.notNul, hdigit.notSpace, hdigit.notLine⟩

theorem textField_append_nul {bs : Bytes} (h : ∀ b ∈ bs, b ≠ 0) (more : Bytes) :
    textField (bs ++ 0 :: more) = bs := by
  rw [textField, List.takeWhile_append_of_pos (by simpa using h)]
  simp

theorem textField_self {bs : Bytes} (h : ∀ b ∈ bs, b ≠ 0) : textField bs = bs := by
  have hbs : (bs ++ []).takeWhile (· ≠ 0) = bs ++ [].takeWhile (· ≠ 0) :=
    List.takeWhile_append_of_pos (by simpa using h)
  simpa [textField] using hbs

/-- An octal number up to a NUL is read as it was written. -/
theorem octal_numeral {width n : Nat} (hwidth : 0 < width) (hroom : n < capacity 8 width)
    (hlimit : n < limit) (more : Bytes) :
    octal (Utf8.encode (numeral 8 width n) ++ 0 :: more) = .ok n := by
  have hfield : textField (Utf8.encode (numeral 8 width n) ++ 0 :: more) =
      Utf8.encode (numeral 8 width n) :=
    textField_append_nul (fun b hb => (mem_encode_numeral (by decide) hb).2.1) more
  have hlt (d : Nat) (h : d ∈ digits 8 width n) : d < 10 := by
    have := lt_of_mem_digits (by decide) h
    omega
  rw [octal, hfield, Utf8.decode?_encode]
  simp only [numeral, String.toList_ofList]
  rw [trimList_digits hlt, unsigned?_digits (by decide) hwidth hroom hlimit]

theorem octalOrBinary_numeral {width n : Nat} (hwidth : 0 < width)
    (hroom : n < capacity 8 width) (hlimit : n < limit) (more : Bytes) :
    octalOrBinary (Utf8.encode (numeral 8 width n) ++ 0 :: more) = .ok n := by
  have hoctal := octal_numeral hwidth hroom hlimit more
  cases hfield : Utf8.encode (numeral 8 width n) with
  | nil =>
    rw [hfield] at hoctal
    exact hoctal
  | cons b bs =>
    have hmem : b ∈ Utf8.encode (numeral 8 width n) := hfield ▸ List.mem_cons_self
    have hb := (mem_encode_numeral (by decide) hmem).1
    rw [hfield, List.cons_append] at hoctal
    rw [List.cons_append, octalOrBinary, if_neg hb, hoctal]

theorem length_binary (width n : Nat) : (binary width n).length = width := by
  rw [binary, List.length_map, length_digits]

theorem bigEndian_binary {width n : Nat} (hroom : n < capacity 256 width) :
    bigEndian (binary width n) = n := by
  have hlt (d : Nat) (h : d ∈ digits 256 width n) : d < 256 := lt_of_mem_digits (by decide) h
  have hfold (ds : List Nat) (h : ∀ d ∈ ds, d < 256) (before : Nat) :
      (ds.map UInt8.ofNat).foldl (fun n b => n * 256 + b.toNat) before =
        ds.foldl (fun value d => value * 256 + d) before := by
    induction ds generalizing before with
    | nil => rfl
    | cons d ds ih =>
      rw [List.map_cons, List.foldl_cons, List.foldl_cons,
        Utf8.toNat_byte (h d List.mem_cons_self),
        ih fun d' hd' => h d' (List.mem_cons_of_mem d hd')]
  rw [bigEndian, binary, hfold _ hlt, foldl_digits 0 hroom, Nat.zero_mul, Nat.zero_add]

/-- A binary number of eight bytes, marked by the first bit of its field. -/
theorem octalOrBinary_binary {n : Nat} (hroom : n < limit) :
    octalOrBinary ([0x80, 0, 0, 0] ++ binary 8 n) = .ok n := by
  have hvalue : bigEndian (binary 8 n) = n := bigEndian_binary hroom
  rw [List.cons_append, octalOrBinary, if_pos (by decide)]
  simp only [List.cons_append, List.nil_append, List.drop_succ_cons, List.drop_zero, hvalue]

end NodeLogs.Archive
