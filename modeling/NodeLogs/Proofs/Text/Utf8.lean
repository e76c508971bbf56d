import NodeLogs.Text.Utf8

/-!
Reading back what was encoded. A character's bytes give that character, whatever stands behind them,
so a text comes back from its bytes both when bytes that are no UTF-8 are refused and when they are
replaced.
-/

namespace NodeLogs.Utf8

theorem toNat_byte {k : Nat} (h : k < 256) : (UInt8.ofNat k).toNat = k := by
  simp only [UInt8.toNat_ofNat']
  omega

theorem follow_byte {n bits k : Nat} {low high : UInt8} {rest : Bytes} (hlow : low.toNat ≤ k)
    (hhigh : k ≤ high.toNat) :
    follow (n + 1) low high bits (UInt8.ofNat k :: rest) =
      follow n 0x80 0xBF (bits * 64 + k % 64) rest := by
  have hk : (UInt8.ofNat k).toNat = k := toNat_byte (Nat.lt_of_le_of_lt hhigh high.toNat_lt)
  rw [follow, if_pos, hk]
  rw [UInt8.le_iff_toNat_le, UInt8.le_iff_toNat_le, hk]
  exact ⟨hlow, hhigh⟩

theorem lead?_one {k : Nat} (h : k < 0x80) :
    lead? (UInt8.ofNat k) = some ⟨0, 0x80, 0xBF, k⟩ := by
  rw [lead?, toNat_byte (by omega)]
  rw [if_pos h]

theorem lead?_two {k : Nat} (h : 0xC2 ≤ k ∧ k < 0xE0) :
    lead? (UInt8.ofNat k) = some ⟨1, 0x80, 0xBF, k - 0xC0⟩ := by
  rw [lead?, toNat_byte (by omega)]
  rw [if_neg (by omega), if_neg (by omega), if_pos (by omega)]

/-- Of the leading bytes that promise two more, the first and the one before surrogates bound the
byte that follows more narrowly than the others do. -/
theorem lead?_three {k j : Nat} (hk : 0xE0 ≤ k ∧ k < 0xF0) (hj : 0x80 ≤ j ∧ j ≤ 0xBF)
    (hfirst : k = 0xE0 → 0xA0 ≤ j) (hlast : k = 0xED → j ≤ 0x9F) :
    ∃ low high, lead? (UInt8.ofNat k) = some ⟨2, low, high, k - 0xE0⟩ ∧
      low.toNat ≤ j ∧ j ≤ high.toNat := by
  rw [lead?, toNat_byte (by omega)]
  rw [if_neg (by omega), if_neg (by omega), if_neg (by omega)]
  split
  · next h =>
    subst h
    exact ⟨_, _, rfl, hfirst rfl, hj.2⟩
  · split
    · next h =>
      subst h
      exact ⟨_, _, rfl, hj.1, hlast rfl⟩
    · rw [if_pos hk.2]
      exact ⟨_, _, rfl, hj.1, hj.2⟩

theorem lead?_four {k j : Nat} (hk : 0xF0 ≤ k ∧ k ≤ 0xF4) (hj : 0x80 ≤ j ∧ j ≤ 0xBF)
    (hfirst : k = 0xF0 → 0x90 ≤ j) (hlast : k = 0xF4 → j ≤ 0x8F) :
    ∃ low high, lead? (UInt8.ofNat k) = some ⟨3, low, high, k - 0xF0⟩ ∧
      low.toNat ≤ j ∧ j ≤ high.toNat := by
  rw [lead?, toNat_byte (by omega)]
  rw [if_neg (by omega), if_neg (by omega), if_neg (by omega), if_neg (by omega),
    if_neg (by omega), if_neg (by omega)]
  split
  · next h =>
    subst h
    exact ⟨_, _, rfl, hfirst rfl, hj.2⟩
  · split
    · exact ⟨_, _, rfl, hj.1, hj.2⟩
    · next h =>
      obtain rfl : k = 0xF4 := by omega
      exact ⟨_, _, rfl, hj.1, hlast rfl⟩

/-- A piece whose bytes all fit is the character with their bits. -/
theorem step_byte {k n own bits v : Nat} {low high : UInt8} {more rest : Bytes}
    (hlead : lead? (UInt8.ofNat k) = some ⟨n, low, high, own⟩)
    (hfollow : follow n low high own (more ++ rest) = (some bits, rest)) (hbits : bits = v) :
    step (UInt8.ofNat k) (more ++ rest) = (some (Char.ofNat v), rest) := by
  simp only [step, hlead, hfollow, Option.map_some, hbits]

theorem follow_two {j k bits : Nat} {low high : UInt8} {rest : Bytes} (hlow : low.toNat ≤ j)
    (hhigh : j ≤ high.toNat) (hk : 0x80 ≤ k ∧ k ≤ 0xBF) :
    follow 2 low high bits (UInt8.ofNat j :: UInt8.ofNat k :: rest) =
      (some ((bits * 64 + j % 64) * 64 + k % 64), rest) := by
  rw [follow_byte hlow hhigh, follow_byte hk.1 hk.2, follow]

theorem follow_three {i j k bits : Nat} {low high : UInt8} {rest : Bytes} (hlow : low.toNat ≤ i)
    (hhigh : i ≤ high.toNat) (hj : 0x80 ≤ j ∧ j ≤ 0xBF) (hk : 0x80 ≤ k ∧ k ≤ 0xBF) :
    follow 3 low high bits (UInt8.ofNat i :: UInt8.ofNat j :: UInt8.ofNat k :: rest) =
      (some (((bits * 64 + i % 64) * 64 + j % 64) * 64 + k % 64), rest) := by
  rw [follow_byte hlow hhigh, follow_byte hj.1 hj.2, follow_byte hk.1 hk.2, follow]

theorem step_encodeChar (c : Char) (rest : Bytes) :
    ∃ b more, String.utf8EncodeChar c = b :: more ∧ step b (more ++ rest) = (some c, rest) := by
  have hvalid : c.val.toNat < 0xD800 ∨ 0xDFFF < c.val.toNat ∧ c.val.toNat < 0x110000 := c.valid
  have hc : Char.ofNat c.val.toNat = c := Char.ofNat_toNat c
  unfold String.utf8EncodeChar
  generalize c.val.toNat = v at hvalid hc ⊢
  rw [← hc]
  simp only
  split
  · next h => exact ⟨_, [], rfl, step_byte (lead?_one (by omega)) rfl rfl⟩
  · split
    · next h =>
      refine ⟨_, [_], rfl, step_byte (lead?_two (by omega)) (follow_byte ?_ ?_) (by omega)⟩
      · change 128 ≤ _
        omega
      · change _ ≤ 191
        omega
    · split
      · next h =>
        obtain ⟨low, high, hlead, hlow, hhigh⟩ :=
          lead?_three (k := v / 4096 % 16 + 224) (j := v / 64 % 64 + 128) (by omega) (by omega)
            (by omega) (by omega)
        exact ⟨_, [_, _], rfl,
          step_byte hlead (follow_two hlow hhigh (by omega)) (by omega)⟩
      · next h =>
        obtain ⟨low, high, hlead, hlow, hhigh⟩ :=
          lead?_four (k := v / 262144 % 8 + 240) (j := v / 4096 % 64 + 128) (by omega) (by omega)
            (by omega) (by omega)
        exact ⟨_, [_, _, _], rfl,
          step_byte hlead (follow_three hlow hhigh (by omega) (by omega)) (by omega)⟩

theorem encode_append (s t : String) : encode (s ++ t) = encode s ++ encode t := by
  simp [encode]

theorem length_encode (s : String) : (encode s).length = s.utf8ByteSize := by
  have hchars (cs : List Char) :
      (cs.flatMap String.utf8EncodeChar).length = (String.ofList cs).utf8ByteSize := by
    induction cs with
    | nil => rfl
    | cons c cs ih =>
      have hcons : String.ofList (c :: cs) = String.ofList [c] ++ String.ofList cs := by
        rw [← String.ofList_append]
        rfl
      rw [List.flatMap_cons, List.length_append, ih, hcons, String.utf8ByteSize_append]
      simp
  rw [encode, hchars, String.ofList_toList]

theorem pieces_encode (cs : List Char) :
    pieces (cs.flatMap String.utf8EncodeChar) = cs.map some := by
  induction cs with
  | nil => rw [List.flatMap_nil, pieces, List.map_nil]
  | cons c cs ih =>
    obtain ⟨b, more, hc, hstep⟩ := step_encodeChar c (cs.flatMap String.utf8EncodeChar)
    rw [List.flatMap_cons, hc, List.cons_append, pieces, hstep, ih, List.map_cons]

theorem decodeLossy_encode (s : String) : decodeLossy (encode s) = s := by
  rw [decodeLossy, encode, pieces_encode, List.map_map]
  simp [Function.comp_def]

theorem eq_of_encode_eq {s t : String} (h : encode s = encode t) : s = t := by
  rw [← decodeLossy_encode s, h, decodeLossy_encode]

theorem decode?_encode (s : String) : decode? (encode s) = some s := by
  have hsome (cs : List Char) : (cs.map some).mapM id = some cs := by
    induction cs with
    | nil => rfl
    | cons c cs ih => simp [List.mapM_cons, ih]
  rw [decode?, encode, pieces_encode, hsome, Option.map_some, String.ofList_toList]

/-- A byte below 0x80 stands for itself alone. -/
theorem eq_of_mem_encodeChar {c : Char} {b : UInt8} (h : b ∈ String.utf8EncodeChar c)
    (hb : b.toNat < 0x80) : Char.ofNat b.toNat = c := by
  have hvalid : c.val.toNat < 0xD800 ∨ 0xDFFF < c.val.toNat ∧ c.val.toNat < 0x110000 := c.valid
  have hc : Char.ofNat c.val.toNat = c := Char.ofNat_toNat c
  unfold String.utf8EncodeChar at h
  generalize c.val.toNat = v at hvalid hc h
  simp only at h
  have high {k : Nat} (hk : 0x80 ≤ k ∧ k < 0x100) : b ≠ UInt8.ofNat k := by
    rintro rfl
    rw [toNat_byte hk.2] at hb
    omega
  split at h
  · next hv =>
    rw [List.mem_singleton.mp h, toNat_byte (by omega), hc]
  · split at h
    · simp only [List.mem_cons, List.not_mem_nil, or_false] at h
      rcases h with h | h <;> exact absurd h (high (by omega))
    · split at h <;> simp only [List.mem_cons, List.not_mem_nil, or_false] at h
      · rcases h with h | h | h <;> exact absurd h (high (by omega))
      · rcases h with h | h | h | h <;> exact absurd h (high (by omega))

theorem mem_of_mem_encode {s : String} {b : UInt8} (h : b ∈ encode s) (hb : b.toNat < 0x80) :
    Char.ofNat b.toNat ∈ s.toList := by
  obtain ⟨c, hc, hmem⟩ := List.mem_flatMap.mp h
  rwa [eq_of_mem_encodeChar hmem hb]

end NodeLogs.Utf8
