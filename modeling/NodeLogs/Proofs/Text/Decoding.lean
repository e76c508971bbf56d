import NodeLogs.Proofs.Text.Split
import NodeLogs.Proofs.Text.Utf8

/-!
Decoding bytes that may be no UTF-8. A byte below 0x80 is a character of its own wherever it stands,
and no other bytes give that character. So decoding what was cut at such a byte is cutting what was
decoded, however much of it had to be replaced.
-/

namespace NodeLogs.Utf8

/-- A byte that fits nowhere behind a leading byte ends what follows that one. -/
theorem follow_append (n : Nat) {low : UInt8} (high : UInt8) (bits : Nat) (bs : Bytes) {b : UInt8}
    (rest : Bytes) (hb : b.toNat < 0x80) (hlow : 0x80 ≤ low.toNat) :
    follow n low high bits (bs ++ b :: rest) =
      ((follow n low high bits bs).1, (follow n low high bits bs).2 ++ b :: rest) := by
  induction bs generalizing n low high bits with
  | nil =>
    cases n with
    | zero => rfl
    | succ n =>
      have hnot : ¬ (low ≤ b ∧ b ≤ high) := by
        rw [UInt8.le_iff_toNat_le]
        omega
      simp only [List.nil_append, follow, if_neg hnot]
  | cons a bs ih =>
    cases n with
    | zero => rfl
    | succ n =>
      rw [List.cons_append, follow, follow]
      split
      · exact ih n 0xBF _ (by decide)
      · rfl

/-- The bits of what follows are put behind those before. -/
theorem le_follow {n bits v : Nat} {low high : UInt8} {bs rest : Bytes}
    (h : follow n low high bits bs = (some v, rest)) : bits ≤ v ∧ (n ≠ 0 → bits * 64 ≤ v) := by
  induction n generalizing low high bits bs with
  | zero =>
    cases h
    exact ⟨Nat.le_refl v, fun hne => absurd rfl hne⟩
  | succ n ih =>
    cases bs with
    | nil => cases h
    | cons b bs =>
      rw [follow] at h
      split at h
      · have hle := (ih h).1
        omega
      · cases h

/-- A leading byte that nothing has to follow is a character itself. Whatever follows another one
fits no byte below 0x80 and gives no character there. -/
theorem lead?_bounds {b : UInt8} {l : Lead} (h : lead? b = some l) :
    0x80 ≤ l.low.toNat ∧ (l.following = 0 → b.toNat < 0x80 ∧ l.bits = b.toNat) ∧
      ∀ n (a : UInt8), l.following = n + 1 → l.low ≤ a → a ≤ l.high →
        0x80 ≤ l.bits * 64 + a.toNat % 64 ∨ n ≠ 0 ∧ 0x80 ≤ (l.bits * 64 + a.toNat % 64) * 64 := by
  simp only [lead?] at h
  split at h
  · next hlow =>
    cases h
    refine ⟨Nat.le_refl 128, fun _ => ⟨hlow, rfl⟩, ?_⟩
    intro n a hfollowing
    cases hfollowing
  repeat' split at h
  all_goals cases h
  -- One byte that fits makes the bits many enough, or many enough as soon as another one fits.
  all_goals
    dsimp only
    refine ⟨by decide, by omega, ?_⟩
    intro n a hfollowing hle hge
    obtain rfl := Nat.succ.inj hfollowing
    simp only [UInt8.le_iff_toNat_le, UInt8.reduceToNat] at hle hge
    omega

theorem step_append (a : UInt8) (bs : Bytes) {b : UInt8} (rest : Bytes) (hb : b.toNat < 0x80) :
    step a (bs ++ b :: rest) = ((step a bs).1, (step a bs).2 ++ b :: rest) := by
  unfold step
  cases hlead : lead? a with
  | none => rfl
  | some l =>
    simp only [follow_append l.following l.high l.bits bs rest hb (lead?_bounds hlead).1]

theorem step_low {b : UInt8} (hb : b.toNat < 0x80) (rest : Bytes) :
    step b rest = (some (Char.ofNat b.toNat), rest) := by
  simp only [step, lead?, if_pos hb, follow, Option.map_some]

theorem pieces_append (bs : Bytes) {b : UInt8} (rest : Bytes) (hb : b.toNat < 0x80) :
    pieces (bs ++ b :: rest) = pieces bs ++ some (Char.ofNat b.toNat) :: pieces rest := by
  fun_induction pieces bs with
  | case1 => rw [List.nil_append, pieces, step_low hb, List.nil_append]
  | case2 a bs ih => rw [List.cons_append, pieces, step_append a bs rest hb, ih, List.cons_append]

/-- A number that is no code point gives the character 0. -/
theorem toNat_of_ofNat {v : Nat} {c : Char} (h : Char.ofNat v = c) (hne : c.toNat ≠ 0) :
    c.toNat = v := by
  subst h
  by_cases hvalid : v.isValidChar
  · rw [Char.ofNat, dif_pos hvalid]
    rfl
  · rw [Char.ofNat, dif_neg hvalid] at hne
    exact absurd rfl hne

/-- A character below 0x80 comes from its own byte alone. -/
theorem eq_of_step {b : UInt8} {bs : Bytes} {c : Char} (hc : c.toNat < 0x80) (hne : c.toNat ≠ 0)
    (h : (step b bs).1 = some c) : b.toNat = c.toNat ∧ (step b bs).2 = bs := by
  unfold step at h ⊢
  cases hlead : lead? b with
  | none =>
    rw [hlead] at h
    cases h
  | some l =>
    obtain ⟨-, halone, hmore⟩ := lead?_bounds hlead
    simp only [hlead] at h ⊢
    obtain ⟨v, hv, hchar⟩ := Option.map_eq_some_iff.mp h
    have hvalue := toNat_of_ofNat hchar hne
    have hfollow : follow l.following l.low l.high l.bits bs = (some v, _) := Prod.ext hv rfl
    cases hcount : l.following with
    | zero =>
      obtain ⟨hlow, hbits⟩ := halone hcount
      rw [hcount, follow] at hv
      rw [hvalue, ← Option.some.inj hv, hbits]
      exact ⟨rfl, rfl⟩
    | succ n =>
      exfalso
      rw [hcount] at hfollow
      cases bs with
      | nil => cases hfollow
      | cons a bs =>
        rw [follow] at hfollow
        split at hfollow
        · next hfits =>
          have hle := le_follow hfollow
          have hhigh := hmore n a hcount hfits.1 hfits.2
          omega
        · cases hfollow

theorem follow_suffix (n : Nat) (low high : UInt8) (bits : Nat) (bs : Bytes) :
    (follow n low high bits bs).2 <:+ bs := by
  fun_induction follow n low high bits bs with
  | case3 n low high bits b rest hfits ih => exact ih.trans (List.suffix_cons b rest)
  | _ => exact List.suffix_refl _

theorem step_suffix (b : UInt8) (rest : Bytes) : (step b rest).2 <:+ rest := by
  unfold step
  split
  · exact List.suffix_refl _
  · exact follow_suffix ..

theorem mem_of_mem_pieces {bs : Bytes} {c : Char} (hc : c.toNat < 0x80) (hne : c.toNat ≠ 0)
    (h : some c ∈ pieces bs) : ∃ b ∈ bs, b.toNat = c.toNat := by
  fun_induction pieces bs with
  | case1 => cases h
  | case2 b rest ih =>
    rcases List.mem_cons.mp h with hhead | htail
    · obtain ⟨hbyte, -⟩ := eq_of_step hc hne hhead.symm
      exact ⟨b, List.mem_cons_self, hbyte⟩
    · obtain ⟨a, ha, hbyte⟩ := ih htail
      exact ⟨a, List.mem_cons_of_mem b ((step_suffix b rest).subset ha), hbyte⟩

theorem toList_decodeLossy (bs : Bytes) :
    (decodeLossy bs).toList = (pieces bs).map fun c => c.getD replacement := by
  rw [decodeLossy, String.toList_ofList]

theorem toList_decodeLossy_append (bs : Bytes) {b : UInt8} (rest : Bytes) (hb : b.toNat < 0x80) :
    (decodeLossy (bs ++ b :: rest)).toList =
      (decodeLossy bs).toList ++ Char.ofNat b.toNat :: (decodeLossy rest).toList := by
  simp only [toList_decodeLossy, pieces_append bs rest hb, List.map_append, List.map_cons,
    Option.getD_some]

theorem eq_some_of_getD {c? : Option Char} {c : Char} (hc : c ≠ replacement)
    (h : c?.getD replacement = c) : c? = some c := by
  cases c? with
  | none => exact absurd h.symm hc
  | some a => exact congrArg some h

/-- A character below 0x80 is decoded from nothing but its byte. -/
theorem not_mem_decodeLossy {bs : Bytes} {b : UInt8} {c : Char} (hbyte : b.toNat = c.toNat)
    (hc : c.toNat < 0x80) (hne : c.toNat ≠ 0) (h : b ∉ bs) : c ∉ (decodeLossy bs).toList := by
  rw [toList_decodeLossy]
  intro hmem
  have hnotReplacement : c ≠ replacement := by
    rintro rfl
    exact absurd hc (by decide)
  obtain ⟨c?, hpiece, hchar⟩ := List.mem_map.mp hmem
  rw [eq_some_of_getD hnotReplacement hchar] at hpiece
  obtain ⟨b', hb', hbyte'⟩ := mem_of_mem_pieces hc hne hpiece
  obtain rfl : b' = b := UInt8.toNat_inj.mp (hbyte'.trans hbyte.symm)
  exact h hb'

theorem decodeLossy_join {parts : List Bytes} :
    (decodeLossy (join 0x2F parts)).toList =
      join '/' (parts.map fun part => (decodeLossy part).toList) := by
  induction parts with
  | nil =>
    rw [List.map_nil, join, join, toList_decodeLossy, pieces, List.map_nil]
  | cons part rest ih =>
    cases rest with
    | nil => rfl
    | cons next others =>
      rw [join_cons _ part (List.cons_ne_nil next others),
        toList_decodeLossy_append part _ (by decide), ih]
      rfl

/-- Cutting what was decoded is decoding what was cut. -/
theorem split_decodeLossy (bs : Bytes) :
    Text.split '/' (decodeLossy bs) = (split 0x2F bs).map decodeLossy := by
  have hparts : ∀ part ∈ (split 0x2F bs).map fun part => (decodeLossy part).toList, '/' ∉ part := by
    intro part hpart
    obtain ⟨raw, hraw, rfl⟩ := List.mem_map.mp hpart
    exact not_mem_decodeLossy rfl (by decide) (by decide) (not_mem_of_mem_split hraw)
  have hne : (split 0x2F bs).map (fun part => (decodeLossy part).toList) ≠ [] := by
    simpa using split_ne_nil 0x2F bs
  calc
    Text.split '/' (decodeLossy bs)
      = (split '/' (decodeLossy (join 0x2F (split 0x2F bs))).toList).map String.ofList := by
        rw [join_split, Text.split]
    _ = ((split 0x2F bs).map fun part => (decodeLossy part).toList).map String.ofList := by
        rw [decodeLossy_join, split_join hne hparts]
    _ = (split 0x2F bs).map decodeLossy := by
        simp [Function.comp_def]

theorem decodeLossy_eq_empty {bs : Bytes} : decodeLossy bs = "" ↔ bs = [] := by
  rw [← String.toList_eq_nil_iff, toList_decodeLossy, List.map_eq_nil_iff]
  cases bs with
  | nil => simp [pieces]
  | cons b rest => simp [pieces]

theorem decodeLossy_eq_dot {bs : Bytes} : decodeLossy bs = "." ↔ bs = [0x2E] := by
  constructor
  · intro h
    have hpieces : (pieces bs).map (fun c => c.getD replacement) = ['.'] := by
      rw [← toList_decodeLossy, h]
      rfl
    cases bs with
    | nil => rw [pieces] at hpieces; cases hpieces
    | cons b rest =>
      rw [pieces, List.map_cons] at hpieces
      obtain ⟨hhead, htail⟩ := List.cons.inj hpieces
      have hdot : (step b rest).1 = some '.' := eq_some_of_getD (by decide) hhead
      obtain ⟨hbyte, hrest⟩ := eq_of_step (by decide) (by decide) hdot
      obtain rfl : b = 0x2E := UInt8.toNat_inj.mp hbyte
      rw [hrest] at htail
      have hnil : decodeLossy rest = "" := by
        rw [← String.toList_eq_nil_iff, toList_decodeLossy, htail]
      rw [decodeLossy_eq_empty.mp hnil]
  · rintro rfl
    exact decodeLossy_encode "."

/-! The same for texts -/

theorem encode_slashed (parts : List String) :
    encode ("/".intercalate parts) = join 0x2F (parts.map encode) := by
  induction parts with
  | nil => rfl
  | cons part rest ih =>
    cases rest with
    | nil => rw [String.intercalate_singleton]; rfl
    | cons next others =>
      rw [String.intercalate_cons_cons, encode_append, encode_append, ih, List.append_assoc]
      rfl

theorem split_encode (s : String) : split 0x2F (encode s) = (Text.split '/' s).map encode := by
  have hparts : ∀ part ∈ (Text.split '/' s).map encode, 0x2F ∉ part := by
    intro part hpart
    obtain ⟨text, htext, rfl⟩ := List.mem_map.mp hpart
    intro hmem
    exact Text.slash_not_mem_of_mem_split htext (mem_of_mem_encode hmem (by decide))
  have hne : (Text.split '/' s).map encode ≠ [] := by
    simpa using Text.split_ne_nil '/' s
  calc
    split 0x2F (encode s) = split 0x2F (encode ("/".intercalate (Text.split '/' s))) := by
        rw [Text.slashed_split]
    _ = (Text.split '/' s).map encode := by
        rw [encode_slashed, split_join hne hparts]

end NodeLogs.Utf8
