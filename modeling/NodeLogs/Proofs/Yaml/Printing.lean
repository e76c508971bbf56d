import NodeLogs.Proofs.Yaml.Entries

/-!
What is written can be read: whatever the text, no character is written that is not printable, so
the characters that are read are the ones that were written.
-/

namespace NodeLogs.Yaml

/-- Text that is printable throughout. -/
def Printed (s : List Char) : Prop := ∀ c ∈ s, isPrintable c = true

namespace Printed

variable {s t : List Char} {c : Char}

theorem nil : Printed [] := nofun

theorem cons (hc : isPrintable c = true) (h : Printed s) : Printed (c :: s) := by
  intro d hd
  rcases List.mem_cons.mp hd with rfl | hd
  · exact hc
  · exact h d hd

theorem append (hs : Printed s) (ht : Printed t) : Printed (s ++ t) := by
  intro d hd
  rcases List.mem_append.mp hd with hd | hd
  · exact hs d hd
  · exact ht d hd

theorem tail (h : Printed (c :: s)) : Printed s := fun d hd => h d (List.mem_cons_of_mem c hd)

theorem head (h : Printed (c :: s)) : isPrintable c = true := h c List.mem_cons_self

theorem of_special (h : ∀ c ∈ s, Writing.isSpecial c = false) : Printed s := by
  intro c hc
  have hspecial := h c hc
  rw [Writing.isSpecial, Bool.not_eq_false'] at hspecial
  exact hspecial

theorem of_all (h : s.all isPrintable = true) : Printed s := List.all_eq_true.mp h

theorem doubled (h : Printed s) : Printed (Writing.doubled s) := by
  induction s with
  | nil => exact nil
  | cons c s ih =>
    have hrest := ih h.tail
    rw [Writing.doubled]
    split
    · exact cons (by decide) (cons (by decide) hrest)
    · exact cons h.head hrest

theorem indented (h : Printed s) (lineStart : Bool) : Printed (Writing.indented lineStart s) := by
  induction s generalizing lineStart with
  | nil => exact nil
  | cons c s ih =>
    rw [Writing.indented]
    split
    · exact cons h.head (ih h.tail true)
    · split
      · exact cons (by decide) (cons (by decide) (cons h.head (ih h.tail false)))
      · exact cons h.head (ih h.tail false)

theorem single (h : Printed s) : Printed (Writing.single s) := by
  have hmargin : Printed (if s.getLast?.any isBreak then [' ', ' '] else []) := by
    split
    · exact of_all (by decide)
    · exact nil
  exact ((cons (by decide) (h.doubled.indented false)).append hmargin).append (of_all (by decide))

theorem literal (h : Printed s) : Printed (Writing.literal s) := by
  have hhint : Printed (if s.head?.any fun c =>
    Writing.isBlank c || isBreak c then ['2'] else []) := by
    split
    · exact of_all (by decide)
    · exact nil
  have hchomp : Printed (Writing.chompMark s) := by
    unfold Writing.chompMark
    split
    · exact of_all (by decide)
    · split
      · exact of_all (by decide)
      · split
        · exact of_all (by decide)
        · exact nil
  exact ((cons (by decide) hhint).append hchomp).append (cons (by decide) (h.indented true))

theorem hex (digits n : Nat) : Printed (Writing.hex digits n) := by
  have hdigit : ∀ m < 16, isPrintable (Nat.digitChar m).toUpper = true := by decide
  induction digits generalizing n with
  | zero => exact nil
  | succ digits ih => exact (ih (n / 16)).append (cons (hdigit _ (Nat.mod_lt n (by decide))) nil)

theorem escaped (c : Char) : Printed (Writing.escaped c) := by
  unfold Writing.escaped
  split
  case h_15 =>
    simp only [Writing.numbered]
    split
    · exact cons (by decide) (hex 2 _)
    · split
      · exact cons (by decide) (hex 4 _)
      · exact cons (by decide) (hex 8 _)
  all_goals exact of_all (by decide)

theorem double (s : List Char) : Printed (Writing.double s) := by
  have htext : Printed
      (s.flatMap fun c => if Writing.needsEscape c then '\\' :: Writing.escaped c else [c]) := by
    intro d hd
    obtain ⟨c, -, hd⟩ := List.mem_flatMap.mp hd
    split at hd
    · exact cons (by decide) (escaped c) d hd
    · next hplain =>
      obtain rfl := List.mem_singleton.mp hd
      simp only [Writing.needsEscape, Bool.not_eq_true, Bool.or_eq_false_iff] at hplain
      exact of_special (s := [d]) (by simpa using hplain.1.1.1) d List.mem_cons_self
  exact (cons (by decide) htext).append (of_all (by decide))

theorem scalar (s : List Char) : Printed (Writing.scalar s) := by
  unfold Writing.scalar
  cases hstyle : Writing.style s with
  | folded => exact absurd hstyle (style_ne_folded s)
  | plain => exact of_special (bare_of_style hstyle).special
  | singleQuoted => exact (of_special (fits_of_style hstyle).special).single
  | doubleQuoted => exact double s
  | literal => exact (of_special (lines_of_style hstyle).2).literal

theorem key {key : String} (h : IsKey key) : Printed key.toList := by
  intro c hc
  have hrange := h.word c hc
  rcases hrange with halpha | rfl
  · have hcode : (65 ≤ c.toNat ∧ c.toNat ≤ 90) ∨ (97 ≤ c.toNat ∧ c.toNat ≤ 122) := by
      change (decide (65 ≤ c.val ∧ c.val ≤ 90) || (decide (97 ≤ c.val) && decide (c.val ≤ 122))) =
        true
        at halpha
      simpa [UInt32.le_iff_toNat_le] using halpha
    simp only [isPrintable, Bool.or_eq_true, Bool.and_eq_true, decide_eq_true_eq]
    omega
  · decide

theorem entries {pairs : List (String × String)} (hkeys : ∀ pair ∈ pairs, IsKey pair.1) :
    Printed (Writing.entries pairs) := by
  induction pairs with
  | nil => exact nil
  | cons pair pairs ih =>
    have hrest := ih fun pair hpair => hkeys pair (List.mem_cons_of_mem _ hpair)
    have hend : Printed (lineEnd (Writing.scalar pair.2.toList)) := by
      unfold lineEnd
      split
      · exact nil
      · exact of_all (by decide)
    have hcolon : Printed [':', ' '] := of_all (by decide)
    have htext := (key (hkeys pair List.mem_cons_self)).append
      (hcolon.append ((scalar pair.2.toList).append (hend.append hrest)))
    rw [Writing.entries, List.flatMap_cons, entry_eq]
    exact htext

end Printed

/-! Readable characters -/

theorem isReadable_of_isPrintable {c : Char} (h : isPrintable c = true) : isReadable c = true := by
  simp only [isPrintable, isReadable, Bool.or_eq_true, Bool.and_eq_true, decide_eq_true_eq,
    beq_iff_eq] at h ⊢
  omega

/-- Printable text has no breaks but those that are kept. -/
theorem unifyBreaks_of_printed {s : List Char} (h : Printed s) : unifyBreaks s = s := by
  induction s with
  | nil => rfl
  | cons c s ih =>
    have hreturn : c ≠ '\r' := by
      rintro rfl
      exact absurd h.head (by decide)
    have hnext : c ≠ nextLine := by
      rintro rfl
      exact absurd h.head (by decide)
    rw [unifyBreaks, ih h.tail]
    · simp [hreturn, hnext]
    · rintro rest rfl
      exact absurd rfl hreturn

theorem ofText_of_printed {s : List Char} (h : Printed s) :
    Tokens.ofText s = (Lexer.start ⟨.start, s⟩).run := by
  have hreadable : s.all isReadable = true :=
    List.all_eq_true.mpr fun c hc => isReadable_of_isPrintable (h c hc)
  rw [Tokens.ofText, if_pos hreadable, unifyBreaks_of_printed h]
  cases s with
  | nil => rfl
  | cons c s =>
    have hmark : c ≠ byteOrderMark := by
      rintro rfl
      exact absurd h.head (by decide)
    simp only [if_neg hmark]

end NodeLogs.Yaml
