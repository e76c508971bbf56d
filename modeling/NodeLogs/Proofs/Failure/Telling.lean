import Mathlib.Data.List.Basic
import Mathlib.Logic.Relation
import NodeLogs.Proofs.Failure.Joining

/-!
What a joined error says. However its parts came about, its text is made of their different messages
in the order in which they come first, so no message is lost, and neither telling one again nor
joining in other brackets makes a difference to it.
-/

namespace NodeLogs

/-! The first of equal texts -/

/-- The texts that were not seen before, each of which is seen from then on. -/
def unseen (seen : List String) : List String → List String
  | [] => []
  | s :: rest => if s ∈ seen then unseen seen rest else s :: unseen (s :: seen) rest

namespace Aggregate

theorem mem_distinct {s : String} {messages : List String} :
    s ∈ distinct messages ↔ s ∈ messages := by
  induction messages with
  | nil => rfl
  | cons m rest ih =>
    rw [distinct, List.mem_cons, List.mem_cons, List.mem_filter, ih, decide_eq_true_eq]
    by_cases h : s = m <;> simp [h]

/-- A text that was seen leaves nothing among those that were not. -/
theorem filter_unseen_of_mem {s : String} {seen : List String} (h : s ∈ seen) (rest : List String) :
    (distinct (s :: rest)).filter (· ∉ seen) = (distinct rest).filter (· ∉ seen) := by
  rw [distinct, List.filter_cons_of_neg (by simpa using h), List.filter_filter]
  apply List.filter_congr
  intro s' _
  by_cases hs' : s' ∈ seen
  · simp [hs']
  · have hne : s' ≠ s := fun he => hs' (he ▸ h)
    simp [hs', hne]

/-- Looking at what was seen before comes to the same as leaving out each text behind its first
place. -/
theorem unseen_eq (seen messages : List String) :
    unseen seen messages = (distinct messages).filter (· ∉ seen) := by
  induction messages generalizing seen with
  | nil => rfl
  | cons m rest ih =>
    by_cases hm : m ∈ seen
    · rw [unseen, if_pos hm, ih, filter_unseen_of_mem hm]
    · rw [unseen, if_neg hm, ih, distinct, List.filter_cons_of_pos (by simpa using hm),
        List.filter_filter]
      congr 1
      apply List.filter_congr
      intro s _
      simp [Bool.and_comm]

theorem unseen_nil (messages : List String) : unseen [] messages = distinct messages := by
  rw [unseen_eq]
  exact List.filter_eq_self.mpr fun s _ => by simp

theorem distinct_append (before after : List String) :
    distinct (before ++ after) = distinct before ++ (distinct after).filter (· ∉ before) := by
  induction before with
  | nil => exact (List.filter_eq_self.mpr fun s _ => by simp).symm
  | cons m rest ih =>
    rw [List.cons_append, distinct, ih, distinct, List.cons_append, List.filter_append,
      List.filter_filter]
    congr 2
    apply List.filter_congr
    intro s _
    simp

/-- A text that stands behind an equal one makes no difference. -/
theorem distinct_again {s : String} {before : List String} (h : s ∈ before) (after : List String) :
    distinct (before ++ s :: after) = distinct (before ++ after) := by
  rw [distinct_append, distinct_append, filter_unseen_of_mem h]

end Aggregate

open Aggregate

/-- The different ones of some messages, in the order in which they come first. -/
structure InFirstOrder (messages told : List String) : Prop where
  mem : ∀ s, s ∈ told ↔ s ∈ messages
  order : told.Pairwise fun s s' => messages.idxOf s < messages.idxOf s'

namespace InFirstOrder

variable {messages told : List String}

theorem nodup (h : InFirstOrder messages told) : told.Nodup :=
  h.order.imp fun {s s'} hlt (he : s = s') => Nat.lt_irrefl _ (he ▸ hlt)

theorem distinct (messages : List String) : InFirstOrder messages (distinct messages) where
  mem _ := mem_distinct
  order := by
    induction messages with
    | nil => exact .nil
    | cons m rest ih =>
      have hlater {s : String} (hs : s ∈ (Aggregate.distinct rest).filter (· ≠ m)) :
          (m :: rest).idxOf s = rest.idxOf s + 1 := by
        have hne : s ≠ m := by simpa using (List.mem_filter.mp hs).2
        exact List.idxOf_cons_ne rest hne.symm
      refine .cons (fun s hs => ?_) ((ih.filter _).imp_of_mem fun hs hs' hlt => ?_)
      · rw [List.idxOf_cons_self, hlater hs]
        exact Nat.succ_pos _
      · rw [hlater hs, hlater hs']
        exact Nat.succ_lt_succ hlt

/-- There is one such list. -/
theorem eq_distinct (h : InFirstOrder messages told) : told = Aggregate.distinct messages := by
  have hdistinct := InFirstOrder.distinct messages
  have hperm : told.Perm (Aggregate.distinct messages) :=
    (List.perm_ext_iff_of_nodup h.nodup hdistinct.nodup).mpr fun s =>
      (h.mem s).trans (hdistinct.mem s).symm
  exact hperm.eq_of_pairwise (fun s s' _ _ hlt hgt => absurd hgt (Nat.lt_asymm hlt)) h.order
    hdistinct.order

end InFirstOrder

/-- A message told once more, anywhere behind a place where it is told. -/
inductive ToldAgain : List String → List String → Prop where
  | again (before : List String) (s : String) (between after : List String) :
    ToldAgain (before ++ s :: between ++ after) (before ++ s :: between ++ s :: after)

/-- Messages are the same for a reader if they are once some were told again or no longer are. -/
abbrev SameMessages : List String → List String → Prop := Relation.EqvGen ToldAgain

theorem SameMessages.distinct_eq {messages other : List String} (h : SameMessages messages other) :
    Aggregate.distinct messages = Aggregate.distinct other := by
  induction h with
  | rel _ _ h =>
    obtain ⟨before, s, between, after⟩ := h
    exact (distinct_again (List.mem_append_right before List.mem_cons_self) after).symm
  | refl _ => rfl
  | symm _ _ _ ih => exact ih.symm
  | trans _ _ _ _ _ ih ih' => exact ih.trans ih'

/-! Texts -/

theorem infix_intercalate {α : Type} {part : List α} {parts : List (List α)} (sep : List α)
    (h : part ∈ parts) : part <:+: sep.intercalate parts := by
  induction parts with
  | nil => cases h
  | cons p rest ih =>
    cases rest with
    | nil => simp [List.mem_singleton.mp h]
    | cons next rest =>
      rw [List.intercalate_cons_cons]
      rcases List.mem_cons.mp h with rfl | h
      · exact ((List.prefix_append part sep).trans (List.prefix_append _ _)).isInfix
      · exact (ih h).trans (List.suffix_append _ _).isInfix

/-- One message as it is, all others as a list. -/
def listed : List String → String
  | [only] => only
  | messages => "[" ++ ", ".intercalate messages ++ "]"

theorem infix_listed {s : String} {messages : List String} (h : s ∈ messages) :
    s.toList <:+: (listed messages).toList := by
  have hmany : s.toList <:+: ("[" ++ ", ".intercalate messages ++ "]").toList := by
    have hjoined : s.toList <:+: (", ".intercalate messages).toList := by
      rw [String.toList_intercalate]
      exact infix_intercalate _ (List.mem_map_of_mem h)
    rw [String.toList_append, String.toList_append]
    exact hjoined.trans (List.infix_append _ _ _)
  match messages with
  | [] => cases h
  | [only] =>
    rw [List.mem_singleton.mp h]
    exact List.infix_rfl
  | _ :: _ :: _ => exact hmany

theorem Aggregate.message_eq (a : Aggregate) :
    a.message = listed (distinct (a.faults.map Fault.message)) := rfl

namespace ErrorValue

/-- What a joined error says, given what is said by the errors in it. A single error is not looked
at any further. -/
def joinedText : List String → String
  | [only] => only
  | messages =>
    match unseen [] messages with
    | [only] => only
    | told => "[" ++ ", ".intercalate told ++ "]"

mutual

/-- An error with everything that is around it. -/
def text : ErrorValue → String
  | cause c => c.message
  | within context e => context ++ ": " ++ e.text
  | joined errors => joinedText (texts errors)

def texts : List ErrorValue → List String
  | [] => []
  | e :: rest => e.text :: texts rest

end

theorem joinedText_eq (messages : List String) :
    joinedText messages = listed (distinct messages) := by
  match messages with
  | [] => rfl
  | [only] => rfl
  | _ :: _ :: _ =>
    rw [joinedText, unseen_nil]
    · rfl
    · simp

theorem texts_eq (errors : List ErrorValue) : texts errors = errors.map text := by
  induction errors with
  | nil => rw [texts, List.map_nil]
  | cons e rest ih => rw [texts, List.map_cons, ih]

theorem text_within (contexts : List String) (e : ErrorValue) :
    (contexts.foldr within e).text = ": ".intercalate (contexts ++ [e.text]) := by
  induction contexts with
  | nil => exact (String.intercalate_singleton).symm
  | cons context rest ih =>
    rw [List.foldr_cons, text, ih, List.cons_append, String.intercalate_cons_of_ne_nil (by simp)]

end ErrorValue

theorem Fault.text_value (f : Fault) : f.value.text = f.message := by
  rw [Fault.value, ErrorValue.text_within, ErrorValue.text]
  rfl

theorem Aggregate.text_value (a : Aggregate) : a.value.text = a.message := by
  rw [Aggregate.value, ErrorValue.text, ErrorValue.texts_eq, ErrorValue.joinedText_eq, List.map_map,
    a.message_eq]
  congr 3
  funext f
  exact f.text_value

open ErrorValue Origin

/-- The messages of all causes, each with what was put around it before it was joined. -/
def leafMessages (forest : List Origin) : List String := (leavesOf forest).map Fault.message

theorem faults_of_leaves {forest : List Origin} {a : Aggregate}
    (ha : Aggregate.ofFailures? (failures forest) = some a) : a.faults = leavesOf forest := by
  rw [leavesOf_eq]
  exact Aggregate.ofFaults?_eq_some.mp ha

theorem message_of_leaves {forest : List Origin} {a : Aggregate}
    (ha : Aggregate.ofFailures? (failures forest) = some a) :
    a.message = listed (distinct (leafMessages forest)) := by
  rw [a.message_eq, faults_of_leaves ha, leafMessages]

/-- A joined error says its different messages in the order in which they come first, and each of
them in full, where every error in it has what was put around it in its message; yet it counts all
that it was joined from. So it says the same as any other error in which the same messages are told,
however often a message is told again behind the place where it comes first and in whatever brackets
the causes were joined. -/
theorem joined_errors_say_distinct_messages (forest : List Origin) {a : Aggregate}
    (ha : Aggregate.ofFailures? (failures forest) = some a) :
    join? (values forest) = some a.value ∧ a.value.text = a.message ∧
    (∀ f ∈ leavesOf forest, f.value.text = f.message ∧ f.message.toList <:+: a.message.toList) ∧
    (∃ told, InFirstOrder (leafMessages forest) told) ∧
    (∀ told, InFirstOrder (leafMessages forest) told → a.message = listed told) ∧
    a.length = (leavesOf forest).length ∧
    ∀ other b, Aggregate.ofFailures? (failures other) = some b →
      SameMessages (leafMessages forest) (leafMessages other) → b.message = a.message := by
  have hmessage := message_of_leaves ha
  refine ⟨?_, a.text_value, fun f hf => ⟨f.text_value, ?_⟩, ⟨_, .distinct _⟩, fun told htold => ?_,
    ?_, fun other b hb hsame => ?_⟩
  · rw [values_eq, join?_values, ha, Option.map_some]
  · rw [hmessage]
    exact infix_listed (mem_distinct.mpr (List.mem_map_of_mem hf))
  · rw [hmessage, htold.eq_distinct]
  · rw [Aggregate.length, faults_of_leaves ha]
  · rw [message_of_leaves hb, hmessage, hsame.distinct_eq]

/-- A cause that comes once more is counted again and not told again. -/
theorem repeated_cause_is_told_once :
    ∃ a, Aggregate.ofFailures? (failures [.joined [.cause (.plain "a"),
        .within "outer" (.cause (.plain "b"))], .cause (.plain "a")]) = some a ∧
      a.message = "[a, outer: b]" ∧ a.length = 3 := by
  obtain ⟨-, -, -, -, hmessage, hlength, -⟩ := joined_errors_say_distinct_messages
    [.joined [.cause (.plain "a"), .within "outer" (.cause (.plain "b"))], .cause (.plain "a")] rfl
  have hdistinct : Aggregate.distinct (leafMessages [.joined [.cause (.plain "a"),
      .within "outer" (.cause (.plain "b"))], .cause (.plain "a")]) = ["a", "outer: b"] := by decide
  exact ⟨_, rfl, hmessage ["a", "outer: b"] (hdistinct ▸ .distinct _), hlength⟩

end NodeLogs
