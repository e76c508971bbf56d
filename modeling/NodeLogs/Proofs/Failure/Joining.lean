import NodeLogs.Proofs.Failure

/-!
Failures joined at any depth. Joining looks one level down only, through whatever was put around a
failure. That this is enough to tell every fault once, however deep it lies, rests on what joining
makes: it is never empty, and nothing in it is joined itself.
-/

namespace NodeLogs

/-! Errors as values -/

/-- An error that others are handed. Nothing in its type keeps a joined one from being empty or from
holding others. -/
inductive ErrorValue where
  | cause (c : Cause)
  | within (text : String) (e : ErrorValue)
  | joined (errors : List ErrorValue)

namespace ErrorValue

/-- The errors in a joined one, which is looked for through what is around it. -/
def parts? : ErrorValue → Option (List ErrorValue)
  | cause _ => none
  | within _ e => e.parts?
  | joined errors => some errors

/-- Errors taken apart by one level, all others left as they are. -/
def spread (errors : List ErrorValue) : List ErrorValue :=
  errors.flatMap fun e => e.parts?.getD [e]

/-- Errors joined into one, unless there are none. -/
def join? (errors : List ErrorValue) : Option ErrorValue :=
  match spread errors with
  | [] => none
  | flat => some (joined flat)

end ErrorValue

/-! The values of failures -/

def Fault.value (f : Fault) : ErrorValue := f.contexts.foldr .within (.cause f.cause)

def Aggregate.value (a : Aggregate) : ErrorValue := .joined (a.faults.map Fault.value)

def Failure.value : Failure → ErrorValue
  | .single f => f.value
  | .many contexts a => contexts.foldr .within a.value

theorem ErrorValue.parts?_within (contexts : List String) (e : ErrorValue) :
    (contexts.foldr .within e).parts? = e.parts? := by
  induction contexts with
  | nil => rfl
  | cons text rest ih => exact ih

theorem Fault.parts?_value (f : Fault) : f.value.parts? = none :=
  ErrorValue.parts?_within f.contexts _

theorem Failure.spread_value (f : Failure) :
    f.value.parts?.getD [f.value] = f.faults.map Fault.value := by
  cases f with
  | single f => simp [Failure.value, Failure.faults, f.parts?_value]
  | many contexts a =>
    rw [Failure.value, ErrorValue.parts?_within]
    rfl

theorem ErrorValue.spread_values (failures : List Failure) :
    spread (failures.map Failure.value) = (failures.flatMap Failure.faults).map Fault.value := by
  induction failures with
  | nil => rfl
  | cons f rest ih =>
    rw [List.map_cons, spread, List.flatMap_cons, f.spread_value, List.flatMap_cons,
      List.map_append, ← ih]
    rfl

/-- One level is enough: joining the values of failures gives the value of their aggregate. -/
theorem ErrorValue.join?_values (failures : List Failure) :
    join? (failures.map Failure.value) = (Aggregate.ofFailures? failures).map Aggregate.value := by
  rw [join?, spread_values, Aggregate.ofFailures?]
  cases failures.flatMap Failure.faults with
  | nil => rfl
  | cons f rest => rfl

/-! How errors come about -/

/-- How an error came about: from a cause, by something being put around another one, or by joining
others, where joining none gives no error. -/
inductive Origin where
  | cause (c : Cause)
  | within (text : String) (e : Origin)
  | joined (parts : List Origin)

namespace Origin

mutual

/-- The failure that there is, if any. -/
def failure? : Origin → Option Failure
  | cause c => some (.ofCause c)
  | within text e => e.failure?.map (Failure.context text)
  | joined parts => (Aggregate.ofFailures? (failures parts)).map (.many [])

def failures : List Origin → List Failure
  | [] => []
  | e :: rest => e.failure?.toList ++ failures rest

end

mutual

/-- The same with errors as values. -/
def value? : Origin → Option ErrorValue
  | cause c => some (.cause c)
  | within text e => e.value?.map (.within text)
  | joined parts => ErrorValue.join? (values parts)

def values : List Origin → List ErrorValue
  | [] => []
  | e :: rest => e.value?.toList ++ values rest

end

mutual

/-- All causes from left to right, each with what was put around it before it was joined with others
for the first time, here with these texts around all of it. -/
def leaves (around : List String) : Origin → List Fault
  | cause c => [⟨around, c⟩]
  | within text e => e.leaves (around ++ [text])
  | joined parts => leavesOf parts

def leavesOf : List Origin → List Fault
  | [] => []
  | e :: rest => e.leaves [] ++ leavesOf rest

end

theorem context_value (text : String) (f : Failure) :
    (f.context text).value = .within text f.value := by
  cases f <;> rfl

mutual

theorem value?_eq : ∀ e : Origin, e.value? = e.failure?.map Failure.value
  | cause c => by
    rw [value?, failure?]
    rfl
  | within text e => by
    rw [value?, failure?, value?_eq e, Option.map_map, Option.map_map]
    congr 1
    funext f
    exact (context_value text f).symm
  | joined parts => by
    rw [value?, failure?, values_eq parts, ErrorValue.join?_values, Option.map_map]
    rfl

theorem values_eq : ∀ parts : List Origin, values parts = (failures parts).map Failure.value
  | [] => by
    rw [values, failures]
    rfl
  | e :: rest => by
    rw [values, failures, value?_eq e, values_eq rest, List.map_append]
    cases e.failure? <;> rfl

end

theorem single_within (around : List String) (fault : Fault) :
    around.foldr Failure.context (.single fault) =
      .single ⟨around ++ fault.contexts, fault.cause⟩ := by
  induction around with
  | nil => rfl
  | cons text rest ih =>
    rw [List.foldr_cons, ih]
    rfl

/-- What is put around a joined failure is not told of its faults. -/
theorem many_within (around contexts : List String) (a : Aggregate) :
    around.foldr Failure.context (.many contexts a) = .many (around ++ contexts) a := by
  induction around with
  | nil => rfl
  | cons text rest ih =>
    rw [List.foldr_cons, ih]
    rfl

mutual

theorem leaves_eq : ∀ (e : Origin) (around : List String),
    e.leaves around =
      e.failure?.toList.flatMap fun f => (around.foldr Failure.context f).faults
  | cause c, around => by
    rw [leaves, failure?, Option.toList_some, List.flatMap_singleton, Failure.ofCause,
      single_within, List.append_nil]
    rfl
  | within text e, around => by
    rw [leaves, failure?, leaves_eq e]
    cases e.failure? with
    | none => rfl
    | some f =>
      simp only [Option.map_some, Option.toList_some, List.flatMap_singleton, List.foldr_append,
        List.foldr_cons, List.foldr_nil]
  | joined parts, around => by
    rw [leaves, failure?, leavesOf_eq parts]
    cases hjoined : Aggregate.ofFailures? (failures parts) with
    | none => exact Aggregate.ofFaults?_eq_none.mp hjoined
    | some a =>
      rw [← Aggregate.ofFaults?_eq_some.mp hjoined, Option.map_some, Option.toList_some,
        List.flatMap_singleton, many_within]
      rfl

theorem leavesOf_eq : ∀ parts : List Origin,
    leavesOf parts = (failures parts).flatMap Failure.faults
  | [] => by
    rw [leavesOf, failures]
    rfl
  | e :: rest => by
    rw [leavesOf, failures, leaves_eq e, leavesOf_eq rest, List.flatMap_append]
    rfl

end

end Origin

open ErrorValue Origin

/-- Faults that were told before are told again as they were. -/
theorem Aggregate.ofFailures?_faults (a : Aggregate) :
    Aggregate.ofFailures? (a.faults.map .single) = some a := by
  have hfaults (faults : List Fault) :
    (faults.map Failure.single).flatMap Failure.faults = faults := by
    rw [List.flatMap_map]
    exact List.flatMap_singleton' faults
  rw [Aggregate.ofFailures?, hfaults]
  exact Aggregate.ofFaults?_eq_some.mpr rfl

/-- Joining errors that came about in any way, one level at a time, tells all their causes from left
to right, each once and with what was put around it before it was joined for the first time; and
there is nothing to tell just where there is no cause. No error that was joined is empty or has a
joined one in it, so joining its parts gives it again, and the same causes joined in other brackets
give the same. -/
theorem joining_tells_every_cause (forest : List Origin) :
    join? (values forest) = (Aggregate.ofFailures? (failures forest)).map Aggregate.value ∧
    (Aggregate.ofFailures? (failures forest) = none ↔ leavesOf forest = []) ∧
    (∀ a, Aggregate.ofFailures? (failures forest) = some a →
      a.faults = leavesOf forest ∧ Aggregate.ofFailures? (a.faults.map .single) = some a) ∧
    (∀ e parts, join? (values forest) = some e → e.parts? = some parts →
      parts ≠ [] ∧ (∀ part ∈ parts, part.parts? = none) ∧ join? parts = some e) ∧
    ∀ other, leavesOf other = leavesOf forest →
      Aggregate.ofFailures? (failures other) = Aggregate.ofFailures? (failures forest) := by
  have hvalues : join? (values forest) =
      (Aggregate.ofFailures? (failures forest)).map Aggregate.value := by
    rw [values_eq, join?_values]
  refine ⟨hvalues, ?_, ?_, ?_, ?_⟩
  · rw [leavesOf_eq]
    exact Aggregate.ofFaults?_eq_none
  · intro a ha
    rw [leavesOf_eq]
    exact ⟨Aggregate.ofFaults?_eq_some.mp ha, a.ofFailures?_faults⟩
  · intro e parts he hparts
    rw [hvalues, Option.map_eq_some_iff] at he
    obtain ⟨a, -, rfl⟩ := he
    obtain rfl : a.faults.map Fault.value = parts := Option.some.inj hparts
    refine ⟨by simp [Aggregate.faults], ?_, ?_⟩
    · intro part hpart
      obtain ⟨f, -, rfl⟩ := List.mem_map.mp hpart
      exact f.parts?_value
    · have hsingles : a.faults.map Fault.value =
        (a.faults.map Failure.single).map Failure.value := by
        rw [List.map_map]
        rfl
      rw [hsingles, join?_values, a.ofFailures?_faults]
      rfl
  · intro other hsame
    rw [leavesOf_eq, leavesOf_eq] at hsame
    exact congrArg Aggregate.ofFaults? hsame

/-- A text put around what is joined is dropped, and joining nothing adds nothing. -/
example :
    leavesOf [.within "outer" (.joined [.within "inner" (.cause (.plain "a")), .joined []]),
      .within "last" (.cause (.plain "b"))] =
        [⟨["inner"], .plain "a"⟩, ⟨["last"], .plain "b"⟩] := by
  decide

end NodeLogs
