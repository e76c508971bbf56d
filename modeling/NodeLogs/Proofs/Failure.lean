import NodeLogs.Action

/-!
The faults in failures and in what gatherings come to. Nothing is lost or told twice when failures
are joined, and there is an aggregate only where there is a fault.
-/

namespace NodeLogs

theorem Failure.faults_ne_nil (f : Failure) : f.faults ≠ [] := by
  cases f <;> simp [Failure.faults, Aggregate.faults]

theorem Aggregate.ofFaults?_eq_some {faults : List Fault} {a : Aggregate} :
    Aggregate.ofFaults? faults = some a ↔ a.faults = faults := by
  cases faults with
  | nil => simp [ofFaults?, Aggregate.faults]
  | cons f rest =>
    obtain ⟨first, others⟩ := a
    simp [ofFaults?, Aggregate.faults, eq_comm]

theorem Aggregate.ofFaults?_eq_none {faults : List Fault} :
    Aggregate.ofFaults? faults = none ↔ faults = [] := by
  cases faults <;> simp [ofFaults?]

namespace Outcome

variable {α : Type}

/-- The faults of an operation: none where it succeeded. -/
def faults : Outcome α → List Fault
  | .ok _ => []
  | .error f => f.faults

theorem faults_eq_nil {o : Outcome Unit} : faults o = [] ↔ o = .ok () := by
  cases o with
  | ok _ => simp [faults]
  | error f => simp [faults, f.faults_ne_nil]

theorem flatMap_failure? (o : Outcome α) :
    (failure? o).toList.flatMap Failure.faults = faults o := by
  cases o <;> simp [failure?, faults]

theorem flatMap_failures (results : List (Outcome α)) :
    (results.filterMap failure?).flatMap Failure.faults = results.flatMap faults := by
  induction results with
  | nil => rfl
  | cons o rest ih =>
    rw [List.flatMap_cons, ← ih]
    cases o with
    | ok _ => rfl
    | error f => exact List.flatMap_cons

end Outcome

/-- A gathering fails with all the faults of its parts, in order. -/
theorem Action.faults_gathered (contexts : List String) (results : List (Outcome Unit)) :
    (gathered contexts results).faults = results.flatMap Outcome.faults := by
  rw [← Outcome.flatMap_failures]
  unfold gathered Aggregate.ofResults? Aggregate.ofFailures?
  split
  · next hnone => rw [Aggregate.ofFaults?_eq_none.mp hnone]; rfl
  · next a hsome => rw [← Aggregate.ofFaults?_eq_some.mp hsome]; rfl

end NodeLogs
