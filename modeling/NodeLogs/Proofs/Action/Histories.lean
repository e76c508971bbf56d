import NodeLogs.Proofs.Action.Steps

/-!
What an action does in a run, told without the others that take turns with it: the changes that it
and its parts make, in order, and how it ends. A run of a gathering holds the histories of all its
parts, each of them whole.
-/

namespace NodeLogs

variable {σ : Type} {place : Place} {events later : List (Event σ)}

namespace Event

/-- What was done at a place or below it. -/
def within (place : Place) (events : List (Event σ)) : List (Event σ) :=
  events.filter fun e => place <+: e.place

/-- Changes of which each goes on from the one before. -/
def Chained : σ → List (Event σ) → σ → Prop
  | s, [], s' => s' = s
  | s, e :: later, s' => e.before = s ∧ Chained e.after later s'

theorem Chained.append {s s' s'' : σ} (h : Chained s events s') (h' : Chained s' later s'') :
    Chained s (events ++ later) s'' := by
  induction events generalizing s with
  | nil =>
    cases h
    exact h'
  | cons e events ih => exact ⟨h.1, ih h.2⟩

theorem within_append (place : Place) (events later : List (Event σ)) :
    within place (events ++ later) = within place events ++ within place later :=
  List.filter_append events later

theorem within_all (h : ∀ e ∈ events, place <+: e.place) : within place events = events := by
  simpa [within] using h

theorem within_within {above : Place} (h : above <+: place) (events : List (Event σ)) :
    within place (within above events) = within place events := by
  unfold within
  rw [List.filter_filter]
  congr 1
  funext e
  rw [Bool.eq_iff_iff]
  simp only [Bool.and_eq_true, decide_eq_true_eq, and_iff_left_iff_imp]
  exact h.trans

theorem same_part {i j : Nat} {inner : Place} (hi : place ++ [i] <+: inner)
    (hj : place ++ [j] <+: inner) : i = j := by
  have hsame : place ++ [i] <+: place ++ [j] :=
    List.prefix_of_prefix_length_le hi hj (by simp)
  simpa using hsame.eq_of_length (by simp)

theorem within_other {i j : Nat} (hne : i ≠ j) (h : ∀ e ∈ events, place ++ [i] <+: e.place) :
    within (place ++ [j]) events = [] := by
  rw [within, List.filter_eq_nil_iff]
  intro e he
  simpa using fun hj => hne (same_part (h e he) hj)

end Event

open Event (within Chained)

namespace Task

/-- A task that makes these changes, its parts in whatever order, and ends so. -/
inductive Completes : Place → Task σ → List (Event σ) → Outcome Unit → Prop
  | ended (place : Place) (result : Outcome Unit) : Completes place (.ended result) [] result
  | finish (place : Place) (f : Finish) (task : Nat) :
      Completes place (.ready (.finish f)) [] (f.outcome task)
  | act {place : Place} {effect : σ → σ} {next : σ → Action σ} (s : σ) {later : List (Event σ)}
      {result : Outcome Unit} (rest : Completes place (.ready (next s)) later result) :
      Completes place (.ready (.step effect next)) (⟨place, s, effect s⟩ :: later) result
  | gather {place : Place} {contexts : List String} {parts : List (Action σ)}
      {events : List (Event σ)} {result : Outcome Unit}
      (rest : Completes place (.waiting contexts (parts.map .ready)) events result) :
      Completes place (.ready (.gather contexts parts)) events result
  | waiting {place : Place} (contexts : List String) {parts : List (Task σ)}
      {events : List (Event σ)} {results : List (Outcome Unit)}
      (length : results.length = parts.length)
      (below : ∀ e ∈ events, ∃ i < parts.length, place ++ [i] <+: e.place)
      (each : ∀ i t result, parts[i]? = some t → results[i]? = some result →
        Completes (place ++ [i]) t (within (place ++ [i]) events) result) :
      Completes place (.waiting contexts parts) events (Action.gathered contexts results)

variable {t t' : Task σ} {s s' : σ} {result : Outcome Unit}

theorem Step.events_below (h : Step place t s events t' s') : ∀ e ∈ events, place <+: e.place := by
  induction h with
  | finish | spawn | join => exact nofun
  | act => simp
  | part contexts before after step ih =>
    exact fun e he => (List.prefix_append _ _).trans (ih e he)

theorem Step.chained (h : Step place t s events t' s') : Chained s events s' := by
  induction h with
  | finish | spawn | join => rfl
  | act => exact ⟨rfl, rfl⟩
  | part contexts before after step ih => exact ih

theorem Run.chained (h : Run place t s events t' s') : Chained s events s' := by
  induction h with
  | refl => rfl
  | step first rest ih => exact first.chained.append ih

/-- Replacing one part leaves the others. -/
theorem getElem?_beside {α : Type} {before after : List α} {i : Nat} (hi : i ≠ before.length)
    (x y : α) : (before ++ x :: after)[i]? = (before ++ y :: after)[i]? := by
  rcases Nat.lt_or_gt_of_ne hi with hlt | hgt
  · rw [List.getElem?_append_left hlt, List.getElem?_append_left hlt]
  · obtain ⟨k, rfl⟩ := Nat.exists_eq_add_of_lt hgt
    simp [List.getElem?_append_right, Nat.add_assoc]

/-- A step before what a task does is part of what it does. -/
theorem Completes.of_step (h : Step place t s events t' s') (h' : Completes place t' later result) :
    Completes place t (events ++ later) result := by
  induction h generalizing later result with
  | finish place f task s =>
    cases h'
    exact .finish place f task
  | act place effect next s => exact .act s h'
  | spawn place contexts parts s => exact .gather h'
  | join place contexts results s =>
    cases h'
    refine .waiting contexts (List.length_map _).symm nofun ?_
    intro i t result ht hresult
    rw [List.getElem?_map, hresult] at ht
    cases ht
    exact .ended _ result
  | @part place contexts before after t t' s s' events step ih =>
    cases h' with
    | waiting _ length below each =>
      refine .waiting contexts (by simpa using length) ?_ ?_
      · intro e he
        rcases List.mem_append.mp he with he | he
        · exact ⟨before.length, by simp, step.events_below e he⟩
        · simpa using below e he
      · intro i u result hu hresult
        rw [Event.within_append]
        by_cases hi : i = before.length
        · subst hi
          obtain rfl : t = u := by simpa using hu
          rw [Event.within_all step.events_below]
          exact ih (each before.length t' result (by simp) hresult)
        · rw [Event.within_other (Ne.symm hi) step.events_below, List.nil_append]
          exact each i u result (by rw [← hu, getElem?_beside hi t' t]) hresult

/-- All that a task does in a run that ends. -/
theorem Run.completes (h : Run place t s events (.ended result) s') :
    Completes place t events result := by
  generalize hend : Task.ended result = last at h
  induction h with
  | refl => exact hend ▸ .ended place result
  | step first rest ih => exact .of_step first (ih hend)

end Task

end NodeLogs
