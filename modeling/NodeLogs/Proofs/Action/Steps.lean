import NodeLogs.Action

/-!
Actions in any order. What is under way takes one step at a time, and the next step may be that of
any part that has not ended. However the parts take turns, all of them come to their end.
-/

namespace NodeLogs

/-- An action under way: about to take a step, waiting for its parts, or ended. -/
inductive Task (σ : Type) where
  | ready (a : Action σ)
  | waiting (contexts : List String) (parts : List (Task σ))
  | ended (result : Outcome Unit)

/-- A change of the state, with the place of the action that made it. -/
structure Event (σ : Type) where
  place : Place
  before : σ
  after : σ

namespace Task

variable {σ : Type} {place : Place} {t t' t'' : Task σ} {s s' s'' : σ}
  {events later : List (Event σ)}

/-- One step. An action ends as a task of any number: the runtime has handed one to it, and it is
not told before the end. -/
inductive Step : Place → Task σ → σ → List (Event σ) → Task σ → σ → Prop
  | finish (place : Place) (f : Finish) (task : Nat) (s : σ) :
      Step place (.ready (.finish f)) s [] (.ended (f.outcome task)) s
  | act (place : Place) (effect : σ → σ) (next : σ → Action σ) (s : σ) :
      Step place (.ready (.step effect next)) s [⟨place, s, effect s⟩] (.ready (next s)) (effect s)
  | spawn (place : Place) (contexts : List String) (parts : List (Action σ)) (s : σ) :
      Step place (.ready (.gather contexts parts)) s [] (.waiting contexts (parts.map .ready)) s
  | part {place : Place} (contexts : List String) (before after : List (Task σ)) {t t' : Task σ}
      {s s' : σ} {events : List (Event σ)}
      (step : Step (place ++ [before.length]) t s events t' s') :
      Step place (.waiting contexts (before ++ t :: after)) s events
        (.waiting contexts (before ++ t' :: after)) s'
  | join (place : Place) (contexts : List String) (results : List (Outcome Unit)) (s : σ) :
      Step place (.waiting contexts (results.map .ended)) s []
        (.ended (Action.gathered contexts results)) s

/-- Any number of steps, with the changes that they made. -/
inductive Run (place : Place) : Task σ → σ → List (Event σ) → Task σ → σ → Prop
  | refl (t : Task σ) (s : σ) : Run place t s [] t s
  | step {t t' t'' : Task σ} {s s' s'' : σ} {events later : List (Event σ)}
      (first : Step place t s events t' s') (rest : Run place t' s' later t'' s'') :
      Run place t s (events ++ later) t'' s''

theorem Run.trans (h : Run place t s events t' s') (h' : Run place t' s' later t'' s'') :
    Run place t s (events ++ later) t'' s'' := by
  induction h with
  | refl => exact h'
  | step first rest ih =>
    rw [List.append_assoc]
    exact .step first (ih h')

theorem Run.of_step (h : Step place t s events t' s') : Run place t s events t' s' := by
  rw [← List.append_nil events]
  exact .step h (.refl t' s')

theorem Run.part (contexts : List String) (before after : List (Task σ))
    (h : Run (place ++ [before.length]) t s events t' s') :
    Run place (.waiting contexts (before ++ t :: after)) s events
      (.waiting contexts (before ++ t' :: after)) s' := by
  induction h with
  | refl t s => exact .refl _ s
  | step first rest ih => exact .step (.part contexts before after first) ih

/-! Every run ends -/

theorem all_ended_or_split (parts : List (Task σ)) :
    (∃ results : List (Outcome Unit), parts = results.map .ended) ∨
      ∃ before t after, parts = before ++ t :: after ∧ ∀ result, t ≠ .ended result := by
  induction parts with
  | nil => exact Or.inl ⟨[], rfl⟩
  | cons t rest ih =>
    cases t with
    | ended result =>
      rcases ih with ⟨results, rfl⟩ | ⟨before, t, after, rfl, hopen⟩
      · exact Or.inl ⟨result :: results, rfl⟩
      · exact Or.inr ⟨.ended result :: before, t, after, rfl, hopen⟩
    | ready a => exact Or.inr ⟨[], .ready a, rest, rfl, nofun⟩
    | waiting contexts parts => exact Or.inr ⟨[], .waiting contexts parts, rest, rfl, nofun⟩

/-- What has not ended can take a step. -/
theorem exists_step (place : Place) (t : Task σ) (s : σ) (hopen : ∀ result, t ≠ .ended result) :
    ∃ events t' s', Step place t s events t' s' := by
  match t with
  | .ended result => exact absurd rfl (hopen result)
  | .ready (.finish f) => exact ⟨_, _, _, .finish place f 0 s⟩
  | .ready (.step effect next) => exact ⟨_, _, _, .act place effect next s⟩
  | .ready (.gather contexts parts) => exact ⟨_, _, _, .spawn place contexts parts s⟩
  | .waiting contexts parts =>
    rcases all_ended_or_split parts with ⟨results, rfl⟩ | ⟨before, t, after, hparts, ht⟩
    · exact ⟨_, _, _, .join place contexts results s⟩
    · have hsize : sizeOf t < sizeOf parts :=
        List.sizeOf_lt_of_mem (hparts ▸ List.mem_append_right before List.mem_cons_self)
      obtain ⟨events, t', s', hstep⟩ := exists_step (place ++ [before.length]) t s ht
      rw [hparts]
      exact ⟨events, _, s', .part contexts before after hstep⟩
termination_by sizeOf t
decreasing_by
  simp only [Task.waiting.sizeOf_spec]
  omega

/-- One task comes after another. -/
def After (t' t : Task σ) : Prop := ∃ place s events s', Step place t s events t' s'

/-- One of several tasks takes a step. -/
def OneAfter (parts' parts : List (Task σ)) : Prop :=
  ∃ before t t' after, parts = before ++ t :: after ∧ parts' = before ++ t' :: after ∧ After t' t

theorem acc_ended (result : Outcome Unit) : Acc After (.ended result : Task σ) := by
  constructor
  rintro t ⟨place, s, events, s', hstep⟩
  cases hstep

/-- Taking turns, tasks that end one by one end together. -/
theorem acc_oneAfter {parts : List (Task σ)} (h : ∀ t ∈ parts, Acc After t) :
    Acc OneAfter parts := by
  induction parts with
  | nil =>
    constructor
    rintro parts ⟨before, t, t', after, hparts, -, -⟩
    simp at hparts
  | cons t rest ih =>
    have hrest := ih fun t ht => h t (List.mem_cons_of_mem _ ht)
    have hfirst := h t List.mem_cons_self
    clear ih h
    -- Each step is either the first one's or that of one of the others.
    induction hfirst generalizing rest with
    | intro t ht ihfirst =>
      induction hrest with
      | intro rest hrest ihrest =>
        constructor
        rintro parts ⟨before, u, u', after, hparts, rfl, hstep⟩
        rcases before with _ | ⟨first, before⟩
        · obtain ⟨rfl, rfl⟩ := List.cons.inj hparts
          exact ihfirst u' hstep _ (Acc.intro rest hrest)
        · obtain ⟨rfl, rfl⟩ := List.cons.inj hparts
          exact ihrest _ ⟨before, u, u', after, rfl, rfl, hstep⟩

theorem acc_waiting {contexts : List String} {parts : List (Task σ)} (h : Acc OneAfter parts) :
    Acc After (.waiting contexts parts) := by
  induction h with
  | intro parts _ ih =>
    constructor
    rintro u ⟨place, s, events, s', hstep⟩
    cases hstep with
    | part contexts before after step =>
      exact ih _ ⟨before, _, _, after, rfl, rfl, _, _, _, _, step⟩
    | join place contexts results => exact acc_ended _

mutual

theorem acc_ready : ∀ a : Action σ, Acc After (.ready a)
  | .finish f => by
    constructor
    rintro u ⟨place, s, events, s', hstep⟩
    cases hstep
    exact acc_ended _
  | .step effect next => by
    constructor
    rintro u ⟨place, s, events, s', hstep⟩
    cases hstep
    exact acc_ready (next s)
  | .gather contexts parts => by
    constructor
    rintro u ⟨place, s, events, s', hstep⟩
    cases hstep
    exact acc_waiting (acc_oneAfter (acc_all_ready parts))

theorem acc_all_ready : ∀ parts : List (Action σ), ∀ t ∈ parts.map Task.ready, Acc After t
  | [], t, ht => by cases ht
  | a :: rest, t, ht => by
    rcases List.mem_cons.mp ht with rfl | ht
    · exact acc_ready a
    · exact acc_all_ready rest t ht

end

mutual

/-- No task goes on forever. -/
theorem acc_after : ∀ t : Task σ, Acc After t
  | .ready a => acc_ready a
  | .waiting _ parts => acc_waiting (acc_oneAfter (acc_all_after parts))
  | .ended result => acc_ended result

theorem acc_all_after : ∀ parts : List (Task σ), ∀ t ∈ parts, Acc After t
  | [], t, ht => by cases ht
  | first :: rest, t, ht => by
    rcases List.mem_cons.mp ht with heq | ht
    · rw [heq]
      exact acc_after first
    · exact acc_all_after rest t ht

end

/-- From wherever a run has come to, it can go on to its end. -/
theorem exists_run (place : Place) (t : Task σ) (s : σ) :
    ∃ events result s', Run place t s events (.ended result) s' := by
  induction acc_after t generalizing s with
  | intro t _ ih =>
    by_cases hopen : ∃ result, t = .ended result
    · obtain ⟨result, rfl⟩ := hopen
      exact ⟨[], result, s, .refl _ s⟩
    · obtain ⟨events, t', s', hstep⟩ :=
        exists_step place t s fun result heq => hopen ⟨result, heq⟩
      obtain ⟨later, result, s'', hrun⟩ := ih t' ⟨place, s, events, s', hstep⟩ s'
      exact ⟨events ++ later, result, s'', .step hstep hrun⟩

mutual

/-- Running the parts one after the other is one of the ways to run them. -/
theorem run_in_turn : ∀ (a : Action σ) (place : Place) (s : σ),
    ∃ events, Run place (.ready a) s events (.ended (a.run place s).2) (a.run place s).1
  | .finish f, place, s => ⟨[], .of_step (.finish place f (place.getLastD 0) s)⟩
  | .step effect next, place, s => by
    obtain ⟨events, hrun⟩ := run_in_turn (next s) place (effect s)
    rw [Action.run]
    exact ⟨_, .step (.act place effect next s) hrun⟩
  | .gather contexts parts, place, s => by
    obtain ⟨events, hrun⟩ := runAll_in_turn parts place contexts [] s
    rw [Action.run]
    refine ⟨events, .step (.spawn place contexts parts s) ?_⟩
    have hjoin := Run.of_step (.join place contexts (Action.runAll place 0 parts s).2
      (Action.runAll place 0 parts s).1)
    rw [← List.append_nil events]
    exact hrun.trans hjoin

theorem runAll_in_turn : ∀ (parts : List (Action σ)) (place : Place) (contexts : List String)
    (done : List (Outcome Unit)) (s : σ),
    ∃ events, Run place (.waiting contexts (done.map .ended ++ parts.map .ready)) s events
      (.waiting contexts ((done ++ (Action.runAll place done.length parts s).2).map .ended))
      (Action.runAll place done.length parts s).1
  | [], place, contexts, done, s => by
    rw [Action.runAll, List.append_nil, List.map_nil, List.append_nil]
    exact ⟨[], .refl _ s⟩
  | a :: rest, place, contexts, done, s => by
    obtain ⟨events, hfirst⟩ := run_in_turn a (place ++ [done.length]) s
    generalize hran : a.run (place ++ [done.length]) s = ran at hfirst
    obtain ⟨later, hrest⟩ := runAll_in_turn rest place contexts (done ++ [ran.2]) ran.1
    have hlength : (done.map (Task.ended (σ := σ))).length = done.length := List.length_map _
    rw [← hlength] at hfirst
    have hpart := hfirst.part contexts (done.map .ended) (rest.map .ready)
    have hall : Action.runAll place done.length (a :: rest) s =
        ((Action.runAll place (done.length + 1) rest ran.1).1,
          ran.2 :: (Action.runAll place (done.length + 1) rest ran.1).2) := by
      rw [Action.runAll, hran]
    rw [hall]
    simp only [List.map_append, List.map_cons, List.map_nil, List.append_assoc,
      List.cons_append, List.nil_append, List.length_append, List.length_cons,
      List.length_nil] at hrest ⊢
    exact ⟨events ++ later, hpart.trans hrest⟩

end

/-- Of two parts, the last may run to its end before the first begins. -/
theorem run_last_first (first last : Action σ) (place : Place) (contexts : List String) (s : σ) :
    let ranLast := last.run (place ++ [1]) s
    let ranFirst := first.run (place ++ [0]) ranLast.1
    ∃ events, Run place (.ready (.gather contexts [first, last])) s events
      (.ended (Action.gathered contexts [ranFirst.2, ranLast.2])) ranFirst.1 := by
  intro ranLast ranFirst
  obtain ⟨events, hlast⟩ := run_in_turn last (place ++ [1]) s
  obtain ⟨later, hfirst⟩ := run_in_turn first (place ++ [0]) ranLast.1
  have hlast := hlast.part contexts [.ready first] []
  have hfirst := hfirst.part contexts [] [.ended ranLast.2]
  have hjoin := Run.of_step (.join place contexts [ranFirst.2, ranLast.2] ranFirst.1)
  exact ⟨_, .step (.spawn place contexts [first, last] s) (hlast.trans (hfirst.trans hjoin))⟩

end Task

end NodeLogs
