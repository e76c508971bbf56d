import Mathlib.Data.List.Forall2
import NodeLogs.Proofs.Action.Steps

/-!
Actions seen through a view of their state. Where an action does through the view what another one
does, each run of the other is the view of a run of the first.
-/

namespace NodeLogs

variable {τ σ : Type} {view : τ → σ} {place : Place}

def Event.seen (view : τ → σ) (e : Event τ) : Event σ := ⟨e.place, view e.before, view e.after⟩

/-- An action that does through the view what another one does. -/
inductive Action.Mirrors (view : τ → σ) : Action τ → Action σ → Prop
  | finish (f : Finish) : Mirrors view (.finish f) (.finish f)
  | step {effect : τ → τ} {effect' : σ → σ} {next : τ → Action τ} {next' : σ → Action σ}
      (same : ∀ s, view (effect s) = effect' (view s))
      (goesOn : ∀ s, Mirrors view (next s) (next' (view s))) :
      Mirrors view (.step effect next) (.step effect' next')
  | gather (contexts : List String) {parts : List (Action τ)} {parts' : List (Action σ)}
      (each : List.Forall₂ (Mirrors view) parts parts') :
      Mirrors view (.gather contexts parts) (.gather contexts parts')

namespace Task

inductive Mirrors (view : τ → σ) : Task τ → Task σ → Prop
  | ready {a : Action τ} {a' : Action σ} (same : Action.Mirrors view a a') :
      Mirrors view (.ready a) (.ready a')
  | waiting (contexts : List String) {parts : List (Task τ)} {parts' : List (Task σ)}
      (each : List.Forall₂ (Mirrors view) parts parts') :
      Mirrors view (.waiting contexts parts) (.waiting contexts parts')
  | ended (result : Outcome Unit) : Mirrors view (.ended result) (.ended result)

/-- What is related to one of several has its place among those that are related to them. -/
theorem forall₂_part {α β : Type} {R : α → β → Prop} {as : List α} {before after : List β} {b : β}
    (h : List.Forall₂ R as (before ++ b :: after)) :
    ∃ before' a after', as = before' ++ a :: after' ∧ before'.length = before.length ∧ R a b ∧
      ∀ a' b', R a' b' → List.Forall₂ R (before' ++ a' :: after') (before ++ b' :: after) := by
  induction before generalizing as with
  | nil =>
    cases h with
    | @cons a _ as' _ first rest =>
      exact ⟨[], a, as', rfl, rfl, first, fun a' b' h' => .cons h' rest⟩
  | cons b₁ before ih =>
    cases h with
    | @cons a₁ _ _ _ first rest =>
      obtain ⟨before', a, after', rfl, hlength, hpart, hput⟩ := ih rest
      exact ⟨a₁ :: before', a, after', rfl, congrArg (· + 1) hlength, hpart,
        fun a' b' h' => .cons first (hput a' b' h')⟩

theorem mirrors_ended {parts : List (Task τ)} {results : List (Outcome Unit)}
    (h : List.Forall₂ (Mirrors view) parts (results.map .ended)) : parts = results.map .ended := by
  induction results generalizing parts with
  | nil =>
    cases h
    rfl
  | cons result rest ih =>
    cases h with
    | cons first others =>
      cases first
      rw [ih others, List.map_cons]

theorem Step.seen {t t' : Task σ} {s s' : σ} {events : List (Event σ)}
    (h : Step place t s events t' s') {u : Task τ} {z : τ} (hview : view z = s)
    (hmirrors : Mirrors view u t) :
    ∃ events' u' z', Step place u z events' u' z' ∧ events'.map (Event.seen view) = events ∧
      view z' = s' ∧ Mirrors view u' t' := by
  induction h generalizing u z with
  | finish place f task s =>
    cases hmirrors with
    | ready hready =>
      cases hready
      exact ⟨[], _, z, .finish place f task z, rfl, hview, .ended _⟩
  | act place effect' next' s =>
    cases hmirrors with
    | ready hready =>
      cases hready with
      | @step effect _ next _ hsame hgoes =>
        refine ⟨_, _, _, .act place effect next z, ?_, ?_, .ready ?_⟩
        · rw [List.map_singleton, Event.seen, hsame, hview]
        · rw [hsame, hview]
        · rw [← hview]
          exact hgoes z
  | spawn place contexts parts' s =>
    cases hmirrors with
    | ready hready =>
      cases hready with
      | @gather _ parts _ each =>
        refine ⟨[], _, z, .spawn place contexts parts z, rfl, hview, .waiting contexts ?_⟩
        rw [List.forall₂_map_left_iff, List.forall₂_map_right_iff]
        exact each.imp fun a a' ha => .ready ha
  | part contexts before after step ih =>
    cases hmirrors with
    | waiting _ each =>
      obtain ⟨before', u, after', rfl, hlength, hpart, hput⟩ := forall₂_part each
      rw [← hlength] at ih
      obtain ⟨events', u', z', hstep, hevents, hview', hmirrors'⟩ := ih hview hpart
      exact ⟨events', _, z', .part contexts before' after' hstep, hevents, hview',
        .waiting contexts (hput u' _ hmirrors')⟩
  | join place contexts results s =>
    cases hmirrors with
    | waiting _ each =>
      rw [mirrors_ended each]
      exact ⟨[], _, z, .join place contexts results z, rfl, hview, .ended _⟩

/-- Each run of what is mirrored is the view of a run. -/
theorem Run.seen {t t' : Task σ} {s s' : σ} {events : List (Event σ)}
    (h : Run place t s events t' s') {u : Task τ} {z : τ} (hview : view z = s)
    (hmirrors : Mirrors view u t) :
    ∃ events' u' z', Run place u z events' u' z' ∧ events'.map (Event.seen view) = events ∧
      view z' = s' ∧ Mirrors view u' t' := by
  induction h generalizing u z with
  | refl t s => exact ⟨[], u, z, .refl u z, rfl, hview, hmirrors⟩
  | step first rest ih =>
    obtain ⟨events', u', z', hstep, hevents, hview', hmirrors'⟩ := first.seen hview hmirrors
    obtain ⟨later', u'', z'', hrun, hlater, hview'', hmirrors''⟩ := ih hview' hmirrors'
    refine ⟨events' ++ later', u'', z'', .step hstep hrun, ?_, hview'', hmirrors''⟩
    rw [List.map_append, hevents, hlater]

end Task

end NodeLogs
