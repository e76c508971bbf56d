import NodeLogs.Capture
import NodeLogs.Proofs.Action.Histories

/-!
What a capture does, whatever goes on beside it: it makes the directory, creates the file and runs
the command, once each and in this order, up to the first of these that fails.
-/

namespace NodeLogs

open Event (within)

variable {σ : Type} {place : Place} {events : List (Event (Host σ))} {result : Outcome Unit}

namespace Capture

/-- An attempt at a capture. Its command is run once, unless its directory or its file cannot be
made. -/
inductive Attempt (r : Runner σ) (place : Place) (c : Capture) :
    List (Event (Host σ)) → Outcome Unit → Prop
  | noDirectory (h : Host σ) (f : Failure) (making : (makeParent c.path h).2 = .error f) :
      Attempt r place c [⟨place, h, (makeParent c.path h).1⟩] (.error f)
  | noFile (h h' : Host σ) (f : Failure) (making : (makeParent c.path h).2 = .ok ())
      (creating : (createFile c.path h').2 = .error f) :
      Attempt r place c
        [⟨place, h, (makeParent c.path h).1⟩, ⟨place, h', (createFile c.path h').1⟩] (.error f)
  | run (h h' h'' : Host σ) (loc : Location) (making : (makeParent c.path h).2 = .ok ())
      (creating : (createFile c.path h').2 = .ok loc) :
      Attempt r place c
        [⟨place, h, (makeParent c.path h).1⟩, ⟨place, h', (createFile c.path h').1⟩,
          ⟨place, h'', (fillFile r c.command loc h'').1⟩]
        (fillFile r c.command loc h'').2

theorem Attempt.at_place {r : Runner σ} {c : Capture} (h : Attempt r place c events result) :
    ∀ e ∈ events, e.place = place := by
  cases h <;> simp

/-- The next turn of a capture, after those that it had. -/
inductive Turn (r : Runner σ) (c : Capture) : List (Event (Host σ)) → Event (Host σ) → Prop
  | making {e : Event (Host σ)} (does : e.after = (makeParent c.path e.before).1) : Turn r c [] e
  | creating {first e : Event (Host σ)} (made : (makeParent c.path first.before).2 = .ok ())
      (does : e.after = (createFile c.path e.before).1) : Turn r c [first] e
  | filling {first second e : Event (Host σ)} {loc : Location}
      (made : (makeParent c.path first.before).2 = .ok ())
      (created : (createFile c.path second.before).2 = .ok loc)
      (does : e.after = (fillFile r c.command loc e.before).1) : Turn r c [first, second] e

theorem Attempt.turn {r : Runner σ} {c : Capture} {earlier later : List (Event (Host σ))}
    {e : Event (Host σ)} (h : Attempt r place c (earlier ++ e :: later) result) :
    Turn r c earlier e := by
  generalize hall : earlier ++ e :: later = all at h
  cases h with
  | noDirectory h₁ f making =>
    rcases earlier with _ | ⟨e₁, earlier⟩
    · cases hall
      exact .making rfl
    · simp at hall
  | noFile h₁ h₂ f making creating =>
    rcases earlier with _ | ⟨e₁, _ | ⟨e₂, earlier⟩⟩
    · cases hall
      exact .making rfl
    · cases hall
      exact .creating making rfl
    · simp at hall
  | run h₁ h₂ h₃ loc making creating =>
    rcases earlier with _ | ⟨e₁, _ | ⟨e₂, _ | ⟨e₃, earlier⟩⟩⟩
    · cases hall
      exact .making rfl
    · cases hall
      exact .creating making rfl
    · cases hall
      exact .filling making creating rfl
    · simp at hall

/-- Only a capture that has made its directory has more turns. -/
theorem Turn.made {r : Runner σ} {c : Capture} {first e : Event (Host σ)}
    {rest : List (Event (Host σ))} (h : Turn r c (first :: rest) e) :
    (makeParent c.path first.before).2 = .ok () := by
  cases h with
  | creating made => exact made
  | filling made => exact made

theorem completes_attempt {α : Type} {f : Host σ → Host σ × Outcome α}
    {next : α → Action (Host σ)}
    (h : Task.Completes place (.ready (attempt f next)) events result) :
    ∃ host later, events = ⟨place, host, (f host).1⟩ :: later ∧
      ((∃ e, (f host).2 = .error e ∧ later = [] ∧ result = .error e) ∨
        ∃ a, (f host).2 = .ok a ∧ Task.Completes place (.ready (next a)) later result) := by
  cases h with
  | @act _ _ _ host later _ rest =>
    refine ⟨host, later, rfl, ?_⟩
    cases hf : (f host).2 with
    | error e =>
      simp only [hf] at rest
      cases rest
      exact Or.inl ⟨e, rfl, rfl, rfl⟩
    | ok a =>
      simp only [hf] at rest
      exact Or.inr ⟨a, rfl, rest⟩

theorem attempt_of_completes {r : Runner σ} {c : Capture}
    (h : Task.Completes place (.ready (c.action r)) events result) :
    Attempt r place c events result := by
  obtain ⟨h₁, later, rfl, ⟨f, hmaking, rfl, rfl⟩ | ⟨⟨⟩, hmaking, hrest⟩⟩ := completes_attempt h
  · exact .noDirectory h₁ f hmaking
  obtain ⟨h₂, later, rfl, ⟨f, hcreating, rfl, rfl⟩ | ⟨loc, hcreating, hrest⟩⟩ :=
    completes_attempt hrest
  · exact .noFile h₁ h₂ f hmaking hcreating
  obtain ⟨h₃, later, rfl, ⟨f, hfilling, rfl, rfl⟩ | ⟨⟨⟩, hfilling, hrest⟩⟩ :=
    completes_attempt hrest
  · rw [← hfilling]
    exact .run h₁ h₂ h₃ loc hmaking hcreating
  · cases hrest
    rw [Finish.outcome, ← hfilling]
    exact .run h₁ h₂ h₃ loc hmaking hcreating

/-- A gathering is noted, and then each of its parts is completed. -/
theorem completes_together {actions : List (Action (Host σ))}
    (h : Task.Completes place (.ready (together actions)) events result) :
    ∃ results, result = Action.gathered [] results ∧ results.length = actions.length ∧
      (∀ e ∈ events, (∃ text, e.after = e.before.note (.debug text)) ∨
        ∃ i < actions.length, place ++ [i] <+: e.place) ∧
      ∀ (i : Nat) (a : Action (Host σ)) (o : Outcome Unit), actions[i]? = some a →
        results[i]? = some o →
        Task.Completes (place ++ [i]) (.ready a) (within (place ++ [i]) events) o := by
  cases h with
  | @act _ _ _ host later _ rest =>
    cases rest with
    | gather rest =>
      cases rest with
      | @waiting _ _ _ _ results length below each =>
        rw [List.length_map] at length below
        refine ⟨results, rfl, length, ?_, fun i a o ha ho => ?_⟩
        · intro e he
          rcases List.mem_cons.mp he with rfl | he
          · exact Or.inl ⟨_, rfl⟩
          · exact Or.inr (below e he)
        · have habove : ¬ place ++ [i] <+: place := fun h => absurd h.length_le (by simp)
          have hnote (after : Host σ) :
              within (place ++ [i]) (⟨place, host, after⟩ :: later) = within (place ++ [i]) later :=
            List.filter_cons_of_neg (by simpa using habove)
          rw [hnote]
          exact each i _ o (by rw [List.getElem?_map, ha]; rfl) ho

end Capture

end NodeLogs
