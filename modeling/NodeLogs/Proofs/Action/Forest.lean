import Mathlib.Data.List.Forall2
import Mathlib.Data.List.Nodup
import Mathlib.Data.List.Perm.Basic
import NodeLogs.Proofs.Action.Histories
import NodeLogs.Proofs.Failure

/-!
Forests of actions. Where no action looks at the state that they share, the order of turns decides
nothing but when things are done: every action takes its steps and ends once, and the failures are
told in the order in which the actions stand.
-/

namespace NodeLogs

variable {σ : Type}

/-- What is to be told of an action that has not succeeded: a fault, or what it broke down with. -/
inductive Leaf where
  | fault (f : Fault)
  | broken (payload : Option String)

/-- A leaf is told as the fault that it is. What broke down is told with the number of its task,
which may be any. -/
def Leaf.Tells : Leaf → Fault → Prop
  | fault f, told => told = f
  | broken payload, told =>
    ∃ task, told = ⟨[], .plain ("collection action did not complete: " ++ breakdown task payload)⟩

namespace Finish

def leaves : Finish → List Leaf
  | succeeded => []
  | failed f => f.faults.map .fault
  | brokeDown payload => [.broken payload]

theorem leaves_eq_nil (f : Finish) : f.leaves = [] ↔ f = .succeeded := by
  cases f with
  | succeeded => simp [leaves]
  | failed f => simp [leaves, f.faults_ne_nil]
  | brokeDown payload => simp [leaves]

/-- Whatever number a task has, it is told of all that there is to tell, in order. -/
theorem tells_outcome (f : Finish) (task : Nat) :
    List.Forall₂ Leaf.Tells f.leaves (f.outcome task).faults := by
  cases f with
  | succeeded => exact .nil
  | failed f => exact List.forall₂_map_left_iff.mpr (List.forall₂_same.mpr fun _ _ => rfl)
  | brokeDown payload => exact .cons ⟨task, rfl⟩ .nil

end Finish

/-- An action that goes the same way whatever the others do: it takes its steps, and then it ends or
gathers others. A step that changes nothing only gives the others a turn. -/
inductive Errand (σ : Type) where
  | finish (f : Finish)
  | step (effect : σ → σ) (rest : Errand σ)
  | gather (contexts : List String) (parts : List (Errand σ))

namespace Errand

mutual

def action : Errand σ → Action σ
  | finish f => .finish f
  | step effect rest => .step effect fun _ => rest.action
  | gather contexts parts => .gather contexts (actions parts)

def actions : List (Errand σ) → List (Action σ)
  | [] => []
  | e :: rest => e.action :: actions rest

end

theorem actions_eq_map (parts : List (Errand σ)) : actions parts = parts.map action := by
  induction parts with
  | nil => rw [actions, List.map_nil]
  | cons e rest ih => rw [actions, List.map_cons, ih]

/-- Gives the others so many turns first. -/
def yield (n : Nat) (e : Errand σ) : Errand σ :=
  match n with
  | 0 => e
  | n + 1 => .step id (yield n e)

mutual

/-- All that fails or breaks down, from left to right. -/
def leaves : Errand σ → List Leaf
  | finish f => f.leaves
  | step _ rest => rest.leaves
  | gather _ parts => leavesOfAll parts

def leavesOfAll : List (Errand σ) → List Leaf
  | [] => []
  | e :: rest => e.leaves ++ leavesOfAll rest

end

mutual

/-- Whether nothing fails or breaks down, at any level. -/
def Succeeds : Errand σ → Prop
  | finish f => f = .succeeded
  | step _ rest => rest.Succeeds
  | gather _ parts => SucceedAll parts

def SucceedAll : List (Errand σ) → Prop
  | [] => True
  | e :: rest => e.Succeeds ∧ SucceedAll rest

end

/-- The steps that an errand takes itself. -/
def effects : Errand σ → List (σ → σ)
  | finish _ => []
  | step effect rest => effect :: rest.effects
  | gather _ _ => []

mutual

/-- All errands below one, each with its place and its steps. -/
def inner (place : Place) : Errand σ → List (Place × List (σ → σ))
  | finish _ => []
  | step _ rest => rest.inner place
  | gather _ parts => worksFrom place 0 parts

def worksFrom (place : Place) (n : Nat) : List (Errand σ) → List (Place × List (σ → σ))
  | [] => []
  | e :: rest =>
    (place ++ [n], e.effects) :: e.inner (place ++ [n]) ++ worksFrom place (n + 1) rest

end

/-- All errands at and below a place, each with its place and its steps. -/
def works (place : Place) (e : Errand σ) : List (Place × List (σ → σ)) :=
  (place, e.effects) :: e.inner place

/-- The places at which something is still to end. -/
def places (place : Place) (e : Errand σ) : List Place := (e.works place).map Prod.fst

/-! Where the errands of a forest stand -/

theorem worksFrom_cons (place : Place) (n : Nat) (e : Errand σ) (rest : List (Errand σ)) :
    worksFrom place n (e :: rest) = e.works (place ++ [n]) ++ worksFrom place (n + 1) rest := by
  rw [worksFrom, works, List.cons_append]

mutual

theorem place_inner : ∀ (e : Errand σ) (place : Place), ∀ work ∈ e.inner place,
    ∃ i, place ++ [i] <+: work.1
  | finish _, place => by
    intro work h
    rw [Errand.inner] at h
    cases h
  | step _ rest, place => by
    intro work h
    rw [Errand.inner] at h
    exact place_inner rest place work h
  | gather _ parts, place => by
    intro work h
    rw [Errand.inner] at h
    obtain ⟨i, -, hplace⟩ := place_worksFrom parts place 0 work h
    exact ⟨i, hplace⟩

theorem place_worksFrom : ∀ (parts : List (Errand σ)) (place : Place) (n : Nat),
    ∀ work ∈ worksFrom place n parts, ∃ i, n ≤ i ∧ place ++ [i] <+: work.1
  | [], place, n => by
    intro work h
    rw [worksFrom] at h
    cases h
  | e :: rest, place, n => by
    intro work h
    rw [worksFrom, List.mem_append, List.mem_cons] at h
    rcases h with (rfl | h) | h
    · exact ⟨n, Nat.le_refl n, List.prefix_refl _⟩
    · obtain ⟨i, hplace⟩ := place_inner e (place ++ [n]) work h
      exact ⟨n, Nat.le_refl n, (List.prefix_append _ _).trans hplace⟩
    · obtain ⟨i, hle, hplace⟩ := place_worksFrom rest place (n + 1) work h
      exact ⟨i, Nat.le_of_succ_le hle, hplace⟩

end

theorem place_works {e : Errand σ} {place : Place} {work : Place × List (σ → σ)}
    (h : work ∈ e.works place) : place <+: work.1 := by
  rcases List.mem_cons.mp h with rfl | h
  · exact List.prefix_refl place
  · obtain ⟨i, hplace⟩ := place_inner e place work h
    exact (List.prefix_append place [i]).trans hplace

theorem not_prefix_concat (place : Place) (i : Nat) : ¬ place ++ [i] <+: place := by
  intro h
  have := h.length_le
  rw [List.length_append, List.length_singleton] at this
  omega

mutual

theorem nodup_inner : ∀ (e : Errand σ) (place : Place), ((e.inner place).map Prod.fst).Nodup
  | finish _, place => by
    rw [Errand.inner]
    exact List.nodup_nil
  | step _ rest, place => by
    rw [Errand.inner]
    exact nodup_inner rest place
  | gather _ parts, place => by
    rw [Errand.inner]
    exact nodup_worksFrom parts place 0

theorem nodup_worksFrom : ∀ (parts : List (Errand σ)) (place : Place) (n : Nat),
    ((worksFrom place n parts).map Prod.fst).Nodup
  | [], place, n => by
    rw [worksFrom]
    exact List.nodup_nil
  | e :: rest, place, n => by
    rw [worksFrom_cons, List.map_append, List.nodup_append]
    refine ⟨?_, nodup_worksFrom rest place (n + 1), ?_⟩
    · rw [works, List.map_cons, List.nodup_cons]
      refine ⟨?_, nodup_inner e (place ++ [n])⟩
      intro hmem
      obtain ⟨work, hwork, hsame⟩ := List.mem_map.mp hmem
      obtain ⟨i, hplace⟩ := place_inner e (place ++ [n]) work hwork
      rw [hsame] at hplace
      exact not_prefix_concat _ i hplace
    · -- What is below one part is not below another.
      intro p hp q hq hsame
      obtain ⟨work, hwork, rfl⟩ := List.mem_map.mp hp
      obtain ⟨other, hother, rfl⟩ := List.mem_map.mp hq
      have hhere := place_works hwork
      obtain ⟨i, hle, hthere⟩ := place_worksFrom rest place (n + 1) other hother
      rw [hsame] at hhere
      have := Event.same_part hhere hthere
      omega

end

theorem nodup_places (e : Errand σ) (place : Place) : (e.places place).Nodup := by
  rw [places, works, List.map_cons, List.nodup_cons]
  refine ⟨?_, nodup_inner e place⟩
  intro hmem
  obtain ⟨work, hwork, hsame⟩ := List.mem_map.mp hmem
  obtain ⟨i, hplace⟩ := place_inner e place work hwork
  rw [hsame] at hplace
  exact not_prefix_concat place i hplace

/-! What a forest comes to -/

mutual

theorem leaves_eq_nil : ∀ e : Errand σ, e.leaves = [] ↔ e.Succeeds
  | finish f => by
    rw [leaves, Succeeds]
    exact f.leaves_eq_nil
  | step _ rest => by
    rw [leaves, Succeeds]
    exact leaves_eq_nil rest
  | gather _ parts => by
    rw [leaves, Succeeds]
    exact leavesOfAll_eq_nil parts

theorem leavesOfAll_eq_nil : ∀ parts : List (Errand σ), leavesOfAll parts = [] ↔ SucceedAll parts
  | [] => by simp [leavesOfAll, SucceedAll]
  | e :: rest => by
    rw [leavesOfAll, SucceedAll, List.append_eq_nil_iff]
    exact and_congr (leaves_eq_nil e) (leavesOfAll_eq_nil rest)

end

end Errand

/-- The faults in what a gathering comes to tell all about it. -/
theorem Action.gathered_spec {contexts : List String} {results : List (Outcome Unit)}
    {leaves : List Leaf} (h : List.Forall₂ Leaf.Tells leaves (gathered contexts results).faults) :
    (gathered contexts results = .ok () ↔ leaves = []) ∧
      ∀ f, gathered contexts results = .error f →
        ∃ a, f = .many contexts a ∧ List.Forall₂ Leaf.Tells leaves a.faults := by
  constructor
  · rw [← Outcome.faults_eq_nil, ← List.length_eq_zero_iff, ← List.length_eq_zero_iff, h.length_eq]
  · intro f hf
    rw [hf] at h
    unfold gathered at hf
    split at hf
    · cases hf
    · next a _ =>
      cases hf
      exact ⟨a, rfl, h⟩

namespace Event

/-- What was done at a place itself. -/
def takenAt (place : Place) (events : List (Event σ)) : List (Event σ) :=
  events.filter fun e => e.place = place

/-- These changes are those of these steps, each taken once and in this order. -/
def Took (effects : List (σ → σ)) (events : List (Event σ)) : Prop :=
  List.Forall₂ (fun effect (e : Event σ) => e.after = effect e.before) effects events

theorem takenAt_within {above place : Place} (h : above <+: place) (events : List (Event σ)) :
    takenAt place (within above events) = takenAt place events := by
  unfold takenAt within
  rw [List.filter_filter]
  congr 1
  funext e
  rw [Bool.eq_iff_iff]
  simp only [Bool.and_eq_true, decide_eq_true_eq, and_iff_left_iff_imp]
  intro hsame
  rwa [hsame]

end Event

namespace Task

open Errand Event

variable {place : Place} {t t' t'' : Task σ} {s s' s'' : σ} {events later : List (Event σ)}
  {result : Outcome Unit}

mutual

/-- An errand that has come to its end has taken all the steps in it, and tells of all that failed
in it. -/
theorem Completes.errand : ∀ (e : Errand σ) {place : Place} {events : List (Event σ)}
    {result : Outcome Unit}, Completes place (.ready e.action) events result →
    List.Forall₂ Leaf.Tells e.leaves result.faults ∧
      ∀ work ∈ e.works place, Took work.2 (takenAt work.1 events)
  | .finish f, place, events, result => by
    intro h
    rw [action] at h
    cases h with
    | finish _ _ task =>
    refine ⟨by rw [leaves]; exact f.tells_outcome task, ?_⟩
    intro work hwork
    rw [works, Errand.inner, List.mem_singleton] at hwork
    rw [hwork]
    exact .nil
  | .step effect rest, place, events, result => by
    intro h
    rw [action] at h
    cases h with
    | @act _ _ _ s later _ hrest =>
      obtain ⟨htells, htook⟩ := Completes.errand rest hrest
      refine ⟨by rw [leaves]; exact htells, ?_⟩
      intro work hwork
      rw [works, Errand.inner, effects] at hwork
      rcases List.mem_cons.mp hwork with rfl | hinner
      · have hown := htook (place, rest.effects) List.mem_cons_self
        have htaken : takenAt place (⟨place, s, effect s⟩ :: later) =
            ⟨place, s, effect s⟩ :: takenAt place later :=
          List.filter_cons_of_pos (by simp)
        rw [htaken]
        exact .cons rfl hown
      · -- The step was taken above all these places.
        obtain ⟨i, hplace⟩ := place_inner rest place work hinner
        have hne : place ≠ work.1 := by
          intro hsame
          rw [← hsame] at hplace
          exact not_prefix_concat place i hplace
        have htaken : takenAt work.1 (⟨place, s, effect s⟩ :: later) = takenAt work.1 later :=
          List.filter_cons_of_neg (by simpa using hne)
        rw [htaken]
        exact htook work (List.mem_cons_of_mem _ hinner)
  | .gather contexts parts, place, events, result => by
    intro h
    rw [action, actions_eq_map] at h
    cases h with
    | gather hrest =>
      cases hrest with
      | @waiting _ _ _ _ results length below each =>
        rw [List.length_map, List.length_map] at length
        have heach (i : Nat) (e : Errand σ) (result : Outcome Unit) (he : parts[i]? = some e)
            (hresult : results[i]? = some result) :
            Completes (place ++ [0 + i]) (.ready e.action) (within (place ++ [0 + i]) events)
              result := by
          rw [Nat.zero_add]
          refine each i _ result ?_ hresult
          rw [List.getElem?_map, List.getElem?_map, he]
          rfl
        obtain ⟨htells, htook⟩ := Completes.errands parts length heach
        refine ⟨by rw [leaves, Action.faults_gathered]; exact htells, ?_⟩
        intro work hwork
        rw [works, Errand.inner, effects] at hwork
        rcases List.mem_cons.mp hwork with rfl | hinner
        · have hnone : takenAt place events = [] := by
            refine List.filter_eq_nil_iff.mpr ?_
            intro e he
            obtain ⟨i, -, hplace⟩ := below e he
            rw [decide_eq_true_eq]
            intro hsame
            rw [hsame] at hplace
            exact not_prefix_concat place i hplace
          rw [hnone]
          exact .nil
        · exact htook work hinner

theorem Completes.errands : ∀ (parts : List (Errand σ)) {place : Place} {n : Nat}
    {events : List (Event σ)} {results : List (Outcome Unit)}, results.length = parts.length →
    (∀ (i : Nat) (e : Errand σ) (result : Outcome Unit), parts[i]? = some e →
      results[i]? = some result → Completes (place ++ [n + i]) (.ready e.action)
        (within (place ++ [n + i]) events) result) →
    List.Forall₂ Leaf.Tells (leavesOfAll parts) (results.flatMap Outcome.faults) ∧
      ∀ work ∈ worksFrom place n parts, Took work.2 (takenAt work.1 events)
  | [], place, n, events, results => by
    intro hlength _
    rw [List.eq_nil_of_length_eq_zero hlength, leavesOfAll, worksFrom]
    exact ⟨.nil, nofun⟩
  | e :: rest, place, n, events, results => by
    intro hlength heach
    obtain ⟨result, others, rfl⟩ := List.exists_cons_of_length_eq_add_one hlength
    obtain ⟨htells, htook⟩ := Completes.errand e (heach 0 e result rfl rfl)
    obtain ⟨hothers, htooks⟩ := Completes.errands rest (n := n + 1) (Nat.succ.inj hlength)
      fun i e' result' he hresult => by
        rw [Nat.add_assoc, Nat.add_comm 1 i]
        exact heach (i + 1) e' result' he hresult
    refine ⟨by rw [List.flatMap_cons, leavesOfAll]; exact List.rel_append htells hothers, ?_⟩
    intro work hwork
    rw [worksFrom_cons, List.mem_append] at hwork
    rcases hwork with hwork | hwork
    · rw [← takenAt_within (place_works hwork)]
      exact htook work hwork
    · exact htooks work hwork

end

/-! Each action ends once -/

mutual

/-- The places at which actions end when one task becomes another. -/
def endings (place : Place) : Task σ → Task σ → List Place
  | .waiting _ parts, .waiting _ parts' => endingsFrom place 0 parts parts'
  | .ended _, .ended _ => []
  | _, .ended _ => [place]
  | _, _ => []

def endingsFrom (place : Place) (n : Nat) : List (Task σ) → List (Task σ) → List Place
  | t :: rest, t' :: rest' => endings (place ++ [n]) t t' ++ endingsFrom place (n + 1) rest rest'
  | _, _ => []

end

/-- A run with the places at which actions ended in it, in this order. -/
inductive Trace (place : Place) : Task σ → σ → List (Event σ) → List Place → Task σ → σ → Prop
  | refl (t : Task σ) (s : σ) : Trace place t s [] [] t s
  | step {t t' t'' : Task σ} {s s' s'' : σ} {events later : List (Event σ)} {ended : List Place}
      (first : Step place t s events t' s') (rest : Trace place t' s' later ended t'' s'') :
      Trace place t s (events ++ later) (endings place t t' ++ ended) t'' s''

theorem Trace.run {ended : List Place} (h : Trace place t s events ended t' s') :
    Run place t s events t' s' := by
  induction h with
  | refl t s => exact .refl t s
  | step first rest ih => exact .step first ih

theorem Run.trace (h : Run place t s events t' s') :
    ∃ ended, Trace place t s events ended t' s' := by
  induction h with
  | refl t s => exact ⟨[], .refl t s⟩
  | step first rest ih =>
    obtain ⟨ended, htrace⟩ := ih
    exact ⟨_, .step first htrace⟩

mutual

theorem endings_self : ∀ (t : Task σ) (place : Place), endings place t t = []
  | .ready _, place => by rw [endings] <;> simp
  | .waiting _ parts, place => by
    rw [endings]
    exact endingsFrom_self parts place 0
  | .ended _, place => by rw [endings]

theorem endingsFrom_self : ∀ (parts : List (Task σ)) (place : Place) (n : Nat),
    endingsFrom place n parts parts = []
  | [], place, n => by rw [endingsFrom]; simp
  | t :: rest, place, n => by
    rw [endingsFrom, endings_self t, endingsFrom_self rest, List.append_nil]

end

/-- Only the part that takes a step may end by it. -/
theorem endingsFrom_part (before after : List (Task σ)) (t t' : Task σ) (place : Place) (n : Nat) :
    endingsFrom place n (before ++ t :: after) (before ++ t' :: after) =
      endings (place ++ [n + before.length]) t t' := by
  induction before generalizing n with
  | nil =>
    rw [List.nil_append, List.nil_append, endingsFrom, endingsFrom_self, List.append_nil]
    rfl
  | cons first before ih =>
    rw [List.cons_append, List.cons_append, endingsFrom, endings_self, List.nil_append, ih,
      List.length_cons, Nat.add_assoc, Nat.add_comm 1 before.length]

mutual

/-- The places at which something is still to end in a task that has come from an errand. -/
inductive Open : Place → Task σ → List Place → Prop
  | ready (place : Place) (e : Errand σ) : Open place (.ready e.action) (e.places place)
  | waiting {place : Place} (contexts : List String) {parts : List (Task σ)} {left : List Place}
      (each : OpenFrom place 0 parts left) : Open place (.waiting contexts parts) (place :: left)
  | ended (place : Place) (result : Outcome Unit) : Open place (.ended result) []

inductive OpenFrom : Place → Nat → List (Task σ) → List Place → Prop
  | nil (place : Place) (n : Nat) : OpenFrom place n [] []
  | cons {place : Place} {n : Nat} {t : Task σ} {rest : List (Task σ)} {left others : List Place}
      (first : Open (place ++ [n]) t left) (behind : OpenFrom place (n + 1) rest others) :
      OpenFrom place n (t :: rest) (left ++ others)

end

theorem openFrom_ready (parts : List (Errand σ)) (place : Place) (n : Nat) :
    OpenFrom place n ((actions parts).map .ready) ((worksFrom place n parts).map Prod.fst) := by
  induction parts generalizing n with
  | nil =>
    rw [actions, worksFrom]
    exact .nil place n
  | cons e rest ih =>
    rw [actions, worksFrom_cons, List.map_cons, List.map_append]
    exact .cons (.ready (place ++ [n]) e) (ih (n + 1))

theorem OpenFrom.ended {n : Nat} {results : List (Outcome Unit)} {left : List Place}
    (h : OpenFrom place n (results.map (.ended (σ := σ))) left) : left = [] := by
  induction results generalizing n left with
  | nil =>
    cases h
    rfl
  | cons result rest ih =>
    cases h with
    | cons first behind =>
      cases first
      rw [ih behind, List.append_nil]

/-- What is open in a gathering is what is open in one part and what is open in the others. -/
theorem OpenFrom.part {n : Nat} {before after : List (Task σ)} {left : List Place}
    (h : OpenFrom place n (before ++ t :: after) left) :
    ∃ here others, Open (place ++ [n + before.length]) t here ∧ left.Perm (here ++ others) ∧
      ∀ t' here', Open (place ++ [n + before.length]) t' here' →
        ∃ left', OpenFrom place n (before ++ t' :: after) left' ∧ left'.Perm (here' ++ others) := by
  induction before generalizing n left with
  | nil =>
    cases h with
    | @cons _ _ _ _ here others first behind =>
      refine ⟨here, others, first, .refl _, ?_⟩
      intro t' here' h'
      exact ⟨here' ++ others, .cons h' behind, .refl _⟩
  | cons u before ih =>
    cases h with
    | @cons _ _ _ _ own behind first hbehind =>
      obtain ⟨here, others, hopen, hperm, hreplace⟩ := ih hbehind
      rw [Nat.add_assoc, Nat.add_comm 1 before.length] at hopen hreplace
      have hmove (middle : List Place) :
        (own ++ (middle ++ others)).Perm (middle ++ (own ++ others)) :=
        List.perm_append_comm_assoc own middle others
      refine ⟨here, own ++ others, hopen, (hperm.append_left own).trans (hmove here), ?_⟩
      intro t' here' h'
      obtain ⟨left', hleft, hperm'⟩ := hreplace t' here' h'
      exact ⟨own ++ left', .cons first hleft, (hperm'.append_left own).trans (hmove here')⟩

/-- What is open before a step ends by it, or is open after it. -/
theorem Step.open (h : Step place t s events t' s') {left : List Place}
    (hopen : Open place t left) :
    ∃ left', Open place t' left' ∧ left.Perm (endings place t t' ++ left') := by
  induction h generalizing left with
  | finish place f task s =>
    generalize ht : Task.ready (Action.finish f) = t at hopen
    cases hopen with
    | ready place e =>
      cases e with
      | finish f' => exact ⟨[], .ended place _, .refl _⟩
      | step effect rest => rw [action] at ht; cases ht
      | gather contexts parts => rw [action] at ht; cases ht
    | waiting | ended => cases ht
  | act place effect next s =>
    generalize ht : Task.ready (Action.step effect next) = t at hopen
    cases hopen with
    | ready place e =>
      cases e with
      | finish f' => rw [action] at ht; cases ht
      | step effect' rest =>
        rw [action] at ht
        cases ht
        exact ⟨rest.places place, .ready place rest, .refl _⟩
      | gather contexts parts => rw [action] at ht; cases ht
    | waiting | ended => cases ht
  | spawn place contexts parts s =>
    generalize ht : Task.ready (Action.gather contexts parts) = t at hopen
    cases hopen with
    | ready place e =>
      cases e with
      | finish f' => rw [action] at ht; cases ht
      | step effect' rest => rw [action] at ht; cases ht
      | gather contexts' parts' =>
        rw [action] at ht
        cases ht
        exact ⟨_, .waiting contexts (openFrom_ready parts' place 0), .refl _⟩
    | waiting | ended => cases ht
  | @part place contexts before after t t' s s' events step ih =>
    cases hopen with
    | waiting _ each =>
      obtain ⟨here, others, hhere, hperm, hreplace⟩ := each.part
      rw [Nat.zero_add] at hhere hreplace
      obtain ⟨here', hhere', hstep⟩ := ih hhere
      obtain ⟨left', hleft, hperm'⟩ := hreplace t' here' hhere'
      refine ⟨place :: left', .waiting contexts hleft, ?_⟩
      rw [endings, endingsFrom_part, Nat.zero_add]
      generalize endings (place ++ [before.length]) t t' = ended at hstep
      calc List.Perm _ (place :: (here ++ others)) := hperm.cons place
        List.Perm _ (place :: (ended ++ here' ++ others)) := (hstep.append_right others).cons place
        List.Perm _ (place :: (ended ++ left')) := by
          rw [List.append_assoc]
          exact (hperm'.symm.append_left ended).cons place
        List.Perm _ (ended ++ place :: left') := List.perm_middle.symm
  | join place contexts results s =>
    cases hopen with
    | waiting _ each =>
      rw [each.ended]
      exact ⟨[], .ended place _, .refl _⟩

theorem Trace.open {ended : List Place} (h : Trace place t s events ended t' s') {left : List Place}
    (hopen : Open place t left) : ∃ left', Open place t' left' ∧ left.Perm (ended ++ left') := by
  induction h generalizing left with
  | refl t s => exact ⟨left, hopen, .refl left⟩
  | @step t t' t'' _ _ _ _ _ ended first rest ih =>
    obtain ⟨middle, hmiddle, hfirst⟩ := first.open hopen
    obtain ⟨left', hleft, hrest⟩ := ih hmiddle
    refine ⟨left', hleft, ?_⟩
    rw [List.append_assoc]
    exact hfirst.trans (hrest.append_left _)

/-- When an errand has come to its end, it and all below it have ended, each once. -/
theorem Trace.ended_once {e : Errand σ} {ended : List Place}
    (h : Trace place (.ready e.action) s events ended (.ended result) s') :
    ended.Perm (e.places place) := by
  obtain ⟨left, hleft, hperm⟩ := h.open (.ready place e)
  cases hleft
  rw [List.append_nil] at hperm
  exact hperm.symm

end Task

namespace Errand

open NodeLogs.Task NodeLogs.Event

theorem gathered_of_completes {contexts : List String} {parts : List (Errand σ)} {place : Place}
    {events : List (Event σ)} {result : Outcome Unit}
    (h : Completes place (.ready (gather contexts parts).action) events result) :
    ∃ results, result = Action.gathered contexts results := by
  rw [action] at h
  cases h with
  | gather hrest =>
    cases hrest with
    | @waiting _ _ _ _ results _ _ _ => exact ⟨results, rfl⟩

/-- Two results that are the same but for the numbers of tasks: both good, or failed in the same
contexts with faults that tell of the same leaves, one by one. -/
inductive Alike : Outcome Unit → Outcome Unit → Prop
  | succeeded : Alike (.ok ()) (.ok ())
  | failed (contexts : List String) {leaves : List Leaf} {a a' : Aggregate}
      (tells : List.Forall₂ Leaf.Tells leaves a.faults)
      (again : List.Forall₂ Leaf.Tells leaves a'.faults) :
      Alike (.error (.many contexts a)) (.error (.many contexts a'))

/-- What a gathering comes to has no other shape than its leaves give it. -/
theorem alike_of_leaves {contexts : List String} {leaves : List Leaf}
    {result result' : Outcome Unit} (hok : result = .ok () ↔ leaves = [])
    (hok' : result' = .ok () ↔ leaves = [])
    (htold : ∀ f, result = .error f →
      ∃ a, f = .many contexts a ∧ List.Forall₂ Leaf.Tells leaves a.faults)
    (htold' : ∀ f, result' = .error f →
      ∃ a, f = .many contexts a ∧ List.Forall₂ Leaf.Tells leaves a.faults) :
    Alike result result' := by
  cases hresult : result with
  | ok _ =>
    obtain rfl := hok'.mpr (hok.mp hresult)
    exact .succeeded
  | error f =>
    obtain ⟨a, rfl, htells⟩ := htold f hresult
    cases hresult' : result' with
    | ok _ =>
      rw [hok.mpr (hok'.mp hresult')] at hresult
      cases hresult
    | error f' =>
      obtain ⟨a', rfl, htells'⟩ := htold' f' hresult'
      exact .failed contexts htells htells'

/-- However the parts of a gathering take turns, it comes to its end. By then every errand at every
level has taken all its steps and has ended, each once, and the gathering fails with the faults of
all that failed or broke down, from left to right, wherever there are any. So all runs come to the
same result, but for the numbers that the runtime has given to the tasks that broke down. -/
theorem gathering_tells_every_fault (contexts : List String) (parts : List (Errand σ)) (s : σ) :
    let gathering := gather contexts parts
    (∀ events task now, Run [] (.ready gathering.action) s events task now →
      (∃ ended, Trace [] (.ready gathering.action) s events ended task now) ∧ Acc After task ∧
        ∃ later result s', Run [] task now later (.ended result) s') ∧
    (gathering.places []).Nodup ∧
    (∀ events ended result s',
      Trace [] (.ready gathering.action) s events ended (.ended result) s' →
      ended.Perm (gathering.places []) ∧
      (∀ work ∈ gathering.works [], Took work.2 (takenAt work.1 events)) ∧
      (result = .ok () ↔ SucceedAll parts) ∧
      ∀ f, result = .error f →
        ∃ a, f = .many contexts a ∧ List.Forall₂ Leaf.Tells (leavesOfAll parts) a.faults) ∧
    ∀ events result s' events' result' s'',
      Run [] (.ready gathering.action) s events (.ended result) s' →
      Run [] (.ready gathering.action) s events' (.ended result') s'' → Alike result result' := by
  intro gathering
  have hresult {events : List (Event σ)} {result : Outcome Unit} {s' : σ}
      (hrun : Run [] (.ready gathering.action) s events (.ended result) s') :
      (result = .ok () ↔ leavesOfAll parts = []) ∧ ∀ f, result = .error f →
        ∃ a, f = .many contexts a ∧ List.Forall₂ Leaf.Tells (leavesOfAll parts) a.faults := by
    have htells := (hrun.completes.errand gathering).1
    rw [leaves] at htells
    obtain ⟨results, rfl⟩ := gathered_of_completes hrun.completes
    exact Action.gathered_spec htells
  refine ⟨?_, nodup_places gathering [], ?_, ?_⟩
  · intro events task now hrun
    exact ⟨hrun.trace, acc_after task, exists_run [] task now⟩
  · intro events ended result s' htrace
    obtain ⟨hsucceeds, hfails⟩ := hresult htrace.run
    rw [leavesOfAll_eq_nil] at hsucceeds
    exact ⟨htrace.ended_once, (htrace.run.completes.errand gathering).2, hsucceeds, hfails⟩
  · intro events result s' events' result' s'' hrun hrun'
    obtain ⟨hsucceeds, hfails⟩ := hresult hrun
    obtain ⟨hsucceeds', hfails'⟩ := hresult hrun'
    exact alike_of_leaves hsucceeds hsucceeds' hfails hfails'

/-- A part that fails and two that break down, one of them without a text, gathered beside one that
yields twice. -/
theorem small_forest_tells_every_fault :
    let parts : List (Errand Nat) :=
      [(finish .succeeded).yield 2,
        gather ["bundle"] [step (· + 1) (finish (.failed (.ofMessage "refused"))),
          finish (.brokeDown (some "lost"))],
        finish (.brokeDown none)]
    let broken (n : Nat) (payload : Option String) : Fault :=
      ⟨[], .plain ("collection action did not complete: " ++ breakdown n payload)⟩
    ∃ events ended a s' n m,
      Trace [] (.ready (gather [] parts).action) 0 events ended (.ended (.error (.many [] a))) s' ∧
      ended.Perm [[], [0], [1], [1, 0], [1, 1], [2]] ∧
      a.faults = [⟨[], .plain "refused"⟩, broken n (some "lost"), broken m none] := by
  intro parts broken
  obtain ⟨hends, -, hall, -⟩ := gathering_tells_every_fault [] parts 0
  obtain ⟨-, -, events, result, s', hrun⟩ := hends [] _ 0 (.refl _ 0)
  obtain ⟨⟨ended, htrace⟩, -⟩ := hends events _ s' hrun
  obtain ⟨hended, -, hsucceeds, hfails⟩ := hall events ended result s' htrace
  cases result with
  | ok _ =>
    have hnot : ¬ SucceedAll parts := by
      simp [parts, SucceedAll, Succeeds, yield]
    exact absurd (hsucceeds.mp rfl) hnot
  | error f =>
    obtain ⟨a, rfl, htells⟩ := hfails f rfl
    have hleaves : leavesOfAll parts =
        [.fault ⟨[], .plain "refused"⟩, .broken (some "lost"), .broken none] := rfl
    rw [hleaves] at htells
    obtain ⟨_, _, rfl, hbehind, hfaults⟩ := List.forall₂_cons_left_iff.mp htells
    obtain ⟨_, _, ⟨n, rfl⟩, hlast, rfl⟩ := List.forall₂_cons_left_iff.mp hbehind
    obtain ⟨_, _, ⟨m, rfl⟩, hnone, rfl⟩ := List.forall₂_cons_left_iff.mp hlast
    obtain rfl := List.forall₂_nil_left_iff.mp hnone
    exact ⟨events, ended, a, s', n, m, htrace, hended, hfaults⟩

end Errand

end NodeLogs
