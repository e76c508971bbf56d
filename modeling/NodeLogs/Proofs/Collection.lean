import Mathlib.Data.List.Nodup
import NodeLogs.Collection
import NodeLogs.Proofs.Capture
import NodeLogs.Proofs.Failure

/-!
Collections, with the captures in any order. Every copy and every capture is attempted once,
whatever becomes of the others, and the report holds the faults of all of them.
-/

namespace NodeLogs.Collection

open Capture (Attempt)
open Event (Chained within)

variable {σ : Type} {r : Runner σ} {config : Config} {dir : HostPath} {nodes : List String}
  {h h' : Host σ} {events : List (Event (Host σ))} {report : Report}

/-! Copies -/

def copyContext (config : Config) (node : String) : String :=
  "Failed to copy " ++ config.remoteLogDir ++ " from " ++ node

/-- The copies of the nodes' log directories, one after the other. -/
inductive Copies (r : Runner σ) (config : Config) (dir : HostPath) :
    List String → Host σ → List (Outcome Unit) → Host σ → Prop
  | nil (h : Host σ) : Copies r config dir [] h [] h
  | cons {node : String} {nodes : List String} {h h' h'' : Host σ} {result : Outcome Unit}
      {results : List (Outcome Unit)}
      (first : (Staging.copy r node config.remoteLogDir (dir.join node)).run h = (result, h'))
      (rest : Copies r config dir nodes h' results h'') :
      Copies r config dir (node :: nodes) h (result :: results) h''

/-- The faults of the copies, each in the context of its node. -/
def copyFaults (config : Config) (nodes : List String) (copies : List (Outcome Unit)) :
    List Fault :=
  (nodes.zip copies).flatMap fun (node, result) =>
    (Outcome.context (copyContext config node) result).faults

theorem run_copyAll_cons (r : Runner σ) (config : Config) (dir : HostPath) (node : String)
    (rest : List String) (h : Host σ) :
    (copyAll r config dir (node :: rest)).run h =
      let copied := (Staging.copy r node config.remoteLogDir (dir.join node)).run h
      let others := (copyAll r config dir rest).run copied.2
      ((Outcome.failure? (Outcome.context (copyContext config node) copied.1)).toList ++ others.1,
        others.2) := by
  rw [copyAll, StateT.run_bind]
  generalize (Staging.copy r node config.remoteLogDir (dir.join node)).run h = copied
  obtain ⟨result, h'⟩ := copied
  cases result <;> rfl

theorem copyAll_copies (r : Runner σ) (config : Config) (dir : HostPath) (nodes : List String)
    (h : Host σ) :
    ∃ results, Copies r config dir nodes h results ((copyAll r config dir nodes).run h).2 ∧
      ((copyAll r config dir nodes).run h).1.flatMap Failure.faults =
        copyFaults config nodes results := by
  induction nodes generalizing h with
  | nil => exact ⟨[], .nil h, rfl⟩
  | cons node rest ih =>
    obtain ⟨results, hrest, hfaults⟩ :=
      ih ((Staging.copy r node config.remoteLogDir (dir.join node)).run h).2
    rw [run_copyAll_cons]
    refine ⟨_, .cons rfl hrest, ?_⟩
    rw [List.flatMap_append, Outcome.flatMap_failure?, hfaults, copyFaults, copyFaults,
      List.zip_cons_cons, List.flatMap_cons]
    rfl

/-! Captures -/

/-- The captures of a node, each at its place. -/
def plannedOn (config : Config) (dir : HostPath) (node : String) (i : Nat) :
    List (Place × Capture) :=
  ((Capture.ofNode config node (dir.join node)).zipIdx).map fun (c, j) => ([i, j], c)

/-- All captures, each at its place. -/
def planned (config : Config) (dir : HostPath) (nodes : List String) : List (Place × Capture) :=
  ([0], Capture.ofHost config dir) ::
    (nodes.zipIdx 1).flatMap fun (node, i) => plannedOn config dir node i

theorem places_planned (config : Config) (dir : HostPath) (nodes : List String) :
    (planned config dir nodes).map Prod.fst =
      [0] :: (List.range' 1 nodes.length).flatMap fun i => (List.range 6).map fun j => [i, j] := by
  have hon (node : String) (i : Nat) :
      (plannedOn config dir node i).map Prod.fst = (List.range 6).map fun j => [i, j] := rfl
  rw [planned, List.map_cons, List.map_flatMap]
  congr 1
  rw [← List.zipIdx_map_snd 1 nodes, List.flatMap_map]
  exact List.flatMap_congr fun ⟨node, i⟩ _ => hon node i

theorem length_planned (config : Config) (dir : HostPath) (nodes : List String) :
    (planned config dir nodes).length = 1 + 6 * nodes.length := by
  rw [← List.length_map Prod.fst, places_planned]
  simp
  omega

theorem nodup_planned (config : Config) (dir : HostPath) (nodes : List String) :
    ((planned config dir nodes).map Prod.fst).Nodup := by
  rw [places_planned, List.nodup_cons, List.nodup_flatMap]
  refine ⟨by simp, fun i _ => ?_, List.Pairwise.imp ?_ (List.pairwise_lt_range' 1)⟩
  · exact List.nodup_range.map fun j k hsame => by simpa using hsame
  · intro i j hlt
    simp [List.disjoint_left, Function.onFun, (Nat.ne_of_lt hlt).symm]

theorem forall₂_zipIdx {α β : Type} {R : α × Nat → β → Prop} {as : List α} {bs : List β} {n : Nat}
    (hlength : bs.length = as.length)
    (h : ∀ (i : Nat) (a : α) (b : β), as[i]? = some a → bs[i]? = some b → R (a, n + i) b) :
    List.Forall₂ R (as.zipIdx n) bs := by
  induction as generalizing bs n with
  | nil =>
    rw [List.eq_nil_of_length_eq_zero hlength]
    exact .nil
  | cons a as ih =>
    obtain ⟨b, bs, rfl⟩ := List.exists_cons_of_length_eq_add_one hlength
    refine .cons (h 0 a b rfl rfl) (ih (by simpa using hlength) fun i a' b' ha hb => ?_)
    rw [Nat.add_assoc, Nat.add_comm 1 i]
    exact h (i + 1) a' b' ha hb

/-- A change that does nothing but add a line to the log. -/
def IsNote (e : Event (Host σ)) : Prop := ∃ text, e.after = e.before.note (.debug text)

/-- The capture was attempted at its place, and ended so. -/
def AttemptedIn (r : Runner σ) (events : List (Event (Host σ))) (c : Place × Capture)
    (o : Outcome Unit) : Prop :=
  Attempt r c.1 c.2 (within c.1 events) o

/-- The captures of one node, which are gathered. -/
def bundle (r : Runner σ) (config : Config) (dir : HostPath) (node : String) : Action (Host σ) :=
  Capture.together ((Capture.ofNode config node (dir.join node)).map (Capture.action r))

theorem attempted_on {node : String} {i : Nat} {result : Outcome Unit}
    (hnode : Task.Completes [i] (.ready (bundle r config dir node)) (within [i] events) result) :
    ∃ outcomes, List.Forall₂ (AttemptedIn r events) (plannedOn config dir node i) outcomes ∧
      result.faults = outcomes.flatMap Outcome.faults ∧
      ∀ e ∈ within [i] events, IsNote e ∨ ∃ c ∈ plannedOn config dir node i, e.place = c.1 := by
  obtain ⟨outcomes, rfl, hlength, hothers, heach⟩ := Capture.completes_together hnode
  rw [List.length_map] at hlength hothers
  have hattempt (j : Nat) (c : Capture) (o : Outcome Unit)
      (hc : (Capture.ofNode config node (dir.join node))[j]? = some c)
      (ho : outcomes[j]? = some o) : Attempt r [i, j] c (within [i, j] events) o := by
    have hcompletes := heach j _ o (by rw [List.getElem?_map, hc]; rfl) ho
    rw [Event.within_within (List.prefix_append [i] [j])] at hcompletes
    exact Capture.attempt_of_completes hcompletes
  refine ⟨outcomes, ?_, Action.faults_gathered [] outcomes, fun e he => ?_⟩
  · rw [plannedOn, List.forall₂_map_left_iff]
    refine forall₂_zipIdx hlength fun j c o hc ho => ?_
    simpa [AttemptedIn] using hattempt j c o hc ho
  · refine (hothers e he).imp_right ?_
    rintro ⟨j, hj, hplace⟩
    have hin : e ∈ within [i, j] events :=
      List.mem_filter.mpr ⟨(List.mem_filter.mp he).1, by simpa using hplace⟩
    obtain ⟨c, hc⟩ : ∃ c, (Capture.ofNode config node (dir.join node))[j]? = some c :=
      ⟨_, List.getElem?_eq_getElem hj⟩
    obtain ⟨o, ho⟩ : ∃ o, outcomes[j]? = some o := ⟨_, List.getElem?_eq_getElem (hlength ▸ hj)⟩
    refine ⟨([i, j], c), ?_, (hattempt j c o hc ho).at_place e hin⟩
    exact List.mem_map.mpr ⟨(c, j), List.mem_zipIdx_iff_getElem?.mpr hc, rfl⟩

theorem attempted_on_all {n : Nat} {results : List (Outcome Unit)}
    (hlength : results.length = nodes.length)
    (heach : ∀ (k : Nat) (node : String) (o : Outcome Unit), nodes[k]? = some node →
      results[k]? = some o →
      Task.Completes [n + k] (.ready (bundle r config dir node)) (within [n + k] events) o) :
    ∃ outcomes, List.Forall₂ (AttemptedIn r events)
        ((nodes.zipIdx n).flatMap fun (node, i) => plannedOn config dir node i) outcomes ∧
      results.flatMap Outcome.faults = outcomes.flatMap Outcome.faults ∧
      ∀ k < nodes.length, ∀ e ∈ within [n + k] events, IsNote e ∨
        ∃ c ∈ (nodes.zipIdx n).flatMap fun (node, i) => plannedOn config dir node i,
          e.place = c.1 := by
  induction nodes generalizing n results with
  | nil =>
    obtain rfl := List.eq_nil_of_length_eq_zero hlength
    exact ⟨[], .nil, rfl, nofun⟩
  | cons node rest ih =>
    obtain ⟨result, others, rfl⟩ := List.exists_cons_of_length_eq_add_one hlength
    obtain ⟨here, hhere, hfaults, hplaces⟩ := attempted_on (heach 0 node result rfl rfl)
    obtain ⟨there, hthere, hfaults', hplaces'⟩ :=
      ih (n := n + 1) (Nat.succ.inj hlength) fun k node' o hnode ho => by
        rw [Nat.add_assoc, Nat.add_comm 1 k]
        exact heach (k + 1) node' o hnode ho
    refine ⟨here ++ there, List.rel_append hhere hthere, ?_, ?_⟩
    · rw [List.flatMap_cons, List.flatMap_append, hfaults, hfaults']
    · intro k hk e he
      simp only [List.zipIdx_cons, List.flatMap_cons, List.mem_append]
      cases k with
      | zero => exact (hplaces e he).imp_right fun ⟨c, hc, hplace⟩ => ⟨c, Or.inl hc, hplace⟩
      | succ k =>
        rw [Nat.add_comm k 1, ← Nat.add_assoc] at he
        exact (hplaces' k (Nat.lt_of_succ_lt_succ hk) e he).imp_right
          fun ⟨c, hc, hplace⟩ => ⟨c, Or.inr hc, hplace⟩

/-! Collections -/

/-- The host when the captures start. -/
def copied (r : Runner σ) (config : Config) (nodes : List String) (dir : HostPath) (h : Host σ) :
    Host σ :=
  ((copyAll r config dir nodes).run h).2.note
    (.info s!"Running {(plan r config dir nodes).length} collection action(s)")

/-- The captures, when none of them has begun. -/
def captures (r : Runner σ) (config : Config) (nodes : List String) (dir : HostPath) :
    Task (Host σ) :=
  .ready (Capture.together (plan r config dir nodes))

/-- A collection in which the captures take turns in any order. -/
inductive Collects (r : Runner σ) (config : Config) (nodes : List String) (dir : HostPath)
    (h : Host σ) : List (Event (Host σ)) → Report → Host σ → Prop
  | intro {events : List (Event (Host σ))} {capturing : Outcome Unit} {h' : Host σ}
      (captured : Task.Run [] (captures r config nodes dir) (copied r config nodes dir h) events
        (.ended capturing) h') :
      Collects r config nodes dir h events
        (.ofFailures (((copyAll r config dir nodes).run h).1 ++
          (Outcome.failure? capturing).toList))
        h'

theorem run_collect (r : Runner σ) (config : Config) (nodes : List String) (dir : HostPath)
    (h : Host σ) :
    (collect r config nodes dir).run h =
      let ran := (Capture.together (plan r config dir nodes)).run [] (copied r config nodes dir h)
      (.ofFailures (((copyAll r config dir nodes).run h).1 ++ (Outcome.failure? ran.2).toList),
        ran.1) := by
  unfold copied
  rw [collect, StateT.run_bind]
  generalize (copyAll r config dir nodes).run h = copying
  generalize plan r config dir nodes = actions
  obtain ⟨failures, h'⟩ := copying
  rfl

/-- Collecting with the captures one after the other is one of the ways to do it. -/
theorem collect_in_turn (r : Runner σ) (config : Config) (nodes : List String) (dir : HostPath)
    (h : Host σ) :
    ∃ events, Collects r config nodes dir h events ((collect r config nodes dir).run h).1
      ((collect r config nodes dir).run h).2 := by
  obtain ⟨events, hrun⟩ := Task.run_in_turn (Capture.together (plan r config dir nodes)) []
    (copied r config nodes dir h)
  rw [run_collect]
  exact ⟨events, .intro hrun⟩

/-- All copies were made one after the other, and then each capture was attempted at its place. -/
structure Attempts (r : Runner σ) (config : Config) (nodes : List String) (dir : HostPath)
    (h : Host σ) (events : List (Event (Host σ))) (h' : Host σ)
    (copies outcomes : List (Outcome Unit)) : Prop where
  copies : ∃ h₁, Copies r config dir nodes h copies h₁ ∧
    Chained (h₁.note (.info s!"Running {1 + nodes.length} collection action(s)")) events h'
  captures : List.Forall₂ (AttemptedIn r events) (planned config dir nodes) outcomes
  others : ∀ e ∈ events, IsNote e ∨ ∃ c ∈ planned config dir nodes, e.place = c.1

/-- What a report tells of the copies and captures that it is about. -/
structure Tells (config : Config) (nodes : List String) (report : Report)
    (copies outcomes : List (Outcome Unit)) : Prop where
  faults : report.faults = copyFaults config nodes copies ++ outcomes.flatMap Outcome.faults
  isEmpty : report.isEmpty = true ↔ ∀ o ∈ copies ++ outcomes, o = .ok ()
  succeeds : report.result = .ok () ↔ report.isEmpty = true
  fails : ∀ f, report.result = .error f → ∃ a, f = .many [] a ∧ a.faults = report.faults

theorem Copies.length {copies : List (Outcome Unit)}
    (hcopies : Copies r config dir nodes h copies h') :
    copies.length = nodes.length := by
  induction hcopies with
  | nil => rfl
  | cons _ _ ih => rw [List.length_cons, List.length_cons, ih]

theorem copyFaults_eq_nil {copies : List (Outcome Unit)} (hlength : copies.length = nodes.length) :
    copyFaults config nodes copies = [] ↔ ∀ o ∈ copies, o = .ok () := by
  have hcontext (node : String) (o : Outcome Unit) :
      (Outcome.context (copyContext config node) o).faults = [] ↔ o = .ok () := by
    rw [Outcome.faults_eq_nil]
    cases o with
    | ok _ => exact ⟨fun _ => rfl, fun _ => rfl⟩
    | error f => exact ⟨nofun, nofun⟩
  have hsecond : (nodes.zip copies).map Prod.snd = copies := List.map_snd_zip (Nat.le_of_eq hlength)
  calc copyFaults config nodes copies = []
      ↔ ∀ c ∈ nodes.zip copies, c.2 = .ok () := by
        rw [copyFaults, List.flatMap_eq_nil_iff]
        exact forall₂_congr fun c _ => hcontext c.1 c.2
    _ ↔ ∀ o ∈ (nodes.zip copies).map Prod.snd, o = .ok () := by rw [List.forall_mem_map]
    _ ↔ ∀ o ∈ copies, o = .ok () := by rw [hsecond]

theorem tells {copies outcomes : List (Outcome Unit)} (hlength : copies.length = nodes.length)
    (hfaults : report.faults = copyFaults config nodes copies ++ outcomes.flatMap Outcome.faults) :
    Tells config nodes report copies outcomes where
  faults := hfaults
  isEmpty := by
    rw [Report.isEmpty, hfaults, List.isEmpty_iff, List.append_eq_nil_iff,
      copyFaults_eq_nil hlength, List.flatMap_eq_nil_iff, List.forall_mem_append]
    exact and_congr_right fun _ => forall₂_congr fun _ _ => Outcome.faults_eq_nil
  succeeds := by
    rw [Report.isEmpty, List.isEmpty_iff, ← Aggregate.ofFaults?_eq_none, Report.result]
    cases Aggregate.ofFaults? report.faults <;> simp
  fails f hf := by
    rw [Report.result] at hf
    split at hf
    · cases hf
    · next a ha =>
      cases hf
      exact ⟨a, rfl, Aggregate.ofFaults?_eq_some.mp ha⟩

/-- Captures that have all come to their end. -/
theorem captures_attempted {capturing : Outcome Unit}
    (hrun : Task.Run [] (captures r config nodes dir) h events (.ended capturing) h') :
    ∃ outcomes, List.Forall₂ (AttemptedIn r events) (planned config dir nodes) outcomes ∧
      capturing.faults = outcomes.flatMap Outcome.faults ∧
      ∀ e ∈ events, IsNote e ∨ ∃ c ∈ planned config dir nodes, e.place = c.1 := by
  obtain ⟨results, rfl, hlength, hothers, heach⟩ := Capture.completes_together hrun.completes
  obtain ⟨onHost, onNodes, rfl⟩ := List.exists_cons_of_length_eq_add_one hlength
  have hhost : AttemptedIn r events ([0], Capture.ofHost config dir) onHost :=
    Capture.attempt_of_completes (heach 0 _ onHost rfl rfl)
  have hlengths : onNodes.length = nodes.length := by simpa [plan] using hlength
  have hnodes (k : Nat) (node : String) (o : Outcome Unit) (hnode : nodes[k]? = some node)
      (ho : onNodes[k]? = some o) :
      Task.Completes [1 + k] (.ready (bundle r config dir node)) (within [1 + k] events) o := by
    rw [Nat.add_comm]
    refine heach (k + 1) _ o ?_ ho
    rw [plan, List.getElem?_cons_succ, List.getElem?_map, hnode]
    rfl
  obtain ⟨outcomes, hall, hfaults, hplaces⟩ := attempted_on_all hlengths hnodes
  refine ⟨onHost :: outcomes, .cons hhost hall, ?_, fun e he => ?_⟩
  · rw [Action.faults_gathered, List.flatMap_cons, List.flatMap_cons, hfaults]
  · rcases hothers e he with hnote | ⟨i, hi, hplace⟩
    · exact Or.inl hnote
    · have hin : e ∈ within [i] events := List.mem_filter.mpr ⟨he, by simpa using hplace⟩
      cases i with
      | zero => exact Or.inr ⟨_, List.mem_cons_self, hhost.at_place e hin⟩
      | succ k =>
        have hk : k < nodes.length := by simpa [plan] using hi
        rw [Nat.add_comm] at hin
        exact (hplaces k hk e hin).imp_right
          fun ⟨c, hc, hsame⟩ => ⟨c, List.mem_cons_of_mem _ hc, hsame⟩

theorem exists_of_forall₂ {α β : Type} {R : α → β → Prop} {as : List α} {bs : List β}
    (h : List.Forall₂ R as bs) {a : α} (ha : a ∈ as) : ∃ b, R a b := by
  induction h with
  | nil => cases ha
  | @cons first b _ _ hfirst _ ih =>
    rcases List.mem_cons.mp ha with rfl | ha
    · exact ⟨b, hfirst⟩
    · exact ih ha

/-- Each change in captures that have come to their end is a note or a turn of one of them. -/
theorem turn_of_captures {capturing : Outcome Unit}
    (hrun : Task.Run [] (captures r config nodes dir) h events (.ended capturing) h') :
    ∀ e ∈ events, IsNote e ∨ ∃ x ∈ planned config dir nodes, ∃ o, AttemptedIn r events x o ∧
      e ∈ within x.1 events := by
  obtain ⟨outcomes, hattempts, -, hothers⟩ := captures_attempted hrun
  intro e he
  refine (hothers e he).imp_right ?_
  rintro ⟨x, hx, hplace⟩
  obtain ⟨o, hattempt⟩ := exists_of_forall₂ hattempts hx
  exact ⟨x, hx, o, hattempt, List.mem_filter.mpr ⟨he, by simp [hplace]⟩⟩

/-- Runs nothing. -/
def refusing : Runner Unit where
  run _ := return .error (.ofMessage "refused")
  capture _ := return ([], .error (.ofMessage "refused"))
  lines _ := return .error (.ofMessage "refused")
  stream _ := return .refused (.ofMessage "refused")

end NodeLogs.Collection
