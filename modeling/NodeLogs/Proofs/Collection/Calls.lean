import NodeLogs.Proofs.Action.Views
import NodeLogs.Proofs.Collection
import NodeLogs.Proofs.Staging

/-!
What collections ask of the runner. The copies are made one after the other and each leaves no
staging directory behind, so that there is none when the captures start, and these make none.
-/

namespace NodeLogs

variable {σ : Type} {r : Runner σ} {config : Config} {dir : HostPath} {nodes : List String}

open Runner (recording)

/-- What is asked in a turn of the captures. -/
def Captured (call : Call σ) : Prop := ∃ c output answer, call.exchange = .capture c output answer

namespace Capture

theorem makeParent_recorded (path : HostPath) (h : Host σ) (calls : List (Call σ)) :
    makeParent path (h.recorded calls) =
      ((makeParent path h).1.recorded calls, (makeParent path h).2) := by
  unfold makeParent
  cases path.parent? with
  | none => rfl
  | some above =>
    have hsame : (h.recorded calls).tree.makeDirs 0o777 above = h.tree.makeDirs 0o777 above := rfl
    simp only [hsame]
    rcases h.tree.makeDirs 0o777 above with ⟨changes, _ | ⟨⟩⟩ <;> rfl

theorem createFile_recorded (path : HostPath) (h : Host σ) (calls : List (Call σ)) :
    createFile path (h.recorded calls) =
      ((createFile path h).1.recorded calls, (createFile path h).2) := by
  unfold createFile
  have hsame : (h.recorded calls).tree.openForWriting 0o666 path =
    h.tree.openForWriting 0o666 path :=
    rfl
  simp only [hsame]
  rcases h.tree.openForWriting 0o666 path with _ | ⟨loc, opened⟩ <;> rfl

theorem fillFile_recorded (r : Runner σ) (c : Command) (loc : Location) (h : Host σ)
    (calls : List (Call σ)) :
    ∃ call, Captured call ∧ fillFile (recording r) c loc (h.recorded calls) =
      ((fillFile r c loc h).1.recorded (calls ++ [call]), (fillFile r c loc h).2) := by
  obtain ⟨⟨⟨output, answer⟩, after⟩, hasked⟩ : ∃ x, (r.capture c).run h = x := ⟨_, rfl⟩
  refine ⟨⟨.capture c output answer, h, after⟩, ⟨c, output, answer, rfl⟩, ?_⟩
  have hrecorded := Runner.run_recording_capture r hasked calls
  have hsame (calls : List (Call σ)) : (after.recorded calls).tree = after.tree := rfl
  unfold fillFile
  simp only [hrecorded, hasked, hsame]
  cases after.tree.write loc output <;> rfl

theorem mirrors_attempt {α : Type} {f : Host (Recorded σ) → Host (Recorded σ) × Outcome α}
    {f' : Host σ → Host σ × Outcome α} {next : α → Action (Host (Recorded σ))}
    {next' : α → Action (Host σ)}
    (hsame : ∀ h calls, ∃ calls', f (h.recorded calls) = ((f' h).1.recorded calls', (f' h).2))
    (hnext : ∀ a, (next a).Mirrors Host.bare (next' a)) :
    (attempt f next).Mirrors Host.bare (attempt f' next') := by
  have hview (h : Host (Recorded σ)) : (f h).1.bare = (f' h.bare).1 ∧ (f h).2 = (f' h.bare).2 := by
    obtain ⟨calls', hf⟩ := hsame h.bare h.runner.calls
    rw [Host.recorded_bare] at hf
    rw [hf]
    exact ⟨rfl, rfl⟩
  refine .step (fun h => (hview h).1) fun h => ?_
  rw [(hview h).2]
  cases (f' h.bare).2 with
  | error e => exact .finish _
  | ok a => exact hnext a

theorem mirrors_action (r : Runner σ) (c : Capture) :
    (c.action (recording r)).Mirrors Host.bare (c.action r) := by
  refine mirrors_attempt (fun h calls => ⟨calls, makeParent_recorded c.path h calls⟩) fun _ => ?_
  refine mirrors_attempt (fun h calls => ⟨calls, createFile_recorded c.path h calls⟩) fun loc => ?_
  refine mirrors_attempt (fun h calls => ?_) fun _ => .finish _
  obtain ⟨call, -, hcall⟩ := fillFile_recorded r c.command loc h calls
  exact ⟨calls ++ [call], hcall⟩

theorem mirrors_together {actions : List (Action (Host (Recorded σ)))}
    {actions' : List (Action (Host σ))}
    (h : List.Forall₂ (Action.Mirrors Host.bare) actions actions') :
    (together actions).Mirrors Host.bare (together actions') := by
  unfold together
  rw [h.length_eq]
  exact .step (fun _ => rfl) fun _ => .gather [] h

end Capture

namespace Collection

open Event (Chained)
open Staging (Course Tidy)

/-- Runs of the captures with and without recording are the same but for the record. -/
theorem mirrors_captures (r : Runner σ) (config : Config) (nodes : List String) (dir : HostPath) :
    (captures (recording r) config nodes dir).Mirrors Host.bare (captures r config nodes dir) := by
  refine .ready (Capture.mirrors_together (.cons (Capture.mirrors_action r _) ?_))
  rw [List.forall₂_map_left_iff, List.forall₂_map_right_iff, List.forall₂_same]
  intro node _
  refine Capture.mirrors_together ?_
  rw [List.forall₂_map_left_iff, List.forall₂_map_right_iff, List.forall₂_same]
  exact fun c _ => Capture.mirrors_action r c

/-- The calls that copying the log directory of a node may make. -/
def CopyCalls (config : Config) (dir : HostPath) (node : String) (calls : List (Call σ)) : Prop :=
  ∃ before result, Course node config.remoteLogDir (dir.join node) before calls result

theorem copyAll_makes (r : Runner σ) (config : Config) (dir : HostPath) (nodes : List String)
    (h : Host σ) :
    ∃ courses failures h',
      Makes (copyAll (recording r) config dir nodes) (copyAll r config dir nodes) h courses.flatten
        failures h' ∧
      List.Forall₂ (CopyCalls config dir) nodes courses := by
  induction nodes generalizing h with
  | nil => exact ⟨[], [], h, Makes.pure _ _, .nil⟩
  | cons node rest ih =>
    obtain ⟨calls, result, h₁, hcopy, hcourse⟩ :=
      Staging.copy_makes r node config.remoteLogDir (dir.join node) h
    obtain ⟨courses, failures, h', hrest, hcourses⟩ := ih h₁
    have hend : ∃ failures', Makes (copyAll (recording r) config dir (node :: rest))
        (copyAll r config dir (node :: rest)) h (calls ++ courses.flatten) failures' h' := by
      rw [copyAll, copyAll]
      cases result with
      | ok _ =>
        refine ⟨failures, hcopy.bind (hrest.bind_last ?_)⟩
        exact Makes.pure _ _
      | error f =>
        refine ⟨f.context (copyContext config node) :: failures, hcopy.bind (hrest.bind_last ?_)⟩
        exact Makes.pure _ _
    obtain ⟨failures', hmakes⟩ := hend
    exact ⟨calls :: courses, failures', h', hmakes, .cons ⟨h, result, hcourse⟩ hcourses⟩

theorem tidy_of_courses {courses : List (List (Call σ))}
    (hcourses : List.Forall₂ (CopyCalls config dir) nodes courses) : Tidy courses.flatten := by
  induction hcourses with
  | nil => exact Staging.tidy_of_track (by simp)
  | cons hfirst _ ih =>
    obtain ⟨before, result, hcourse⟩ := hfirst
    exact hcourse.tidy.append ih

theorem tidy_of_captured {calls : List (Call σ)} (h : ∀ call ∈ calls, Captured call) :
    Tidy calls := by
  refine Staging.tidy_of_track fun call hmem => ?_
  obtain ⟨c, output, answer, hcall⟩ := h call hmem
  rw [hcall]
  rfl

/-- Every turn of a capture asks for nothing or for the output of a command. -/
def AddsCaptures (before after : Host (Recorded σ)) : Prop :=
  ∃ calls, after.runner.calls = before.runner.calls ++ calls ∧ ∀ call ∈ calls, Captured call

theorem addsCaptures_of_attempt {place : Place} {c : Capture}
    {events : List (Event (Host (Recorded σ)))} {o : Outcome Unit}
    (h : Capture.Attempt (recording r) place c events o) :
    ∀ e ∈ events, AddsCaptures e.before e.after := by
  have hdirectory (h : Host (Recorded σ)) : AddsCaptures h (Capture.makeParent c.path h).1 := by
    have hsame := Capture.makeParent_recorded c.path h.bare h.runner.calls
    rw [Host.recorded_bare] at hsame
    rw [hsame]
    exact ⟨[], (List.append_nil _).symm, by simp⟩
  have hfile (h : Host (Recorded σ)) : AddsCaptures h (Capture.createFile c.path h).1 := by
    have hsame := Capture.createFile_recorded c.path h.bare h.runner.calls
    rw [Host.recorded_bare] at hsame
    rw [hsame]
    exact ⟨[], (List.append_nil _).symm, by simp⟩
  have houtput (loc : Location) (h : Host (Recorded σ)) :
      AddsCaptures h (Capture.fillFile (recording r) c.command loc h).1 := by
    obtain ⟨call, hcaptured, hsame⟩ :=
      Capture.fillFile_recorded r c.command loc h.bare h.runner.calls
    rw [Host.recorded_bare] at hsame
    rw [hsame]
    exact ⟨[call], rfl, by simpa using hcaptured⟩
  cases h with
  | noDirectory h₁ f making => simpa using hdirectory h₁
  | noFile h₁ h₂ f making creating => simpa using ⟨hdirectory h₁, hfile h₂⟩
  | run h₁ h₂ h₃ loc making creating => simpa using ⟨hdirectory h₁, hfile h₂, houtput loc h₃⟩

theorem AddsCaptures.chained {h h' : Host (Recorded σ)} {events : List (Event (Host (Recorded σ)))}
    (hchained : Chained h events h') (heach : ∀ e ∈ events, AddsCaptures e.before e.after) :
    AddsCaptures h h' := by
  induction events generalizing h with
  | nil =>
    cases hchained
    exact ⟨[], (List.append_nil _).symm, by simp⟩
  | cons e rest ih =>
    obtain ⟨rfl, hrest⟩ := hchained
    obtain ⟨calls, hcalls, hcaptured⟩ := heach e List.mem_cons_self
    obtain ⟨later, hlater, hcaptured'⟩ :=
      ih hrest fun e' he' => heach e' (List.mem_cons_of_mem _ he')
    refine ⟨calls ++ later, ?_, List.forall_mem_append.mpr ⟨hcaptured, hcaptured'⟩⟩
    rw [hlater, hcalls, List.append_assoc]

/-- Wherever a run of the captures has come to, they have asked for nothing but output. -/
theorem addsCaptures_of_run {h now : Host (Recorded σ)} {events : List (Event (Host (Recorded σ)))}
    {task : Task (Host (Recorded σ))}
    (hrun : Task.Run [] (captures (recording r) config nodes dir) h events task now) :
    AddsCaptures h now := by
  obtain ⟨later, result, h', hrest⟩ := Task.exists_run [] task now
  refine AddsCaptures.chained hrun.chained fun e he => ?_
  rcases turn_of_captures (hrun.trans hrest) e (List.mem_append_left later he) with
    ⟨text, hnote⟩ | ⟨c, hc, o, hattempt, hturn⟩
  · rw [hnote]
    exact ⟨[], (List.append_nil _).symm, by simp⟩
  · exact addsCaptures_of_attempt hattempt e hturn

/-- Makes staging directories and nothing else. -/
def staging : Runner Unit where
  run _ := return .error (.ofMessage "refused")
  capture _ := return ([], .error (.ofMessage "refused"))
  lines _ := return .ok ["/tmp/staging"]
  stream _ := return .refused (.ofMessage "refused")

end Collection

end NodeLogs
