import NodeLogs.Runner

/-!
Runners that keep a record of what they are asked. A recording runner answers as the one it asks,
and nothing but its record tells the two apart.
-/

namespace NodeLogs

/-- What a runner is asked to run, in which way, and what it answers. -/
inductive Exchange where
  | run (c : Command) (answer : Outcome Unit)
  | capture (c : Command) (output : Bytes) (answer : Outcome Unit)
  | lines (c : Command) (answer : Outcome (List String))
  | stream (c : Command) (answer : Streamed)

def Exchange.command : Exchange → Command
  | .run c _ => c
  | .capture c _ _ => c
  | .lines c _ => c
  | .stream c _ => c

variable {σ α : Type}

/-- An exchange with the host before and after it. -/
structure Call (σ : Type) where
  exchange : Exchange
  before : Host σ
  after : Host σ

/-- The state of a runner with all its calls so far, the earliest first. -/
structure Recorded (σ : Type) where
  runner : σ
  calls : List (Call σ)

namespace Host

/-- The host without the record. -/
def bare (h : Host (Recorded σ)) : Host σ := ⟨h.tree, h.log, h.runner.runner⟩

def recorded (h : Host σ) (calls : List (Call σ)) : Host (Recorded σ) :=
  ⟨h.tree, h.log, ⟨h.runner, calls⟩⟩

theorem recorded_bare (h : Host (Recorded σ)) : h.bare.recorded h.runner.calls = h := rfl

end Host

namespace Runner

/-- Asks, and adds the exchange to the record. -/
def record (asked : Hosted σ α) (exchange : α → Exchange) : Hosted (Recorded σ) α := fun h =>
  let (answer, after) := asked.run h.bare
  (answer, after.recorded (h.runner.calls ++ [⟨exchange answer, h.bare, after⟩]))

def recording (r : Runner σ) : Runner (Recorded σ) where
  run c := record (r.run c) (.run c)
  capture c := record (r.capture c) fun (output, answer) => .capture c output answer
  lines c := record (r.lines c) (.lines c)
  stream c := record (r.stream c) (.stream c)

theorem run_record (asked : Hosted σ α) (exchange : α → Exchange) (h : Host σ)
    (calls : List (Call σ)) :
    (record asked exchange).run (h.recorded calls) =
      ((asked.run h).1, (asked.run h).2.recorded
        (calls ++ [⟨exchange (asked.run h).1, h, (asked.run h).2⟩])) := rfl

theorem run_recording_capture (r : Runner σ) {c : Command} {output : Bytes} {answer : Outcome Unit}
    {h h' : Host σ} (hasked : (r.capture c).run h = ((output, answer), h'))
    (calls : List (Call σ)) : ((recording r).capture c).run (h.recorded calls) =
      ((output, answer), h'.recorded (calls ++ [⟨.capture c output answer, h, h'⟩])) := by
  unfold recording
  rw [run_record, hasked]

end Runner

/-- From a host on, something comes to this, and with recording it makes these calls on its way. -/
structure Makes (recorded : Hosted (Recorded σ) α) (bare : Hosted σ α) (h : Host σ)
    (calls : List (Call σ)) (a : α) (h' : Host σ) : Prop where
  bare : bare.run h = (a, h')
  recorded : ∀ earlier, recorded.run (h.recorded earlier) = (a, h'.recorded (earlier ++ calls))

namespace Makes

variable {β : Type} {h h' h'' : Host σ} {calls later : List (Call σ)} {a : α} {b : β}

theorem pure (a : α) (h : Host σ) :
    Makes (pure a : Hosted (Recorded σ) α) (pure a : Hosted σ α) h [] a h where
  bare := rfl
  recorded earlier := by
    rw [List.append_nil]
    rfl

theorem asked {asked : Hosted σ α} {exchange : α → Exchange} (hasked : asked.run h = (a, h')) :
    Makes (Runner.record asked exchange) asked h [⟨exchange a, h, h'⟩] a h' where
  bare := hasked
  recorded earlier := by rw [Runner.run_record, hasked]

theorem bind {first : Hosted (Recorded σ) α} {first' : Hosted σ α}
    {next : α → Hosted (Recorded σ) β} {next' : α → Hosted σ β}
    (hfirst : Makes first first' h calls a h') (hnext : Makes (next a) (next' a) h' later b h'') :
    Makes (first >>= next) (first' >>= next') h (calls ++ later) b h'' where
  bare := by
    rw [StateT.run_bind, hfirst.bare]
    exact hnext.bare
  recorded earlier := by
    rw [StateT.run_bind, hfirst.recorded, ← List.append_assoc]
    exact hnext.recorded (earlier ++ calls)

theorem bind_last {first : Hosted (Recorded σ) α} {first' : Hosted σ α}
    {next : α → Hosted (Recorded σ) β} {next' : α → Hosted σ β}
    (hfirst : Makes first first' h calls a h') (hnext : Makes (next a) (next' a) h' [] b h'') :
    Makes (first >>= next) (first' >>= next') h calls b h'' := by
  rw [← List.append_nil calls]
  exact hfirst.bind hnext

/-- What does not ask the runner makes no call. -/
theorem modify_bind {f : Host (Recorded σ) → Host (Recorded σ)} {f' : Host σ → Host σ}
    {next : Unit → Hosted (Recorded σ) β} {next' : Unit → Hosted σ β}
    (hsame : ∀ calls, f (h.recorded calls) = (f' h).recorded calls)
    (hnext : Makes (next ()) (next' ()) (f' h) calls b h') :
    Makes (modify f >>= next) (modify f' >>= next') h calls b h' where
  bare := hnext.bare
  recorded earlier := by
    rw [StateT.run_bind]
    change (next ()).run (f (h.recorded earlier)) = _
    rw [hsame]
    exact hnext.recorded earlier

end Makes

end NodeLogs
