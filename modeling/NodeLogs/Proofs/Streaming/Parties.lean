import NodeLogs.Streaming

/-!
Streaming as it happens: the program, the thread of the consumer, the reader of the errors and the
call that waits for all of them go on side by side, and the two pipes between them hold only so
much. Whoever has to wait waits for another one that can go on, so that the call returns in the end;
and what it then tells does not depend on who took a turn when.
-/

namespace NodeLogs.Streaming

/-- What a consumer does next. Not only a `Consumer` is told so, but also one that reads on for as
long as there is something to read. -/
inductive Turn (κ : Type) where
  | finish (f : Finish)
  | read (most : Nat) (next : Bytes → κ)

/-- The program with what it is still to do, or how it ended. -/
inductive Process where
  | running (rest : Child)
  | exited (status : ExitStatus)
  /-- By the signal for a pipe that nobody reads. -/
  | killed

namespace Process

def status? : Process → Option ExitStatus
  | running _ => none
  | exited status => some status
  | killed => some (.signaled 13)

/-- What is still to be written to a stream. -/
def left (stream : Stream) : Process → Bytes
  | running rest => rest.writtenTo stream
  | _ => []

end Process

/-- The thread that the consumer runs in. After a success it reads what is left; else it gives its
end of the pipe up at once. -/
inductive Thread (κ : Type) where
  | reading (k : κ)
  | draining
  | gone (f : Finish)

/-- Whether the consumer itself has ended with success. -/
def Thread.Succeeded {κ : Type} : Thread κ → Prop
  | reading _ => False
  | draining => True
  | gone f => f = .succeeded

/-- The program, what the pipes hold, the consumer's thread, the errors that were read so far and
whether their end was seen, and the call with the status that it waited for and its result. -/
structure System (κ : Type) where
  process : Process
  held : Stream → Bytes
  thread : Thread κ
  errors : Bytes
  errorsEnded : Bool
  status? : Option ExitStatus
  result? : Option (Outcome Unit)

inductive Party where
  | program
  | consumer
  | errorsReader
  | call

namespace System

variable {κ : Type}

def start (child : Child) (k : κ) : System κ :=
  ⟨.running child, fun _ => [], .reading k, [], false, none, none⟩

def hold (s : System κ) (stream : Stream) (bytes : Bytes) : System κ :=
  { s with held := fun other => if other = stream then bytes else s.held other }

/-- Whether nobody reads a stream any more. The errors are read to their end. -/
def Unread (s : System κ) : Stream → Prop
  | .output => ∃ f, s.thread = .gone f
  | .errors => False

/-- Whether the program is about to write to a pipe that nobody reads. -/
def MeetsClosed (s : System κ) (stream : Stream) : Prop :=
  ∃ bytes rest status, s.process = .running ⟨(stream, bytes) :: rest, status⟩ ∧ s.Unread stream

/-- Whether the program has ended and a pipe is empty. -/
def AtEnd (s : System κ) (stream : Stream) : Prop :=
  s.held stream = [] ∧ s.process.status? ≠ none

end System

section Steps

variable {κ : Type} (c : Command) (capacity : Stream → Nat) (turn : κ → Turn κ)

/-- One turn of one party. The program writes as much at a time as there is room for, and the others
read as much at a time as they like of what there is. A write of nothing may go unnoticed by the
system. -/
inductive Step : Party → System κ → System κ → Prop
  | write {s : System κ} (stream : Stream) (piece more : Bytes) (rest : List (Stream × Bytes))
      (status : ExitStatus)
      (running : s.process = .running ⟨(stream, piece ++ more) :: rest, status⟩)
      (nonempty : piece ≠ []) (isRead : ¬ s.Unread stream)
      (room : (s.held stream ++ piece).length ≤ capacity stream) :
      Step .program s
        ({ s with process := .running ⟨(stream, more) :: rest, status⟩ }.hold stream
          (s.held stream ++ piece))
  | written {s : System κ} (stream : Stream) (rest : List (Stream × Bytes)) (status : ExitStatus)
      (running : s.process = .running ⟨(stream, []) :: rest, status⟩) :
      Step .program s { s with process := .running ⟨rest, status⟩ }
  | kill {s : System κ} (stream : Stream) (closed : s.MeetsClosed stream) :
      Step .program s { s with process := .killed }
  | exit {s : System κ} (status : ExitStatus) (running : s.process = .running ⟨[], status⟩) :
      Step .program s { s with process := .exited status }
  | read {s : System κ} (k : κ) (most : Nat) (next : Bytes → κ) (piece more : Bytes)
      (reading : s.thread = .reading k) (reads : turn k = .read most next)
      (held : s.held .output = piece ++ more) (nonempty : piece ≠ [])
      (atMost : piece.length ≤ most) :
      Step .consumer s ({ s with thread := .reading (next piece) }.hold .output more)
  | readNothing {s : System κ} (k : κ) (most : Nat) (next : Bytes → κ)
      (reading : s.thread = .reading k) (reads : turn k = .read most next)
      (nothing : most = 0 ∨ s.AtEnd .output) :
      Step .consumer s { s with thread := .reading (next []) }
  | succeed {s : System κ} (k : κ) (reading : s.thread = .reading k)
      (ends : turn k = .finish .succeeded) :
      Step .consumer s { s with thread := .draining }
  | giveUp {s : System κ} (k : κ) (f : Finish) (reading : s.thread = .reading k)
      (ends : turn k = .finish f) (ne : f ≠ .succeeded) :
      Step .consumer s { s with thread := .gone f }
  | drain {s : System κ} (piece more : Bytes) (draining : s.thread = .draining)
      (held : s.held .output = piece ++ more) (nonempty : piece ≠ []) :
      Step .consumer s (s.hold .output more)
  | drained {s : System κ} (draining : s.thread = .draining) (atEnd : s.AtEnd .output) :
      Step .consumer s { s with thread := .gone .succeeded }
  | collect {s : System κ} (piece more : Bytes) (held : s.held .errors = piece ++ more)
      (nonempty : piece ≠ []) :
      Step .errorsReader s ({ s with errors := s.errors ++ piece }.hold .errors more)
  | collected {s : System κ} (notYet : s.errorsEnded = false) (atEnd : s.AtEnd .errors) :
      Step .errorsReader s { s with errorsEnded := true }
  | wait {s : System κ} (status : ExitStatus) (waits : s.status? = none)
      (ended : s.process.status? = some status) :
      Step .call s { s with status? := some status }
  | finish {s : System κ} (f : Finish) (status : ExitStatus) (task : Nat) (waits : s.result? = none)
      (gone : s.thread = .gone f) (ended : s.errorsEnded = true)
      (waited : s.status? = some status) : Step .call s
        { s with result? := some (outcome c f (Child.outcome ⟨[], status⟩ c s.errors) task) }

/-- What can come about from a program and a consumer. -/
inductive Reachable (child : Child) (k : κ) : System κ → Prop
  | start : Reachable child k (.start child k)
  | next {party : Party} {s s' : System κ} (before : Reachable child k s)
      (step : Step c capacity turn party s s') : Reachable child k s'

end Steps

section

variable {κ : Type} {c : Command} {capacity : Stream → Nat} {turn : κ → Turn κ}
  {s s' : System κ} {party : Party}

@[simp]
theorem held_hold (s : System κ) (stream other : Stream) (bytes : Bytes) :
    (s.hold stream bytes).held other = if other = stream then bytes else s.held other := rfl

@[simp]
theorem process_hold (s : System κ) (stream : Stream) (bytes : Bytes) :
    (s.hold stream bytes).process = s.process := rfl

/-! Somebody can always go on -/

/-- A piece of one byte can be taken from what is not empty. -/
theorem exists_piece {bytes : Bytes} (h : bytes ≠ []) :
    ∃ piece more, bytes = piece ++ more ∧ piece ≠ [] ∧ piece.length = 1 := by
  obtain ⟨b, rest, rfl⟩ := List.exists_cons_of_ne_nil h
  exact ⟨[b], rest, rfl, List.cons_ne_nil b [], rfl⟩

/-- The thread of the consumer goes on unless it waits for more output, or is over. -/
theorem consumer_steps (h : s.held .output ≠ [] ∨ s.process.status? ≠ none)
    (hopen : ∀ f, s.thread ≠ .gone f) : ∃ s', Step c capacity turn .consumer s s' := by
  by_cases hempty : s.held .output = []
  · have hend : s.AtEnd .output := ⟨hempty, h.resolve_left fun hne => hne hempty⟩
    cases hthread : s.thread with
    | gone f => exact absurd hthread (hopen f)
    | draining => exact ⟨_, .drained hthread hend⟩
    | reading k =>
      cases hturn : turn k with
      | read most next => exact ⟨_, .readNothing k most next hthread hturn (Or.inr hend)⟩
      | finish f =>
        by_cases hf : f = .succeeded
        · exact ⟨_, .succeed k hthread (hf ▸ hturn)⟩
        · exact ⟨_, .giveUp k f hthread hturn hf⟩
  · obtain ⟨piece, more, hheld, hsome, hlength⟩ := exists_piece hempty
    cases hthread : s.thread with
    | gone f => exact absurd hthread (hopen f)
    | draining => exact ⟨_, .drain piece more hthread hheld hsome⟩
    | reading k =>
      cases hturn : turn k with
      | read most next =>
        by_cases hmost : most = 0
        · exact ⟨_, .readNothing k most next hthread hturn (Or.inl hmost)⟩
        · exact ⟨_, .read k most next piece more hthread hturn hheld hsome (by omega)⟩
      | finish f =>
        by_cases hf : f = .succeeded
        · exact ⟨_, .succeed k hthread (hf ▸ hturn)⟩
        · exact ⟨_, .giveUp k f hthread hturn hf⟩

/-- A program that runs writes on, or the pipe that it writes to is full and read by somebody. -/
theorem running_steps (hcapacity : ∀ stream, 0 < capacity stream) {rest : Child}
    (hrunning : s.process = .running rest) :
    ∃ party s', Step c capacity turn party s s' := by
  obtain ⟨writes, status⟩ := rest
  rcases writes with _ | ⟨⟨stream, bytes⟩, rest⟩
  · exact ⟨_, _, .exit status hrunning⟩
  · by_cases hbytes : bytes = []
    · exact ⟨_, _, .written stream rest status (hbytes ▸ hrunning)⟩
    · by_cases hunread : s.Unread stream
      · exact ⟨_, _, .kill stream ⟨bytes, rest, status, hrunning, hunread⟩⟩
      · by_cases hfull : (s.held stream).length < capacity stream
        · obtain ⟨piece, more, rfl, hsome, hlength⟩ := exists_piece hbytes
          refine ⟨_, _, .write stream piece more rest status hrunning hsome hunread ?_⟩
          rw [List.length_append]
          omega
        · have hheld : s.held stream ≠ [] := by
            intro hnil
            have hpositive := hcapacity stream
            rw [hnil, List.length_nil] at hfull
            omega
          cases stream with
          | output =>
            have hstep : ∃ s', Step c capacity turn .consumer s s' :=
              consumer_steps (Or.inl hheld) fun f hover => hunread ⟨f, hover⟩
            exact ⟨_, hstep⟩
          | errors =>
            obtain ⟨piece, more, hpiece, hsome, -⟩ := exists_piece hheld
            exact ⟨_, _, .collect piece more hpiece hsome⟩

/-- Until the call returns somebody can take a turn. -/
theorem exists_step (hcapacity : ∀ stream, 0 < capacity stream) (h : s.result? = none) :
    ∃ party s', Step c capacity turn party s s' := by
  cases hstatus : s.process.status? with
  | none =>
    cases hprocess : s.process with
    | running rest => exact running_steps hcapacity hprocess
    | exited status | killed => rw [hprocess] at hstatus; cases hstatus
  | some status =>
    by_cases hover : ∃ f, s.thread = .gone f
    · obtain ⟨f, hover⟩ := hover
      by_cases hheld : s.held .errors = []
      · cases hended : s.errorsEnded with
        | false =>
          exact ⟨_, _, .collected hended ⟨hheld, by rw [hstatus]; exact Option.some_ne_none status⟩⟩
        | true =>
          cases hwaited : s.status? with
          | none => exact ⟨_, _, .wait status hwaited hstatus⟩
          | some waited => exact ⟨_, _, .finish f waited 0 h hover hended hwaited⟩
      · obtain ⟨piece, more, hpiece, hsome, -⟩ := exists_piece hheld
        exact ⟨_, _, .collect piece more hpiece hsome⟩
    · have hstep : ∃ s', Step c capacity turn .consumer s s' :=
        consumer_steps (Or.inr (by rw [hstatus]; exact Option.some_ne_none status))
          fun f hf => hover ⟨f, hf⟩
      exact ⟨_, hstep⟩

/-! What stays true -/

/-- What holds of everything that comes about from a program. -/
structure Sound (c : Command) (child : Child) (s : System κ) : Prop where
  running : ∀ rest, s.process = .running rest → rest.status = child.status
  exited : ∀ status, s.process = .exited status → status = child.status
  /-- No byte of the errors is lost or told twice. -/
  errors : s.process ≠ .killed →
    s.errors ++ s.held .errors ++ s.process.left .errors = child.writtenTo .errors
  killed : s.process = .killed → ∃ f, s.thread = .gone f ∧ f ≠ .succeeded
  drained : s.thread = .gone .succeeded → s.process.status? ≠ none
  waited : ∀ status, s.status? = some status → s.process.status? = some status
  ended : s.errorsEnded = true → s.AtEnd .errors
  returned : ∀ r, s.result? = some r → ∃ f status task, s.thread = .gone f ∧
    s.status? = some status ∧ s.errorsEnded = true ∧
    r = outcome c f (Child.outcome ⟨[], status⟩ c s.errors) task

theorem sound_start (c : Command) (child : Child) (k : κ) : Sound c child (.start child k) where
  running := by
    rintro rest ⟨⟩
    rfl
  exited := nofun
  errors _ := rfl
  killed := nofun
  drained := nofun
  waited := nofun
  ended := nofun
  returned := nofun

theorem left_cons (stream other : Stream) (bytes : Bytes) (rest : List (Stream × Bytes))
    (status : ExitStatus) :
    (Process.running ⟨(stream, bytes) :: rest, status⟩).left other =
      (if stream = other then bytes else []) ++ (Process.running ⟨rest, status⟩).left other := by
  by_cases h : stream = other <;> simp [Process.left, Child.writtenTo, h]

/-- While the program runs, nobody has seen its end. -/
theorem Sound.of_running {child : Child} (h : Sound c child s) (hnone : s.process.status? = none)
    (hthread : s'.thread = s.thread) (hended : s'.errorsEnded = s.errorsEnded)
    (hwaited : s'.status? = s.status?) (hresult : s'.result? = s.result?)
    (hrunning : ∀ rest, s'.process = .running rest → rest.status = child.status)
    (hexited : ∀ status, s'.process = .exited status → status = child.status)
    (herrors : s'.process ≠ .killed →
      s'.errors ++ s'.held .errors ++ s'.process.left .errors = child.writtenTo .errors)
    (hkilled : s'.process = .killed → ∃ f, s.thread = .gone f) : Sound c child s' := by
  have hopen : s.errorsEnded ≠ true := fun hended => (h.ended hended).2 hnone
  have hgoes : s.thread ≠ .gone .succeeded := fun hover => h.drained hover hnone
  refine ⟨hrunning, hexited, herrors, ?killed, ?drained, ?waited, ?ended, ?returned⟩
  case killed =>
    intro hprocess
    obtain ⟨f, hf⟩ := hkilled hprocess
    exact ⟨f, hthread.trans hf, fun hsucceeded => hgoes (hsucceeded ▸ hf)⟩
  case drained =>
    rw [hthread]
    exact fun hover => absurd hover hgoes
  case waited =>
    rw [hwaited]
    intro status hstatus
    exact absurd (h.waited status hstatus) (by rw [hnone]; exact nofun)
  case ended =>
    rw [hended]
    exact fun h => absurd h hopen
  case returned =>
    rw [hresult]
    intro r hr
    obtain ⟨f, status, task, -, -, hended, -⟩ := h.returned r hr
    exact absurd hended hopen

/-- While the consumer's thread goes on, the program is alive or has ended by itself, and the call
has not returned. -/
theorem Sound.of_open {child : Child} (h : Sound c child s) (hopen : ∀ f, s.thread ≠ .gone f)
    (hprocess : s'.process = s.process) (hheld : s'.held .errors = s.held .errors)
    (herrors : s'.errors = s.errors) (hended : s'.errorsEnded = s.errorsEnded)
    (hwaited : s'.status? = s.status?) (hresult : s'.result? = s.result?)
    (hdrained : s'.thread = .gone .succeeded → s.process.status? ≠ none) : Sound c child s' := by
  have halive : s.process ≠ .killed := by
    intro hkilled
    obtain ⟨f, hf, -⟩ := h.killed hkilled
    exact hopen f hf
  refine ⟨?running, ?exited, ?errors, ?killed, ?drained, ?waited, ?ended, ?returned⟩
  case running => exact hprocess ▸ h.running
  case exited => exact hprocess ▸ h.exited
  case errors => rw [hprocess, hheld, herrors]; exact h.errors
  case killed => rw [hprocess]; exact fun hkilled => absurd hkilled halive
  case drained => rw [hprocess]; exact hdrained
  case waited => rw [hwaited, hprocess]; exact h.waited
  case ended => rw [hended, System.AtEnd, hheld, hprocess]; exact h.ended
  case returned =>
    rw [hresult]
    intro r hr
    obtain ⟨f, status, task, hf, -⟩ := h.returned r hr
    exact absurd hf (hopen f)

/-- The reader of the errors passes on what it takes. -/
theorem Sound.collect {child : Child} (h : Sound c child s) {piece more : Bytes}
    (hheld : s.held .errors = piece ++ more) (hsome : piece ≠ []) :
    Sound c child ({ s with errors := s.errors ++ piece }.hold .errors more) := by
  have hopen : s.errorsEnded ≠ true := by
    intro hended
    rw [(h.ended hended).1] at hheld
    exact hsome (List.append_eq_nil_iff.mp hheld.symm).1
  refine ⟨h.running, h.exited, ?errors, h.killed, h.drained, h.waited, ?ended, ?returned⟩
  case errors =>
    intro halive
    have herrors := h.errors halive
    rw [hheld] at herrors
    rw [← herrors]
    simp [System.hold]
  case ended => exact fun hended => absurd hended hopen
  case returned =>
    intro r hr
    obtain ⟨f, status, task, -, -, hended, -⟩ := h.returned r hr
    exact absurd hended hopen

theorem Sound.step {child : Child} (h : Sound c child s) (hstep : Step c capacity turn party s s') :
    Sound c child s' := by
  cases hstep with
  | write stream piece more rest status hrunning hsome hunread hroom =>
    refine h.of_running (by rw [hrunning]; rfl) rfl rfl rfl rfl ?_ nofun ?_ nofun
    · rintro _ ⟨⟩
      have hstatus := h.running _ hrunning
      exact hstatus
    · intro _
      have herrors := h.errors (by rw [hrunning]; exact nofun)
      rw [hrunning, left_cons] at herrors
      rw [← herrors]
      simp only [held_hold, process_hold, left_cons]
      cases stream <;> simp [System.hold]
  | written stream rest status hrunning =>
    refine h.of_running (by rw [hrunning]; rfl) rfl rfl rfl rfl ?_ nofun ?_ nofun
    · rintro _ ⟨⟩
      have hstatus := h.running _ hrunning
      exact hstatus
    · intro _
      have herrors := h.errors (by rw [hrunning]; exact nofun)
      rw [hrunning, left_cons] at herrors
      rw [← herrors]
      simp
  | kill stream hclosed =>
    obtain ⟨bytes, rest, status, hrunning, hunread⟩ := hclosed
    refine h.of_running (by rw [hrunning]; rfl) rfl rfl rfl rfl nofun nofun
      (fun halive => absurd rfl halive) fun _ => ?_
    cases stream with
    | output => exact hunread
    | errors => exact hunread.elim
  | exit status hrunning =>
    refine h.of_running (by rw [hrunning]; rfl) rfl rfl rfl rfl nofun ?_ ?_ nofun
    · rintro _ ⟨⟩
      have hstatus := h.running _ hrunning
      exact hstatus
    · intro _
      have herrors := h.errors (by rw [hrunning]; exact nofun)
      rw [hrunning] at herrors
      exact herrors
  | read k most next piece more hreading hturn hheld hsome hmost =>
    exact h.of_open (by rw [hreading]; exact nofun) rfl rfl rfl rfl rfl rfl nofun
  | readNothing k most next hreading hturn hnothing =>
    exact h.of_open (by rw [hreading]; exact nofun) rfl rfl rfl rfl rfl rfl nofun
  | succeed k hreading hturn =>
    exact h.of_open (by rw [hreading]; exact nofun) rfl rfl rfl rfl rfl rfl nofun
  | giveUp k f hreading hturn hne =>
    refine h.of_open (by rw [hreading]; exact nofun) rfl rfl rfl rfl rfl rfl ?_
    intro hover
    exact absurd (Thread.gone.inj hover) hne
  | drain piece more hdraining hheld hsome =>
    refine h.of_open (by rw [hdraining]; exact nofun) rfl rfl rfl rfl rfl rfl ?_
    intro hover
    exact absurd (hdraining.symm.trans hover) nofun
  | drained hdraining hend =>
    exact h.of_open (by rw [hdraining]; exact nofun) rfl rfl rfl rfl rfl rfl fun _ => hend.2
  | collect piece more hheld hsome => exact h.collect hheld hsome
  | collected hopen hend =>
    refine ⟨h.running, h.exited, h.errors, h.killed, h.drained, h.waited, fun _ => hend, ?_⟩
    intro r hr
    obtain ⟨f, status, task, -, -, hended, -⟩ := h.returned r hr
    rw [hopen] at hended
    cases hended
  | wait status hwaits hended =>
    refine ⟨h.running, h.exited, h.errors, h.killed, h.drained, ?_, h.ended, ?_⟩
    · rintro _ ⟨⟩
      exact hended
    · intro r hr
      obtain ⟨f, status, task, -, hstatus, -⟩ := h.returned r hr
      rw [hwaits] at hstatus
      cases hstatus
  | finish f status task hwaits hover hended hwaited =>
    refine ⟨h.running, h.exited, h.errors, h.killed, h.drained, h.waited, h.ended, ?_⟩
    rintro _ ⟨⟩
    exact ⟨f, status, task, hover, hwaited, hended, rfl⟩

theorem Reachable.sound {child : Child} {k : κ} (h : Reachable c capacity turn child k s) :
    Sound c child s := by
  induction h with
  | start => exact sound_start c child k
  | next _ hstep ih => exact ih.step hstep

end

end NodeLogs.Streaming
