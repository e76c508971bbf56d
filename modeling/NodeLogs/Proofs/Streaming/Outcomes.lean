import NodeLogs.Proofs.Streaming.Parties

/-!
What streaming comes to, whoever took a turn when: nobody waits for ever, a consumer that is content
is never the end of the program, and one that is not has the last word. A consumer that reads as
much at a time as it asked for makes the same of every order of turns, and that is what streaming
computes.
-/

namespace NodeLogs.Streaming

section

variable {κ : Type} {c : Command} {capacity : Stream → Nat} {turn : κ → Turn κ} {child : Child}
  {k : κ} {s s' : System κ} {party : Party}

theorem Sound.not_meetsClosed (h : Sound c child s) (hsucceeded : s.thread.Succeeded) :
    s.process ≠ .killed ∧ ¬ s.MeetsClosed .output := by
  constructor
  · intro hkilled
    obtain ⟨f, hf, hne⟩ := h.killed hkilled
    rw [hf] at hsucceeded
    exact hne hsucceeded
  · rintro ⟨bytes, rest, status, hrunning, f, hf⟩
    rw [hf] at hsucceeded
    obtain rfl : f = .succeeded := hsucceeded
    exact h.drained hf (by rw [hrunning]; rfl)

/-- When the call returns after a success, it has the program's own status and all of its errors. -/
theorem Sound.outcome (h : Sound c child s) (hsucceeded : s.thread.Succeeded) {r : Outcome Unit}
    (hr : s.result? = some r) : r = child.outcome c (child.writtenTo .errors) := by
  obtain ⟨f, status, task, hf, hwaited, hended, rfl⟩ := h.returned r hr
  obtain ⟨halive, -⟩ := h.not_meetsClosed hsucceeded
  rw [hf] at hsucceeded
  obtain rfl : f = .succeeded := hsucceeded
  have hprocess : s.process = .exited child.status := by
    cases hprocess : s.process with
    | running rest => exact absurd (by rw [hprocess]; rfl) (h.drained hf)
    | exited status => rw [h.exited status hprocess]
    | killed => exact absurd hprocess halive
  have hstatus : status = child.status := by
    have hsome := h.waited status hwaited
    rw [hprocess] at hsome
    exact (Option.some.inj hsome).symm
  have herrors : s.errors = child.writtenTo .errors := by
    have hall := h.errors halive
    rw [(h.ended hended).1, hprocess] at hall
    simpa [Process.left] using hall
  rw [hstatus, herrors]
  rfl

end

/-! Consumers that get as much at a time as they ask for -/

/-- A consumer with what it already has of what it asked for. -/
structure Gathering where
  consumer : Consumer
  got : Bytes

namespace Gathering

/-- A piece is kept; after nothing the consumer goes on with what there is. -/
def take (most : Nat) (next : Bytes → Consumer) (got piece : Bytes) : Gathering :=
  if piece = [] then ⟨next got, []⟩ else ⟨.read most next, got ++ piece⟩

/-- Reads on until it has all that was asked for, or there is no more. -/
def turn : Gathering → Turn Gathering
  | ⟨.finish f, _⟩ => .finish f
  | ⟨.read most next, got⟩ => .read (most - got.length) (take most next got)

theorem take_piece (most : Nat) (next : Bytes → Consumer) (got : Bytes) {piece : Bytes}
    (h : piece ≠ []) : take most next got piece = ⟨.read most next, got ++ piece⟩ :=
  if_neg h

theorem take_nothing (most : Nat) (next : Bytes → Consumer) (got : Bytes) :
    take most next got [] = ⟨next got, []⟩ :=
  if_pos rfl

def Fits : Gathering → Prop
  | ⟨.finish _, _⟩ => True
  | ⟨.read most _, got⟩ => got.length ≤ most

/-- How the consumer ends if this is all that it will still read. -/
def finish (g : Gathering) (more : Bytes) : Finish := g.consumer.run (g.got ++ more)

variable {most : Nat} {next : Bytes → Gathering} {g : Gathering} {piece more : Bytes}

theorem finish_of_turn {f : Finish} (h : g.turn = .finish f) : g.finish more = f := by
  obtain ⟨consumer, got⟩ := g
  cases consumer with
  | finish f' => exact Turn.finish.inj h
  | read most next => cases h

theorem fits_start (consumer : Consumer) : Fits ⟨consumer, []⟩ := by
  cases consumer with
  | finish f => trivial
  | read most next => exact Nat.zero_le most

/-- A piece that was read is kept. -/
theorem next_of_piece (more : Bytes) (hfits : g.Fits) (h : g.turn = .read most next)
    (hsome : piece ≠ []) (hmost : piece.length ≤ most) :
    (next piece).Fits ∧ (next piece).finish more = g.finish (piece ++ more) := by
  obtain ⟨consumer, got⟩ := g
  cases consumer with
  | finish f => cases h
  | read all next' =>
    obtain ⟨rfl, rfl⟩ := Turn.read.inj h
    simp only [take_piece _ _ _ hsome, finish, List.append_assoc, and_true]
    simp only [Fits, List.length_append] at hfits ⊢
    omega

/-- When nothing more is read, the consumer goes on with what there is. -/
theorem next_of_nothing (hfits : g.Fits) (h : g.turn = .read most next)
    (hnothing : most = 0 ∨ more = []) :
    (next []).Fits ∧ (next []).finish more = g.finish more := by
  obtain ⟨consumer, got⟩ := g
  cases consumer with
  | finish f => cases h
  | read all next' =>
    obtain ⟨rfl, rfl⟩ := Turn.read.inj h
    simp only [take_nothing, finish]
    refine ⟨fits_start _, ?_⟩
    rw [Consumer.run, List.nil_append]
    simp only [Fits] at hfits
    rcases hnothing with hfull | rfl
    · have hlength : got.length = all := by omega
      rw [← hlength, List.take_left, List.drop_left]
    · rw [List.append_nil, List.take_of_length_le hfits, List.drop_of_length_le hfits]

end Gathering

section

variable {c : Command} {capacity : Stream → Nat} {child : Child} {consumer : Consumer}
  {s s' : System Gathering} {party : Party}

/-- The consumer is on the way to the end that it comes to with the whole output. -/
structure OnTheWay (child : Child) (consumer : Consumer) (s : System Gathering) : Prop where
  reading : ∀ g, s.thread = .reading g → g.Fits ∧
    g.finish (s.held .output ++ s.process.left .output) = consumer.run (child.writtenTo .output)
  draining : s.thread = .draining → consumer.run (child.writtenTo .output) = .succeeded
  gone : ∀ f, s.thread = .gone f → consumer.run (child.writtenTo .output) = f

theorem onTheWay_start (child : Child) (consumer : Consumer) :
    OnTheWay child consumer (.start child ⟨consumer, []⟩) where
  reading := by
    rintro g ⟨⟩
    exact ⟨Gathering.fits_start consumer, rfl⟩
  draining := nofun
  gone := nofun

/-- What the program does leaves the consumer on its way, as long as somebody reads. -/
theorem OnTheWay.of_program (h : OnTheWay child consumer s) (hthread : s'.thread = s.thread)
    (hleft : (∀ f, s.thread ≠ .gone f) → s'.held .output ++ s'.process.left .output =
      s.held .output ++ s.process.left .output) : OnTheWay child consumer s' := by
  refine ⟨?_, by rw [hthread]; exact h.draining, by rw [hthread]; exact h.gone⟩
  intro g hg
  rw [hthread] at hg
  rw [hleft (by rw [hg]; exact nofun)]
  exact h.reading g hg

theorem OnTheWay.step (h : OnTheWay child consumer s)
    (hstep : Step c capacity Gathering.turn party s s') : OnTheWay child consumer s' := by
  cases hstep with
  | write stream piece more rest status hrunning hsome hunread hroom =>
    refine h.of_program rfl fun _ => ?_
    rw [hrunning]
    simp only [held_hold, process_hold, left_cons]
    cases stream <;> simp
  | written stream rest status hrunning =>
    refine h.of_program rfl fun _ => ?_
    rw [hrunning, left_cons]
    simp
  | kill stream hclosed =>
    refine h.of_program rfl fun hopen => ?_
    obtain ⟨bytes, rest, status, -, hunread⟩ := hclosed
    cases stream with
    | output => exact absurd hunread.choose_spec (hopen _)
    | errors => exact hunread.elim
  | exit status hrunning =>
    refine h.of_program rfl fun _ => ?_
    rw [hrunning]
    rfl
  | read g most next piece more hreading hturn hheld hsome hmost =>
    refine ⟨?_, nofun, nofun⟩
    rintro _ ⟨⟩
    obtain ⟨hfits, hfinish⟩ := h.reading g hreading
    obtain ⟨hfits, hnext⟩ :=
      Gathering.next_of_piece (more ++ s.process.left .output) hfits hturn hsome hmost
    refine ⟨hfits, ?_⟩
    rw [← hfinish, hheld, List.append_assoc, ← hnext]
    rfl
  | readNothing g most next hreading hturn hnothing =>
    refine ⟨?_, nofun, nofun⟩
    rintro _ ⟨⟩
    obtain ⟨hfits, hfinish⟩ := h.reading g hreading
    have hend : most = 0 ∨ s.held .output ++ s.process.left .output = [] := by
      rcases hnothing with hzero | ⟨hheld, hended⟩
      · exact Or.inl hzero
      · right
        rw [hheld]
        cases hprocess : s.process with
        | running rest => exact absurd (by rw [hprocess]; rfl) hended
        | exited status => rfl
        | killed => rfl
    obtain ⟨hfits, hnext⟩ := Gathering.next_of_nothing hfits hturn hend
    exact ⟨hfits, hnext.trans hfinish⟩
  | succeed g hreading hturn =>
    refine ⟨nofun, fun _ => ?_, nofun⟩
    rw [← (h.reading g hreading).2]
    exact Gathering.finish_of_turn hturn
  | giveUp g f hreading hturn hne =>
    refine ⟨nofun, nofun, ?_⟩
    rintro _ ⟨⟩
    rw [← (h.reading g hreading).2]
    exact Gathering.finish_of_turn hturn
  | drain piece more hdraining hheld hsome =>
    refine ⟨?_, h.draining, h.gone⟩
    intro g hg
    exact absurd (hdraining.symm.trans hg) nofun
  | drained hdraining hend =>
    refine ⟨nofun, nofun, ?_⟩
    rintro _ ⟨⟩
    exact h.draining hdraining
  | collect | collected | wait | finish => exact h.of_program rfl fun _ => rfl

theorem Reachable.onTheWay
    (h : Reachable c capacity Gathering.turn child ⟨consumer, []⟩ s) :
    OnTheWay child consumer s := by
  induction h with
  | start => exact onTheWay_start child consumer
  | next _ hstep ih => exact ih.step hstep

theorem result_eq_run (h : Reachable c capacity Gathering.turn child ⟨consumer, []⟩ s)
    {r : Outcome Unit} (hr : s.result? = some r) : ∃ task, r = run c child consumer task := by
  obtain ⟨f, status, task, hf, -, -, hresult⟩ := h.sound.returned r hr
  have hfinish := h.onTheWay.gone f hf
  refine ⟨task, ?_⟩
  rw [run, hfinish]
  cases f with
  | succeeded => exact h.sound.outcome (by rw [hf]; rfl) hr
  | failed failure => exact hresult
  | brokeDown payload => exact hresult

/-! Every run ends -/

/-- A byte that is still to be written must be read as well. -/
def Process.weight : Process → Nat
  | running rest => 2 * rest.written.length + rest.writes.length + 1
  | _ => 0

/-- What is still to be done by others than the consumer. -/
def System.weight {κ : Type} (s : System κ) : Nat :=
  s.process.weight + (s.held .output).length + (s.held .errors).length +
    (if s.errorsEnded then 0 else 1) + (if s.status?.isSome then 0 else 1) +
    if s.result?.isSome then 0 else 1

/-- Whoever reads a piece from a pipe leaves less to be done. -/
theorem weight_hold {κ : Type} {s t : System κ} {stream : Stream} {piece more : Bytes}
    (hheld : s.held stream = piece ++ more) (hsome : piece ≠ []) (hprocess : t.process = s.process)
    (hother : t.held = s.held) (hended : t.errorsEnded = s.errorsEnded)
    (hwaited : t.status? = s.status?) (hresult : t.result? = s.result?) :
    (t.hold stream more).weight < s.weight := by
  have hlength := List.length_pos_iff.mpr hsome
  cases stream with
  | output | errors =>
    simp only [System.weight, process_hold, held_hold, hheld, hother, hprocess, List.length_append,
      if_true, reduceCtorEq, if_false]
    simp only [System.hold, hended, hwaited, hresult]
    omega

/-- One state comes after another. -/
def After (c : Command) (capacity : Stream → Nat) (s' s : System Gathering) : Prop :=
  ∃ party, Step c capacity Gathering.turn party s s'

/-- A turn brings the consumer on its way, or leaves less to be done. -/
theorem Step.lighter {κ : Type} {turn : κ → Turn κ} {s s' : System κ}
    (h : Step c capacity turn party s s') :
    (s'.thread = s.thread ∧ s'.weight < s.weight) ∨
      (∃ k most next, s.thread = .reading k ∧ turn k = .read most next ∧
        ((∃ piece, piece ≠ [] ∧ s'.thread = .reading (next piece) ∧ s'.weight < s.weight) ∨
          s'.thread = .reading (next []))) ∨
      ((∃ k, s.thread = .reading k) ∧ s'.thread = .draining) ∨
      ((∀ f, s.thread ≠ .gone f) ∧ ∃ f, s'.thread = .gone f) := by
  cases h with
  | write stream piece more rest status hrunning hsome hunread hroom =>
    refine Or.inl ⟨rfl, ?_⟩
    have hlength := List.length_pos_iff.mpr hsome
    have hless : (Process.running ⟨(stream, more) :: rest, status⟩).weight + piece.length <
        (Process.running ⟨(stream, piece ++ more) :: rest, status⟩).weight := by
      simp only [Process.weight, Child.written, List.flatMap_cons, List.length_append,
        List.length_cons]
      omega
    rw [← hrunning] at hless
    cases stream with
    | output | errors =>
      simp only [System.weight, process_hold, held_hold, List.length_append, if_true, reduceCtorEq,
        if_false]
      simp only [System.hold]
      omega
  | written stream rest status hrunning =>
    refine Or.inl ⟨rfl, ?_⟩
    simp only [System.weight, hrunning, Process.weight, Child.written, List.flatMap_cons,
      List.nil_append, List.length_cons]
    omega
  | kill stream hclosed =>
    refine Or.inl ⟨rfl, ?_⟩
    obtain ⟨bytes, rest, status, hrunning, -⟩ := hclosed
    simp only [System.weight, hrunning, Process.weight]
    omega
  | exit status hrunning =>
    refine Or.inl ⟨rfl, ?_⟩
    simp only [System.weight, hrunning, Process.weight]
    omega
  | read k most next piece more hreading hturn hheld hsome hmost =>
    refine Or.inr (Or.inl ⟨k, most, next, hreading, hturn, Or.inl ⟨piece, hsome, rfl, ?_⟩⟩)
    exact weight_hold hheld hsome rfl rfl rfl rfl rfl
  | readNothing k most next hreading hturn hnothing =>
    exact Or.inr (Or.inl ⟨k, most, next, hreading, hturn, Or.inr rfl⟩)
  | succeed k hreading hturn => exact Or.inr (Or.inr (Or.inl ⟨⟨k, hreading⟩, rfl⟩))
  | giveUp k f hreading hturn hne =>
    exact Or.inr (Or.inr (Or.inr ⟨by rw [hreading]; rintro _ ⟨⟩, f, rfl⟩))
  | drain piece more hdraining hheld hsome =>
    exact Or.inl ⟨rfl, weight_hold hheld hsome rfl rfl rfl rfl rfl⟩
  | drained hdraining hend =>
    exact Or.inr (Or.inr (Or.inr ⟨by rw [hdraining]; rintro _ ⟨⟩, .succeeded, rfl⟩))
  | collect piece more hheld hsome =>
    exact Or.inl ⟨rfl, weight_hold hheld hsome rfl rfl rfl rfl rfl⟩
  | collected hopen hend =>
    refine Or.inl ⟨rfl, ?_⟩
    simp only [System.weight, hopen, if_true, Bool.false_eq_true, if_false]
    omega
  | wait status hwaits hended =>
    refine Or.inl ⟨rfl, ?_⟩
    simp only [System.weight, hwaits, Option.isSome, if_true, Bool.false_eq_true, if_false]
    omega
  | finish f status task hwaits hover hended hwaited =>
    refine Or.inl ⟨rfl, ?_⟩
    simp only [System.weight, hwaits, Option.isSome, if_true, Bool.false_eq_true, if_false]
    omega

theorem acc_of_kept {P : System Gathering → Prop}
    (h : ∀ s s', P s → After c capacity s' s →
      (P s' ∧ s'.weight < s.weight) ∨ Acc (After c capacity) s')
    (s : System Gathering) (hs : P s) : Acc (After c capacity) s := by
  induction hweight : s.weight using Nat.strongRecOn generalizing s with
  | ind n ih =>
    constructor
    intro s' hafter
    rcases h s s' hs hafter with ⟨hs', hless⟩ | hacc
    · exact ih s'.weight (hweight ▸ hless) s' hs' rfl
    · exact hacc

theorem acc_gone (s : System Gathering) (h : ∃ f, s.thread = .gone f) :
    Acc (After c capacity) s := by
  refine acc_of_kept (P := fun s => ∃ f, s.thread = .gone f) ?_ s h
  rintro s s' ⟨f, hf⟩ ⟨party, hstep⟩
  rcases hstep.lighter with ⟨hthread, hless⟩ | ⟨k, -, -, hk, -⟩ | ⟨⟨k, hk⟩, -⟩ | ⟨hopen, -⟩
  · exact Or.inl ⟨⟨f, hthread.trans hf⟩, hless⟩
  · exact absurd (hf.symm.trans hk) nofun
  · exact absurd (hf.symm.trans hk) nofun
  · exact absurd hf (hopen f)

theorem acc_draining (s : System Gathering) (h : s.thread = .draining) :
    Acc (After c capacity) s := by
  refine acc_of_kept (P := fun s => s.thread = .draining) ?_ s h
  rintro s s' hs ⟨party, hstep⟩
  rcases hstep.lighter with ⟨hthread, hless⟩ | ⟨k, -, -, hk, -⟩ | ⟨⟨k, hk⟩, -⟩ | ⟨-, hover⟩
  · exact Or.inl ⟨hthread.trans hs, hless⟩
  · exact absurd (hs.symm.trans hk) nofun
  · exact absurd (hs.symm.trans hk) nofun
  · exact Or.inr (acc_gone s' hover)

theorem acc_reading (consumer : Consumer) (s : System Gathering)
    (h : ∃ got, s.thread = .reading ⟨consumer, got⟩) : Acc (After c capacity) s := by
  -- The outer induction is on the reads that the consumer still asks for, the inner one on the
  -- weight.
  induction consumer generalizing s with
  | finish f =>
    refine acc_of_kept (P := fun s => ∃ got, s.thread = .reading ⟨.finish f, got⟩) ?_ s h
    rintro s s' ⟨got, hs⟩ ⟨party, hstep⟩
    rcases hstep.lighter with ⟨hthread, hless⟩ | ⟨k, most, next, hk, hturn, -⟩ | ⟨-, hthread⟩ |
      ⟨-, hover⟩
    · exact Or.inl ⟨⟨got, hthread.trans hs⟩, hless⟩
    · obtain rfl := Thread.reading.inj (hs.symm.trans hk)
      cases hturn
    · exact Or.inr (acc_draining s' hthread)
    · exact Or.inr (acc_gone s' hover)
  | read all next ih =>
    refine acc_of_kept (P := fun s => ∃ got, s.thread = .reading ⟨.read all next, got⟩) ?_ s h
    rintro s s' ⟨got, hs⟩ ⟨party, hstep⟩
    rcases hstep.lighter with ⟨hthread, hless⟩ | ⟨k, most, next', hk, hturn, hread⟩ | ⟨-, hthread⟩ |
      ⟨-, hover⟩
    · exact Or.inl ⟨⟨got, hthread.trans hs⟩, hless⟩
    · obtain rfl := Thread.reading.inj (hs.symm.trans hk)
      obtain ⟨rfl, rfl⟩ := Turn.read.inj hturn
      rcases hread with ⟨piece, hsome, hthread, hless⟩ | hthread
      · rw [Gathering.take_piece _ _ _ hsome] at hthread
        exact Or.inl ⟨⟨got ++ piece, hthread⟩, hless⟩
      · rw [Gathering.take_nothing] at hthread
        exact Or.inr (ih got s' ⟨[], hthread⟩)
    · exact Or.inr (acc_draining s' hthread)
    · exact Or.inr (acc_gone s' hover)

/-- However the parties take turns, they come to an end, and then the call has returned what
streaming computes, whatever number the consumer has as a task. -/
theorem streaming_in_any_order (hcapacity : ∀ stream, 0 < capacity stream) (child : Child)
    (consumer : Consumer) :
    WellFounded (After c capacity) ∧
      ∀ s, Reachable c capacity Gathering.turn child ⟨consumer, []⟩ s →
        (∀ s', ¬ After c capacity s' s) → ∃ task, s.result? = some (run c child consumer task) := by
  constructor
  · constructor
    intro s
    cases hthread : s.thread with
    | reading g => exact acc_reading g.consumer s ⟨g.got, hthread⟩
    | draining => exact acc_draining s hthread
    | gone f => exact acc_gone s ⟨f, hthread⟩
  · intro s hreach hstuck
    cases hr : s.result? with
    | some r =>
      obtain ⟨task, rfl⟩ := result_eq_run hreach hr
      exact ⟨task, rfl⟩
    | none =>
      obtain ⟨party, s', hstep⟩ := exists_step hcapacity hr
      exact absurd ⟨party, hstep⟩ (hstuck s')

theorem exists_returned (hcapacity : ∀ stream, 0 < capacity stream) (child : Child)
    (consumer : Consumer) :
    ∃ s task, Reachable c capacity Gathering.turn child ⟨consumer, []⟩ s ∧
      s.result? = some (run c child consumer task) := by
  have hall (s : System Gathering) (hacc : Acc (After c capacity) s)
      (hreach : Reachable c capacity Gathering.turn child ⟨consumer, []⟩ s) :
      ∃ s task, Reachable c capacity Gathering.turn child ⟨consumer, []⟩ s ∧
        s.result? = some (run c child consumer task) := by
    induction hacc with
    | intro s _ ih =>
      cases hr : s.result? with
      | some r =>
        obtain ⟨task, rfl⟩ := result_eq_run hreach hr
        exact ⟨s, task, hreach, hr⟩
      | none =>
        obtain ⟨party, s', hstep⟩ := exists_step hcapacity hr
        exact ih s' ⟨party, hstep⟩ (.next hreach hstep)
  exact hall _ ((streaming_in_any_order hcapacity child consumer).1.apply _) .start

end

section

variable {κ : Type} {c : Command} {capacity : Stream → Nat} {turn : κ → Turn κ} {child : Child}
  {k : κ} {s s' : System κ} {party : Party}

/-- Streaming never comes to a standstill, over pipes of any size and with any consumer: until the
call returns, somebody can take a turn. If the consumer succeeds, the program never writes to a pipe
that nobody reads, and the call tells how the program ended; if not, it tells what was wrong with
the consumer, with the number of its task where it broke down. -/
theorem streaming_goes_on_and_honours_consumer (hcapacity : ∀ stream, 0 < capacity stream)
    (h : Reachable c capacity turn child k s) :
    (s.result? = none → ∃ party s', Step c capacity turn party s s') ∧
      (s.thread.Succeeded → s.process ≠ .killed ∧ ¬ s.MeetsClosed .output) ∧
      ∀ r, s.result? = some r → ∃ f, s.thread = .gone f ∧
        match f with
        | .succeeded =>
          (child.status.isSuccess = true → r = .ok ()) ∧
            (child.status.isSuccess = false → r = .error (.ofCause (.commandFailed c.display
              child.status (Utf8.decodeLossy (child.writtenTo .errors)))))
        | .failed failure => r = .error failure
        | .brokeDown payload => ∃ task,
          r = .error ((Failure.ofMessage (breakdown task payload)).context (brokenConsumer c)) := by
  have hsound := h.sound
  refine ⟨exists_step hcapacity, hsound.not_meetsClosed, ?_⟩
  intro r hr
  obtain ⟨f, status, task, hf, -, -, hresult⟩ := hsound.returned r hr
  refine ⟨f, hf, ?_⟩
  cases f with
  | failed failure => exact hresult
  | brokeDown payload => exact ⟨task, hresult⟩
  | succeeded =>
    have houtcome := hsound.outcome (by rw [hf]; rfl) hr
    rw [houtcome, Child.outcome]
    constructor
    · intro hsuccess
      rw [if_pos hsuccess]
    · intro hfailure
      rw [if_neg (by rw [hfailure]; exact Bool.false_ne_true)]

end

/-- A program that writes on after its consumer is content, over pipes that hold a single byte. -/
def chatty : Child :=
  ⟨[(.output, Utf8.encode "data"), (.errors, Utf8.encode "no\n"), (.output, Utf8.encode "more")],
    .exited 3⟩

def contentAfterOne : Consumer := .read 1 fun _ => .finish .succeeded

theorem chatty_is_heard_out :
    ∃ s, Reachable (.onHost "sh" []) (fun _ => 1) Gathering.turn chatty ⟨contentAfterOne, []⟩ s ∧
      s.process ≠ .killed ∧
      s.result? = some (.error (.ofCause (.commandFailed "sh" (.exited 3) "no\n"))) := by
  have hcapacity : ∀ stream : Stream, 0 < (fun _ => 1 : Stream → Nat) stream := fun _ => Nat.one_pos
  obtain ⟨s, task, hreach, hresult⟩ :=
    exists_returned (c := .onHost "sh" []) hcapacity chatty contentAfterOne
  obtain ⟨-, hopen, hreturned⟩ := streaming_goes_on_and_honours_consumer hcapacity hreach
  obtain ⟨f, hf, houtcome⟩ := hreturned _ hresult
  obtain rfl : Finish.succeeded = f := hreach.onTheWay.gone f hf
  have hdisplay : (Command.onHost "sh" []).display = "sh" := by decide +kernel
  have herrors : Utf8.decodeLossy (chatty.writtenTo .errors) = "no\n" := by decide +kernel
  refine ⟨s, hreach, (hopen (by rw [hf]; rfl)).1, ?_⟩
  rw [hresult, houtcome.2 rfl, hdisplay, herrors]
  rfl

end NodeLogs.Streaming
