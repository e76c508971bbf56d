import NodeLogs.Proofs.Runner
import NodeLogs.Staging

/-!
What copying a directory of a node asks of the runner. Once there is a staging directory, removing
it is the last thing that is asked, and what went wrong before that counts more than what goes wrong
then.
-/

namespace NodeLogs

/-- The first failure, if there is one. -/
def Outcome.first : List (Outcome Unit) → Outcome Unit
  | [] => .ok ()
  | .ok () :: rest => first rest
  | .error f :: _ => .error f

namespace Staging

open Runner (recording)

variable {σ : Type} {node nodeDir staging : String} {dest : HostPath} {h h' : Host σ}
  {calls : List (Call σ)} {result : Outcome Unit}

/-- What filling a staging directory and sending it asks, from one host to another. -/
inductive Transfer (node nodeDir staging : String) (dest : HostPath) (h : Host σ) :
    List (Call σ) → Outcome Unit → Host σ → Prop
  | unfilled (h₁ : Host σ) (f : Failure) :
      Transfer node nodeDir staging dest h
        [⟨.run (fillCommand node nodeDir staging) (.error f), h, h₁⟩] (.error f) h₁
  | refused (h₁ h₂ : Host σ) (f : Failure) :
      Transfer node nodeDir staging dest h
        [⟨.run (fillCommand node nodeDir staging) (.ok ()), h, h₁⟩,
          ⟨.stream (sendCommand node staging) (.refused f), h₁, h₂⟩] (.error f) h₂
  | unpacked (h₁ h₂ : Host σ) (output : ByteSource) (sent : Outcome Unit) (e : Unpack.Effect)
      (unpacking : e = unpack output dest h₂.tree) :
      Transfer node nodeDir staging dest h
        [⟨.run (fillCommand node nodeDir staging) (.ok ()), h, h₁⟩,
          ⟨.stream (sendCommand node staging) (.started output sent), h₁, h₂⟩]
        (.first [.context ("Untarring " ++ Text.quoted nodeDir) e.result, sent])
        { h₂.change e.changes with log := h₂.log ++ e.log }

/-- What copying a directory asks, from a host on, and how it comes out. The staging directory is
the one line that making it prints. -/
inductive Course (node nodeDir : String) (dest : HostPath) (h : Host σ) :
    List (Call σ) → Outcome Unit → Prop
  | unmade (h₁ : Host σ) (f : Failure) :
      Course node nodeDir dest h [⟨.lines (makeCommand node) (.error f), h, h₁⟩] (.error f)
  | unclear (h₁ : Host σ) (lines : List String) (several : lines.length ≠ 1) :
      Course node nodeDir dest h [⟨.lines (makeCommand node) (.ok lines), h, h₁⟩]
        (.error (.ofCause (.stagingOutput ("\n".intercalate lines))))
  | staged (staging : String) (h₁ h₂ h₃ : Host σ) {calls : List (Call σ)}
      {transferred : Outcome Unit} (removed : Outcome Unit)
      (transfer : Transfer node nodeDir staging dest
        (h₁.note (.debug ("Staging " ++ node ++ ":" ++ nodeDir ++ " in " ++ staging)))
        calls transferred h₂) :
      Course node nodeDir dest h
        (⟨.lines (makeCommand node) (.ok [staging]), h, h₁⟩ :: calls ++
          [⟨.run (removeCommand node staging) removed, h₂, h₃⟩])
        (.first [transferred, removed])

/-! Each part with its calls -/

theorem streaming_outcome (c : Command) (consumed program : Outcome Unit) :
    Streaming.outcome c (.ofOutcome consumed) program = .first [consumed, program] := by
  rcases consumed with f | ⟨⟩ <;> rcases program with f' | ⟨⟩ <;> rfl

theorem keepFirst_eq_first (result cleanup : Outcome Unit) :
    result.keepFirst cleanup = .first [result, cleanup] := by
  rcases result with f | ⟨⟩ <;> rcases cleanup with f' | ⟨⟩ <;> rfl

theorem receive_refused (r : Runner σ) {c : Command} {f : Failure} (nodeDir : String)
    (dest : HostPath) (hasked : (r.stream c).run h = (.refused f, h')) :
    Makes (receive (recording r) c nodeDir dest) (receive r c nodeDir dest) h
      [⟨.stream c (.refused f), h, h'⟩] (.error f) h' :=
  (Makes.asked hasked).bind (Makes.pure _ _)

/-- What is sent is unpacked before anything else is asked. -/
theorem receive_started (r : Runner σ) {c : Command} {output : ByteSource} {sent : Outcome Unit}
    (nodeDir : String) (dest : HostPath)
    (hasked : (r.stream c).run h = (.started output sent, h')) : let e := unpack output dest h'.tree
    Makes (receive (recording r) c nodeDir dest) (receive r c nodeDir dest) h
      [⟨.stream c (.started output sent), h, h'⟩]
      (.first [.context ("Untarring " ++ Text.quoted nodeDir) e.result, sent])
      { h'.change e.changes with log := h'.log ++ e.log } := by
  intro e
  rw [← streaming_outcome c]
  refine (Makes.asked hasked).bind_last ⟨rfl, fun earlier => ?_⟩
  rw [List.append_nil]
  rfl

theorem transfer_makes (r : Runner σ) (node nodeDir staging : String) (dest : HostPath)
    (h : Host σ) :
    ∃ calls result h',
      Makes (transfer (recording r) node nodeDir staging dest)
        (transfer r node nodeDir staging dest)
        h calls result h' ∧
      Transfer node nodeDir staging dest h calls result h' := by
  obtain ⟨⟨filled, h₁⟩, hfill⟩ : ∃ x, (r.run (fillCommand node nodeDir staging)).run h = x :=
    ⟨_, rfl⟩
  cases filled with
  | error f => exact ⟨_, _, _, (Makes.asked hfill).bind (Makes.pure _ _), .unfilled h₁ f⟩
  | ok _ =>
    obtain ⟨⟨streamed, h₂⟩, hsend⟩ : ∃ x, (r.stream (sendCommand node staging)).run h₁ = x :=
      ⟨_, rfl⟩
    cases streamed with
    | refused f =>
      have hreceive := receive_refused r nodeDir dest hsend
      exact ⟨_, _, _, (Makes.asked hfill).bind hreceive, .refused h₁ h₂ f⟩
    | started output sent =>
      have hreceive := receive_started r nodeDir dest hsend
      exact ⟨_, _, _, (Makes.asked hfill).bind hreceive, .unpacked h₁ h₂ output sent _ rfl⟩

/-- The staging directory that the lines name. -/
def named : Outcome (List String) → Outcome String
  | .error f => .error f
  | .ok [path] => .ok path
  | .ok lines => .error (.ofCause (.stagingOutput ("\n".intercalate lines)))

theorem make_makes (r : Runner σ) {node : String} {answer : Outcome (List String)}
    (hasked : (r.lines (makeCommand node)).run h = (answer, h')) :
    Makes (make (recording r) node) (make r node) h [⟨.lines (makeCommand node) answer, h, h'⟩]
      (named answer) h' := by
  refine (Makes.asked hasked).bind_last ?_
  rcases answer with f | (_ | ⟨path, _ | ⟨other, rest⟩⟩) <;> exact Makes.pure _ _

theorem copy_unmade (r : Runner σ) {f : Failure} (nodeDir : String) (dest : HostPath)
    {calls : List (Call σ)}
    (hmake : Makes (make (recording r) node) (make r node) h calls (.error f) h') :
    Makes (copy (recording r) node nodeDir dest) (copy r node nodeDir dest) h calls
      (.error f) h' := by
  exact hmake.bind_last (Makes.pure _ _)

/-- Once there is a staging directory, removing it is the last that is asked. -/
theorem copy_staged (r : Runner σ) {h₁ h₂ h₃ : Host σ} {made calls : List (Call σ)}
    {transferred removed : Outcome Unit}
    (hmake : Makes (make (recording r) node) (make r node) h made (.ok staging) h₁)
    (htransfer : Makes (transfer (recording r) node nodeDir staging dest)
      (transfer r node nodeDir staging dest)
      (h₁.note (.debug ("Staging " ++ node ++ ":" ++ nodeDir ++ " in " ++ staging)))
      calls transferred h₂)
    (hremove : (r.run (removeCommand node staging)).run h₂ = (removed, h₃)) :
    ∃ h', Makes (copy (recording r) node nodeDir dest) (copy r node nodeDir dest) h
      (made ++ (calls ++ [⟨.run (removeCommand node staging) removed, h₂, h₃⟩]))
      (.first [transferred, removed]) h' := by
  rw [← keepFirst_eq_first]
  cases hresult : transferred.keepFirst removed with
  | error f =>
    refine ⟨h₃, hmake.bind (Makes.modify_bind (fun _ => rfl) (htransfer.bind
      ((Makes.asked hremove).bind_last ?_)))⟩
    rw [hresult]
    exact Makes.pure _ _
  | ok _ =>
    refine ⟨h₃.note (.info ("Copied " ++ node ++ ":" ++ nodeDir ++ " to " ++ dest.text)),
      hmake.bind (Makes.modify_bind (fun _ => rfl) (htransfer.bind
        ((Makes.asked hremove).bind_last ?_)))⟩
    rw [hresult]
    exact Makes.modify_bind (fun _ => rfl) (Makes.pure _ _)

/-- However it goes, copying a directory makes the calls of a `Course`. -/
theorem copy_makes (r : Runner σ) (node nodeDir : String) (dest : HostPath) (h : Host σ) :
    ∃ calls result h',
      Makes (copy (recording r) node nodeDir dest) (copy r node nodeDir dest) h calls result h' ∧
      Course node nodeDir dest h calls result := by
  obtain ⟨⟨made, h₁⟩, hasked⟩ : ∃ x, (r.lines (makeCommand node)).run h = x := ⟨_, rfl⟩
  have hmake := make_makes r hasked
  rcases made with f | (_ | ⟨staging, _ | ⟨other, rest⟩⟩)
  · exact ⟨_, _, _, copy_unmade r nodeDir dest hmake, .unmade h₁ f⟩
  · exact ⟨_, _, _, copy_unmade r nodeDir dest hmake, .unclear h₁ _ (by simp)⟩
  · obtain ⟨calls, transferred, h₂, htransfer, hcourse⟩ :=
      transfer_makes r node nodeDir staging dest
      (h₁.note (.debug ("Staging " ++ node ++ ":" ++ nodeDir ++ " in " ++ staging)))
    obtain ⟨⟨removed, h₃⟩, hremove⟩ : ∃ x, (r.run (removeCommand node staging)).run h₂ = x :=
      ⟨_, rfl⟩
    obtain ⟨h', hcopy⟩ := copy_staged r hmake htransfer hremove
    exact ⟨_, _, h', hcopy, .staged staging h₁ h₂ h₃ removed hcourse⟩
  · exact ⟨_, _, _, copy_unmade r nodeDir dest hmake, .unclear h₁ _ (by simp)⟩

/-! Directories that wait to be removed -/

/-- What an exchange makes of the staging directories that wait to be removed, each told with its
node. -/
def track (waiting : List (String × String)) : Exchange → List (String × String)
  | .lines ⟨.node node, program, args⟩ (.ok [staging]) =>
    if makeCommand node = ⟨.node node, program, args⟩ then (node, staging) :: waiting else waiting
  | e => waiting.filter fun (node, staging) => e.command ≠ removeCommand node staging

/-- The staging directories that were made and not yet removed. -/
def outstanding (calls : List (Call σ)) : List (String × String) :=
  (calls.map Call.exchange).foldl track []

/-- At no point does more than one directory wait to be removed, and in the end none does. -/
structure Tidy (calls : List (Call σ)) : Prop where
  atMostOne : ∀ earlier, earlier <+: calls → (outstanding earlier).length ≤ 1
  noneLeft : outstanding calls = []

theorem outstanding_append (hcalls : outstanding calls = []) (later : List (Call σ)) :
    outstanding (calls ++ later) = outstanding later := by
  unfold outstanding at hcalls ⊢
  rw [List.map_append, List.foldl_append, hcalls]

theorem Tidy.append {later : List (Call σ)} (hcalls : Tidy calls) (hlater : Tidy later) :
    Tidy (calls ++ later) where
  atMostOne earlier hearlier := by
    rcases List.prefix_or_prefix_of_prefix hearlier (List.prefix_append calls later) with h | h
    · exact hcalls.atMostOne earlier h
    · obtain ⟨rest, rfl⟩ := h
      rw [outstanding_append hcalls.noneLeft]
      exact hlater.atMostOne rest ((List.prefix_append_right_inj calls).mp hearlier)
  noneLeft := by rw [outstanding_append hcalls.noneLeft, hlater.noneLeft]

theorem foldl_track_eq {waiting : List (String × String)}
    (hcalls : ∀ call ∈ calls, track waiting call.exchange = waiting) :
    (calls.map Call.exchange).foldl track waiting = waiting := by
  induction calls with
  | nil => rfl
  | cons call rest ih =>
    rw [List.map_cons, List.foldl_cons, hcalls call List.mem_cons_self]
    exact ih fun call hmem => hcalls call (List.mem_cons_of_mem _ hmem)

/-- Where nothing is made, nothing waits. -/
theorem tidy_of_track (hcalls : ∀ call ∈ calls, track [] call.exchange = []) : Tidy calls := by
  have hnone : ∀ earlier, earlier <+: calls → outstanding earlier = [] := fun earlier hearlier =>
    foldl_track_eq fun call hmem => hcalls call (hearlier.subset hmem)
  refine ⟨?_, hnone calls (List.prefix_refl calls)⟩
  intro earlier hearlier
  rw [hnone earlier hearlier]
  exact Nat.zero_le 1

theorem track_unclear (node : String) {lines : List String} (several : lines.length ≠ 1) :
    track [] (.lines (makeCommand node) (.ok lines)) = [] := by
  rcases lines with _ | ⟨path, _ | ⟨other, rest⟩⟩
  · rfl
  · exact absurd rfl several
  · rfl

/-- Nothing in a transfer makes or removes a staging directory. -/
theorem track_transfer (htransfer : Transfer node nodeDir staging dest h calls result h') :
    ∀ call ∈ calls, track [(node, staging)] call.exchange = [(node, staging)] := by
  have hfill (answer : Outcome Unit) :
      track [(node, staging)] (.run (fillCommand node nodeDir staging) answer) =
        [(node, staging)] := by
    simp [track, Exchange.command, fillCommand, removeCommand, Command.onNode]
  have hsend (answer : Streamed) :
      track [(node, staging)] (.stream (sendCommand node staging) answer) = [(node, staging)] := by
    simp [track, Exchange.command, sendCommand, removeCommand, Command.onNode]
  cases htransfer <;> simp [hfill, hsend]

/-- A copy leaves no staging directory behind. -/
theorem Course.tidy (hcourse : Course node nodeDir dest h calls result) : Tidy calls := by
  cases hcourse with
  | unmade h₁ f =>
    refine tidy_of_track fun call hmem => ?_
    rw [List.mem_singleton.mp hmem]
    rfl
  | unclear h₁ lines several =>
    refine tidy_of_track fun call hmem => ?_
    rw [List.mem_singleton.mp hmem]
    exact track_unclear node several
  | @staged staging h₁ h₂ h₃ calls transferred removed htransfer =>
    let made : Call σ := ⟨.lines (makeCommand node) (.ok [staging]), h, h₁⟩
    have hmake : track [] made.exchange = [(node, staging)] := if_pos rfl
    have hwaiting (earlier : List (Call σ)) (hearlier : earlier <+: calls) :
        outstanding (made :: earlier) = [(node, staging)] := by
      unfold outstanding
      rw [List.map_cons, List.foldl_cons, hmake]
      exact foldl_track_eq fun call hmem => track_transfer htransfer call (hearlier.subset hmem)
    have hremoved : outstanding (made :: calls ++
        [⟨.run (removeCommand node staging) removed, h₂, h₃⟩]) = [] := by
      have hall := hwaiting calls (List.prefix_refl calls)
      unfold outstanding at hall ⊢
      rw [List.map_append, List.foldl_append, hall]
      simp [track, Exchange.command]
    refine ⟨?_, hremoved⟩
    intro earlier hearlier
    rcases List.prefix_concat_iff.mp hearlier with rfl | hearlier
    · rw [hremoved]
      exact Nat.zero_le 1
    · cases earlier with
      | nil => exact Nat.zero_le 1
      | cons first rest =>
        obtain ⟨rfl, hrest⟩ := List.cons_prefix_cons.mp hearlier
        rw [hwaiting rest hrest]
        exact Nat.le_refl 1

end Staging

end NodeLogs
