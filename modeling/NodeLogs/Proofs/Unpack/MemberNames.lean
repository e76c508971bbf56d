import NodeLogs.Proofs.NodePath
import NodeLogs.Proofs.Unpack.Names

/-!
Member names as paths below the destination. A name is followed down component by component, and is
refused where it goes up or starts at the root. Any other name leads where its cleaned form leads,
so names that say the same but for idle parts are one path.
-/

namespace NodeLogs

namespace NodePath

open HostPath (significant below)

variable {path : String}

/-- Where nothing leads upwards, cleaning leaves out what is idle and nothing else. -/
theorem cleanSegments_of_no_up (hup : ".." ∉ Text.split '/' path) :
    cleanSegments path = significant (Text.split '/' path) := by
  have hkept := keeps_cleanSegments path
  have hkeptUp : ".." ∉ cleanSegments path := fun hmem => hup (hkept.sublist.subset hmem)
  have hleads := hkept.leads [] fun _ => rfl
  rw [advance_significant [] hkeptUp, advance_significant [] hup, List.nil_append,
    List.nil_append] at hleads
  rw [← hleads, eq_comm, significant, List.filter_eq_self]
  exact fun segment hmem => by simpa using not_idle_of_kept hmem

theorem clean_of_no_up (hrelative : isRooted path = false) (hup : ".." ∉ Text.split '/' path) :
    clean path =
      if HostPath.steps ⟨path⟩ = [] then "." else below (HostPath.steps ⟨path⟩) := by
  rw [clean_eq, hrelative, cleanSegments_of_no_up hup]
  exact String.empty_append

end NodePath

namespace Unpack

open HostPath (IsName below)
open Archive (Unsafe relativeParts?)

variable {dest path : HostPath} {m m' : Archive.Member}

/-- What can go wrong with a member whose name is not refused is told in other words. -/
theorem member_of_target?_result (t : FileTree) (h : target? dest m = some path) (name : String) :
    (member t dest m).result ≠ .error (.ofCause (.unsafeName name)) := by
  rw [member_of_target? h]
  cases m.kind with
  | regular =>
    cases m.header.size with
    | error e => simp [failed, readingFailure, Failure.ofCause, Failure.context]
    | ok size =>
      cases m.header.mode with
      | error e => simp [failed, readingFailure, Failure.ofCause, Failure.context]
      | ok mode =>
        simp only [file]
        split
        · simp [failed, Failure.ofCause, Failure.context]
        · split
          · simp [failed, Failure.ofCause, Failure.context]
          · split <;> simp [failed, Failure.ofCause]
  | directory =>
    rcases directory_cases t path with ⟨_, -, hthere⟩ | ⟨-, hmade⟩ | ⟨e, -, hunmade⟩
    · simp [hthere]
    · simp [hmade]
    · simp [hunmade, failed, Failure.ofCause, Failure.context]
  | _ => simp

/-- A member is refused for its own name, just where that is unsafe. -/
theorem member_refused_iff (t : FileTree) (dest : HostPath) (m : Archive.Member) (name : String) :
    (member t dest m).result = .error (.ofCause (.unsafeName name)) ↔
      name = m.name ∧ Unsafe m.name := by
  constructor
  · intro h
    by_cases hempty : m.name = ""
    · rw [member_of_nameless hempty] at h
      cases h
    cases hparts : relativeParts? m.name with
    | none =>
      have hunsafe := Archive.relativeParts?_eq_none.mp hparts
      rw [member_refused hunsafe] at h
      cases h
      exact ⟨rfl, hunsafe⟩
    | some names =>
      have htarget : target? dest m = some (dest.join (below names)) := by
        rw [target?, if_neg hempty, hparts]
        rfl
      exact absurd h (member_of_target?_result t htarget name)
  · rintro ⟨rfl, hunsafe⟩
    rw [member_refused hunsafe]
    rfl

/-- A name that is not refused is the path of its steps. -/
theorem relativeParts?_of_safe {name : String} (hsafe : ¬ Unsafe name) :
    relativeParts? name = some (HostPath.steps ⟨name⟩) ∧ ∀ n ∈ HostPath.steps ⟨name⟩, IsName n := by
  obtain ⟨names, hparts⟩ := Option.ne_none_iff_exists'.mp
    (mt Archive.relativeParts?_eq_none.mp hsafe)
  obtain ⟨rfl, hnames⟩ := Archive.relativeParts?_eq_some hparts
  exact ⟨hparts, hnames⟩

theorem safe_of_relativeParts? {name : String} {names : List String}
    (h : relativeParts? name = some names) : ¬ Unsafe name := by
  rw [← Archive.relativeParts?_eq_none, h]
  exact nofun

theorem target?_eq_some_iff : target? dest m = some path ↔
    m.name ≠ "" ∧ ¬ Unsafe m.name ∧ path = dest.join (below (HostPath.steps ⟨m.name⟩)) := by
  constructor
  · intro h
    have hname : m.name ≠ "" := by
      intro hempty
      rw [target?, if_pos hempty] at h
      cases h
    obtain ⟨names, hparts, -, rfl⟩ := target?_spec h
    rw [← (Archive.relativeParts?_eq_some hparts).1]
    exact ⟨hname, safe_of_relativeParts? hparts, rfl⟩
  · rintro ⟨hname, hsafe, rfl⟩
    rw [target?, if_neg hname, (relativeParts?_of_safe hsafe).1, Option.map_some]

/-- A name is cleaned to the path of its steps, or to a dot where it has none. -/
theorem clean_of_safe {name : String} (hsafe : ¬ Unsafe name) :
    NodePath.clean name =
      if HostPath.steps ⟨name⟩ = [] then "." else below (HostPath.steps ⟨name⟩) := by
  obtain ⟨hroot, hup⟩ := not_or.mp hsafe
  refine NodePath.clean_of_no_up ?_ hup
  exact Bool.eq_false_iff.mpr (mt (HostPath.isRooted_iff ⟨name⟩).mp hroot)

/-- Names are cleaned alike just where they have the same steps. -/
theorem clean_eq_iff_of_safe {name name' : String} (hsafe : ¬ Unsafe name)
    (hsafe' : ¬ Unsafe name') : NodePath.clean name = NodePath.clean name' ↔
      HostPath.steps ⟨name⟩ = HostPath.steps ⟨name'⟩ := by
  have hkept {name : String} (hsafe : ¬ Unsafe name) :
      HostPath.steps ⟨NodePath.clean name⟩ = HostPath.steps ⟨name⟩ := by
    rw [clean_of_safe hsafe]
    split
    · next hnone => rw [hnone]; rfl
    · exact HostPath.steps_below (relativeParts?_of_safe hsafe).2
  constructor
  · intro hclean
    rw [← hkept hsafe, hclean, hkept hsafe']
  · intro hsteps
    rw [clean_of_safe hsafe, clean_of_safe hsafe', hsteps]

/-- Members alike in everything that a file or a directory is made of, but for their names. -/
structure Alike (m m' : Archive.Member) : Prop where
  made : m.kind = .regular ∨ m.kind = .directory
  kind : m.kind = m'.kind
  size : m.header.size = m'.header.size
  mode : m.header.mode = m'.header.mode
  body : m.body = m'.body

theorem Alike.member_eq (h : Alike m m') (htarget : target? dest m = some path)
    (htarget' : target? dest m' = some path) (t : FileTree) :
    member t dest m = member t dest m' := by
  rw [member_of_target? htarget, member_of_target? htarget', ← h.kind, ← h.size, ← h.mode, ← h.body]
  rcases h.made with hregular | hdirectory
  · simp only [hregular]
  · simp only [hdirectory]

/-- A name is refused just where it is rooted or leads upwards. Any other is followed down along its
significant segments, which are what cleaning it leaves; where there are none the path is empty and
the name is cleaned to a dot. A member is refused by that name alone, and has a target otherwise,
unless it has no name. Two targets are the same just where the names have the same significant
segments, and so are cleaned alike; and members that differ in no more than how their target is
named come to the same. -/
theorem member_names_are_cleaned_or_refused (dest : HostPath) :
    (∀ name,
      HostPath.descent? ⟨name⟩ = (relativeParts? name).map (fun names => ⟨below names⟩) ∧
      (relativeParts? name = none ↔ Unsafe name) ∧
      ∀ names, relativeParts? name = some names →
        names = HostPath.significant (Text.split '/' name) ∧
        HostPath.components ⟨below names⟩ = names.map .normal ∧
        NodePath.clean name = if names = [] then "." else below names) ∧
    (∀ t m name, (member t dest m).result = .error (.ofCause (.unsafeName name)) ↔
      name = m.name ∧ Unsafe m.name) ∧
    (∀ m, m.name ≠ "" → ¬ Unsafe m.name → ∃ path, target? dest m = some path) ∧
    ∀ m m' path path', target? dest m = some path → target? dest m' = some path' →
      (path = path' ↔ HostPath.significant (Text.split '/' m.name) =
        HostPath.significant (Text.split '/' m'.name)) ∧
      (path = path' ↔ NodePath.clean m.name = NodePath.clean m'.name) ∧
      (path = path' → Alike m m' → ∀ t, member t dest m = member t dest m') := by
  refine ⟨fun name => ⟨Archive.descent?_eq_relativeParts? name, Archive.relativeParts?_eq_none, ?_⟩,
    fun t m name => member_refused_iff t dest m name,
    fun m hname hsafe => ⟨_, target?_eq_some_iff.mpr ⟨hname, hsafe, rfl⟩⟩, ?_⟩
  · intro names hparts
    have hsafe := safe_of_relativeParts? hparts
    obtain ⟨hsteps, hnames⟩ := Archive.relativeParts?_eq_some hparts
    have hclean := clean_of_safe hsafe
    rw [← hsteps] at hclean
    exact ⟨hsteps, HostPath.components_below hnames, hclean⟩
  · intro m m' path path' htarget htarget'
    obtain ⟨-, hsafe, hpath⟩ := target?_eq_some_iff.mp htarget
    obtain ⟨-, hsafe', hpath'⟩ := target?_eq_some_iff.mp htarget'
    have hsame : path = path' ↔ HostPath.steps ⟨m.name⟩ = HostPath.steps ⟨m'.name⟩ := by
      rw [hpath, hpath']
      exact join_below_inj (relativeParts?_of_safe hsafe).2 (relativeParts?_of_safe hsafe').2
    refine ⟨hsame, hsame.trans (clean_eq_iff_of_safe hsafe hsafe').symm, ?_⟩
    rintro rfl halike t
    exact halike.member_eq htarget htarget' t

/-- Idle parts say nothing, and more than two dots are a name like any other. -/
example : HostPath.descent? ⟨"./a//.../..a/."⟩ = some ⟨"a/.../..a"⟩ ∧
    HostPath.descent? ⟨"a/../b"⟩ = none := by decide

end Unpack

end NodeLogs
