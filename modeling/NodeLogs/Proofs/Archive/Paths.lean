import NodeLogs.Proofs.Archive.Items

/-!
Paths as they are written for the items of a tree. With a dot before them and a slash behind or
without, the names of the item come back from them.
-/

namespace NodeLogs.Archive

open HostPath (IsName below)

variable {item : Item}

theorem parts_path (item : Item) :
    ∃ idle, HostPath.parts ⟨item.path⟩ =
        (if item.dotted then ["."] else []) ++ HostPath.parts ⟨below item.names⟩ ++ idle ∧
      ∀ part ∈ idle, part = "" := by
  have slash (text : String) : Text.split '/' (text ++ "/") = Text.split '/' text ++ [""] := by
    rw [show text ++ "/" = text ++ "/" ++ "" from by simp, Text.split_append_slash]
    rfl
  have dot (text : String) : Text.split '/' ("./" ++ text) = "." :: Text.split '/' text := by
    rw [show "./" ++ text = "." ++ "/" ++ text from rfl, Text.split_append_slash]
    rfl
  have hbody : HostPath.parts ⟨(if item.dotted then "./" else "") ++ below item.names⟩ =
      (if item.dotted then ["."] else []) ++ HostPath.parts ⟨below item.names⟩ := by
    cases item.dotted with
    | true => exact dot _
    | false => simp
  unfold Item.path
  rw [← hbody]
  cases item.content with
  | file mode data => exact ⟨[], by rw [String.append_empty, List.append_nil], nofun⟩
  | dir =>
    cases item.slashed with
    | true => exact ⟨[""], slash _, by simp⟩
    | false => exact ⟨[], by simp, nofun⟩

theorem parts_below (hnames : ∀ name ∈ item.names, IsName name) :
    (item.names = [] ∧ HostPath.parts ⟨below item.names⟩ = [""]) ∨
      (item.names ≠ [] ∧ HostPath.parts ⟨below item.names⟩ = item.names) := by
  by_cases hnil : item.names = []
  · rw [hnil]
    exact Or.inl ⟨rfl, rfl⟩
  · exact Or.inr ⟨hnil, HostPath.parts_slashed hnil fun name hname => (hnames name hname).noSlash⟩

/-- The names alone come back from a path that was written, without a dot before them and a slash
behind. -/
theorem relativeParts?_path (hnames : ∀ name ∈ item.names, IsName name)
    (htop : item.names = [] → item.dotted = true) :
    relativeParts? item.path = some item.names := by
  obtain ⟨idle, hparts, hidle⟩ := parts_path item
  have hbelow := parts_below hnames
  have hidleSteps : HostPath.significant idle = [] := by
    rw [HostPath.significant, List.filter_eq_nil_iff]
    intro part hpart
    simp [hidle part hpart, HostPath.Idle]
  have hdotSteps : HostPath.significant (if item.dotted then ["."] else []) = [] := by
    cases item.dotted <;> rfl
  have hsteps : HostPath.steps ⟨item.path⟩ = item.names := by
    rw [HostPath.steps, hparts, HostPath.significant_append, HostPath.significant_append,
      hidleSteps, hdotSteps, List.append_nil, List.nil_append]
    exact HostPath.steps_below hnames
  have hrooted : HostPath.isRooted ⟨item.path⟩ = false := by
    rw [Bool.eq_false_iff, ne_eq, HostPath.isRooted_iff_parts, hparts]
    rintro ⟨part, rest, hfirst⟩
    cases hdotted : item.dotted with
    | true => simp [hdotted] at hfirst
    | false =>
      rcases hbelow with ⟨hnil, -⟩ | ⟨hne, hbelow⟩
      · simp [htop hnil] at hdotted
      · obtain ⟨first, others, hsplit⟩ := List.exists_cons_of_ne_nil hne
        rw [hdotted, hbelow, hsplit] at hfirst
        simp only [Bool.false_eq_true, if_false, List.nil_append, List.cons_append,
          List.cons.injEq] at hfirst
        exact (hnames first (by simp [hsplit])).notIdle (Or.inl hfirst.1)
  have hup : ".." ∉ HostPath.parts ⟨item.path⟩ := by
    rw [hparts]
    intro hmem
    rcases List.mem_append.mp hmem with hmem | hmem
    · rcases List.mem_append.mp hmem with hmem | hmem
      · cases hdotted : item.dotted <;> simp [hdotted] at hmem
      · rcases hbelow with ⟨-, hbelow⟩ | ⟨-, hbelow⟩ <;> rw [hbelow] at hmem
        · simp at hmem
        · exact (hnames ".." hmem).notUp rfl
    · exact absurd (hidle ".." hmem) (by simp)
  simp only [relativeParts?, hrooted, hup, Bool.false_eq_true, false_or, if_false, hsteps]

theorem path_ne_empty (hnames : ∀ name ∈ item.names, IsName name)
    (htop : item.names = [] → item.dotted = true) : item.path ≠ "" := by
  intro hempty
  have hparts := relativeParts?_path hnames htop
  rw [hempty] at hparts
  have hnil : item.names = [] := by
    have hnone : relativeParts? "" = some [] := by decide
    rw [hnone] at hparts
    exact (Option.some.inj hparts).symm
  have hdotted := congrArg String.toList hempty
  rw [Item.path, htop hnil] at hdotted
  simp at hdotted

theorem nul_not_mem_path (hnames : ∀ name ∈ item.names, '\x00' ∉ name.toList) :
    '\x00' ∉ item.path.toList := by
  have hbelow : '\x00' ∉ (below item.names).toList := by
    intro hmem
    rcases HostPath.mem_below hmem with hslash | ⟨name, hname, hnul⟩
    · exact absurd hslash (by decide)
    · exact hnames name hname hnul
  unfold Item.path
  cases item.dotted <;> cases item.content <;> cases item.slashed <;> simp [hbelow]

end NodeLogs.Archive
