import NodeLogs.HostPath
import NodeLogs.Proofs.Text.Split

/-!
Paths told by their steps: the parts that lead somewhere. Joining names to a path adds them as its
last steps, and the parent of a path has all its steps but the last.
-/

namespace NodeLogs.HostPath

/-- The parts that lead somewhere. -/
def significant (parts : List String) : List String := parts.filter fun part => ¬ Idle part

def steps (p : HostPath) : List String := significant p.parts

theorem significant_append (front behind : List String) :
    significant (front ++ behind) = significant front ++ significant behind :=
  List.filter_append front behind

theorem significant_idle {part : String} (h : Idle part) (rest : List String) :
    significant (part :: rest) = significant rest :=
  List.filter_cons_of_neg (by simpa using h)

theorem significant_step {part : String} (h : ¬ Idle part) (rest : List String) :
    significant (part :: rest) = part :: significant rest :=
  List.filter_cons_of_pos (by simpa using h)

/-- A part that leads to something below. -/
structure IsName (part : String) : Prop where
  notIdle : ¬ Idle part
  notUp : part ≠ ".."
  noSlash : '/' ∉ part.toList

instance (part : String) : Decidable (IsName part) :=
  decidable_of_iff (¬ Idle part ∧ part ≠ ".." ∧ '/' ∉ part.toList)
    ⟨fun ⟨notIdle, notUp, noSlash⟩ => ⟨notIdle, notUp, noSlash⟩,
      fun h => ⟨h.notIdle, h.notUp, h.noSlash⟩⟩

/-- What names lead to, written as a path. -/
def below (names : List String) : String := "/".intercalate names

theorem parts_ne_nil (p : HostPath) : p.parts ≠ [] := Text.split_ne_nil '/' p.text

theorem noSlash_of_mem_parts {p : HostPath} {part : String} (h : part ∈ p.parts) :
    '/' ∉ part.toList :=
  Text.slash_not_mem_of_mem_split h

theorem slashed_parts (p : HostPath) : "/".intercalate p.parts = p.text :=
  Text.slashed_split p.text

theorem parts_slashed {parts : List String} (hne : parts ≠ [])
    (h : ∀ part ∈ parts, '/' ∉ part.toList) : HostPath.parts ⟨"/".intercalate parts⟩ = parts :=
  Text.split_slashed hne h

theorem isRooted_iff (p : HostPath) : p.isRooted = true ↔ ∃ cs, p.text.toList = '/' :: cs := by
  cases h : p.text.toList <;> simp [isRooted, h]

/-- A rooted path has an empty part before its first slash. -/
theorem isRooted_iff_parts (p : HostPath) :
    p.isRooted = true ↔ ∃ part rest, p.parts = "" :: part :: rest := by
  rw [isRooted_iff]
  constructor
  · rintro ⟨cs, hcs⟩
    rw [parts, Text.split, hcs, split, if_pos rfl]
    cases hs : split '/' cs with
    | nil => exact absurd hs (split_ne_nil '/' cs)
    | cons part rest => exact ⟨_, _, rfl⟩
  · rintro ⟨part, rest, hp⟩
    rw [← slashed_parts p, hp, Text.toList_slashed]
    exact ⟨_, rfl⟩

theorem isRooted_below {names : List String} (h : ∀ name ∈ names, IsName name) :
    isRooted ⟨below names⟩ = false := by
  cases names with
  | nil => rfl
  | cons name rest =>
    rw [Bool.eq_false_iff, ne_eq, isRooted_iff_parts]
    rintro ⟨part, more, hp⟩
    rw [below, parts_slashed (List.cons_ne_nil name rest) fun n hn => (h n hn).noSlash] at hp
    obtain ⟨rfl, -⟩ := List.cons.inj hp
    exact (h "" List.mem_cons_self).notIdle (Or.inl rfl)

theorem steps_below {names : List String} (h : ∀ name ∈ names, IsName name) :
    steps ⟨below names⟩ = names := by
  cases names with
  | nil => simp [steps, significant, below, parts, Text.split, split, Idle]
  | cons name rest =>
    rw [steps, below, parts_slashed (List.cons_ne_nil name rest) fun n hn => (h n hn).noSlash,
      significant, List.filter_eq_self]
    intro n hn
    simpa using (h n hn).notIdle

/-- A path that ends in a slash ends in an empty part. -/
theorem parts_of_getLast?_slash {p : HostPath} (h : p.text.toList.getLast? = some '/') :
    ∃ q : String, p.text = q ++ "/" := by
  obtain ⟨cs, hcs⟩ := List.getLast?_eq_some_iff.mp h
  refine ⟨String.ofList cs, ?_⟩
  rw [← String.toList_inj, hcs]
  simp

theorem steps_append_slash (a b : String) :
    steps ⟨a ++ "/" ++ b⟩ = steps ⟨a⟩ ++ steps ⟨b⟩ := by
  rw [steps, parts, Text.split_append_slash, significant_append]
  rfl

theorem steps_empty : steps ⟨""⟩ = [] := by
  simp [steps, significant, parts, Text.split, split, Idle]

theorem steps_join {p : HostPath} {names : List String} (h : ∀ name ∈ names, IsName name) :
    (p.join (below names)).steps = p.steps ++ names := by
  rw [join, isRooted_below h, if_neg (by simp)]
  split
  · next hp =>
    rcases hp with hp | hp
    · rw [hp, String.empty_append, steps_below h, show p.steps = [] from ?_, List.nil_append]
      rw [show p = ⟨""⟩ from by cases p; cases hp; rfl, steps_empty]
    · obtain ⟨q, hq⟩ := parts_of_getLast?_slash hp
      rw [show p = ⟨q ++ "/" ++ ""⟩ from by cases p; simpa using hq]
      simp only [String.append_empty]
      rw [steps_append_slash, steps_below h]
      rw [show (⟨q ++ "/"⟩ : HostPath) = ⟨q ++ "/" ++ ""⟩ from by simp, steps_append_slash,
        steps_empty, List.append_nil]
  · rw [steps_append_slash, steps_below h]

theorem isRooted_join {p : HostPath} {names : List String} (h : ∀ name ∈ names, IsName name) :
    (p.join (below names)).isRooted = p.isRooted := by
  rw [join, isRooted_below h, if_neg (by simp)]
  cases hp : p.text.toList with
  | nil =>
    have hempty : p.text = "" := by rwa [← String.toList_eq_nil_iff]
    rw [if_pos (Or.inl hempty), hempty, String.empty_append, isRooted_below h]
    simp [isRooted, hempty]
  | cons c cs => split <;> simp [isRooted, hp]

/-- What is joined to a path adds its parts, in place of an empty one at the end. -/
theorem parts_join {p : HostPath} (hp : p.text ≠ "") {names : List String}
    (h : ∀ name ∈ names, IsName name) :
    ∃ front idle, p.parts = front ++ idle ∧ (∀ part ∈ idle, Idle part) ∧
      (p.join (below names)).parts = front ++ HostPath.parts ⟨below names⟩ := by
  rw [join, isRooted_below h, if_neg (by simp)]
  by_cases hslash : p.text.toList.getLast? = some '/'
  · obtain ⟨q, hq⟩ := parts_of_getLast?_slash hslash
    refine ⟨Text.split '/' q, [""], ?_, by simp [Idle], ?_⟩
    · rw [parts, hq, show q ++ "/" = q ++ "/" ++ "" from by simp, Text.split_append_slash]
      rfl
    · rw [if_pos (Or.inr hslash), parts, hq, Text.split_append_slash]
      rfl
  · refine ⟨p.parts, [], (List.append_nil _).symm, nofun, ?_⟩
    rw [if_neg (by simp [hp, hslash]), parts, Text.split_append_slash]
    rfl

theorem mem_below {names : List String} {c : Char} (h : c ∈ (below names).toList) :
    c = '/' ∨ ∃ name ∈ names, c ∈ name.toList := by
  rw [below, Text.toList_slashed] at h
  refine (mem_join h).imp_right ?_
  rintro ⟨part, hpart, hc⟩
  obtain ⟨name, hname, rfl⟩ := List.mem_map.mp hpart
  exact ⟨name, hname, hc⟩

/-- The text of a joined path is that of the path before, a slash perhaps, and the names. -/
theorem text_join {p : HostPath} {names : List String} (h : ∀ name ∈ names, IsName name) :
    (p.join (below names)).text = p.text ++ below names ∨
      (p.join (below names)).text = p.text ++ "/" ++ below names := by
  rw [join, isRooted_below h, if_neg (by simp)]
  split
  · exact Or.inl rfl
  · exact Or.inr rfl

/-- Behind a path that ends in a step, names are simply added. -/
theorem parts_join_of_step {p : HostPath} {front names : List String} {last : String}
    (hparts : p.parts = front ++ [last]) (hlast : ¬ Idle last) (hne : names ≠ [])
    (hnames : ∀ n ∈ names, IsName n) :
    (p.join (below names)).parts = p.parts ++ names := by
  have hempty : p.text ≠ "" := by
    intro hempty
    rw [parts, hempty, show Text.split '/' "" = [] ++ [""] from rfl] at hparts
    exact hlast (Or.inl (by simpa using (List.append_inj' hparts rfl).2.symm))
  have hslash : p.text.toList.getLast? ≠ some '/' := by
    intro hslash
    obtain ⟨q, hq⟩ := parts_of_getLast?_slash hslash
    rw [parts, hq, show q ++ "/" = q ++ "/" ++ "" from by simp, Text.split_append_slash,
      show Text.split '/' "" = [""] from rfl] at hparts
    exact hlast (Or.inl (by simpa using (List.append_inj' hparts rfl).2.symm))
  have hbelow : HostPath.parts ⟨below names⟩ = names :=
    parts_slashed hne fun n hn => (hnames n hn).noSlash
  rw [join, isRooted_below hnames, if_neg (by simp), if_neg (by simp [hempty, hslash]), parts,
    Text.split_append_slash, ← parts.eq_def ⟨below names⟩, hbelow]
  rfl

theorem eq_of_parts {p q : HostPath} (h : p.parts = q.parts) : p = q := by
  have htext := congrArg ("/".intercalate ·) h
  simp only [slashed_parts] at htext
  cases p
  cases q
  simpa using htext

theorem below_singleton (name : String) : below [name] = name := rfl

/-! The parent -/

theorem significant_reverse (parts : List String) :
    significant parts.reverse = (significant parts).reverse :=
  List.filter_reverse

theorem trimParts_spec (parts : List String) :
    significant (trimParts parts) = significant parts ∧ trimParts parts <:+ parts ∧
      ∀ part before, trimParts parts = part :: before →
        ¬ Idle part ∨ (part = "." ∧ before = []) := by
  induction parts with
  | nil => simp [trimParts]
  | cons part before ih =>
    obtain ⟨hs, hsuffix, hhead⟩ := ih
    rw [trimParts]
    split
    · next hidle =>
      have : Idle part := by
        simp only [isIdle, Bool.or_eq_true, decide_eq_true_eq, Bool.and_eq_true] at hidle
        exact hidle.imp id fun h => h.1
      exact ⟨by simp [significant, this] at hs ⊢; exact hs,
        hsuffix.trans (List.suffix_cons part before), hhead⟩
    · next hidle =>
      refine ⟨rfl, List.suffix_refl _, ?_⟩
      intro p b hpb
      obtain ⟨rfl, rfl⟩ := List.cons.inj hpb
      by_cases hp : Idle part
      · right
        rcases hp with rfl | rfl
        · simp [isIdle] at hidle
        · exact ⟨rfl, by simpa [isIdle] using hidle⟩
      · exact Or.inl hp

/-- What is left of a path above its last step. -/
theorem significant_above {p : HostPath} {part : String} {before : List String}
    (h : trimParts p.parts.reverse = part :: before) :
    significant (trimParts before).reverse = p.steps.dropLast := by
  obtain ⟨hs, -, hhead⟩ := trimParts_spec p.parts.reverse
  rw [significant_reverse, (trimParts_spec before).1]
  have hsteps : p.steps.reverse = significant (part :: before) := by
    rw [← h, hs, significant_reverse, steps]
  rw [← List.reverse_reverse p.steps, hsteps]
  rcases hhead part before h with hpart | ⟨rfl, rfl⟩
  · simp [significant, hpart]
  · simp [significant, Idle]

theorem parent?_spec {p q : HostPath} (h : p.parent? = some q) :
    q.isRooted = p.isRooted ∧ q.steps = p.steps.dropLast := by
  unfold parent? at h
  split at h
  · cases h
  · next part before hp =>
    have habove := significant_above hp
    split at h
    · next hb =>
      rw [hb] at habove
      cases h
      rw [← habove]
      cases hr : p.isRooted with
      | true => exact ⟨rfl, by simpa [significant, steps_empty] using steps_append_slash "" ""⟩
      | false => exact ⟨rfl, steps_empty⟩
    · next hne =>
      cases h
      have hsuffix : trimParts before <:+ p.parts.reverse :=
        ((trimParts_spec before).2.1.trans (List.suffix_cons part before)).trans
          (hp ▸ (trimParts_spec p.parts.reverse).2.1)
      have hahead : (trimParts before).reverse <+: p.parts := by
        rw [← List.reverse_reverse p.parts]
        exact List.reverse_prefix.mpr hsuffix
      have hparts : HostPath.parts ⟨"/".intercalate (trimParts before).reverse⟩ =
          (trimParts before).reverse :=
        parts_slashed (by simpa using hne) fun part hpart =>
          noSlash_of_mem_parts (hahead.subset hpart)
      refine ⟨?_, by rw [steps, hparts, habove]⟩
      obtain ⟨rest, hrest⟩ := hahead
      rw [Bool.eq_iff_iff, isRooted_iff_parts, isRooted_iff_parts, hparts]
      constructor
      · rintro ⟨first, more, hf⟩
        exact ⟨first, more ++ rest, by rw [← hrest, hf]; rfl⟩
      · rintro ⟨first, more, hf⟩
        -- An empty part alone would be idle, so a second one stands after it.
        cases hr : (trimParts before).reverse with
        | nil => exact absurd (List.reverse_eq_nil_iff.mp hr) (by simpa using hne)
        | cons start others =>
          rw [hr, hf] at hrest
          obtain ⟨rfl, hmore⟩ := List.cons.inj hrest
          cases others with
          | cons second third => exact ⟨second, third, rfl⟩
          | nil =>
            have hone : trimParts before = [""] := by simpa using congrArg List.reverse hr
            rcases (trimParts_spec before).2.2 "" [] hone with hidle | ⟨hdot, -⟩
            · exact absurd (Or.inl rfl) hidle
            · simp at hdot

/-! Paths followed down -/

theorem Component.ofPart?_idle {part : String} (h : Idle part) : ofPart? part = none := if_pos h

theorem Component.ofPart?_name {part : String} (h : IsName part) :
    ofPart? part = some (.normal part) := by
  rw [ofPart?, if_neg h.notIdle, if_neg h.notUp]

theorem Component.filterMap_names {names : List String} (h : ∀ n ∈ names, IsName n) :
    names.filterMap ofPart? = names.map .normal := by
  induction names with
  | nil => rfl
  | cons n rest ih =>
    rw [List.filterMap_cons_some (ofPart?_name (h n List.mem_cons_self)), List.map_cons,
      ih fun n' hn' => h n' (List.mem_cons_of_mem n hn')]

theorem join_below {names : List String} {name : String} (hnames : ∀ n ∈ names, IsName n)
    (hname : IsName name) : (⟨below names⟩ : HostPath).join name = ⟨below (names ++ [name])⟩ := by
  have hsingle : ∀ n ∈ [name], IsName n := List.forall_mem_singleton.mpr hname
  rcases List.eq_nil_or_concat names with rfl | ⟨front, last, rfl⟩
  · have hrelative : isRooted ⟨name⟩ = false := isRooted_below hsingle
    rw [join, hrelative]
    exact congrArg HostPath.mk (String.empty_append (s := name))
  · rw [List.concat_eq_append] at hnames ⊢
    have hparts : HostPath.parts ⟨below (front ++ [last])⟩ = front ++ [last] :=
      parts_slashed (by simp) fun n hn => (hnames n hn).noSlash
    have hlast : ¬ Idle last := (hnames last (by simp)).notIdle
    refine eq_of_parts ?_
    rw [← below_singleton name, parts_join_of_step hparts hlast (by simp) hsingle, hparts]
    refine (parts_slashed (by simp) fun n hn => ?_).symm
    rcases List.mem_append.mp hn with hn | hn
    · exact (hnames n hn).noSlash
    · exact (hsingle n hn).noSlash

/-- Parts followed down from names: what is significant comes behind them, unless a part leads
upwards. -/
theorem descend_parts {names parts : List String} (hnames : ∀ n ∈ names, IsName n)
    (hparts : ∀ part ∈ parts, '/' ∉ part.toList) :
    (parts.filterMap Component.ofPart?).foldlM descend? ⟨below names⟩ =
      if ".." ∈ parts then none else some ⟨below (names ++ significant parts)⟩ := by
  induction parts generalizing names with
  | nil => rw [if_neg List.not_mem_nil, significant, List.filter_nil, List.append_nil]; rfl
  | cons part rest ih =>
    have hrest : ∀ p ∈ rest, '/' ∉ p.toList := fun p hp => hparts p (List.mem_cons_of_mem part hp)
    by_cases hidle : Idle part
    · have hne : ".." ≠ part := by rintro rfl; revert hidle; decide
      rw [List.filterMap_cons_none (Component.ofPart?_idle hidle), ih hnames hrest,
        significant_idle hidle]
      simp only [List.mem_cons, hne, false_or]
    by_cases hup : part = ".."
    · subst hup
      rw [if_pos List.mem_cons_self]
      rfl
    · have hname : IsName part := ⟨hidle, hup, hparts part List.mem_cons_self⟩
      have hdown : descend? ⟨below names⟩ (.normal part) = some ⟨below (names ++ [part])⟩ :=
        congrArg some (join_below hnames hname)
      have hmore : ∀ n ∈ names ++ [part], IsName n := by
        simp only [List.forall_mem_append, List.forall_mem_singleton]
        exact ⟨hnames, hname⟩
      rw [List.filterMap_cons_some (Component.ofPart?_name hname), List.foldlM_cons, hdown,
        Option.bind_eq_bind,
        Option.bind_some, ih hmore hrest, significant_step hidle, List.append_assoc]
      simp only [List.mem_cons, Ne.symm hup, false_or, List.singleton_append]

/-- A path is followed down just where it is neither rooted nor leads upwards, along its steps. -/
theorem descent?_eq (p : HostPath) :
    p.descent? = if p.isRooted ∨ ".." ∈ p.parts then none else some ⟨below p.steps⟩ := by
  have hdown : (p.parts.filterMap Component.ofPart?).foldlM descend? ⟨below []⟩ =
      if ".." ∈ p.parts then none else some ⟨below ([] ++ significant p.parts)⟩ :=
    descend_parts nofun fun _ => noSlash_of_mem_parts
  rw [List.nil_append, show (⟨below []⟩ : HostPath) = ⟨""⟩ from rfl] at hdown
  rw [descent?, components]
  cases hrooted : p.isRooted with
  | true => rfl
  | false =>
    simp only [Bool.false_eq_true, if_false, false_or]
    rw [steps, ← hdown]
    split <;> rfl

/-- Names written as a path are its components. -/
theorem components_below {names : List String} (h : ∀ n ∈ names, IsName n) :
    components ⟨below names⟩ = names.map .normal := by
  rw [components, isRooted_below h]
  by_cases hnone : names = []
  · subst hnone
    rfl
  have hparts : HostPath.parts ⟨below names⟩ = names :=
    parts_slashed hnone fun n hn => (h n hn).noSlash
  have hdot : names.head? ≠ some "." := fun hdot =>
    (h "." (List.mem_of_head? hdot)).notIdle (Or.inr rfl)
  rw [hparts, if_neg Bool.false_ne_true, if_neg hdot, List.nil_append, Component.filterMap_names h]

end NodeLogs.HostPath

namespace NodeLogs.Archive

open HostPath (IsName below)

/-- The steps of a name, unless it is refused. -/
def relativeParts? (name : String) : Option (List String) :=
  if HostPath.isRooted ⟨name⟩ ∨ ".." ∈ HostPath.parts ⟨name⟩ then none
  else some (HostPath.steps ⟨name⟩)

/-- A name that is rooted or leads upwards. -/
def Unsafe (name : String) : Prop :=
  (∃ rest, name.toList = '/' :: rest) ∨ ".." ∈ Text.split '/' name

theorem relativeParts?_eq_none {name : String} : relativeParts? name = none ↔ Unsafe name := by
  have hiff : (HostPath.isRooted ⟨name⟩ = true ∨ ".." ∈ Text.split '/' name) ↔ Unsafe name :=
    or_congr_left (HostPath.isRooted_iff ⟨name⟩)
  rw [relativeParts?, ← hiff]
  split
  · next h => exact ⟨fun _ => h, fun _ => rfl⟩
  · next h => exact ⟨nofun, fun hunsafe => absurd hunsafe h⟩

/-- The parts of a name that is not refused are its steps. -/
theorem relativeParts?_eq_some {name : String} {names : List String}
    (h : relativeParts? name = some names) :
    names = HostPath.steps ⟨name⟩ ∧ ∀ part ∈ names, IsName part := by
  unfold relativeParts? at h
  split at h
  · cases h
  · next hsafe =>
    cases h
    refine ⟨rfl, fun part hpart => ?_⟩
    obtain ⟨hmem, hidle⟩ := List.mem_filter.mp hpart
    refine ⟨by simpa using hidle, ?_, HostPath.noSlash_of_mem_parts hmem⟩
    rintro rfl
    exact hsafe (Or.inr hmem)

/-- A name is followed down just where it is not refused. -/
theorem descent?_eq_relativeParts? (name : String) :
    HostPath.descent? ⟨name⟩ = (relativeParts? name).map fun names => ⟨below names⟩ := by
  rw [HostPath.descent?_eq, relativeParts?]
  split <;> rfl

end NodeLogs.Archive
