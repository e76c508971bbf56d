import NodeLogs.FileTree.Walk
import NodeLogs.Proofs.FileTree.Changes
import NodeLogs.Proofs.HostPath

/-!
Where a path leads, whether or not anything is there. Only symbolic links decide that: what is
missing is taken for a directory. Changes that touch no link therefore leave every path leading
where it led, and whatever a walk finds, it finds at that place.
-/

namespace NodeLogs.FileTree

open HostPath (Idle IsName significant steps)

/-- Follows parts from a place, and tells how many links may still be followed. -/
def lead (link? : Location → Option String) (links : Nat) (loc : Location) :
    List String → Option (Nat × Location)
  | [] => some (links, loc)
  | part :: rest =>
    if Idle part then lead link? links loc rest
    else if part = ".." then lead link? links loc.dropLast rest
    else
      match link? (loc ++ [part]) with
      | none => lead link? links (loc ++ [part]) rest
      | some target =>
        if target = "" then none
        else
          match links with
          | 0 => none
          | links + 1 =>
            lead link? links (if HostPath.isRooted ⟨target⟩ then [] else loc)
              (HostPath.parts ⟨target⟩ ++ rest)
termination_by parts => (links, parts.length)

variable {link? : Location → Option String}

theorem lead_idle (links : Nat) (loc : Location) {part : String} (h : Idle part)
    (rest : List String) : lead link? links loc (part :: rest) = lead link? links loc rest := by
  rw [lead, if_pos h]

theorem lead_up (links : Nat) (loc : Location) (rest : List String) :
    lead link? links loc (".." :: rest) = lead link? links loc.dropLast rest := by
  rw [lead, if_neg (by simp [Idle]), if_pos rfl]

theorem lead_down (links : Nat) {loc : Location} {part : String} (hidle : ¬ Idle part)
    (hup : part ≠ "..") (hlink : link? (loc ++ [part]) = none) (rest : List String) :
    lead link? links loc (part :: rest) = lead link? links (loc ++ [part]) rest := by
  rw [lead, if_neg hidle, if_neg hup, hlink]

theorem lead_link (links : Nat) {loc : Location} {part target : String} (hidle : ¬ Idle part)
    (hup : part ≠ "..") (hlink : link? (loc ++ [part]) = some target) (hne : target ≠ "")
    (rest : List String) :
    lead link? (links + 1) loc (part :: rest) =
      lead link? links (if HostPath.isRooted ⟨target⟩ then [] else loc)
        (HostPath.parts ⟨target⟩ ++ rest) := by
  rw [lead, if_neg hidle, if_neg hup, hlink]
  simp only [if_neg hne]

theorem lead_append (links : Nat) (loc : Location) (ps qs : List String) :
    lead link? links loc (ps ++ qs) =
      (lead link? links loc ps).bind fun (links, loc) => lead link? links loc qs := by
  fun_induction lead link? links loc ps with
  | case1 => rfl
  | case2 links loc part rest h ih => rw [List.cons_append, lead_idle _ _ h, ih]
  | case3 links loc rest h ih => rw [List.cons_append, lead_up, ih]
  | case4 links loc part rest h hup hlink ih =>
    rw [List.cons_append, lead_down _ h hup hlink, ih]
  | case5 links loc part rest h hup hlink =>
    rw [List.cons_append, lead, if_neg h, if_neg hup]
    simp [hlink]
  | case6 loc part rest h hup target hlink hne =>
    rw [List.cons_append, lead, if_neg h, if_neg hup]
    simp [hlink, hne]
  | case7 loc part rest h hup target hlink hne links ih =>
    rw [List.cons_append, lead_link _ h hup hlink hne]
    simpa only [List.append_assoc, dite_eq_ite] using ih

theorem lead_of_all_idle (links : Nat) (loc : Location) {parts : List String}
    (h : ∀ part ∈ parts, Idle part) : lead link? links loc parts = some (links, loc) := by
  induction parts with
  | nil => rw [lead]
  | cons part rest ih =>
    rw [lead_idle _ _ (h part List.mem_cons_self)]
    exact ih fun p hp => h p (List.mem_cons_of_mem part hp)

theorem lead_significant (links : Nat) (loc : Location) (parts : List String) :
    lead link? links loc (significant parts) = lead link? links loc parts := by
  induction parts generalizing links loc with
  | nil => rfl
  | cons part rest ih =>
    by_cases h : Idle part
    · rw [lead_idle _ _ h, ← ih, significant, significant,
        List.filter_cons_of_neg (by simpa using h)]
    · have hcons : significant (part :: rest) = [part] ++ significant rest :=
        List.filter_cons_of_pos (by simpa using h)
      rw [hcons, lead_append, show part :: rest = [part] ++ rest from rfl, lead_append]
      simp only [ih]

/-- Names lead straight down where nothing below is a link. -/
theorem lead_names (links : Nat) (loc : Location) {names : List String}
    (h : ∀ name ∈ names, IsName name) (hlink : ∀ l, loc <+: l → link? l = none) :
    lead link? links loc names = some (links, loc ++ names) := by
  induction names generalizing loc with
  | nil => rw [lead, List.append_nil]
  | cons name rest ih =>
    have hname := h name List.mem_cons_self
    have hrest : ∀ n ∈ rest, IsName n := fun n hn => h n (List.mem_cons_of_mem name hn)
    have hbelow : ∀ l, loc ++ [name] <+: l → link? l = none := fun l hl =>
      hlink l ((List.prefix_append loc [name]).trans hl)
    rw [lead_down _ hname.notIdle hname.notUp (hlink _ (List.prefix_append loc [name])),
      ih (loc ++ [name]) hrest hbelow, List.append_assoc]
    rfl

/-! Walking -/

namespace Spot

def place : Spot → Location
  | .taken loc _ => loc
  | .free dir name => dir ++ [name]

def entry? : Spot → Option Entry
  | .taken _ e => some e
  | .free _ _ => none

end Spot

/-- A walk ends where its parts lead, and finds what is there. A link at the end that is not to be
followed stands for itself. -/
theorem walk_spec {t : FileTree} {followLast : Bool} {links : Nat} {loc : Location}
    {parts : List String} {spot : Spot} (h : t.walk followLast links loc parts = .ok spot) :
    (∃ left, lead t.link? links loc parts = some (left, spot.place) ∧
        t.at? spot.place = spot.entry?) ∨
      (followLast = false ∧ ∃ l target, spot = .taken l (.symlink target)) := by
  fun_induction t.walk followLast links loc parts with
  | case1 links loc e he =>
    cases h
    exact Or.inl ⟨links, by rw [lead]; rfl, he⟩
  | case3 links loc part rest hidle ih =>
    rw [lead_idle _ _ hidle]
    exact ih h
  | case4 links loc rest hidle ih =>
    rw [lead_up]
    exact ih h
  | case6 links loc part hidle hup _ hnone =>
    cases h
    refine Or.inl ⟨links, ?_, hnone⟩
    rw [lead_down _ hidle hup (by simp [link?, hnone]), lead]
    rfl
  | case8 links loc part hidle hup _ mode hat | case10 links loc part hidle hup _ mode data hat
  | case12 links loc part hidle hup _ device hat =>
    cases h
    refine Or.inl ⟨links, ?_, hat⟩
    rw [lead_down _ hidle hup (by simp [link?, hat]), lead]
    rfl
  | case9 links loc part rest hidle hup _ mode hat _ ih =>
    rw [lead_down _ hidle hup (by simp [link?, hat])]
    exact ih h
  | case14 links loc part rest hidle hup _ target hat hlast =>
    cases h
    exact Or.inr ⟨hlast.2, _, _, rfl⟩
  | case17 loc part rest hidle hup _ target hat hlast hne links ih =>
    have hlink : t.link? (loc ++ [part]) = some target := by simp [link?, hat]
    rw [lead_link _ hidle hup hlink hne]
    simpa only [dite_eq_ite] using ih (by simpa only [dite_eq_ite] using h)
  | case2 | case5 | case7 | case11 | case13 | case15 | case16 => cases h

/-! Paths -/

/-- Where a path starts. -/
def start (t : FileTree) (p : HostPath) : Location := if p.isRooted then [] else t.workingDir

theorem walk_of_walkParts {t : FileTree} {followLast : Bool} {p : HostPath} {parts : List String}
    {spot : Spot} (h : t.walkParts followLast p parts = .ok spot) :
    t.walk followLast mostLinks (t.start p) parts = .ok spot := by
  change (t.walk followLast mostLinks (t.start p) parts).mapError IoError.os = .ok spot at h
  cases hw : t.walk followLast mostLinks (t.start p) parts with
  | error e =>
    rw [hw] at h
    cases h
  | ok s =>
    rw [hw] at h
    cases h
    rfl

/-- The place that a path leads to. -/
def leadsTo? (t : FileTree) (p : HostPath) : Option Location :=
  (lead t.link? mostLinks (t.start p) p.steps).map (·.2)

/-- The places on the way that a path leads, with the one at its end. -/
def Passes (t : FileTree) (p : HostPath) (loc : Location) : Prop :=
  ∃ left steps, steps <+: p.steps ∧ lead t.link? mostLinks (t.start p) steps = some (left, loc)

/-- A place at or below the one that a path leads to. -/
def Inside (t : FileTree) (p : HostPath) (loc : Location) : Prop :=
  ∃ base, t.leadsTo? p = some base ∧ base <+: loc

/-- There is no symbolic link at or below the place that a path leads to. -/
def Unlinked (t : FileTree) (p : HostPath) : Prop := ∀ loc, t.Inside p loc → t.link? loc = none

/-- Trees in which every path leads to the same place. -/
def SameLinks (t t' : FileTree) : Prop := t'.link? = t.link? ∧ t'.toCaller = t.toCaller

namespace SameLinks

theorem refl (t : FileTree) : SameLinks t t := ⟨rfl, rfl⟩

theorem trans {t t' t'' : FileTree} (h : SameLinks t t') (h' : SameLinks t' t'') :
    SameLinks t t'' :=
  ⟨h'.1.trans h.1, h'.2.trans h.2⟩

theorem start {t t' : FileTree} (h : SameLinks t t') (p : HostPath) : t'.start p = t.start p := by
  rw [FileTree.start, FileTree.start, h.2]

theorem leadsTo? {t t' : FileTree} (h : SameLinks t t') (p : HostPath) :
    t'.leadsTo? p = t.leadsTo? p := by
  rw [FileTree.leadsTo?, FileTree.leadsTo?, h.start p, h.1]

theorem passes_iff {t t' : FileTree} (h : SameLinks t t') (p : HostPath) (loc : Location) :
    t'.Passes p loc ↔ t.Passes p loc := by
  rw [Passes, Passes, h.start p, h.1]

theorem inside_iff {t t' : FileTree} (h : SameLinks t t') (p : HostPath) (loc : Location) :
    t'.Inside p loc ↔ t.Inside p loc := by
  rw [Inside, Inside, h.leadsTo?]

theorem unlinked {t t' : FileTree} (h : SameLinks t t') {p : HostPath} (hp : t.Unlinked p) :
    t'.Unlinked p := by
  intro loc hloc
  rw [h.1]
  exact hp loc ((h.inside_iff p loc).mp hloc)

theorem apply {t : FileTree} {c : Change} (h : t.link? c.place = none) :
    SameLinks t (t.apply c) :=
  ⟨link?_apply t c h, caller_apply t c⟩

end SameLinks

variable {t : FileTree} {p : HostPath} {loc : Location}

theorem leadsTo?_eq_some_iff :
    t.leadsTo? p = some loc ↔
      ∃ left, lead t.link? mostLinks (t.start p) p.steps = some (left, loc) := by
  simp [leadsTo?]

theorem passes_of_leadsTo? (h : t.leadsTo? p = some loc) : t.Passes p loc := by
  obtain ⟨left, hleft⟩ := leadsTo?_eq_some_iff.mp h
  exact ⟨left, p.steps, List.prefix_refl _, hleft⟩

theorem passes_of_parent? {q : HostPath} (hq : p.parent? = some q) (h : t.Passes q loc) :
    t.Passes p loc := by
  obtain ⟨hrooted, hsteps⟩ := HostPath.parent?_spec hq
  obtain ⟨left, steps, hahead, hlead⟩ := h
  refine ⟨left, steps, ?_, by rwa [start, hrooted] at hlead⟩
  rw [hsteps] at hahead
  exact hahead.trans (List.dropLast_prefix p.steps)

theorem start_join {names : List String} (h : ∀ name ∈ names, IsName name) :
    t.start (p.join (HostPath.below names)) = t.start p := by
  rw [start, start, HostPath.isRooted_join h]

/-- What is joined to a path lies below the place that the path leads to. -/
theorem leadsTo?_join {names : List String} (h : ∀ name ∈ names, IsName name)
    (hunlinked : t.Unlinked p) :
    t.leadsTo? (p.join (HostPath.below names)) = (t.leadsTo? p).map (· ++ names) := by
  cases hp : lead t.link? mostLinks (t.start p) p.steps with
  | none => simp [leadsTo?, start_join h, HostPath.steps_join h, lead_append, hp]
  | some end_ =>
    have hbase : t.leadsTo? p = some end_.2 := by simp [leadsTo?, hp]
    have hnames : lead t.link? end_.1 end_.2 names = some (end_.1, end_.2 ++ names) :=
      lead_names _ _ h fun l hl => hunlinked l ⟨end_.2, hbase, hl⟩
    simp [leadsTo?, start_join h, HostPath.steps_join h, lead_append, hp, hnames]

/-- The way to what is joined to a path goes the way of that path first. -/
theorem passes_join {names : List String} (h : ∀ name ∈ names, IsName name)
    (hunlinked : t.Unlinked p) (hpass : t.Passes (p.join (HostPath.below names)) loc) :
    t.Inside p loc ∨ t.Passes p loc := by
  obtain ⟨left, steps, hahead, hlead⟩ := hpass
  rw [start_join h] at hlead
  rw [HostPath.steps_join h] at hahead
  rcases List.prefix_or_prefix_of_prefix hahead (List.prefix_append p.steps names) with
    hshort | ⟨more, rfl⟩
  · exact Or.inr ⟨left, steps, hshort, hlead⟩
  · have hmore : more <+: names := (List.prefix_append_right_inj p.steps).mp hahead
    rw [lead_append, Option.bind_eq_some_iff] at hlead
    obtain ⟨⟨links, base⟩, hbase, hlead⟩ := hlead
    have hleads : t.leadsTo? p = some base := leadsTo?_eq_some_iff.mpr ⟨links, hbase⟩
    have hnames : lead t.link? links base more = some (links, base ++ more) :=
      lead_names _ _ (fun n hn => h n (hmore.subset hn)) fun l hl =>
        hunlinked l ⟨base, hleads, hl⟩
    simp only [hnames, Option.some.injEq, Prod.mk.injEq] at hlead
    exact Or.inl ⟨base, hleads, more, hlead.2⟩

end NodeLogs.FileTree
