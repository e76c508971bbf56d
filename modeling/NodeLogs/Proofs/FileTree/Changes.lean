import NodeLogs.FileTree.Basic

/-!
Changes told by what each place shows: a change has one place, and what stands there afterwards
depends only on what stood there before. All other places show what they showed.
-/

namespace NodeLogs.FileTree

namespace Change

def place : Change → Location
  | .makeDir loc _ => loc
  | .createFile loc _ => loc
  | .truncate loc => loc
  | .append loc _ => loc
  | .setMode loc _ => loc

/-- A file alone is changed, and all else is left as it is. -/
def onFile (f : Nat → Bytes → Entry) : Option Entry → Option Entry
  | some (.file mode data) => some (f mode data)
  | e => e

/-- What a change makes of what stands at its place. -/
def on (e : Option Entry) : Change → Option Entry
  | .makeDir _ mode => some (.dir mode)
  | .createFile _ mode => some (.file mode [])
  | .truncate _ => onFile (fun mode _ => .file mode []) e
  | .append _ bytes => onFile (fun mode data => .file mode (data ++ bytes)) e
  | .setMode _ mode => onFile (fun _ data => .file mode data) e

end Change

theorem at?_put_nil (t : FileTree) (e : Entry) (l : Location) : (t.put [] e).at? l = t.at? l := by
  by_cases hl : l = []
  · subst hl
    rfl
  · simp only [at?, put, lookup_insertEntry, if_neg hl]

/-- Nothing changes at the root. -/
theorem at?_apply (t : FileTree) (c : Change) (l : Location) :
    (t.apply c).at? l = if l = c.place ∧ l ≠ [] then c.on (t.at? l) else t.at? l := by
  have at_put (loc : Location) (e : Entry) :
      (t.put loc e).at? l = if l = loc ∧ l ≠ [] then some e else t.at? l := by
    by_cases hloc : loc = []
    · subst hloc
      rw [at?_put_nil, if_neg (fun h => h.2 h.1)]
    · rw [at?_put t loc l e hloc]
      by_cases hl : l = loc
      · subst hl
        simp [hloc]
      · simp [hl]
  cases c with
  | makeDir loc mode => exact at_put loc _
  | createFile loc mode => exact at_put loc _
  | truncate loc | append loc bytes | setMode loc mode =>
    simp only [apply, Change.place, Change.on]
    by_cases hl : l = loc
    · subst hl
      cases he : t.at? l with
      | none => simp [Change.onFile, he]
      | some e => cases e <;> simp [Change.onFile, he, at_put]
    · split <;> simp [at_put, hl]

theorem caller_apply (t : FileTree) (c : Change) : (t.apply c).toCaller = t.toCaller := by
  cases c <;> simp only [apply] <;> first | rfl | (split <;> rfl)

theorem applyAll_nil (t : FileTree) : t.applyAll [] = t := rfl

theorem applyAll_cons (t : FileTree) (c : Change) (cs : List Change) :
    t.applyAll (c :: cs) = (t.apply c).applyAll cs := rfl

theorem applyAll_append (t : FileTree) (cs ds : List Change) :
    t.applyAll (cs ++ ds) = (t.applyAll cs).applyAll ds :=
  List.foldl_append

theorem caller_applyAll (t : FileTree) (cs : List Change) :
    (t.applyAll cs).toCaller = t.toCaller := by
  induction cs generalizing t with
  | nil => rfl
  | cons c cs ih => rw [applyAll_cons, ih, caller_apply]

/-- What changes only other places leaves this one as it was. -/
theorem at?_applyAll_of_places {t : FileTree} {cs : List Change} {loc : Location}
    (h : ∀ c ∈ cs, c.place ≠ loc) : (t.applyAll cs).at? loc = t.at? loc := by
  induction cs generalizing t with
  | nil => rfl
  | cons c cs ih =>
    rw [applyAll_cons, ih fun d hd => h d (List.mem_cons_of_mem c hd), at?_apply,
      if_neg fun hc => h c List.mem_cons_self hc.1.symm]

/-- What a symbolic link at a place says, if there is one. -/
def link? (t : FileTree) (loc : Location) : Option String :=
  match t.at? loc with
  | some (.symlink target) => some target
  | _ => none

/-- The bit that new directories take over from the directory they are made in. -/
def groupBit (t : FileTree) (loc : Location) : Nat :=
  match t.at? loc with
  | some (.dir mode) => mode &&& 0o2000
  | _ => 0

/-- A change where no link is touches no link. -/
theorem link?_apply (t : FileTree) (c : Change) (h : t.link? c.place = none) :
    (t.apply c).link? = t.link? := by
  funext l
  simp only [link?, at?_apply]
  by_cases hl : l = c.place ∧ l ≠ []
  · obtain ⟨rfl, hne⟩ := hl
    simp only [link?] at h
    cases he : t.at? c.place with
    | none => cases c <;> simp_all [Change.on, Change.onFile]
    | some e => cases e <;> cases c <;> simp_all [Change.on, Change.onFile]
  · rw [if_neg hl]

/-- No change makes a device. -/
theorem device_of_applyAll {t : FileTree} {cs : List Change} {loc : Location} {d : Device}
    (h : (t.applyAll cs).at? loc = some (.device d)) : t.at? loc = some (.device d) := by
  have hon {e : Option Entry} {c : Change} (he : c.on e = some (.device d)) :
      e = some (.device d) := by
    cases c with
    | makeDir | createFile => cases he
    | truncate | append | setMode =>
      cases e with
      | none => cases he
      | some e => cases e <;> simp_all [Change.on, Change.onFile]
  induction cs generalizing t with
  | nil => exact h
  | cons c cs ih =>
    have hfirst := ih h
    rw [at?_apply] at hfirst
    split at hfirst
    · exact hon hfirst
    · exact hfirst

end NodeLogs.FileTree
