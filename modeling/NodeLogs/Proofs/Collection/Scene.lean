import NodeLogs.Proofs.Collection.Turns

/-!
Captures side by side in a directory that is there. Each has a place of its own for its file, and
the captures of a node share the directory that this stands in.
-/

namespace NodeLogs

open FileTree (Change KeepsDirs Linkless Names MakesOnWay filled opening)
open HostPath (IsName below)
open Event (within)
open Capture (Attempt)

namespace FileTree

variable {t : FileTree} {p : HostPath} {mode : Nat}

theorem MakesOnWay.keepsDirs {cs : List Change} (h : MakesOnWay mode p t cs) :
    KeepsDirs t (t.applyAll cs) := by
  induction cs generalizing t with
  | nil => exact .refl t
  | cons c cs ih =>
    obtain ⟨⟨loc, rfl, -, hfree, -⟩, hcs⟩ := h
    have hfirst : KeepsDirs t
      (t.apply (.makeDir loc (t.masked mode ||| t.groupBit loc.dropLast))) :=
      .of_free hfree
    have hrest := ih hcs
    exact ⟨fun l m hat => hrest.dirs l m (hfirst.dirs l m hat),
      hrest.caller.trans hfirst.caller⟩

end FileTree

namespace Collection

variable {config : Config} {dir above : HostPath} {nodes inner : List String} {file : String}
  {c : Capture}

namespace Aim

theorem isName (h : Aim dir c above inner file) : ∀ n ∈ inner ++ [file], IsName n := by
  rcases h.within with ⟨rfl, -⟩ | ⟨node, rfl, -, hnode⟩
  · simpa using h.names.isName
  · simpa using ⟨hnode.isName, h.names.isName⟩

theorem steps (h : Aim dir c above inner file) : c.path.steps = dir.steps ++ (inner ++ [file]) := by
  rw [h.path, HostPath.steps_join h.isName]

end Aim

/-- Captures in a directory that is there. -/
structure Scene where
  config : Config
  nodes : List String
  dir : HostPath
  printed : Command → Bytes
  answer : Command → Outcome Unit
  /-- The files as the captures find them. -/
  ground : FileTree
  /-- The place of the directory, and its mode. -/
  base : Location
  mode : Nat
  names : ∀ node ∈ nodes, IsName node
  distinct : nodes.Nodup
  reserved : "docker-info.txt" ∉ nodes
  linkless : ground.Linkless
  way : ground.way dir = .ok (.taken base (.dir mode))

namespace Scene

variable (s : Scene)

def captures : List (Place × Capture) := planned s.config s.dir s.nodes

/-- The place of a capture's file. -/
def site (c : Capture) : Location := s.base ++ c.path.steps.drop s.dir.steps.length

/-- What comes of making the directory above a capture's file. -/
def made (c : Capture) : List Change × Except IoError Unit := s.ground.makeDirs 0o777 c.folder

/-- The files when that directory was made. -/
def prepared (c : Capture) : FileTree := s.ground.applyAll (s.made c).1

/-- What comes of opening a capture's file. -/
def opened (c : Capture) : Except IoError (Location × Change) :=
  opening s.ground.toCaller 0o666 c.path (s.site c) (s.ground.at? (s.site c))

/-- What stands at the place of a capture's file after so many of its turns. -/
def stage (c : Capture) : Nat → Option Entry
  | 0 | 1 => s.ground.at? (s.site c)
  | 2 =>
    match s.opened c with
    | .ok _ => filled s.ground.toCaller 0o666 [] (s.ground.at? (s.site c))
    | .error _ => s.ground.at? (s.site c)
  | _ => filled s.ground.toCaller 0o666 (s.printed c.command) (s.ground.at? (s.site c))

/-- What a capture finds in its turns. -/
def Finds (c : Capture) : Nat → FileTree → Prop
  | 0, t => (t.makeDirs 0o777 c.folder).2 = (s.made c).2
  | 1, t => t.openForWriting 0o666 c.path = s.opened c
  | _, t => t.at? (s.site c) = filled s.ground.toCaller 0o666 [] (s.ground.at? (s.site c))

variable {s} {x y : Place × Capture}

theorem aim (hx : x ∈ s.captures) :
    ∃ above inner file, Aim s.dir x.2 above inner file ∧ inner ++ [file] ∈ filesOf s.nodes :=
  aim_of_planned s.names hx

theorem site_eq {above : HostPath} {inner : List String} {file : String} {c : Capture}
    (h : Aim s.dir c above inner file) :
    s.site c = s.base ++ inner ++ [file] ∧ (s.site c).dropLast = s.base ++ inner := by
  have hsite : s.site c = s.base ++ inner ++ [file] := by
    rw [site, h.steps, List.drop_left, List.append_assoc]
  exact ⟨hsite, by rw [hsite, List.dropLast_concat]⟩

theorem site_ne_nil (hx : x ∈ s.captures) : s.site x.2 ≠ [] := by
  obtain ⟨_, inner, file, haim, -⟩ := aim hx
  rw [(site_eq haim).1]
  simp

theorem site_inj (hx : x ∈ s.captures) (hy : y ∈ s.captures) (hsame : s.site x.2 = s.site y.2) :
    x = y := by
  obtain ⟨_, inner, file, haim, -⟩ := aim hx
  obtain ⟨_, inner', file', haim', -⟩ := aim hy
  refine eq_of_steps s.names s.distinct hx hy ?_
  rw [(site_eq haim).1, (site_eq haim').1, List.append_assoc, List.append_assoc] at hsame
  rw [haim.steps, haim'.steps, List.append_cancel_left hsame]

/-- No file stands where a directory of a node is. -/
theorem site_apart (hx : x ∈ s.captures) (hy : y ∈ s.captures) :
    s.site x.2 ≠ (s.site y.2).dropLast := by
  obtain ⟨_, inner, file, haim, hmem⟩ := aim hx
  obtain ⟨_, inner', file', haim', hmem'⟩ := aim hy
  rw [(site_eq haim).1, (site_eq haim').2, List.append_assoc]
  intro hsame
  have hinner := List.append_cancel_left hsame
  rcases haim.within with ⟨rfl, -⟩ | ⟨node, rfl, -⟩ <;>
    rcases haim'.within with ⟨rfl, -⟩ | ⟨node', rfl, -⟩ <;> simp at hinner
  -- A file right below the directory is that of the host, and no node has its name.
  obtain rfl := eq_of_mem_filesOf hmem
  exact s.reserved (hinner ▸ mem_of_mem_filesOf hmem')

theorem folder_congr (hx : x ∈ s.captures) (hy : y ∈ s.captures)
    (hsame : (s.site x.2).dropLast = (s.site y.2).dropLast) :
    x.2.folder = y.2.folder := by
  obtain ⟨above, inner, file, haim, -⟩ := aim hx
  obtain ⟨above', inner', file', haim', -⟩ := aim hy
  rw [(site_eq haim).2, (site_eq haim').2] at hsame
  obtain rfl := List.append_cancel_left hsame
  rw [haim.folder_eq, haim'.folder_eq]
  rcases haim.within with ⟨rfl, rfl⟩ | ⟨node, rfl, rfl, -⟩ <;>
    rcases haim'.within with ⟨h, rfl⟩ | ⟨node', h, rfl, -⟩ <;> simp at h
  · rfl
  · rw [h]

theorem way_top : s.ground.way (top s.dir) = .ok (.taken s.base (.dir s.mode)) := by
  obtain ⟨-, hrooted, hsteps⟩ := top_spec s.dir
  rw [FileTree.way_congr hrooted hsteps, s.way]

theorem opened_loc {c : Capture} {end_ : Location × Change} (hopen : s.opened c = .ok end_) :
    end_.1 = s.site c :=
  FileTree.opening_loc hopen

theorem stage_of_dir {c : Capture} {m : Nat} (hat : s.ground.at? (s.site c) = some (.dir m))
    (n : Nat) : s.stage c n = some (.dir m) := by
  unfold stage
  split
  · exact hat
  · exact hat
  · rw [hat]
    split <;> rfl
  · rw [hat]
    rfl

theorem prepared_linkless (c : Capture) : (s.prepared c).Linkless :=
  (FileTree.makeDirs_makesOnWay 0o777 s.ground c.folder).linkless s.linkless

theorem prepared_keepsDirs (c : Capture) : KeepsDirs s.ground (s.prepared c) :=
  (FileTree.makeDirs_makesOnWay 0o777 s.ground c.folder).keepsDirs

theorem parent? (hx : x ∈ s.captures) : x.2.path.parent? = some x.2.folder :=
  parent?_planned s.names hx

/-- A place is that of a file, or that of a directory with files, or neither. -/
theorem place_cases (s : Scene) (loc : Location) :
    (∃ x ∈ s.captures, loc = s.site x.2) ∨ (∃ x ∈ s.captures, loc = (s.site x.2).dropLast) ∨
      ∀ x ∈ s.captures, loc ≠ s.site x.2 ∧ loc ≠ (s.site x.2).dropLast := by
  by_cases hfile : ∃ x ∈ s.captures, loc = s.site x.2
  · exact Or.inl hfile
  · by_cases hfolder : ∃ x ∈ s.captures, loc = (s.site x.2).dropLast
    · exact Or.inr (Or.inl hfolder)
    · exact Or.inr (Or.inr fun x hx =>
        ⟨fun heq => hfile ⟨x, hx, heq⟩, fun heq => hfolder ⟨x, hx, heq⟩⟩)

/-- Captures put no links where they put their files. -/
theorem stage_ne_symlink (s : Scene) (c : Capture) (n : Nat) (target : String) :
    s.stage c n ≠ some (.symlink target) := by
  have hground (target : String) : s.ground.at? (s.site c) ≠ some (.symlink target) := by
    intro hat
    have hnone := s.linkless (s.site c)
    simp [FileTree.link?, hat] at hnone
  have hfilled (data : Bytes) :
      filled s.ground.toCaller 0o666 data (s.ground.at? (s.site c)) ≠ some (.symlink target) := by
    cases hat : s.ground.at? (s.site c) with
    | none => rintro ⟨⟩
    | some e =>
      cases e with
      | symlink target => exact absurd hat (hground target)
      | _ => rintro ⟨⟩
  unfold stage
  split
  · exact hground target
  · exact hground target
  · split
    · exact hfilled []
    · exact hground target
  · exact hfilled _

end Scene

end Collection

end NodeLogs
