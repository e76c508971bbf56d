import NodeLogs.Proofs.Collection
import NodeLogs.Proofs.FileTree.Below

/-!
Where captures put their files: each below the directory that is collected into, and no two at the
same place. No file stands where a node has its directory.
-/

namespace NodeLogs

open FileTree (Names)
open HostPath (IsName below)

namespace HostPath

variable {p : HostPath} {name file : String}

/-- What is joined to a path adds its parts behind some of the path's own. -/
theorem exists_front (p : HostPath) : ∃ front, ∀ names, names ≠ [] → (∀ n ∈ names, IsName n) →
    (p.join (below names)).parts = front ++ names := by
  have hparts (names : List String) (hne : names ≠ []) (hnames : ∀ n ∈ names, IsName n) :
      HostPath.parts ⟨below names⟩ = names :=
    parts_slashed hne fun n hn => (hnames n hn).noSlash
  by_cases hempty : p.text = ""
  · refine ⟨[], fun names hne hnames => ?_⟩
    rw [join, isRooted_below hnames, if_neg (by simp), if_pos (Or.inl hempty), hempty,
      String.empty_append, hparts names hne hnames, List.nil_append]
  · by_cases hslash : p.text.toList.getLast? = some '/'
    · obtain ⟨q, hq⟩ := parts_of_getLast?_slash hslash
      refine ⟨Text.split '/' q, fun names hne hnames => ?_⟩
      rw [join, isRooted_below hnames, if_neg (by simp), if_pos (Or.inr hslash), parts, hq,
        Text.split_append_slash, ← parts.eq_def ⟨below names⟩, hparts names hne hnames]
    · refine ⟨p.parts, fun names hne hnames => ?_⟩
      rw [join, isRooted_below hnames, if_neg (by simp), if_neg (by simp [hempty, hslash]), parts,
        Text.split_append_slash, ← parts.eq_def ⟨below names⟩, hparts names hne hnames]
      rfl

theorem join_below_join (hname : IsName name) (hfile : IsName file) :
    (p.join name).join file = p.join (below [name, file]) := by
  obtain ⟨front, hfront⟩ := exists_front p
  have hdir := hfront [name] (by simp) (by simpa using hname)
  rw [below_singleton] at hdir
  have hinner := parts_join_of_step hdir hname.notIdle (List.cons_ne_nil file [])
    (by simpa using hfile)
  rw [below_singleton] at hinner
  refine eq_of_parts ?_
  rw [hinner, hdir, hfront [name, file] (by simp) (by simpa using ⟨hname, hfile⟩),
    List.append_assoc, List.singleton_append]

theorem parent?_of_parts {front : List String} {last : String} (hparts : p.parts = front ++ [last])
    (hlast : ¬ Idle last) :
    p.parent? =
      match trimParts front.reverse with
      | [] => some ⟨if p.isRooted then "/" else ""⟩
      | parts => some ⟨"/".intercalate parts.reverse⟩ := by
  have hidle : isIdle front.reverse.isEmpty last = false := by
    unfold Idle at hlast
    simp only [not_or] at hlast
    simp [isIdle, hlast]
  rw [parent?, hparts, List.reverse_append, List.reverse_singleton, List.singleton_append,
    trimParts, hidle]
  rfl

end HostPath

namespace Collection

variable {config : Config} {dir : HostPath} {nodes : List String}

/-- The directory that is collected into, as it is made for the file on the host. -/
def top (dir : HostPath) : HostPath := (dir.join "docker-info.txt").parent?.getD dir

/-- A capture into a file right below the directory that is collected into, or right below the
directory of a node. -/
structure Aim (dir : HostPath) (c : Capture) (above : HostPath) (inner : List String)
    (file : String) : Prop where
  path : c.path = dir.join (below (inner ++ [file]))
  names : Names c.path above file
  short : file.utf8ByteSize ≤ FileTree.longestName
  within : (inner = [] ∧ above = top dir) ∨
    ∃ node, inner = [node] ∧ above = dir.join node ∧ Names above (top dir) node

section Names

variable {name file : String} {front : List String} {p q : HostPath}

theorem names_of_parts (hparts : p.parts = front ++ [name]) (hname : IsName name)
    (hparent : p.parent? = some q) : Names p q name := by
  have hsteps : p.steps = HostPath.significant front ++ [name] := by
    rw [HostPath.steps, hparts, HostPath.significant, List.filter_append]
    simp [HostPath.significant, hname.notIdle]
  have hnamed : p.steps = q.steps ++ [name] := by
    rw [(HostPath.parent?_spec hparent).2, hsteps, List.dropLast_concat]
  refine ⟨⟨hparent, Or.inr ⟨front, name, hparts, hname.notIdle⟩, fun hempty => ?_, name, hnamed⟩,
    hnamed, hname⟩
  rw [FileTree.steps_of_noText hempty] at hnamed
  simp at hnamed

theorem isRooted_join (dir : HostPath) (hname : IsName name) :
    (dir.join name).isRooted = dir.isRooted := by
  rw [← HostPath.isRooted_join (p := dir) (List.forall_mem_singleton.mpr hname),
    HostPath.below_singleton]

theorem parts_join (dir : HostPath) : ∃ front, ∀ name, IsName name →
    (dir.join name).parts = front ++ [name] := by
  obtain ⟨front, hfront⟩ := HostPath.exists_front dir
  refine ⟨front, fun name hname => ?_⟩
  rw [← hfront [name] (by simp) (by simpa using hname), HostPath.below_singleton]

/-- What is joined to a directory has the same path above it, whatever its name. -/
theorem parent?_join (dir : HostPath) (hname : IsName name) :
    (dir.join name).parent? = some (top dir) := by
  obtain ⟨front, hfront⟩ := parts_join dir
  have hfile : IsName "docker-info.txt" := by decide
  have hsame : (dir.join name).parent? = (dir.join "docker-info.txt").parent? := by
    rw [HostPath.parent?_of_parts (hfront name hname) hname.notIdle,
      HostPath.parent?_of_parts (hfront _ hfile) hfile.notIdle, isRooted_join dir hname,
      isRooted_join dir hfile]
  have hsteps : (dir.join name).steps ≠ [] := by
    rw [← HostPath.below_singleton name, HostPath.steps_join (List.forall_mem_singleton.mpr hname)]
    simp
  obtain ⟨q, hq⟩ := HostPath.exists_parent hsteps
  rw [top, ← hsame, hq]
  rfl

theorem names_join (dir : HostPath) (hname : IsName name) :
    Names (dir.join name) (top dir) name := by
  obtain ⟨front, hfront⟩ := parts_join dir
  exact names_of_parts (hfront name hname) hname (parent?_join dir hname)

theorem top_spec (dir : HostPath) :
    (top dir).Trimmed ∧ (top dir).isRooted = dir.isRooted ∧ (top dir).steps = dir.steps := by
  have hfile : IsName "docker-info.txt" := by decide
  have hparent := parent?_join dir hfile
  obtain ⟨hrooted, hsteps⟩ := HostPath.parent?_spec hparent
  refine ⟨HostPath.parent?_trimmed hparent, hrooted.trans (isRooted_join dir hfile), ?_⟩
  rw [hsteps, ← HostPath.below_singleton "docker-info.txt",
    HostPath.steps_join (List.forall_mem_singleton.mpr hfile), List.dropLast_concat]

theorem names_join_below (dir : HostPath) (hname : IsName name) (hfile : IsName file) :
    Names (dir.join (below [name, file])) (dir.join name) file := by
  obtain ⟨front, hfront⟩ := HostPath.exists_front dir
  have hparts := hfront [name, file] (by simp) (by simpa using ⟨hname, hfile⟩)
  rw [show front ++ [name, file] = front ++ [name] ++ [file] from by simp] at hparts
  refine names_of_parts hparts hfile ?_
  have hdir := hfront [name] (by simp) (by simpa using hname)
  rw [HostPath.below_singleton] at hdir
  rw [HostPath.parent?_of_parts hparts hfile.notIdle, List.reverse_append, List.reverse_singleton,
    List.singleton_append, HostPath.trimParts]
  have hnot : HostPath.isIdle front.reverse.isEmpty name = false := by
    have hidle := hname.notIdle
    unfold HostPath.Idle at hidle
    simp only [not_or] at hidle
    simp [HostPath.isIdle, hidle]
  rw [hnot, if_neg (by simp)]
  refine congrArg some (HostPath.eq_of_parts ?_)
  rw [hdir, HostPath.parts_slashed (by simp) ?_]
  · simp
  · intro part hpart
    have hmem : part ∈ (dir.join name).parts := by
      rw [hdir]
      simpa using hpart
    exact HostPath.noSlash_of_mem_parts hmem

end Names

/-! The places of all captures -/

/-- The names of the files that captures make of a node. -/
def nodeFiles : List String :=
  ["inspect.json", "serial.log", "kubernetes-version.txt", "journal.log", "kubelet.log",
    "containerd.log"]

/-- The files of all captures, each with the names that lead to it. -/
def filesOf (nodes : List String) : List (List String) :=
  ["docker-info.txt"] :: nodes.flatMap fun node => nodeFiles.map fun file => [node, file]

theorem eq_of_mem_filesOf {file : String} (h : [file] ∈ filesOf nodes) :
    file = "docker-info.txt" := by
  rcases List.mem_cons.mp h with h | h
  · simpa using h
  · obtain ⟨node, -, h⟩ := List.mem_flatMap.mp h
    simp at h

theorem mem_of_mem_filesOf {node file : String} (h : [node, file] ∈ filesOf nodes) :
    node ∈ nodes := by
  rcases List.mem_cons.mp h with h | h
  · simp at h
  · obtain ⟨node', hnode, h⟩ := List.mem_flatMap.mp h
    obtain ⟨file', -, h⟩ := List.mem_map.mp h
    obtain ⟨rfl, -⟩ := List.cons.inj h
    exact hnode

theorem isName_of_mem_nodeFiles {file : String} (h : file ∈ nodeFiles) :
    IsName file ∧ file.utf8ByteSize ≤ FileTree.longestName := by
  have hall : ∀ file ∈ nodeFiles, IsName file ∧ file.utf8ByteSize ≤ FileTree.longestName := by
    decide
  exact hall file h

theorem paths_planned (config : Config) (dir : HostPath) (hnodes : ∀ node ∈ nodes, IsName node) :
    (planned config dir nodes).map (fun x => x.2.path) =
      (filesOf nodes).map fun names => dir.join (below names) := by
  have hon (node : String) (i : Nat) : (plannedOn config dir node i).map (fun x => x.2.path) =
      nodeFiles.map (dir.join node).join := rfl
  rw [planned, filesOf, List.map_cons, List.map_cons, List.map_flatMap, List.map_flatMap]
  refine congrArg₂ List.cons rfl ?_
  calc (nodes.zipIdx 1).flatMap (fun x => (plannedOn config dir x.1 x.2).map fun x => x.2.path)
      = (nodes.zipIdx 1).flatMap (fun x => nodeFiles.map (dir.join x.1).join) :=
        List.flatMap_congr fun x _ => hon x.1 x.2
    _ = ((nodes.zipIdx 1).map Prod.fst).flatMap
      (fun node => nodeFiles.map (dir.join node).join) := by
        rw [List.flatMap_map]
    _ = nodes.flatMap (fun node => nodeFiles.map (dir.join node).join) := by
      rw [List.zipIdx_map_fst]
    _ = _ := by
        refine List.flatMap_congr fun node hnode => ?_
        rw [List.map_map]
        refine List.map_congr_left fun file hfile => ?_
        exact HostPath.join_below_join (hnodes node hnode) (isName_of_mem_nodeFiles hfile).1

theorem nodup_filesOf (hnodup : nodes.Nodup) : (filesOf nodes).Nodup := by
  rw [filesOf, List.nodup_cons, List.nodup_flatMap]
  refine ⟨by simp, fun node _ => ?_, hnodup.imp ?_⟩
  · exact List.Nodup.map (fun a b hsame => by simpa using hsame) (by decide)
  · intro a b hne
    simp [List.disjoint_left, Function.onFun, hne.symm]

theorem isName_of_mem_filesOf (hnodes : ∀ node ∈ nodes, IsName node) {names : List String}
    (h : names ∈ filesOf nodes) : ∀ n ∈ names, IsName n := by
  rcases List.mem_cons.mp h with rfl | h
  · exact List.forall_mem_singleton.mpr (by decide)
  · obtain ⟨node, hnode, h⟩ := List.mem_flatMap.mp h
    obtain ⟨file, hfile, rfl⟩ := List.mem_map.mp h
    simpa using ⟨hnodes node hnode, (isName_of_mem_nodeFiles hfile).1⟩

theorem steps_planned (config : Config) (dir : HostPath) (hnodes : ∀ node ∈ nodes, IsName node) :
    (planned config dir nodes).map (fun x => x.2.path.steps) =
      (filesOf nodes).map (dir.steps ++ ·) := by
  rw [show (fun x : Place × Capture => x.2.path.steps) =
    HostPath.steps ∘ fun x => x.2.path from rfl,
    ← List.map_map, paths_planned config dir hnodes, List.map_map]
  exact List.map_congr_left fun names hnames =>
    HostPath.steps_join (isName_of_mem_filesOf hnodes hnames)

variable {x y : Place × Capture}

theorem aim_of_planned (hnodes : ∀ node ∈ nodes, IsName node) (hx : x ∈ planned config dir nodes) :
    ∃ above inner file, Aim dir x.2 above inner file ∧ inner ++ [file] ∈ filesOf nodes := by
  have hpath : x.2.path ∈ (planned config dir nodes).map fun x => x.2.path :=
    List.mem_map_of_mem hx
  rw [paths_planned config dir hnodes] at hpath
  obtain ⟨names, hnames, hpath⟩ := List.mem_map.mp hpath
  rcases List.mem_cons.mp hnames with rfl | hmem
  · refine ⟨top dir, [], "docker-info.txt", ⟨hpath.symm, ?_, by decide, Or.inl ⟨rfl, rfl⟩⟩, hnames⟩
    rw [← hpath, HostPath.below_singleton]
    exact names_join dir (by decide)
  · obtain ⟨node, hnode, hmem⟩ := List.mem_flatMap.mp hmem
    obtain ⟨file, hfile, rfl⟩ := List.mem_map.mp hmem
    obtain ⟨hname, hshort⟩ := isName_of_mem_nodeFiles hfile
    refine ⟨dir.join node, [node], file, ⟨hpath.symm, ?_, hshort,
      Or.inr ⟨node, rfl, rfl, names_join dir (hnodes node hnode)⟩⟩, hnames⟩
    rw [← hpath]
    exact names_join_below dir (hnodes node hnode) hname

/-- Two captures into one file are one capture. -/
theorem eq_of_steps (hnodes : ∀ node ∈ nodes, IsName node) (hnodup : nodes.Nodup)
    (hx : x ∈ planned config dir nodes) (hy : y ∈ planned config dir nodes)
    (hsame : x.2.path.steps = y.2.path.steps) : x = y := by
  have hall : ((planned config dir nodes).map fun x => x.2.path.steps).Nodup := by
    rw [steps_planned config dir hnodes]
    exact (nodup_filesOf hnodup).map fun a b hab => List.append_cancel_left hab
  exact List.inj_on_of_nodup_map hall hx hy hsame

/-- No action is a part of a capture. -/
theorem eq_of_place (hx : x ∈ planned config dir nodes) (hy : y ∈ planned config dir nodes)
    (hplace : x.1 <+: y.1) : x = y := by
  have hform {x : Place × Capture} (hx : x ∈ planned config dir nodes) :
      x.1 = [0] ∨ ∃ i j, 0 < i ∧ x.1 = [i, j] := by
    have hmem := List.mem_map_of_mem (f := Prod.fst) hx
    rw [places_planned] at hmem
    refine (List.mem_cons.mp hmem).imp_right fun hmem => ?_
    obtain ⟨i, hi, hmem⟩ := List.mem_flatMap.mp hmem
    obtain ⟨j, -, hij⟩ := List.mem_map.mp hmem
    exact ⟨i, j, (List.mem_range'_1.mp hi).1, hij.symm⟩
  refine List.inj_on_of_nodup_map (nodup_planned config dir nodes) hx hy ?_
  rcases hform hx with hx | ⟨i, j, hi, hx⟩ <;> rcases hform hy with hy | ⟨i', j', hi', hy⟩ <;>
    rw [hx, hy] at hplace ⊢
  · obtain ⟨h0, -⟩ := List.cons_prefix_cons.mp hplace
    omega
  · have := hplace.length_le
    simp at this
  · exact hplace.eq_of_length rfl

end Collection

end NodeLogs
