import NodeLogs.Proofs.Archive.Paths
import NodeLogs.Proofs.FileTree.Reaching
import NodeLogs.Proofs.Unpack.Settled

/-!
A tree laid out member by member in an empty directory. Each member in its turn finds the
directories above it in place and its own place free, and leaves the tree with one item more.
-/

namespace NodeLogs

namespace Unpack

open Archive (Item Content)
open FileTree (Extends Vacant)
open HostPath (IsName below)

/-- Items that make up a tree, each directory before what is in it. -/
structure MakesTree (items : List Item) : Prop where
  distinct : (items.map (·.names)).Nodup
  names : ∀ item ∈ items, ∀ name ∈ item.names, IsName name ∧ '\x00' ∉ name.toList
  /-- The tree itself may be a member too. -/
  top : ∀ item ∈ items, item.names = [] → item.content = .dir ∧ item.dotted = true
  above : ∀ before item later, items = before ++ item :: later → item.names.dropLast ≠ [] →
    ∃ dir ∈ before, dir.content = .dir ∧ dir.names = item.names.dropLast

/-- Names and paths that the system takes. -/
structure ShortEnough (dest : HostPath) (item : Item) : Prop where
  names : ∀ name ∈ item.names, name.utf8ByteSize ≤ FileTree.longestName
  path : (dest.join (below item.names)).text.utf8ByteSize ≤ FileTree.longestPath

/-- An empty directory that a path leads to, and a tree that can be written to an archive. -/
structure IntoEmpty (t : FileTree) (dest : HostPath) (base : Location) (mode : Nat)
    (items : List Item) : Prop where
  dir : t.stat dest = .ok (base, .dir mode)
  empty : ∀ loc, base <+: loc → loc ≠ base → t.at? loc = none
  tree : MakesTree items
  writable : ∀ item ∈ items, item.Writable

/-- What an item is in a tree where new directories get this mode. -/
def entry (bits : Nat) (item : Item) : Entry :=
  match item.content with
  | .file mode data => .file mode data
  | .dir => .dir bits

/-- What an item puts at a place. -/
def entryAt? (base : Location) (bits : Nat) (loc : Location) (item : Item) : Option Entry :=
  if item.names ≠ [] ∧ base ++ item.names = loc then some (entry bits item) else none

/-- A tree with items laid out below a place. -/
def laidOut (t : FileTree) (base : Location) (bits : Nat) (items : List Item) (loc : Location) :
    Option Entry :=
  (items.findSome? (entryAt? base bits loc)).or (t.at? loc)

section LaidOut

variable {t : FileTree} {base loc : Location} {bits : Nat} {items before : List Item} {item : Item}

theorem laidOut_of_ne (h : ∀ item ∈ items, item.names ≠ [] → loc ≠ base ++ item.names) :
    laidOut t base bits items loc = t.at? loc := by
  have hnone : items.findSome? (entryAt? base bits loc) = none := by
    rw [List.findSome?_eq_none_iff]
    intro item hitem
    rw [entryAt?, if_neg]
    rintro ⟨hne, hloc⟩
    exact h item hitem hne hloc.symm
  rw [laidOut, hnone, Option.none_or]

theorem findSome?_of_new (hnew : item.names ∉ before.map (·.names)) :
    before.findSome? (entryAt? base bits (base ++ item.names)) = none := by
  rw [List.findSome?_eq_none_iff]
  intro other hother
  rw [entryAt?, if_neg]
  rintro ⟨-, hsame⟩
  exact hnew (List.mem_map.mpr ⟨other, hother, List.append_cancel_left hsame⟩)

theorem laidOut_concat (hne : item.names ≠ []) (hnew : item.names ∉ before.map (·.names)) :
    laidOut t base bits (before ++ [item]) loc =
      if loc = base ++ item.names then some (entry bits item)
      else laidOut t base bits before loc := by
  rw [laidOut, List.findSome?_append]
  split
  · next hloc =>
    subst hloc
    simp [findSome?_of_new hnew, entryAt?, hne]
  · next hloc => simp [laidOut, entryAt?, Ne.symm hloc]

theorem laidOut_concat_top (htop : item.names = []) :
    laidOut t base bits (before ++ [item]) loc = laidOut t base bits before loc := by
  simp [laidOut, List.findSome?_append, entryAt?, htop]

theorem laidOut_mem (hdistinct : (items.map (·.names)).Nodup) (hitem : item ∈ items)
    (hne : item.names ≠ []) :
    laidOut t base bits items (base ++ item.names) = some (entry bits item) := by
  obtain ⟨before, later, rfl⟩ := List.append_of_mem hitem
  have hnew : item.names ∉ before.map (·.names) := by
    intro hmem
    rw [List.map_append, List.nodup_append] at hdistinct
    exact hdistinct.2.2 _ hmem _ (List.mem_map_of_mem List.mem_cons_self) rfl
  rw [laidOut, List.findSome?_append, findSome?_of_new hnew, List.findSome?_cons]
  simp [entryAt?, hne]

end LaidOut

/-- The directories that lead to an item are among the members before it. -/
theorem MakesTree.ancestors {items before later : List Item} {item : Item} (h : MakesTree items)
    (hitems : items = before ++ item :: later) {ahead : List String}
    (hahead : ahead <+: item.names.dropLast) (hne : ahead ≠ []) :
    ∃ dir ∈ before, dir.content = .dir ∧ dir.names = ahead := by
  -- The induction is on how deep the item is; its parent stands before it and is less deep.
  induction hdepth : item.names.length generalizing item before later with
  | zero =>
    rw [List.eq_nil_of_length_eq_zero hdepth, List.dropLast_nil, List.prefix_nil] at hahead
    exact absurd hahead hne
  | succ depth ih =>
    have habove : item.names.dropLast ≠ [] := by
      intro hnil
      rw [hnil, List.prefix_nil] at hahead
      exact hne hahead
    obtain ⟨parent, hparent, hdir, hnames⟩ := h.above before item later hitems habove
    by_cases hsame : ahead = item.names.dropLast
    · exact ⟨parent, hparent, hdir, hnames.trans hsame.symm⟩
    · obtain ⟨first, rest, hsplit⟩ := List.append_of_mem hparent
      have hup : ahead <+: parent.names.dropLast := by
        rw [hnames]
        obtain ⟨front, last, hfront⟩ :=
          (List.eq_nil_or_concat item.names.dropLast).resolve_left habove
        rw [List.concat_eq_append] at hfront
        rw [hfront] at hahead hsame ⊢
        rw [List.dropLast_concat]
        exact (List.prefix_concat_iff.mp hahead).resolve_left hsame
      have hlength : parent.names.length = depth := by
        rw [hnames, List.length_dropLast, hdepth]
        rfl
      obtain ⟨dir, hmem, hcontent, hplace⟩ :=
        ih (hitems.trans (by rw [hsplit, List.append_assoc]; rfl)) hup hlength
      exact ⟨dir, hsplit ▸ List.mem_append_left _ hmem, hcontent, hplace⟩

/-- A tree in which items have been laid out so far. -/
structure Laid (t : FileTree) (base : Location) (bits : Nat) (items : List Item) (now : FileTree) :
    Prop where
  at? : ∀ loc, now.at? loc = laidOut t base bits items loc
  caller : now.toCaller = t.toCaller

variable {t now : FileTree} {dest : HostPath} {base : Location} {mode : Nat}

theorem Laid.concat {before : List Item} {item : Item} {bits : Nat} {after : FileTree}
    (h : Laid t base bits before now) (hne : item.names ≠ [])
    (hnew : item.names ∉ before.map (·.names)) (hcaller : after.toCaller = now.toCaller)
    (hat : ∀ loc, after.at? loc =
      if loc = base ++ item.names then some (entry bits item) else now.at? loc) :
    Laid t base bits (before ++ [item]) after where
  at? loc := by rw [hat, laidOut_concat hne hnew, h.at?]
  caller := hcaller.trans h.caller

/-- A file that is unpacked to a free place. -/
theorem file_of_open {path : HostPath} {loc : Location} {bits mode : Nat}
    (data : Bytes) (hroot : loc ≠ [])
    (hopen : t.openForWriting mode path = .ok (loc, .createFile loc bits)) :
    (file t path mode data.length ⟨data, none⟩).result = .ok () ∧
      (file t path mode data.length ⟨data, none⟩).changes =
        [.createFile loc bits, .append loc data, .setMode loc (mode &&& 0o7777)] ∧
      warnings (file t path mode data.length ⟨data, none⟩).log = [] := by
  have hat : (t.apply (.createFile loc bits)).at? loc = some (.file bits []) := by
    rw [FileTree.at?_apply, if_pos ⟨rfl, hroot⟩]
    rfl
  have hfill :
      fill (t.apply (.createFile loc bits)) loc ⟨data, none⟩ = ([.append loc data], none) := by
    simp [fill, FileTree.write, hat]
  unfold file
  simp only [hopen, hfill]
  exact ⟨rfl, rfl, rfl⟩

/-- What new directories below one of this mode get for theirs: what the caller's mask leaves of
0755, and the bit of the group. -/
def newMode (t : FileTree) (mode : Nat) : Nat := t.masked 0o755 ||| (mode &&& 0o2000)

/-- They hand the bit on. -/
theorem newMode_groupBit (t : FileTree) (mode : Nat) :
    newMode t mode &&& 0o2000 = mode &&& 0o2000 := by
  have hmasked : t.masked 0o755 &&& 0o2000 = 0 := by
    rw [Caller.masked, Nat.and_assoc, Nat.and_comm _ 0o2000, ← Nat.and_assoc,
      show 0o755 &&& 0o7777 &&& 0o2000 = 0 from rfl, Nat.zero_and]
  rw [newMode, Nat.and_or_distrib_right, hmasked, Nat.zero_or, Nat.and_assoc, Nat.and_self]

theorem and_modeBits {mode : Nat} (h : mode < 0o10000) : mode &&& 0o7777 = mode := by
  have hmod : mode &&& 0o7777 = mode % 0o10000 := Nat.and_two_pow_sub_one_eq_mod mode 12
  rw [hmod, Nat.mod_eq_of_lt h]

/-- An item's member is unpacked to the path that its names make. -/
theorem IntoEmpty.target {items : List Item} {item : Item}
    (given : IntoEmpty t dest base mode items) (hitem : item ∈ items) :
    target? dest item.member = some (dest.join (below item.names)) := by
  have hnames : ∀ name ∈ item.names, IsName name := fun name hname =>
    (given.tree.names item hitem name hname).1
  have hdotted : item.names = [] → item.dotted = true := fun hnil =>
    (given.tree.top item hitem hnil).2
  have hname : item.member.name = item.path :=
    Item.name_eq (given.writable item hitem)
      (Archive.nul_not_mem_path fun name hname => (given.tree.names item hitem name hname).2)
  rw [target?, hname, if_neg (Archive.path_ne_empty hnames hdotted),
    Archive.relativeParts?_path hnames hdotted]
  rfl

theorem IntoEmpty.member_of_file {items : List Item} {item : Item} {bits : Nat} {data : Bytes}
    (given : IntoEmpty t dest base mode items) (hitem : item ∈ items)
    (hcontent : item.content = .file bits data) :
    member now dest item.member =
      file now (dest.join (below item.names)) bits data.length ⟨data, none⟩ := by
  have hwritable := given.writable item hitem
  have hkind : item.member.kind = item.content.kind := Item.kind_eq
  have hsize := Item.size_eq hwritable.size
  have hmode := Item.mode_eq hcontent (hwritable.mode bits data hcontent)
  have hbody : item.member.body = ⟨data, none⟩ := by rw [Item.member, hcontent]; rfl
  rw [hcontent] at hkind hsize
  rw [member_of_target? (given.target hitem), hkind]
  simp only [Content.kind, hsize, hmode, hbody, Content.data]

section Step

variable {items before later : List Item} {item : Item} {front : List String} {name : String}
  (given : IntoEmpty t dest base mode items) (hlaid : Laid t base (newMode t mode) before now)
  (hitems : items = before ++ item :: later) (hshort : ShortEnough dest item)

include hlaid given in
theorem Laid.extends : Extends t now where
  kept loc e hat := by
    rw [hlaid.at?, laidOut_of_ne, hat]
    rintro other - hne rfl
    rw [given.empty _ (List.prefix_append base other.names) (by simpa using hne)] at hat
    cases hat
  caller := hlaid.caller

include given hitems in
theorem IntoEmpty.new : item.names ∉ before.map (·.names) := by
  have hdistinct := given.tree.distinct
  rw [hitems, List.map_append, List.nodup_append] at hdistinct
  exact fun hmem => hdistinct.2.2 _ hmem _ (List.mem_map_of_mem List.mem_cons_self) rfl

include given hlaid hitems in
/-- The directories above an item have been laid out, with the bit of the group. -/
theorem Laid.above {ahead : List String} (hahead : ahead <+: item.names.dropLast) :
    ∃ m, now.at? (base ++ ahead) = some (.dir m) ∧ m &&& 0o2000 = mode &&& 0o2000 := by
  rw [hlaid.at?]
  by_cases hnil : ahead = []
  · subst hnil
    refine ⟨mode, ?_, rfl⟩
    rw [List.append_nil, laidOut_of_ne, (FileTree.stat_spec given.dir).2]
    intro other _ hne hsame
    exact hne (by simpa using hsame)
  · obtain ⟨dir, hmem, hcontent, rfl⟩ := given.tree.ancestors hitems hahead hnil
    have hdistinct : (before.map (·.names)).Nodup := by
      have hall := given.tree.distinct
      rw [hitems, List.map_append, List.nodup_append] at hall
      exact hall.1
    refine ⟨newMode t mode, ?_, newMode_groupBit t mode⟩
    rw [laidOut_mem hdistinct hmem hnil, entry, hcontent]

include given hlaid hitems hshort in
theorem Laid.vacant (hnames : item.names = front ++ [name]) : Vacant now base front name where
  names n hn := by
    have hmem : n ∈ item.names := hnames ▸ hn
    exact ⟨(given.tree.names item (by simp [hitems]) n hmem).1, hshort.names n hmem⟩
  dirs ahead hahead := by
    have hup : ahead <+: item.names.dropLast := by rwa [hnames, List.dropLast_concat]
    obtain ⟨m, hat, -⟩ := hlaid.above given hitems hup
    exact ⟨m, hat⟩
  free := by
    have hnew := given.new hitems
    rw [List.append_assoc, ← hnames, hlaid.at?, laidOut, findSome?_of_new hnew, Option.none_or]
    refine given.empty _ (List.prefix_append base item.names) ?_
    simp [hnames]

include given hlaid hitems hshort in
/-- One member of a tree that was archived is laid out in its turn. -/
theorem member_laid :
    (member now dest item.member).result = .ok () ∧
      warnings (member now dest item.member).log = [] ∧
      Laid t base (newMode t mode) (before ++ [item])
        (now.applyAll (member now dest item.member).changes) := by
  have hmem : item ∈ items := by simp [hitems]
  have hwritable := given.writable item hmem
  have hnames := given.tree.names item hmem
  have htop := given.tree.top item hmem
  have hnow := (hlaid.extends given).stat given.dir
  have hcheck := FileTree.checkPath_join hnow hnames hshort.path
  have hkind : item.member.kind = item.content.kind := Item.kind_eq
  rcases List.eq_nil_or_concat item.names with hnil | ⟨front, name, hconcat⟩
  · obtain ⟨hcontent, -⟩ := htop hnil
    rw [member_of_target? (given.target hmem), hkind, hnil]
    rw [hnil] at hcheck
    have hstat := FileTree.stat_join_nil hnow hcheck
    simp only [hcontent, Content.kind, directory, hstat]
    refine ⟨trivial, rfl, fun loc => ?_, hlaid.caller⟩
    rw [laidOut_concat_top hnil]
    exact hlaid.at? loc
  · rw [List.concat_eq_append] at hconcat
    have hvacant := hlaid.vacant given hitems hshort hconcat
    have hne : item.names ≠ [] := by simp [hconcat]
    have hfront : front <+: item.names.dropLast := by simp [hconcat]
    have hplace : base ++ front ++ [name] = base ++ item.names := by
      rw [hconcat, List.append_assoc]
    have hroot : base ++ front ++ [name] ≠ [] := by simp
    rw [hconcat] at hcheck
    cases hcontent : item.content with
    | file bits data =>
      have hbits : bits &&& 0o7777 = bits := and_modeBits (hwritable.mode bits data hcontent)
      obtain ⟨hresult, hchanges, hlog⟩ :=
        file_of_open data hroot (hvacant.openForWriting hnow hcheck bits)
      rw [given.member_of_file hmem hcontent, hconcat]
      refine ⟨hresult, hlog, ?_⟩
      rw [hchanges]
      refine hlaid.concat hne (given.new hitems) (FileTree.caller_applyAll now _) fun loc => ?_
      rw [FileTree.at?_written data hroot (Or.inr rfl), hplace, entry, hcontent, hbits]
    | dir =>
      have hstat := hvacant.stat hnow hcheck
      have hmake := hvacant.makeDirs hnow hcheck 0o755
      rw [member_of_target? (given.target hmem), hkind, hcontent, hconcat]
      simp only [Content.kind, directory, hstat, hmake]
      refine ⟨trivial, rfl, ?_⟩
      refine hlaid.concat hne (given.new hitems) (FileTree.caller_applyAll now _) fun loc => ?_
      obtain ⟨m, hat, hm⟩ := hlaid.above given hitems hfront
      have hbit : now.groupBit (base ++ front) = mode &&& 0o2000 := by
        rw [FileTree.groupBit, hat, ← hm]
      rw [FileTree.applyAll_cons, FileTree.applyAll_nil, FileTree.at?_apply, hplace, entry,
        hcontent, hbit, hlaid.caller]
      by_cases hloc : loc = base ++ item.names
      · rw [if_pos hloc, if_pos ⟨hloc, by simp [hloc, hne]⟩]
        rfl
      · rw [if_neg hloc, if_neg fun h => hloc h.1]

end Step

/-- The members of an archived tree, from one of them on. -/
theorem members_laid {items : List Item} (given : IntoEmpty t dest base mode items)
    (hshort : ∀ item ∈ items, ShortEnough dest item) {before later : List Item}
    (hitems : items = before ++ later) (hlaid : Laid t base (newMode t mode) before now) :
    (members now dest (.ok ()) (later.map Item.member)).result = .ok () ∧
      warnings (members now dest (.ok ()) (later.map Item.member)).log = [] ∧
      Laid t base (newMode t mode) items
        (now.applyAll (members now dest (.ok ()) (later.map Item.member)).changes) := by
  induction later generalizing before now with
  | nil =>
    rw [List.append_nil] at hitems
    subst hitems
    exact ⟨rfl, rfl, hlaid⟩
  | cons item later ih =>
    have hmem : item ∈ items := by simp [hitems]
    obtain ⟨hresult, hlog, hnext⟩ := member_laid given hlaid hitems (hshort item hmem)
    obtain ⟨hresults, hlogs, hall⟩ := ih (by rw [hitems, List.append_assoc]; rfl) hnext
    rw [List.map_cons, members_cons_of_ok hresult, Effect.andThen]
    refine ⟨hresults, ?_, ?_⟩
    · simp [warnings_append, hlog, hlogs]
    · rwa [FileTree.applyAll_append]

end Unpack

end NodeLogs
