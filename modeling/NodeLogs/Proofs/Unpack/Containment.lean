import NodeLogs.Proofs.Archive.Parcels
import NodeLogs.Proofs.FileTree.Reaching
import NodeLogs.Proofs.Unpack.Member

/-!
Archives stay inside the directory that they are unpacked into, whatever is in them and however
often that is done. Outside of it nothing changes, except that directories which are missing on the
way to it may be made; inside of it there never is a link. A file stands at one place alone, as no
change gives it a second name.
-/

namespace NodeLogs.Unpack

open FileTree (Change SameLinks MakesOnWay)
open HostPath (IsName below)

/-- Changes that stay inside: each is at a place inside where no link is, or makes a directory at a
free place on the way. -/
def Stays (inside way : Location → Prop) : FileTree → List Change → Prop
  | _, [] => True
  | t, c :: cs =>
    ((inside c.place ∧ t.link? c.place = none) ∨
      (way c.place ∧ t.at? c.place = none ∧ ∃ mode, c = .makeDir c.place mode)) ∧
    Stays inside way (t.apply c) cs

namespace Stays

variable {inside way : Location → Prop} {t : FileTree} {cs ds : List Change}

theorem sameLinks (h : Stays inside way t cs) : SameLinks t (t.applyAll cs) := by
  induction cs generalizing t with
  | nil => exact .refl t
  | cons c cs ih =>
    have hlink : t.link? c.place = none := by
      rcases h.1 with ⟨-, hlink⟩ | ⟨-, hfree, -⟩
      · exact hlink
      · simp [FileTree.link?, hfree]
    exact (SameLinks.apply hlink).trans (ih h.2)

theorem append (h : Stays inside way t cs) (h' : Stays inside way (t.applyAll cs) ds) :
    Stays inside way t (cs ++ ds) := by
  induction cs generalizing t with
  | nil => exact h'
  | cons c cs ih => exact ⟨h.1, ih h.2 h'⟩

theorem take (h : Stays inside way t cs) (k : Nat) : Stays inside way t (cs.take k) := by
  induction cs generalizing t k with
  | nil => simpa using h
  | cons c cs ih =>
    cases k with
    | zero => trivial
    | succ k => exact ⟨h.1, ih h.2 k⟩

theorem of_places {loc : Location} (hloc : inside loc) (hlink : t.link? loc = none)
    (h : ∀ c ∈ cs, c.place = loc) : Stays inside way t cs := by
  induction cs generalizing t with
  | nil => trivial
  | cons c cs ih =>
    have hc := h c List.mem_cons_self
    refine ⟨Or.inl ⟨hc ▸ hloc, hc ▸ hlink⟩, ih ?_ fun d hd => h d (List.mem_cons_of_mem c hd)⟩
    rw [FileTree.link?_apply t c (hc ▸ hlink), hlink]

theorem of_makesOnWay {mode : Nat} {p : HostPath} (h : MakesOnWay mode p t cs)
    (hway : ∀ loc, t.Passes p loc → inside loc ∨ way loc) : Stays inside way t cs := by
  induction cs generalizing t with
  | nil => trivial
  | cons c cs ih =>
    obtain ⟨⟨loc, rfl, hpass, hfree, -⟩, hcs⟩ := h
    have hlink : t.link? loc = none := by simp [FileTree.link?, hfree]
    refine ⟨?_, ih hcs fun l hl => hway l ?_⟩
    · rcases hway loc hpass with hin | hon
      · exact Or.inl ⟨hin, hlink⟩
      · exact Or.inr ⟨hon, hfree, _, rfl⟩
    · exact ((SameLinks.apply (c := .makeDir loc _) hlink).passes_iff p l).mp hl

/-- What stays inside leaves all places outside as they were, directories on the way apart. -/
theorem outside (h : Stays inside way t cs) {loc : Location} (hloc : ¬ inside loc) :
    (t.applyAll cs).at? loc = t.at? loc ∨
      (t.at? loc = none ∧ way loc ∧ ∃ mode, (t.applyAll cs).at? loc = some (.dir mode)) := by
  induction cs generalizing t with
  | nil => exact Or.inl rfl
  | cons c cs ih =>
    rw [FileTree.applyAll_cons]
    by_cases hc : loc = c.place ∧ loc ≠ []
    · obtain ⟨rfl, hroot⟩ := hc
      rcases h.1 with ⟨hin, -⟩ | ⟨hon, hfree, mode, hmake⟩
      · exact absurd hin hloc
      · have hdir : (t.apply c).at? c.place = some (.dir mode) := by
          rw [FileTree.at?_apply, if_pos ⟨rfl, hroot⟩, hmake]
          rfl
        refine Or.inr ⟨hfree, hon, mode, ?_⟩
        rcases ih h.2 with hsame | ⟨hnone, -⟩
        · rw [hsame, hdir]
        · rw [hdir] at hnone
          cases hnone
    · have hsame : (t.apply c).at? loc = t.at? loc := by rw [FileTree.at?_apply, if_neg hc]
      rw [← hsame]
      exact ih h.2

end Stays

variable {t : FileTree} {dest : HostPath}

theorem member_stays (h : t.Unlinked dest) (m : Archive.Member) :
    Stays (t.Inside dest) (t.Passes dest) t (member t dest m).changes := by
  rcases member_acts t dest m with hnone | ⟨path, htarget, hacts⟩
  · rw [hnone]
    trivial
  obtain ⟨names, -, hnames, rfl⟩ := target?_spec htarget
  rcases hacts with ⟨-, size, mode, hfile⟩ | ⟨-, hdirectory⟩
  · rw [hfile]
    rcases file_places t (dest.join (below names)) mode size m.body with
      hnone | ⟨loc, hlead, hlink, hplaces⟩
    · rw [hnone]
      trivial
    · rw [FileTree.leadsTo?_join hnames h, Option.map_eq_some_iff] at hlead
      obtain ⟨base, hbase, rfl⟩ := hlead
      exact .of_places ⟨base, hbase, List.prefix_append base names⟩ hlink hplaces
  · rw [hdirectory]
    exact .of_makesOnWay (directory_changes t _) fun loc hpass =>
      FileTree.passes_join hnames h hpass

theorem members_stays (h : t.Unlinked dest) (ending : Except Archive.Error Unit)
    (ms : List Archive.Member) :
    Stays (t.Inside dest) (t.Passes dest) t (members t dest ending ms).changes := by
  induction ms generalizing t with
  | nil => trivial
  | cons m rest ih =>
    have hm := member_stays h m
    rw [members]
    split
    · exact hm
    · refine hm.append ?_
      -- What is inside and what is on the way depends on the links alone.
      have hsame := hm.sameLinks
      have hrest := ih (hsame.unlinked h)
      rwa [funext fun loc => propext (hsame.inside_iff dest loc),
        funext fun loc => propext (hsame.passes_iff dest loc)] at hrest

/-- What unpacking archives into one directory, one after the other, changes. -/
def changesOfAll (dest : HostPath) : FileTree → List ByteSource → List Change
  | _, [] => []
  | t, source :: rest =>
    (unpack source dest t).changes ++
      changesOfAll dest (t.applyAll (unpack source dest t).changes) rest

theorem changesOfAll_stays (h : t.Unlinked dest) (sources : List ByteSource) :
    Stays (t.Inside dest) (t.Passes dest) t (changesOfAll dest t sources) := by
  induction sources generalizing t with
  | nil => trivial
  | cons source rest ih =>
    have hfirst : Stays (t.Inside dest) (t.Passes dest) t (unpack source dest t).changes :=
      members_stays h _ _
    refine hfirst.append ?_
    have hsame := hfirst.sameLinks
    have hrest := ih (hsame.unlinked h)
    rwa [funext fun loc => propext (hsame.inside_iff dest loc),
      funext fun loc => propext (hsame.passes_iff dest loc)] at hrest

/-- Up to a member that is refused, all is as if the archive had ended there. -/
theorem members_refused {before after : List Archive.Member} {m : Archive.Member}
    {ending : Except Archive.Error Unit}
    (hbefore : (members t dest (.ok ()) before).result = .ok ()) (hm : Archive.Unsafe m.name) :
    members t dest ending (before ++ m :: after) =
      (members t dest (.ok ()) before).andThen
        (failed [] (.ofCause (.unsafeName m.name))) := by
  rw [members_append hbefore, members, member_refused hm]
  rfl

/-- What a tree may become while archives are unpacked into a directory. -/
structure Contained (t : FileTree) (dest : HostPath) (now : FileTree) : Prop where
  inside : ∀ loc, now.Inside dest loc ↔ t.Inside dest loc
  unlinked : now.Unlinked dest
  /-- Directories that were missing on the way may have been made. -/
  outside : ∀ loc, ¬ t.Inside dest loc →
    now.at? loc = t.at? loc ∨
      (t.at? loc = none ∧ t.Passes dest loc ∧ ∃ mode, now.at? loc = some (.dir mode))

theorem Stays.contained {cs : List Change} (hstays : Stays (t.Inside dest) (t.Passes dest) t cs)
    (h : t.Unlinked dest) : Contained t dest (t.applyAll cs) where
  inside := hstays.sameLinks.inside_iff dest
  unlinked := hstays.sameLinks.unlinked h
  outside _ hloc := hstays.outside hloc

/-- At every moment of unpacking archives into a directory, nothing outside of it has changed but
for directories that were missing on the way to it, and no link is inside of it. A member whose name
leads out of it is refused, and neither it nor any member after it changes anything. -/
theorem unpacking_stays_inside (t : FileTree) (dest : HostPath) (h : t.Unlinked dest)
    (sources : List ByteSource) :
    (∀ moment, Contained t dest (t.applyAll ((changesOfAll dest t sources).take moment))) ∧
    ∀ (now : FileTree) (source : ByteSource) (before after : List Archive.Member)
      (m : Archive.Member), (Archive.list source).members = before ++ m :: after →
      (members now dest (.ok ()) before).result = .ok () → Archive.Unsafe m.name →
      (unpack source dest now).result = .error (.ofCause (.unsafeName m.name)) ∧
      (unpack source dest now).changes = (members now dest (.ok ()) before).changes := by
  constructor
  · intro moment
    exact ((changesOfAll_stays h sources).take moment).contained h
  · intro now source before after m hlist hbefore hm
    rw [unpack, hlist, members_refused hbefore hm]
    exact ⟨rfl, List.append_nil _⟩

/-! A directory behind a link, and a file that is to get out of it -/

def behindLink : FileTree :=
  ⟨{}, [(["var"], .dir 0o755), (["var", "logs"], .dir 0o755), (["latest"], .symlink "/var")]⟩

def fileInside : Archive.Parcel := .ofFile (Utf8.encode "f") (Utf8.encode "hi")

def fileOutside : Archive.Parcel := .ofFile (Utf8.encode "../s") (Utf8.encode "no")

def outward : ByteSource := .ofBytes ([fileInside, fileOutside].flatMap Archive.Parcel.bytes)

theorem list_outward :
    Archive.list outward = ⟨[fileInside.member, fileOutside.member], .ok ()⟩ := by
  have hcomplete : ∀ p ∈ [fileInside, fileOutside], p.Complete := by
    simp only [List.mem_cons, List.not_mem_nil, or_false, forall_eq_or_imp, forall_eq]
    exact ⟨Archive.Parcel.ofFile_complete (by decide +kernel),
      Archive.Parcel.ofFile_complete (by decide +kernel)⟩
  have hbytes : outward.bytes = [fileInside, fileOutside].flatMap Archive.Parcel.bytes ++ [] := by
    simp [outward, ByteSource.bytes, ByteSource.ofBytes]
  refine Archive.list_parcels hcomplete hbytes .stream ?_
  simp only [hbytes, fileInside, fileOutside, List.append_nil, List.flatMap_cons, List.flatMap_nil,
    List.length_append, Archive.Parcel.length_ofFile, Archive.length_padded]
  decide +kernel

theorem fileInside_name : fileInside.member.name = "f" := by
  rw [Archive.Member.name, fileInside, Archive.Parcel.ofFile_path (by decide) (by decide),
    Utf8.decodeLossy_encode]

theorem fileOutside_name : fileOutside.member.name = "../s" := by
  rw [Archive.Member.name, fileOutside, Archive.Parcel.ofFile_path (by decide) (by decide),
    Utf8.decodeLossy_encode]

theorem stat_behindLink :
    behindLink.stat ⟨"/latest/logs"⟩ = .ok (["var", "logs"], .dir 0o755) := by
  refine FileTree.stat_of_walkParts (FileTree.checkPath_eq_ok.mpr (by decide)) ?_
  have hlatest : behindLink.at? ([] ++ ["latest"]) = some (.symlink "/var") := by decide
  have hvar : behindLink.at? ([] ++ ["var"]) = some (.dir 0o755) := by decide
  have hlogs : behindLink.at? (["var"] ++ ["logs"]) = some (.dir 0o755) := by decide
  have hparts : HostPath.parts ⟨"/var"⟩ = ["", "var"] := by decide
  have hrooted : HostPath.isRooted ⟨"/var"⟩ = true := by decide
  change (behindLink.walk true 40 [] ["", "latest", "logs"]).mapError _ = _
  rw [FileTree.walk_step_idle _ _ _ _ (Or.inl rfl), FileTree.walk, if_neg (by decide),
    if_neg (by decide), if_neg (by decide), hlatest]
  simp only [List.cons_ne_nil, false_and, if_false, hparts, hrooted, if_true]
  rw [if_neg (by decide), List.cons_append, FileTree.walk_step_idle _ _ _ _ (Or.inl rfl),
    List.cons_append, FileTree.walk_step_dir (by decide) (by decide) (by decide) hvar (by simp),
    List.nil_append, List.nil_append,
    FileTree.walk_last (by decide) (by decide) (by decide) hlogs (by simp)]
  rfl

theorem behindLink_unlinked : behindLink.Unlinked ⟨"/latest/logs"⟩ := by
  rintro loc ⟨base, hbase, more, rfl⟩
  obtain rfl : ["var", "logs"] = base :=
    Option.some.inj ((FileTree.stat_spec stat_behindLink).1.symm.trans hbase)
  cases more <;> simp [behindLink, FileTree.link?, FileTree.at?, List.lookup_cons]

theorem open_inside :
    behindLink.openForWriting 0o644 ⟨"/latest/logs/f"⟩ =
      .ok (["var", "logs", "f"], .createFile ["var", "logs", "f"] 0o644) := by
  have hvacant : behindLink.Vacant ["var", "logs"] [] "f" := by
    refine ⟨?_, ?_, by decide⟩
    · simp only [List.nil_append, List.mem_singleton, forall_eq]
      decide
    · intro ahead hahead
      rw [List.prefix_nil.mp hahead]
      exact ⟨0o755, by decide⟩
  have hpath : HostPath.join ⟨"/latest/logs"⟩ (below ["f"]) = ⟨"/latest/logs/f"⟩ := by
    decide +kernel
  have hopen := hvacant.openForWriting stat_behindLink
    (by rw [List.nil_append, hpath]; exact FileTree.checkPath_eq_ok.mpr (by decide)) 0o644
  rwa [List.nil_append, hpath] at hopen

theorem fileInside_unpacked :
    (member behindLink ⟨"/latest/logs"⟩ fileInside.member).result = .ok () ∧
      (member behindLink ⟨"/latest/logs"⟩ fileInside.member).changes =
        [.createFile ["var", "logs", "f"] 0o644, .append ["var", "logs", "f"] (Utf8.encode "hi"),
          .setMode ["var", "logs", "f"] 0o644] := by
  have htarget : target? ⟨"/latest/logs"⟩ fileInside.member = some ⟨"/latest/logs/f"⟩ := by
    rw [target?, fileInside_name]
    decide +kernel
  rw [member_of_file htarget Archive.Parcel.ofFile_kind
    (Archive.Parcel.ofFile_size (by decide +kernel)) Archive.Parcel.ofFile_mode, fileInside,
    Archive.Parcel.ofFile_member]
  have hfree : behindLink.at? ["var", "logs", "f"] = none := by decide
  have hdevice (d : Device) : behindLink.at? ["var", "logs", "f"] ≠ some (.device d) := by
    rw [hfree]
    exact (Option.some_ne_none _).symm
  refine ⟨file_succeeds _ open_inside hdevice, ?_⟩
  rw [file_changes_of_open open_inside]
  rfl

/-- A file is written behind the link, and one whose name leads out of there ends the unpacking. -/
theorem unpacking_behind_link_stays_inside :
    behindLink.Unlinked ⟨"/latest/logs"⟩ ∧
      (∀ moment, Contained behindLink ⟨"/latest/logs"⟩ (behindLink.applyAll
        ((changesOfAll ⟨"/latest/logs"⟩ behindLink [outward, outward]).take moment))) ∧
      (Archive.list outward).members = [fileInside.member] ++ fileOutside.member :: [] ∧
      (members behindLink ⟨"/latest/logs"⟩ (.ok ()) [fileInside.member]).result = .ok () ∧
      Archive.Unsafe fileOutside.member.name ∧
      (unpack outward ⟨"/latest/logs"⟩ behindLink).result =
        .error (.ofCause (.unsafeName "../s")) ∧
      (unpack outward ⟨"/latest/logs"⟩ behindLink).changes =
        [.createFile ["var", "logs", "f"] 0o644, .append ["var", "logs", "f"] (Utf8.encode "hi"),
          .setMode ["var", "logs", "f"] 0o644] := by
  obtain ⟨hfirst, hchanges⟩ := fileInside_unpacked
  have hlist : (Archive.list outward).members =
      [fileInside.member] ++ fileOutside.member :: [] := by
    rw [list_outward]
    rfl
  have hbefore : members behindLink ⟨"/latest/logs"⟩ (.ok ()) [fileInside.member] =
      (member behindLink ⟨"/latest/logs"⟩ fileInside.member).andThen ⟨[], [], .ok ()⟩ :=
    members_cons_of_ok hfirst
  have hresult : (members behindLink ⟨"/latest/logs"⟩ (.ok ()) [fileInside.member]).result =
      .ok () := by
    rw [hbefore]
    rfl
  have hunsafe : Archive.Unsafe fileOutside.member.name := by
    rw [fileOutside_name]
    exact Or.inr (by decide)
  obtain ⟨hmoments, hrefused⟩ :=
    unpacking_stays_inside behindLink ⟨"/latest/logs"⟩ behindLink_unlinked [outward, outward]
  obtain ⟨herror, hsame⟩ := hrefused behindLink outward [fileInside.member] [] fileOutside.member
    hlist hresult hunsafe
  refine ⟨behindLink_unlinked, hmoments, hlist, hresult, hunsafe, ?_, ?_⟩
  · rw [herror, fileOutside_name]
  · rw [hsame, hbefore, Effect.andThen, List.append_nil, hchanges]

end NodeLogs.Unpack
