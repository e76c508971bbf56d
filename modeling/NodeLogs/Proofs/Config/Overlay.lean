import Mathlib.Data.List.Nodup
import Mathlib.Data.List.Perm.Basic
import NodeLogs.Proofs.Config.RoundTrip

/-!
Configurations that give only some fields. Each field that is given has the value that is given for
it, in whatever order they come, and each other one has its standard value; the first entry that
names no field, or one that was given before, is what the reading fails for.
-/

namespace NodeLogs.Config

open Yaml (IsKey Nodes lineCount)
open Yaml.Writing (entries)

/-- A file that gives these values, each written as it would be in a file that was saved. -/
def textOf (pairs : List (String × String)) : String := String.ofList (entries pairs)

/-- The names of the fields that are given. -/
def names (pairs : List (String × String)) : List String := pairs.map (·.1)

/-- Every entry names a field, and none that was given before. -/
structure Sound (pairs : List (String × String)) : Prop where
  known : ∀ name ∈ names pairs, name ∈ fieldNames
  once : (names pairs).Nodup

theorem Sound.nil : Sound [] := ⟨nofun, .nil⟩

/-- What is wrong with an entry behind others that are sound. -/
def Offends (before : List (String × String)) (key : String) : Prop :=
  key ∉ fieldNames ∨ key ∈ names before

theorem names_concat (before : List (String × String)) (pair : String × String) :
    names (before ++ [pair]) = names before ++ [pair.1] := List.map_append

theorem Sound.concat {before : List (String × String)} {pair : String × String} (h : Sound before)
    (hpair : ¬ Offends before pair.1) : Sound (before ++ [pair]) := by
  obtain ⟨hknown, hnew⟩ := not_or.mp hpair
  constructor
  · intro name hname
    rw [names_concat] at hname
    rcases List.mem_append.mp hname with hname | hname
    · exact h.known name hname
    · rw [List.mem_singleton.mp hname]
      exact Decidable.not_not.mp hknown
  · rw [names_concat]
    refine List.nodup_append.mpr ⟨h.once, List.nodup_singleton _, ?_⟩
    intro name hname name' hname'
    rw [List.mem_singleton.mp hname']
    rintro rfl
    exact hnew hname

theorem Offends.not_sound {before after : List (String × String)} {key value : String}
    (h : Offends before key) : ¬ Sound (before ++ (key, value) :: after) := by
  rintro ⟨hknown, honce⟩
  rw [names, List.map_append, List.map_cons] at hknown honce
  rcases h with hunknown | hagain
  · exact hunknown (hknown key (List.mem_append_right _ List.mem_cons_self))
  · exact (List.nodup_append.mp honce).2.2 key hagain key List.mem_cons_self rfl

/-- Entries are sound, or there is a first one that is not. -/
theorem sound_or_offends (pairs : List (String × String)) :
    Sound pairs ∨ ∃ before key value after, pairs = before ++ (key, value) :: after ∧ Sound before ∧
      Offends before key := by
  have hfrom (before after : List (String × String)) (h : Sound before) :
      Sound (before ++ after) ∨ ∃ before' key value after',
        before ++ after = before' ++ (key, value) :: after' ∧ Sound before' ∧
          Offends before' key := by
    induction after generalizing before with
    | nil => exact .inl (by rwa [List.append_nil])
    | cons pair after ih =>
      by_cases hpair : Offends before pair.1
      · exact .inr ⟨before, pair.1, pair.2, after, rfl, h, hpair⟩
      · have hnext := ih (before ++ [pair]) (h.concat hpair)
        rwa [List.append_assoc, List.singleton_append] at hnext
  exact hfrom [] pairs .nil

/-! What fields come to -/

section

variable {c : Config} {name value : String}

theorem mem_fields {field : String × String} : field ∈ c.fields ↔
    field = ("cluster", c.cluster) ∨ field = ("provider", c.provider) ∨
      field = ("remote_log_dir", c.remoteLogDir) ∨ field = ("version_file", c.versionFile) := by
  simp [fields]

theorem mem_fieldNames : name ∈ fieldNames ↔
    name = "cluster" ∨ name = "provider" ∨ name = "remote_log_dir" ∨ name = "version_file" := by
  simp [fieldNames, fields]

theorem mem_fields_set (h : name ∈ fieldNames) : (name, value) ∈ (c.set name value).fields := by
  rcases mem_fieldNames.mp h with rfl | rfl | rfl | rfl <;> simp [set, fields]

theorem mem_fields_set_of_ne {field : String × String} (hfield : field ∈ c.fields)
    (hne : field.1 ≠ name) : field ∈ (c.set name value).fields := by
  rcases mem_fields.mp hfield with rfl | rfl | rfl | rfl <;> unfold set <;> split <;>
    first | exact absurd rfl hne | simp [fields]

theorem set_comm {name' value' : String} (hne : name ≠ name') :
    (c.set name value).set name' value' = (c.set name' value').set name value := by
  unfold set
  split <;> split <;> first | rfl | exact absurd rfl hne

variable {pairs : List (String × String)}

theorem mem_fields_setAll_of_not_given {field : String × String} (hfield : field ∈ c.fields)
    (hother : field.1 ∉ names pairs) : field ∈ (c.setAll pairs).fields := by
  induction pairs generalizing c with
  | nil => exact hfield
  | cons pair pairs ih =>
    rw [names, List.map_cons, List.mem_cons, not_or] at hother
    exact ih (mem_fields_set_of_ne hfield hother.1) hother.2

theorem mem_fields_setAll (h : Sound pairs) : ∀ pair ∈ pairs, pair ∈ (c.setAll pairs).fields := by
  obtain ⟨hknown, honce⟩ := h
  induction pairs generalizing c with
  | nil => nofun
  | cons first pairs ih =>
    rw [names, List.map_cons, List.nodup_cons] at honce
    have hfirst := hknown first.1 List.mem_cons_self
    refine List.forall_mem_cons.mpr ⟨?_, ?_⟩
    · exact mem_fields_setAll_of_not_given (c := c.set first.1 first.2)
        (mem_fields_set hfirst) honce.1
    · exact ih (fun name hname => hknown name (List.mem_cons_of_mem _ hname)) honce.2

/-- The order of the fields makes no difference. -/
theorem setAll_perm {other : List (String × String)} (hperm : other.Perm pairs)
    (h : (names other).Nodup) : c.setAll other = c.setAll pairs := by
  refine hperm.foldl_eq' (fun first hfirst second hsecond c => ?_) c
  by_cases hsame : first.1 = second.1
  · rw [List.inj_on_of_nodup_map h hfirst hsecond hsame]
  · exact set_comm hsame

theorem Sound.perm {other : List (String × String)} (h : Sound pairs) (hperm : other.Perm pairs) :
    Sound other := by
  have hnames : (names other).Perm (names pairs) := hperm.map _
  exact ⟨fun name hname => h.known name (hnames.mem_iff.mp hname), hnames.nodup_iff.mpr h.once⟩

end

/-! What is read -/

theorem lineCount_entries_cons (key value : String) (rest : List (String × String)) :
    lineCount (entries ((key, value) :: rest)) =
      lineCount (Yaml.Writing.entry key.toList value.toList) + lineCount (entries rest) := by
  rw [entries, List.flatMap_cons, Yaml.lineCount_append]
  rfl

/-- What stands behind sound entries is taken when they have been read. -/
theorem readFields_append (d : Yaml.Document) (root : Yaml.Node) (seen : List String) (c : Config)
    {before after : List (String × String)} {line : Nat} {nodes : List Yaml.Node}
    (hnodes : Nodes line (before ++ after) nodes)
    (hknown : ∀ name ∈ names before, name ∈ fieldNames)
    (hnew : ∀ name ∈ names before, name ∉ seen) (honce : (names before).Nodup) :
    ∃ nodes', Nodes (line + lineCount (entries before)) after nodes' ∧
      readFields d root seen c nodes =
        readFields d root ((names before).reverse ++ seen) (c.setAll before) nodes' := by
  induction before generalizing line nodes seen c with
  | nil => exact ⟨nodes, hnodes, rfl⟩
  | cons pair before ih =>
    cases hnodes with
    | @cons _ nodes key value _ q style hrest =>
      rw [names, List.map_cons, List.nodup_cons] at honce
      obtain ⟨nodes', hnodes', hread⟩ := ih (key :: seen) (c.set key value) hrest
        (fun name hname => hknown name (List.mem_cons_of_mem key hname))
        (fun name hname hseen => by
          rcases List.mem_cons.mp hseen with rfl | hseen
          · exact honce.1 hname
          · exact hnew name (List.mem_cons_of_mem key hname) hseen) honce.2
      refine ⟨nodes', ?_, ?_⟩
      · rwa [lineCount_entries_cons, ← Nat.add_assoc]
      · rw [readFields_pair, if_neg (not_not_intro (hknown key List.mem_cons_self)),
          if_neg (hnew key List.mem_cons_self), hread, names, names, List.map_cons,
          List.reverse_cons, List.append_assoc]
        rfl

/-- What a text is read as that gives fields. -/
theorem ofText_textOf {pairs : List (String × String)} (hsome : pairs ≠ [])
    (hkeys : ∀ pair ∈ pairs, IsKey pair.1) :
    (Sound pairs → ofText (textOf pairs) = .ok (standard.setAll pairs)) ∧
    ∀ before key value after, pairs = before ++ (key, value) :: after → Sound before →
      (key ∉ fieldNames →
        ofText (textOf pairs) = .error (.unknownField key ⟨lineCount (entries before), 0⟩)) ∧
      (key ∈ fieldNames → key ∈ names before →
        ofText (textOf pairs) = .error (.repeatedField key .start)) := by
  obtain ⟨nodes, hnodes, hread⟩ := ofText_entries hsome hkeys
  rw [textOf, hread]
  constructor
  · intro hsound
    have houtlook : Yaml.Outlook.last ≠ .broken := by decide
    exact readFields_of_nodes hnodes houtlook
      (fun pair hpair => hsound.known _ (List.mem_map_of_mem hpair)) (fun _ _ => List.not_mem_nil)
      hsound.once
  · rintro before key value after rfl hsound
    obtain ⟨nodes', hnodes', hread'⟩ := readFields_append
      ⟨⟨.start, none, none, .map⟩ :: nodes, .last⟩ ⟨.start, none, none, .map⟩ [] standard hnodes
      hsound.known (fun _ _ => List.not_mem_nil) hsound.once
    rw [hread', List.append_nil]
    cases hnodes' with
    | cons q style _ =>
      rw [readFields_pair, Nat.zero_add]
      constructor
      · exact fun hunknown => if_pos hunknown
      · intro hknown hagain
        rw [if_neg (not_not_intro hknown), if_pos (List.mem_reverse.mpr hagain)]

variable {σ : Type} {p : HostPath} {h : Host σ}

/-- What is wrong with the text of a file is told in one context, and nothing else is done. -/
theorem load_of_error {loc : Location} {mode : Nat} {text : String} {e : Error}
    (hstat : h.tree.stat p = .ok (loc, .file mode (Utf8.encode text)))
    (he : ofText text = .error e) :
    load p h =
      (.error ((Failure.ofCause (.config e)).context "Failed to parse YAML config"), h) := by
  simp only [load, bind, StateT.bind, get, getThe, MonadStateOf.get, StateT.get, pure]
  rw [readText_of_stat hstat]
  simp only [he]
  rfl

/-- Two fields in another order than they are saved in, with values that are written in other
styles. -/
def someFields : List (String × String) := [("provider", "two\nlines"), ("cluster", "null")]

/-- A host where they are in a file. -/
def someHost : Host Unit :=
  ⟨FileTree.bare.applyAll (FileTree.bare.writeFile ⟨"/c.yaml"⟩ (Utf8.encode (textOf someFields))).1,
    [], ()⟩

end NodeLogs.Config
