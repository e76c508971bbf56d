import NodeLogs.Config.Text
import NodeLogs.Proofs.Yaml.Document

/-!
The fields of a configuration from the keys and values of a map. Each pair is taken in turn: it must
name a field, one that was not given before, and then the field has its value.
-/

namespace NodeLogs.Config

open Yaml (Document Node Nodes IsKey)

/-- The values of these fields in place of the old ones. -/
def setAll (c : Config) (pairs : List (String × String)) : Config :=
  pairs.foldl (fun c pair => c.set pair.1 pair.2) c

theorem isKey_of_mem_fieldNames {name : String} (h : name ∈ fieldNames) : IsKey name := by
  have hnames : fieldNames = ["cluster", "provider", "remote_log_dir", "version_file"] := rfl
  rw [hnames] at h
  simp only [List.mem_cons, List.not_mem_nil, or_false] at h
  rcases h with rfl | rfl | rfl | rfl <;> exact .of_all (by decide) (by decide) (by decide)

variable {d : Document} {root : Node} {seen : List String} {c : Config}

/-- How a key and its value are taken. -/
theorem readFields_pair (d : Document) (root : Node) (seen : List String) (c : Config)
    (p q : Text.Position) (style : Yaml.Style) (key value : String) (nodes : List Node) :
    readFields d root seen c (Node.ofScalar p .plain key :: Node.ofScalar q style value :: nodes) =
      if key ∉ fieldNames then .error (.unknownField key p)
      else if key ∈ seen then .error (.repeatedField key root.position)
      else readFields d root (key :: seen) (c.set key value) nodes := by
  rw [readFields]
  rfl

/-- Fields that are each given once have the values that are given. -/
theorem readFields_of_nodes {line : Nat} {pairs : List (String × String)} {nodes : List Node}
    (h : Nodes line pairs nodes) (hd : d.outlook ≠ .broken)
    (hknown : ∀ pair ∈ pairs, pair.1 ∈ fieldNames) (hnew : ∀ pair ∈ pairs, pair.1 ∉ seen)
    (honce : (pairs.map (·.1)).Nodup) :
    readFields d root seen c nodes = .ok (c.setAll pairs) := by
  induction h generalizing seen c with
  | nil => rw [readFields, if_neg hd]; rfl
  | @cons pairs nodes key value line q style _ ih =>
    have hkey := hknown (key, value) List.mem_cons_self
    have hfresh := hnew (key, value) List.mem_cons_self
    rw [List.map_cons, List.nodup_cons] at honce
    rw [readFields_pair, if_neg (not_not_intro hkey), if_neg hfresh]
    apply ih
    · exact fun pair hpair => hknown pair (List.mem_cons_of_mem _ hpair)
    · intro pair hpair hseen
      rcases List.mem_cons.mp hseen with heq | hseen
      · exact honce.1 (List.mem_map.mpr ⟨pair, hpair, heq⟩)
      · exact hnew pair (List.mem_cons_of_mem _ hpair) hseen
    · exact honce.2

/-- The text of a map is read as its fields. -/
theorem ofText_entries {pairs : List (String × String)} (hsome : pairs ≠ [])
    (hkeys : ∀ pair ∈ pairs, IsKey pair.1) :
    ∃ nodes, Nodes 0 pairs nodes ∧ ofText (String.ofList (Yaml.Writing.entries pairs)) =
      readFields ⟨⟨.start, none, none, .map⟩ :: nodes, .last⟩ ⟨.start, none, none, .map⟩ [] standard
        nodes := by
  obtain ⟨nodes, hnodes, hread⟩ := Document.ofText_entries hsome hkeys
  refine ⟨nodes, hnodes, ?_⟩
  rw [ofText, String.toList_ofList, hread]
  cases hfields : readFields ⟨⟨.start, none, none, .map⟩ :: nodes, .last⟩
      ⟨.start, none, none, .map⟩ [] standard nodes with
  | error e => simp [ofDocument, ofRoot, hfields, bind, Except.bind]
  | ok c => simp [ofDocument, ofRoot, hfields, bind, Except.bind, pure, Except.pure]

/-- What is written as text is read as it was. -/
theorem ofText_toText (c : Config) : ofText c.toText = .ok c := by
  have hall : c.fields.map (·.1) = fieldNames := rfl
  have hnames : ∀ pair ∈ c.fields, pair.1 ∈ fieldNames := by
    intro pair hpair
    rw [← hall]
    exact List.mem_map_of_mem hpair
  have hsome : c.fields ≠ [] := List.cons_ne_nil _ _
  have honce : (c.fields.map (·.1)).Nodup := by
    rw [hall]
    decide
  obtain ⟨nodes, hnodes, hread⟩ := ofText_entries hsome
    fun pair hpair => isKey_of_mem_fieldNames (hnames pair hpair)
  have houtlook : Yaml.Outlook.last ≠ .broken := by decide
  rw [toText, hread]
  exact readFields_of_nodes hnodes houtlook hnames (fun _ _ => List.not_mem_nil) honce

end NodeLogs.Config
