import NodeLogs.Proofs.FileTree.Writing
import NodeLogs.Proofs.Unpack.Failing

/-!
What unpacking never takes away, in any tree and whether or not it succeeds. Each entry that was
there stays, a file perhaps with other data; no link comes or goes; and a place that no file is
written to stays as it was, or becomes a directory if nothing was there.
-/

namespace NodeLogs

theorem FileTree.SameLinks.of_places {t : FileTree} {cs : List FileTree.Change} {loc : Location}
    (hlink : t.link? loc = none) (h : ∀ c ∈ cs, c.place = loc) : SameLinks t (t.applyAll cs) := by
  induction cs generalizing t with
  | nil => exact .refl t
  | cons c cs ih =>
    have hfirst : SameLinks t (t.apply c) := .apply (h c List.mem_cons_self ▸ hlink)
    exact hfirst.trans (ih (hfirst.1 ▸ hlink) fun d hd => h d (List.mem_cons_of_mem c hd))

namespace Unpack

open FileTree (Grows SameLinks)

variable {t : FileTree} {dest path : HostPath} {loc : Location} {m : Archive.Member}
  {ms : List Archive.Member} {ending : Except Archive.Error Unit}

theorem file_grows (t : FileTree) (path : HostPath) (mode expected : Nat) (body : Archive.Body) :
    Grows t (t.applyAll (file t path mode expected body).changes) := by
  rcases file_changes t path mode expected body with hnone | ⟨loc, opened, hopen, -⟩
  · rw [hnone]
    exact .refl t
  · obtain ⟨hfilled, hothers⟩ := file_leaves expected body hopen
    refine .of_at? (fun l => ?_) (FileTree.caller_applyAll t _)
    by_cases hl : l = loc
    · subst hl
      rcases hfilled with hfile | ⟨d, hbefore, hafter⟩
      · rcases (FileTree.openForWriting_spec hopen).2 with
          ⟨-, ⟨m, old, hold, -⟩ | ⟨d, hold⟩⟩ | ⟨-, hfree, -⟩
        · exact Or.inr (Or.inr ⟨⟨m, old, hold⟩, _, _, hfile⟩)
        · rw [file_on_device expected body hopen hold]
          exact Or.inl rfl
        · exact Or.inr (Or.inl hfree)
      · exact Or.inl (hafter.trans hbefore.symm)
    · exact Or.inl (hothers l hl)

theorem directory_grows (t : FileTree) (path : HostPath) :
    Grows t (t.applyAll (directory t path).changes) :=
  .of_at? (fun l => ((directory_changes t path).at? l).imp_right fun hnew => Or.inl hnew.1)
    (FileTree.caller_applyAll t _)

theorem member_grows (t : FileTree) (dest : HostPath) (m : Archive.Member) :
    Grows t (t.applyAll (member t dest m).changes) := by
  rcases member_acts t dest m with hnone | ⟨path, -, ⟨-, size, mode, hfile⟩ | ⟨-, hdirectory⟩⟩
  · rw [hnone]
    exact .refl t
  · rw [hfile]
    exact file_grows t path mode size m.body
  · rw [hdirectory]
    exact directory_grows t path

theorem member_sameLinks (t : FileTree) (dest : HostPath) (m : Archive.Member) :
    SameLinks t (t.applyAll (member t dest m).changes) := by
  rcases member_acts t dest m with hnone | ⟨path, -, ⟨-, size, mode, hfile⟩ | ⟨-, hdirectory⟩⟩
  · rw [hnone]
    exact .refl t
  · rw [hfile]
    rcases file_places t path mode size m.body with hnone | ⟨loc, -, hlink, hplaces⟩
    · rw [hnone]
      exact .refl t
    · exact .of_places hlink hplaces
  · rw [hdirectory]
    exact (directory_changes t path).sameLinks

/-- What each member keeps of the tree before it, unpacking all of them keeps. -/
theorem members_keep {Keeps : FileTree → FileTree → Prop} (refl : ∀ t, Keeps t t)
    (trans : ∀ {t t' t''}, Keeps t t' → Keeps t' t'' → Keeps t t'')
    (step : ∀ t m, Keeps t (t.applyAll (member t dest m).changes)) (t : FileTree)
    (ending : Except Archive.Error Unit) (ms : List Archive.Member) :
    Keeps t (t.applyAll (members t dest ending ms).changes) := by
  induction ms generalizing t with
  | nil => exact refl t
  | cons m rest ih =>
    rw [members]
    split
    · exact step t m
    · rw [FileTree.applyAll_append]
      exact trans (step t m) (ih _)

theorem members_grows (t : FileTree) (dest : HostPath) (ending : Except Archive.Error Unit)
    (ms : List Archive.Member) : Grows t (t.applyAll (members t dest ending ms).changes) :=
  members_keep Grows.refl Grows.trans (fun t m => member_grows t dest m) t ending ms

theorem members_sameLinks (t : FileTree) (dest : HostPath) (ending : Except Archive.Error Unit)
    (ms : List Archive.Member) : SameLinks t (t.applyAll (members t dest ending ms).changes) :=
  members_keep SameLinks.refl SameLinks.trans (fun t m => member_sameLinks t dest m) t ending ms

/-- A place that no file is written to. -/
def Unwritten (loc : Location) (t after : FileTree) : Prop :=
  after.at? loc = t.at? loc ∨ t.at? loc = none ∧ after.IsDir loc

theorem Unwritten.trans {t t' t'' : FileTree} (h : Unwritten loc t t') (h' : Unwritten loc t' t'') :
    Unwritten loc t t'' := by
  rcases h' with hsame' | ⟨hfree', hdir'⟩
  · exact h.imp hsame'.trans fun ⟨hfree, mode, hmode⟩ => ⟨hfree, mode, hsame'.trans hmode⟩
  · rcases h with hsame | ⟨-, hdir⟩
    · exact Or.inr ⟨hsame ▸ hfree', hdir'⟩
    · exact absurd hdir (FileTree.not_isDir_of_free hfree')

theorem member_unwritten (hother : writesAt? t dest m ≠ some loc) :
    Unwritten loc t (t.applyAll (member t dest m).changes) := by
  rcases member_acts t dest m with
    hnone | ⟨path, htarget, ⟨hkind, size, mode, hfile⟩ | ⟨-, hdirectory⟩⟩
  · rw [hnone]
    exact Or.inl rfl
  · rw [hfile]
    rcases file_places t path mode size m.body with hnone | ⟨place, hlead, -, hplaces⟩
    · rw [hnone]
      exact Or.inl rfl
    · refine Or.inl (FileTree.at?_applyAll_of_places ?_)
      intro c hc hplace
      rw [writesAt?, if_pos hkind, htarget, Option.bind_some, hlead, ← hplaces c hc,
        hplace] at hother
      exact hother rfl
  · rw [hdirectory]
    rcases (directory_changes t path).at? loc with hsame | ⟨hfree, -, hdir⟩
    · exact Or.inl hsame
    · exact Or.inr ⟨hfree, hdir⟩

theorem members_unwritten (hothers : ∀ m ∈ ms, writesAt? t dest m ≠ some loc) :
    Unwritten loc t (t.applyAll (members t dest ending ms).changes) := by
  induction ms generalizing t with
  | nil => exact Or.inl rfl
  | cons m rest ih =>
    have hfirst := member_unwritten (hothers m List.mem_cons_self)
    rw [members]
    split
    · exact hfirst
    · rw [FileTree.applyAll_append]
      refine hfirst.trans (ih fun m' hm' => ?_)
      rw [writesAt?_congr (member_sameLinks t dest m)]
      exact hothers m' (List.mem_cons_of_mem m hm')

end Unpack

end NodeLogs
