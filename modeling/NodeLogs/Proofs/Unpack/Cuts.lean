import NodeLogs.Proofs.Archive.Cuts
import NodeLogs.Proofs.Unpack.Contents

/-!
Unpacking archives that break off. Wherever the bytes of a sound archive end, either nothing is
missing, or that is found out; and what stands before that is unpacked as it is from the whole
archive.
-/

namespace NodeLogs.Unpack

open Archive (Span Walk Tiles CutListing)

variable {t : FileTree} {dest path : HostPath} {m : Archive.Member}

/-- A file that got only some of its data is told, and how much it got. -/
theorem file_upTo {mode expected k : Nat} (h : (file t path mode expected m.body).result = .ok ())
    (hk : k < m.body.bytes.length) :
    (file t path mode expected (m.upTo k).body).result =
      .error (.ofCause (.sizeMismatch path k expected)) := by
  obtain ⟨loc, opened, hopen, hlength, -⟩ := file_ok h
  have hwritable : (t.apply opened).at? loc ≠ some (.device .full) := by
    intro hfull
    have hsome : m.body.bytes ≠ [] := List.ne_nil_of_length_pos (Nat.zero_lt_of_lt hk)
    have hwrite : (t.apply opened).write loc m.body.bytes = .error (.os .noSpace) :=
      if_pos ⟨hfull, hsome⟩
    rw [file, hopen] at h
    simp only [fill, hwrite] at h
    cases h
  have hwrite : (t.apply opened).write loc (m.body.bytes.take k) = .ok (.append loc _) :=
    if_neg fun hfull => hwritable hfull.1
  have hfill : fill (t.apply opened) loc (m.upTo k).body =
    ([.append loc (m.body.bytes.take k)], none) := by
    simp only [fill, Archive.Member.upTo, hwrite]
  have htaken : (m.upTo k).body.bytes.length = k := by
    rw [Archive.Member.upTo, List.length_take, Nat.min_eq_left (Nat.le_of_lt hk)]
  rw [file, hopen]
  simp only [hfill, htaken]
  rw [if_neg (by omega)]
  rfl

/-- A regular member with a name. -/
def IsFile (m : Archive.Member) : Prop := m.kind = .regular ∧ m.name ≠ ""

/-- A file whose data breaks off is told with what there is of it. -/
theorem member_upTo_file {k : Nat} (h : (member t dest m).result = .ok ()) (hfile : IsFile m)
    (hk : k < m.body.bytes.length) :
    ∃ path, target? dest m = some path ∧ m.header.size = .ok m.body.bytes.length ∧
      (member t dest (m.upTo k)).result =
        .error (.ofCause (.sizeMismatch path k m.body.bytes.length)) := by
  obtain ⟨hkind, hname⟩ := hfile
  obtain ⟨path, htarget⟩ := target?_of_ok h hname
  obtain ⟨size, mode, hsize, hmode, hmember⟩ := file_of_ok h htarget hkind
  rw [hmember] at h
  obtain ⟨-, -, -, rfl, -⟩ := file_ok h
  refine ⟨path, htarget, hsize, ?_⟩
  rw [member_of_file (m := m.upTo k) htarget hkind hsize hmode]
  exact file_upTo h hk

/-- Nothing else looks at its data. -/
theorem member_upTo_other {k : Nat} (h : (member t dest m).result = .ok ()) (hother : ¬ IsFile m) :
    member t dest (m.upTo k) = member t dest m := by
  by_cases hname : m.name = ""
  · rw [member_of_nameless hname]
    exact member_of_nameless hname
  obtain ⟨path, htarget⟩ := target?_of_ok h hname
  have hsame : target? dest (m.upTo k) = some path := htarget
  have hkind : (m.upTo k).kind = m.kind := rfl
  rw [member_of_target? htarget, member_of_target? hsame, hkind]
  cases hkind' : m.kind with
  | regular => exact absurd ⟨hkind', hname⟩ hother
  | _ => rfl

/-- Each span has a header before its data and ends behind it. -/
theorem later_of_tiles {bytes : Bytes} {start : Nat} {spans : List Span} {marker : Option Nat}
    (h : Tiles bytes start spans marker) :
    (∀ s ∈ spans, start ≤ s.start ∧ s.start + 512 ≤ s.data ∧
      s.data + s.member.body.bytes.length ≤ s.stop ∧ s.stop % 512 = 0) ∧
    ∀ e, marker = some e → start + 512 ≤ e := by
  induction h with
  | ended => simp
  | marked => simp [Archive.blockSize]
  | @span start s rest marker begins aligned header own data room filled behind ih =>
    constructor
    · intro s' hs'
      rcases List.mem_cons.mp hs' with rfl | hs'
      · exact ⟨Nat.le_of_eq begins.symm, own, room, aligned⟩
      · obtain ⟨hle, hdata⟩ := ih.1 s' hs'
        simp only [Archive.blockSize] at own
        exact ⟨by omega, hdata⟩
    · intro e he
      have := ih.2 e he
      omega

/-- The members that end where so many bytes end, or before. -/
def endedBy (n : Nat) (spans : List Span) : List Archive.Member :=
  (spans.filter fun s => s.stop ≤ n).map Span.member

/-- What unpacking the first bytes of an archive does, where the first header of its next member
stands at this position. -/
structure CutShort (t : FileTree) (dest : HostPath) (n start : Nat) (spans : List Span)
    (marker : Option Nat) (whole cut : Effect) : Prop where
  succeeds : cut.result = .ok () ↔
    n = start ∨ (∃ s ∈ spans, n = s.stop) ∨ ∃ e, marker = some e ∧ e ≤ n
  inFile : ∀ s ∈ spans, IsFile s.member → s.data ≤ n →
    n < s.data + s.member.body.bytes.length →
    ∃ path, target? dest s.member = some path ∧
      s.member.header.size = .ok s.member.body.bytes.length ∧
      cut.result = .error (.ofCause (.sizeMismatch path (n - s.data) s.member.body.bytes.length))
  elsewhere : cut.result ≠ .ok () →
    (∀ s ∈ spans, IsFile s.member → s.data ≤ n → s.data + s.member.body.bytes.length ≤ n) →
    ∃ e, cut.result = .error (readingFailure e)
  before : ∃ e, e = members t dest (.ok ()) (endedBy n spans) ∧ e.result = .ok () ∧
    e.changes <+: whole.changes ∧ e.log <+: whole.log ∧ e.changes <+: cut.changes ∧
      e.log <+: cut.log

/-- Where no member has ended, nothing was to be done so far. -/
theorem before_of_none {n : Nat} {spans : List Span} (hnone : ∀ s ∈ spans, n < s.stop)
    (whole cut : Effect) :
    ∃ e, e = members t dest (.ok ()) (endedBy n spans) ∧ e.result = .ok () ∧
      e.changes <+: whole.changes ∧ e.log <+: whole.log ∧ e.changes <+: cut.changes ∧
      e.log <+: cut.log := by
  have hended : endedBy n spans = [] := by
    rw [endedBy, List.map_eq_nil_iff, List.filter_eq_nil_iff]
    intro s hs
    have := hnone s hs
    simpa using this
  rw [hended]
  exact ⟨_, rfl, rfl, List.nil_prefix, List.nil_prefix, List.nil_prefix, List.nil_prefix⟩

/-- The bytes end in the span of the next member, which is found out. -/
theorem cutShort_of_error {n : Nat} {s : Span} {rest : List Span} {marker : Option Nat}
    {f : Failure} {bytes : Bytes} {cut : Effect} (htiles : Tiles bytes s.start (s :: rest) marker)
    (hbegun : s.start < n) (hwithin : n < s.stop) (hresult : cut.result = .error f)
    (hfile : IsFile s.member → s.data ≤ n → n < s.data + s.member.body.bytes.length →
      ∃ path, target? dest s.member = some path ∧
        s.member.header.size = .ok s.member.body.bytes.length ∧
        f = .ofCause (.sizeMismatch path (n - s.data) s.member.body.bytes.length))
    (hreading : (IsFile s.member → s.data ≤ n → s.data + s.member.body.bytes.length ≤ n) →
      ∃ e, f = readingFailure e) (whole : Effect) :
    CutShort t dest n s.start (s :: rest) marker whole cut := by
  cases htiles with
  | span begins aligned header own data room filled behind =>
  simp only [Archive.blockSize] at own
  obtain ⟨hrest, hmarker⟩ := later_of_tiles behind
  refine ⟨?_, ?_, ?_, before_of_none ?_ whole cut⟩
  · rw [hresult]
    refine ⟨by rintro ⟨⟩, ?_⟩
    rintro (rfl | ⟨s', hs', rfl⟩ | ⟨e, he, hle⟩)
    · omega
    · rcases List.mem_cons.mp hs' with rfl | hs'
      · omega
      · have := hrest s' hs'
        omega
    · have := hmarker e he
      omega
  · intro s' hs' hisFile hdata hlength
    rcases List.mem_cons.mp hs' with rfl | hs'
    · obtain ⟨path, htarget, hsize, rfl⟩ := hfile hisFile hdata hlength
      exact ⟨path, htarget, hsize, hresult⟩
    · have := hrest s' hs'
      omega
  · intro _ hnot
    obtain ⟨e, rfl⟩ := hreading (hnot s List.mem_cons_self)
    exact ⟨e, hresult⟩
  · intro s' hs'
    rcases List.mem_cons.mp hs' with rfl | hs'
    · exact hwithin
    · have := hrest s' hs'
      omega

theorem cutShort {bytes : Bytes} {n start : Nat} {spans : List Span} {marker : Option Nat}
    {l : Archive.Listing} (hcut : CutListing n start spans marker l)
    (htiles : Tiles bytes start spans marker)
    (hok : (members t dest (.ok ()) (spans.map Span.member)).result = .ok ()) :
    CutShort t dest n start spans marker (members t dest (.ok ()) (spans.map Span.member))
      (members t dest l.ending l.members) := by
  induction hcut generalizing t with
  | boundary spans marker =>
    obtain ⟨hspans, -⟩ := later_of_tiles htiles
    have hnone (s : Span) (hs : s ∈ spans) : n < s.stop ∧ n < s.data := by
      have := hspans s hs
      omega
    refine ⟨⟨fun _ => Or.inl rfl, fun _ => rfl⟩, ?_, fun hne => absurd rfl hne,
      before_of_none (fun s hs => (hnone s hs).1) _ _⟩
    intro s hs _ hdata
    have := hnone s hs
    omega
  | @marked start marker hbehind =>
    refine ⟨⟨fun _ => Or.inr (Or.inr ⟨marker, rfl, hbehind⟩), fun _ => rfl⟩, by simp,
      fun hne => absurd rfl hne, before_of_none (by simp) _ _⟩
  | @inMarker start marker hbegun hwithin =>
    refine ⟨?_, by simp, fun _ _ => ⟨_, rfl⟩, before_of_none (by simp) _ _⟩
    refine ⟨nofun, ?_⟩
    rintro (rfl | ⟨s, hs, -⟩ | ⟨e, he, hle⟩)
    · omega
    · cases hs
    · cases he
      omega
  | @inHeaders s rest marker e hbegun hwithin hearly =>
    refine cutShort_of_error htiles hbegun hwithin rfl ?_ (fun _ => ⟨e, rfl⟩) _
    intro hfile hdata _
    rcases hearly with hearly | hsparse
    · omega
    · rw [hfile.1] at hsparse
      cases hsparse
  | @inData s rest marker hbegun hwithin =>
    obtain ⟨hfirst, -⟩ := later_of_tiles htiles
    obtain ⟨-, hown, hroom, -⟩ := hfirst s List.mem_cons_self
    have hmember := (members_ok hok).1
    by_cases hfile : IsFile s.member
    · obtain ⟨path, htarget, hsize, hresult⟩ :=
        member_upTo_file hmember hfile (k := n - s.data) (by omega)
      refine cutShort_of_error htiles (by omega) (by omega) ?_
        (fun _ _ _ => ⟨path, htarget, hsize, rfl⟩)
        (fun hnot => absurd (hnot hfile hbegun) (by omega)) _
      rw [members, hresult]
    · have hsame := member_upTo_other (k := n - s.data) hmember hfile
      refine cutShort_of_error htiles (by omega) (by omega) ?_ (fun hisFile => absurd hisFile hfile)
        (fun _ => ⟨.cutSkip, rfl⟩) _
      rw [members_cons_of_ok (hsame ▸ hmember)]
      rfl
  | @inPadding s rest marker hbegun hwithin =>
    obtain ⟨hfirst, -⟩ := later_of_tiles htiles
    obtain ⟨-, hown, hroom, -⟩ := hfirst s List.mem_cons_self
    refine cutShort_of_error htiles (by omega) hwithin ?_
      (fun _ _ hlength => absurd hlength (by omega))
      (fun _ => ⟨.cutSkip, rfl⟩) _
    rw [members_cons_of_ok (members_ok hok).1]
    rfl
  | @behind s rest marker l hended hlater ih =>
    obtain ⟨hmember, hrest⟩ := members_ok hok
    have hfirst := (later_of_tiles htiles).1 s List.mem_cons_self
    cases htiles with
    | span begins aligned header own data room filled behind =>
    obtain ⟨hsucceeds, hinFile, helsewhere, e, rfl, hresult, hbefore⟩ := ih behind hrest
    have hcut : members t dest (l.cons s.member).ending (l.cons s.member).members =
        (member t dest s.member).andThen
          (members (t.applyAll (member t dest s.member).changes) dest l.ending l.members) :=
      members_cons_of_ok hmember
    have hended' : endedBy n (s :: rest) = s.member :: endedBy n rest := by
      rw [endedBy, List.filter_cons_of_pos (by simpa using hended), List.map_cons, endedBy]
    rw [hcut, List.map_cons, members_cons_of_ok hmember]
    refine ⟨?_, ?_, ?_, ?_⟩
    · refine hsucceeds.trans ⟨?_, ?_⟩
      · rintro (rfl | ⟨s', hs', rfl⟩ | hmarker)
        · exact Or.inr (Or.inl ⟨s, List.mem_cons_self, rfl⟩)
        · exact Or.inr (Or.inl ⟨s', List.mem_cons_of_mem _ hs', rfl⟩)
        · exact Or.inr (Or.inr hmarker)
      · rintro (rfl | ⟨s', hs', rfl⟩ | hmarker)
        · omega
        · rcases List.mem_cons.mp hs' with rfl | hs'
          · exact Or.inl rfl
          · exact Or.inr (Or.inl ⟨s', hs', rfl⟩)
        · exact Or.inr (Or.inr hmarker)
    · intro s' hs' hfile hdata hlength
      rcases List.mem_cons.mp hs' with rfl | hs'
      · omega
      · exact hinFile s' hs' hfile hdata hlength
    · intro hne hnot
      exact helsewhere hne fun s' hs' => hnot s' (List.mem_cons_of_mem _ hs')
    · rw [hended', members_cons_of_ok hmember]
      refine ⟨_, rfl, hresult, ?_, ?_, ?_, ?_⟩
      · exact (List.prefix_append_right_inj _).mpr hbefore.1
      · exact (List.prefix_append_right_inj _).mpr hbefore.2.1
      · exact (List.prefix_append_right_inj _).mpr hbefore.2.2.1
      · exact (List.prefix_append_right_inj _).mpr hbefore.2.2.2

theorem ending_of_ok {ending : Except Archive.Error Unit} {ms : List Archive.Member}
    (h : (members t dest ending ms).result = .ok ()) : ending = .ok () := by
  induction ms generalizing t with
  | nil =>
    cases ending with
    | error e => cases h
    | ok _ => rfl
  | cons m rest ih => exact ih (members_ok h).2

end NodeLogs.Unpack
