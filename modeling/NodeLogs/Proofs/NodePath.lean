import Mathlib.Data.List.Flatten
import NodeLogs.NodePath
import NodeLogs.Proofs.HostPath
import NodeLogs.Proofs.Text.Utf8

/-!
Cleaned paths as canonical forms. A path leads from a base to a place, and its segments alone say
where. Cleaning keeps where a path leads from every base; two paths lead alike from every base just
where they are cleaned alike; and of all texts that lead alike, the cleaned one is the shortest that
is not empty.
-/

namespace NodeLogs.NodePath

open HostPath (Idle IsName)

/-- One segment further from a place, which is told by the names below the root. Nothing is above
the root. -/
def advance (place : List String) (segment : String) : List String :=
  if Idle segment then place
  else if segment = ".." then place.dropLast
  else place ++ [segment]

/-- The place that a path leads to from a base. -/
def resolve (base : List String) (path : String) : List String :=
  (Text.split '/' path).foldl advance (if isRooted path then [] else base)

theorem advance_idle (place : List String) {segment : String} (h : Idle segment) :
    advance place segment = place := if_pos h

theorem advance_up (place : List String) : advance place ".." = place.dropLast := rfl

theorem advance_name (place : List String) {segment : String} (h : IsName segment) :
    advance place segment = place ++ [segment] := by
  rw [advance, if_neg h.notIdle, if_neg h.notUp]

theorem advance_names (place : List String) {names : List String}
    (h : ∀ name ∈ names, IsName name) : names.foldl advance place = place ++ names := by
  induction names generalizing place with
  | nil => simp
  | cons name rest ih =>
    rw [List.foldl_cons, advance_name place (h name List.mem_cons_self),
      ih _ fun n hn => h n (List.mem_cons_of_mem name hn), List.append_assoc]
    rfl

theorem advance_ups (ups : Nat) (place : List String) :
    (List.replicate ups "..").foldl advance place = place.take (place.length - ups) := by
  induction ups generalizing place with
  | zero => simp
  | succ ups ih =>
    rw [List.replicate_succ, List.foldl_cons, advance_up, ih, List.dropLast_eq_take, List.take_take,
      List.length_take]
    congr 1
    omega

/-! What cleaning keeps of the segments -/

/-- Segments of which none can be spared: some that lead upwards, but not from a root, and then
names. -/
def Reduced (rooted : Bool) (segments : List String) : Prop :=
  ∃ ups names, segments = List.replicate ups ".." ++ names ∧ (∀ name ∈ names, IsName name) ∧
    (rooted = true → ups = 0)

/-- What may come of one more segment. -/
inductive Pushed (rooted : Bool) : List String → String → List String → Prop
  | idle {stack : List String} {segment : String} (h : Idle segment) :
    Pushed rooted stack segment stack
  | name {stack : List String} {segment : String} (h : IsName segment) :
    Pushed rooted stack segment (segment :: stack)
  | back {below : List String} {last : String} (h : IsName last) :
    Pushed rooted (last :: below) ".." below
  | above (ups : Nat) (h : rooted = false) :
    Pushed rooted (List.replicate ups "..") ".." (List.replicate (ups + 1) "..")
  | root (h : rooted = true) : Pushed rooted [] ".." []

section Keeping

variable {rooted : Bool} {stack segments : List String}

theorem pushed_push (h : Reduced rooted stack.reverse) {segment : String}
    (hslash : '/' ∉ segment.toList) : Pushed rooted stack segment (push rooted stack segment) := by
  by_cases hidle : Idle segment
  · have hsame : push rooted stack segment = stack := if_pos hidle
    rw [hsame]
    exact .idle hidle
  by_cases hup : segment = ".."
  · subst hup
    obtain ⟨ups, names, hstack, hnames, hroot⟩ := h
    replace hstack : stack = names.reverse ++ List.replicate ups ".." := by
      rw [← List.reverse_reverse stack, hstack, List.reverse_append, List.reverse_replicate]
    subst hstack
    rcases List.eq_nil_or_concat names with rfl | ⟨front, last, rfl⟩
    · cases rooted with
      | true =>
        obtain rfl := hroot rfl
        exact .root rfl
      | false => cases ups <;> exact .above _ rfl
    · have hlast : IsName last := hnames last (by simp)
      have hback : push rooted (last :: (front.reverse ++ List.replicate ups "..")) ".." =
          front.reverse ++ List.replicate ups ".." := by
        simp [push, hlast.notUp]
      have hpushed : Pushed rooted (last :: (front.reverse ++ List.replicate ups "..")) ".."
          (front.reverse ++ List.replicate ups "..") := .back hlast
      simpa [hback] using hpushed
  · have hname : push rooted stack segment = segment :: stack := by
      unfold push
      rw [if_neg (show ¬ (segment = "" ∨ segment = ".") from hidle), if_neg hup]
    rw [hname]
    exact .name ⟨hidle, hup, hslash⟩

namespace Pushed

variable {pushed : List String} {segment : String}

theorem reduced (h : Pushed rooted stack segment pushed) (hstack : Reduced rooted stack.reverse) :
    Reduced rooted pushed.reverse := by
  obtain ⟨ups, names, hsegments, hnames, hroot⟩ := hstack
  cases h with
  | idle => exact ⟨ups, names, hsegments, hnames, hroot⟩
  | name hname =>
    refine ⟨ups, names ++ [segment], ?_, ?_, hroot⟩
    · rw [List.reverse_cons, hsegments, List.append_assoc]
    · simp only [List.forall_mem_append, List.forall_mem_singleton]
      exact ⟨hnames, hname⟩
  | @back _ last hlast =>
    rw [List.reverse_cons] at hsegments
    rcases List.eq_nil_or_concat names with rfl | ⟨front, last', rfl⟩
    · have hmem : last ∈ List.replicate ups ".." ++ [] := hsegments ▸ by simp
      simp only [List.append_nil, List.mem_replicate] at hmem
      exact absurd hmem.2 hlast.notUp
    · rw [List.concat_eq_append, ← List.append_assoc] at hsegments
      obtain ⟨hbelow, -⟩ := List.append_inj' hsegments rfl
      exact ⟨ups, front, hbelow, fun name hmem => hnames name (by simp [hmem]), hroot⟩
  | above ups' hrelative =>
    refine ⟨ups' + 1, [], ?_, nofun, by simp [hrelative]⟩
    rw [List.reverse_replicate, List.append_nil]
  | root => exact ⟨ups, names, hsegments, hnames, hroot⟩

theorem leads (h : Pushed rooted stack segment pushed) {start : List String}
    (hstart : rooted = true → start = []) :
    pushed.reverse.foldl advance start = advance (stack.reverse.foldl advance start) segment := by
  cases h with
  | idle hidle => rw [advance_idle _ hidle]
  | name hname =>
    rw [List.reverse_cons, List.foldl_append]
    rfl
  | back hlast =>
    rw [List.reverse_cons, List.foldl_append, List.foldl_cons, List.foldl_nil, advance_name _ hlast,
      advance_up, List.dropLast_concat]
  | above ups hrelative =>
    rw [List.replicate_succ, List.reverse_cons, List.foldl_append]
    rfl
  | root hrooted =>
    rw [hstart hrooted]
    rfl

theorem sublist (h : Pushed rooted stack segment pushed) {before : List String}
    (hstack : stack.reverse.Sublist before) : pushed.reverse.Sublist (before ++ [segment]) := by
  have hbefore : before.Sublist (before ++ [segment]) := List.sublist_append_left before [segment]
  cases h with
  | idle => exact hstack.trans hbefore
  | name =>
    rw [List.reverse_cons]
    exact hstack.append (.refl _)
  | @back _ last =>
    rw [List.reverse_cons] at hstack
    exact ((List.sublist_append_left pushed.reverse [last]).trans hstack).trans hbefore
  | above ups =>
    rw [List.replicate_succ, List.reverse_cons]
    exact hstack.append (.refl _)
  | root => exact List.nil_sublist _

end Pushed

/-- What is kept of segments leads where they led, from the root or from anywhere, and is among them
in their order. -/
structure Keeps (rooted : Bool) (segments kept : List String) : Prop where
  reduced : Reduced rooted kept
  leads : ∀ start, (rooted = true → start = []) →
    kept.foldl advance start = segments.foldl advance start
  sublist : kept.Sublist segments

theorem Keeps.push (h : Keeps rooted segments stack.reverse) {segment : String}
    (hslash : '/' ∉ segment.toList) :
    Keeps rooted (segments ++ [segment]) (push rooted stack segment).reverse := by
  have hpushed := pushed_push h.reduced hslash
  refine ⟨hpushed.reduced h.reduced, fun start hstart => ?_, hpushed.sublist h.sublist⟩
  rw [hpushed.leads hstart, h.leads start hstart, List.foldl_append]
  rfl

theorem keeps_foldl {before : List String} (h : Keeps rooted before stack.reverse)
    (hslash : ∀ segment ∈ segments, '/' ∉ segment.toList) :
    Keeps rooted (before ++ segments) (segments.foldl (push rooted) stack).reverse := by
  induction segments generalizing before stack with
  | nil => rwa [List.append_nil]
  | cons segment rest ih =>
    rw [List.foldl_cons, List.append_cons]
    exact ih (h.push (hslash segment List.mem_cons_self))
      fun s hs => hslash s (List.mem_cons_of_mem segment hs)

theorem keeps_cleanSegments (path : String) :
    Keeps (isRooted path) (Text.split '/' path) (cleanSegments path) := by
  have hnil : Keeps (isRooted path) [] [].reverse :=
    ⟨⟨0, [], rfl, nofun, fun _ => rfl⟩, fun _ _ => rfl, .refl _⟩
  exact keeps_foldl hnil fun segment => Text.slash_not_mem_of_mem_split

end Keeping

/-! The cleaned text -/

/-- The segments of a path. Those of a rooted one come after its root. -/
def segments (path : String) : List String :=
  if isRooted path then (Text.split '/' path).tail else Text.split '/' path

theorem split_of_rooted {path : String} (h : isRooted path = true) :
    Text.split '/' path = "" :: segments path := by
  obtain ⟨part, rest, hparts⟩ := (HostPath.isRooted_iff_parts ⟨path⟩).mp h
  have hsplit : Text.split '/' path = "" :: part :: rest := hparts
  rw [segments, if_pos h, hsplit, List.tail_cons]

theorem split_of_relative {path : String} (h : isRooted path = false) :
    Text.split '/' path = segments path := by
  rw [segments, h, if_neg Bool.false_ne_true]

/-- What is left where nothing is kept: the root alone, or the place that the path starts from. -/
def idleText (rooted : Bool) : String := if rooted then "" else "."

theorem mem_cleanSegments {path segment : String} (h : segment ∈ cleanSegments path) :
    segment = ".." ∨ IsName segment := by
  obtain ⟨ups, names, hkept, hnames, -⟩ := (keeps_cleanSegments path).reduced
  rw [hkept, List.mem_append, List.mem_replicate] at h
  exact h.imp And.right (hnames segment)

theorem not_idle_of_kept {path segment : String} (h : segment ∈ cleanSegments path) :
    ¬ Idle segment := by
  rcases mem_cleanSegments h with rfl | hname
  · decide
  · exact hname.notIdle

theorem cleanSegments_ne_empty_cons (path : String) (rest : List String) :
    cleanSegments path ≠ "" :: rest := by
  intro hkept
  have hmem : "" ∈ cleanSegments path := hkept ▸ List.mem_cons_self
  exact not_idle_of_kept hmem (Or.inl rfl)

theorem joined_eq_empty (path : String) :
    "/".intercalate (cleanSegments path) = "" ↔ cleanSegments path = [] := by
  constructor
  · intro h
    refine Classical.byContradiction fun hne => ?_
    have hparts := HostPath.parts_slashed hne fun segment hmem =>
      Text.slash_not_mem_of_mem_split ((keeps_cleanSegments path).sublist.subset hmem)
    rw [h, show HostPath.parts ⟨""⟩ = [""] from rfl] at hparts
    exact cleanSegments_ne_empty_cons path [] hparts.symm
  · intro h
    rw [h]
    rfl

/-- What a path is cleaned to is its root and the segments that are kept. -/
theorem clean_eq (path : String) :
    clean path = (if isRooted path then "/" else "") ++
      (if cleanSegments path = [] then idleText (isRooted path)
        else "/".intercalate (cleanSegments path)) := by
  have hempty := joined_eq_empty path
  unfold clean idleText
  by_cases hnone : cleanSegments path = [] <;> cases hrooted : isRooted path <;> simp_all

theorem clean_congr {path path' : String} (hrooted : isRooted path = isRooted path')
    (hkept : cleanSegments path = cleanSegments path') : clean path = clean path' := by
  rw [clean_eq, clean_eq, hrooted, hkept]

theorem split_clean (path : String) :
    Text.split '/' (clean path) = (if isRooted path then [""] else []) ++
      (if cleanSegments path = [] then [idleText (isRooted path)] else cleanSegments path) := by
  have hkept (hne : cleanSegments path ≠ []) :
      Text.split '/' ("/".intercalate (cleanSegments path)) = cleanSegments path :=
    HostPath.parts_slashed hne fun segment hmem =>
      Text.slash_not_mem_of_mem_split ((keeps_cleanSegments path).sublist.subset hmem)
  have hroot (text : String) : Text.split '/' ("/" ++ text) = "" :: Text.split '/' text := by
    have hsplit := Text.split_append_slash "" text
    rwa [String.empty_append] at hsplit
  rw [clean_eq]
  cases isRooted path with
  | true =>
    by_cases hnone : cleanSegments path = []
    · simp only [if_true, if_pos hnone, hroot]
      rfl
    · simp only [if_true, if_neg hnone, hroot, hkept hnone]
      rfl
  | false =>
    by_cases hnone : cleanSegments path = []
    · simp only [Bool.false_eq_true, if_false, if_pos hnone, String.empty_append]
      rfl
    · simp only [Bool.false_eq_true, if_false, if_neg hnone, String.empty_append, hkept hnone]
      rfl

theorem isRooted_clean (path : String) : isRooted (clean path) = isRooted path := by
  have hiff : isRooted (clean path) = true ↔ _ := HostPath.isRooted_iff_parts ⟨clean path⟩
  rw [HostPath.parts, split_clean] at hiff
  rw [Bool.eq_iff_iff, hiff]
  cases isRooted path with
  | true => by_cases hnone : cleanSegments path = [] <;> simp [hnone, List.exists_cons_of_ne_nil]
  | false =>
    by_cases hnone : cleanSegments path = []
    · simp [hnone]
    · simp only [Bool.false_eq_true, if_false, if_neg hnone, List.nil_append, iff_false]
      rintro ⟨part, rest, hkept⟩
      exact cleanSegments_ne_empty_cons path _ hkept

/-! Where a cleaned path leads -/

theorem resolve_clean (base : List String) (path : String) :
    resolve base (clean path) = resolve base path := by
  have hkept := (keeps_cleanSegments path).leads (if isRooted path then [] else base)
    fun hrooted => if_pos hrooted
  have hroot (place : List String) :
      (if isRooted path then [""] else []).foldl advance place = place := by
    split <;> rfl
  have hidle (place : List String) : advance place (idleText (isRooted path)) = place := by
    refine advance_idle place ?_
    unfold idleText
    split
    · exact Or.inl rfl
    · exact Or.inr rfl
  rw [resolve, split_clean, isRooted_clean, resolve, ← hkept, List.foldl_append, hroot]
  by_cases hnone : cleanSegments path = []
  · rw [if_pos hnone, hnone, List.foldl_cons, hidle]
  · rw [if_neg hnone]

/-- Two texts that stand alike behind any run of one segment, and of another, are the same. -/
theorem eq_of_replicate_append {a b : String} (hne : a ≠ b) {i j : Nat} {xs ys : List String}
    (ha : List.replicate i a ++ xs = List.replicate j a ++ ys)
    (hb : List.replicate i b ++ xs = List.replicate j b ++ ys) : i = j ∧ xs = ys := by
  induction i generalizing j with
  | zero =>
    cases j with
    | zero => exact ⟨rfl, ha⟩
    | succ j =>
      obtain rfl : xs = a :: (List.replicate j a ++ ys) := ha
      exact absurd (List.cons.inj hb).1 hne
  | succ i ih =>
    cases j with
    | zero =>
      obtain rfl : a :: (List.replicate i a ++ xs) = ys := ha
      exact absurd (List.cons.inj hb).1.symm hne
    | succ j =>
      obtain ⟨hij, hxs⟩ := ih (List.cons.inj ha).2 (List.cons.inj hb).2
      exact ⟨congrArg _ hij, hxs⟩

/-- Paths that lead alike keep the same segments. From far enough down, a relative path leaves some
of its base, and more the fewer segments lead upwards. -/
theorem kept_of_resolve {path path' : String}
    (h : ∀ base, resolve base path = resolve base path') :
    isRooted path = isRooted path' ∧ cleanSegments path = cleanSegments path' := by
  obtain ⟨ups, names, hkept, hnames, hroot⟩ := (keeps_cleanSegments path).reduced
  obtain ⟨ups', names', hkept', hnames', hroot'⟩ := (keeps_cleanSegments path').reduced
  have shown {path : String} {ups : Nat} {names : List String}
      (hkept : cleanSegments path = List.replicate ups ".." ++ names)
      (hnames : ∀ name ∈ names, IsName name) (hroot : isRooted path = true → ups = 0)
      (others : Nat) (a : String) :
      resolve (List.replicate (ups + others + 1) a) path =
        List.replicate (if isRooted path then 0 else others + 1) a ++ names := by
    rw [resolve, ← (keeps_cleanSegments path).leads _ fun hrooted => if_pos hrooted, hkept,
      List.foldl_append, advance_names _ hnames, advance_ups]
    cases hrooted : isRooted path with
    | true => simp
    | false =>
      simp only [Bool.false_eq_true, if_false, List.take_replicate, List.length_replicate]
      congr 2
      omega
  have alike (a : String) := h (List.replicate (ups + ups' + 1) a)
  have hright (a : String) := shown hkept hnames hroot ups' a
  have hleft (a : String) := shown hkept' hnames' hroot' ups a
  simp only [Nat.add_comm ups' ups] at hleft
  simp only [hright, hleft] at alike
  obtain ⟨hcount, rfl⟩ := eq_of_replicate_append (show "a" ≠ "b" by decide) (alike "a") (alike "b")
  rw [hkept, hkept']
  cases hrooted : isRooted path <;> cases hrooted' : isRooted path' <;> simp_all

/-! No shorter text leads there -/

/-- Segments that do not lead upwards are all kept but for the idle ones. -/
theorem advance_significant (place : List String) {segments : List String} (h : ".." ∉ segments) :
    segments.foldl advance place = place ++ HostPath.significant segments := by
  induction segments generalizing place with
  | nil => exact (List.append_nil place).symm
  | cons segment rest ih =>
    obtain ⟨hup, hrest⟩ : ".." ≠ segment ∧ ".." ∉ rest := by simpa using h
    rw [List.foldl_cons, ih _ hrest]
    by_cases hidle : Idle segment
    · rw [advance_idle place hidle, HostPath.significant_idle hidle]
    · rw [advance, if_neg hidle, if_neg hup.symm, HostPath.significant_step hidle,
        List.append_assoc]
      rfl

theorem toList_eq_join (text : String) :
    text.toList = join '/' ((Text.split '/' text).map String.toList) := by
  rw [← Text.toList_slashed, Text.slashed_split]

/-- Empty segments alone make a path of slashes, or no text at all. -/
theorem isRooted_of_empty_segments {path : String} (hne : path ≠ "")
    (hempty : ∀ segment ∈ Text.split '/' path, segment = "") : isRooted path = true := by
  rcases hsplit : Text.split '/' path with _ | ⟨first, _ | ⟨second, rest⟩⟩
  · exact absurd hsplit (Text.split_ne_nil '/' path)
  · rw [hsplit] at hempty
    have hpath := Text.slashed_split path
    rw [hsplit, hempty first List.mem_cons_self] at hpath
    exact absurd hpath.symm hne
  · rw [hsplit] at hempty
    obtain rfl := hempty first List.mem_cons_self
    exact (HostPath.isRooted_iff_parts ⟨path⟩).mpr ⟨second, rest, hsplit⟩

/-- A relative path of which nothing is kept has a dot in it. -/
theorem dot_mem_of_nothing_kept {path : String} (hne : path ≠ "")
    (hrelative : isRooted path = false) (hnone : cleanSegments path = []) : '.' ∈ path.toList := by
  have dotted {segment : String} (hmem : segment ∈ Text.split '/' path)
      (hdot : '.' ∈ segment.toList) : '.' ∈ path.toList := by
    have hsingle : [segment.toList].Sublist ((Text.split '/' path).map String.toList) :=
      List.singleton_sublist.mpr (List.mem_map_of_mem hmem)
    rw [toList_eq_join path]
    exact (join_sublist hsingle).subset hdot
  by_cases hup : ".." ∈ Text.split '/' path
  · exact dotted hup (by decide)
  by_cases hidle : "." ∈ Text.split '/' path
  · exact dotted hidle (by decide)
  have hkept := (keeps_cleanSegments path).leads [] fun _ => rfl
  rw [hnone, advance_significant [] hup, List.nil_append, List.foldl_nil, eq_comm,
    HostPath.significant, List.filter_eq_nil_iff] at hkept
  have hempty : ∀ segment ∈ Text.split '/' path, segment = "" := by
    intro segment hmem
    have hsegment : Idle segment := by simpa using hkept segment hmem
    refine hsegment.resolve_right ?_
    rintro rfl
    exact hidle hmem
  rw [isRooted_of_empty_segments hne hempty] at hrelative
  cases hrelative

theorem segments_ne_nil (path : String) : segments path ≠ [] := by
  cases hrooted : isRooted path with
  | true =>
    obtain ⟨part, rest, hparts⟩ := (HostPath.isRooted_iff_parts ⟨path⟩).mp hrooted
    have hsplit : Text.split '/' path = "" :: part :: rest := hparts
    rw [split_of_rooted hrooted] at hsplit
    rw [(List.cons.inj hsplit).2]
    exact List.cons_ne_nil part rest
  | false =>
    rw [← split_of_relative hrooted]
    exact Text.split_ne_nil '/' path

theorem cleanSegments_sublist (path : String) : (cleanSegments path).Sublist (segments path) := by
  have hsublist := (keeps_cleanSegments path).sublist
  cases hrooted : isRooted path with
  | true =>
    rw [split_of_rooted hrooted, List.sublist_cons_iff] at hsublist
    rcases hsublist with hsublist | ⟨rest, hkept, -⟩
    · exact hsublist
    · exact absurd hkept (cleanSegments_ne_empty_cons path rest)
  | false => rwa [split_of_relative hrooted] at hsublist

/-- Cleaning a path leaves characters out and adds none. -/
theorem clean_sublist {path : String} (hne : path ≠ "") :
    (clean path).toList.Sublist path.toList := by
  have hjoined : ("/".intercalate (cleanSegments path)).toList.Sublist
      (join '/' ((segments path).map String.toList)) := by
    rw [Text.toList_slashed]
    exact join_sublist ((cleanSegments_sublist path).map String.toList)
  have hempty := joined_eq_empty path
  unfold clean
  cases hrooted : isRooted path with
  | true =>
    rw [toList_eq_join path, split_of_rooted hrooted, List.map_cons, join_cons '/' _ (by
      simpa using segments_ne_nil path)]
    simp only [if_true, String.toList_append]
    exact .cons_cons _ hjoined
  | false =>
    simp only [Bool.false_eq_true, if_false]
    split
    · next hnone =>
      exact List.singleton_sublist.mpr (dot_mem_of_nothing_kept hne hrooted (hempty.mp hnone))
    · rw [toList_eq_join path, split_of_relative hrooted]
      exact hjoined

/-- Where cleaning changes a path, it makes it shorter, in characters and in bytes. -/
theorem clean_or_shorter {path : String} (hne : path ≠ "") :
    path = clean path ∨
      ((clean path).length < path.length ∧ (clean path).utf8ByteSize < path.utf8ByteSize) := by
  have hsublist := clean_sublist hne
  have hbytes : (Utf8.encode (clean path)).Sublist (Utf8.encode path) := hsublist.flatMap _
  by_cases hsame : path = clean path
  · exact .inl hsame
  · have hchars : (clean path).length ≠ path.length := fun h =>
      hsame (String.toList_inj.mp (hsublist.eq_of_length h)).symm
    have hsize : (Utf8.encode (clean path)).length ≠ (Utf8.encode path).length := fun h =>
      hsame (Utf8.eq_of_encode_eq (hbytes.eq_of_length h)).symm
    rw [Utf8.length_encode, Utf8.length_encode] at hsize
    have hle := hbytes.length_le
    rw [Utf8.length_encode, Utf8.length_encode] at hle
    exact .inr ⟨Nat.lt_of_le_of_ne hsublist.length_le hchars, Nat.lt_of_le_of_ne hle hsize⟩

/-! The shape of a cleaned path -/

/-- A path that says nothing twice: no segment is idle but for a lone root's and a lone dot, and
only a relative path leads upwards, at its start. -/
structure Canonical (path : String) : Prop where
  ne_empty : path ≠ ""
  not_idle : path ≠ "." → path ≠ "/" → ∀ segment ∈ segments path, ¬ Idle segment
  ups : ∀ before after, segments path = before ++ ".." :: after →
    isRooted path = false ∧ ∀ segment ∈ before, segment = ".."

theorem segments_clean (path : String) :
    segments (clean path) =
      if cleanSegments path = [] then [idleText (isRooted path)] else cleanSegments path := by
  rw [segments, isRooted_clean, split_clean]
  cases isRooted path <;> rfl

theorem Reduced.ups {rooted : Bool} {segments before after : List String}
    (h : Reduced rooted segments) (hup : segments = before ++ ".." :: after) :
    rooted = false ∧ ∀ segment ∈ before, segment = ".." := by
  obtain ⟨ups, names, rfl, hnames, hroot⟩ := h
  have habsent : ".." ∉ names := fun hmem => (hnames ".." hmem).notUp rfl
  rcases List.append_eq_append_iff.mp hup with ⟨more, rfl, hmore⟩ | ⟨more, hups, hmore⟩
  · exact absurd (hmore ▸ by simp) habsent
  · cases more with
    | nil =>
      obtain rfl : ".." :: after = names := hmore
      exact absurd List.mem_cons_self habsent
    | cons first rest =>
      obtain ⟨hlength, hbefore, -⟩ := List.replicate_eq_append_iff.mp hups
      constructor
      · cases rooted with
        | true =>
          rw [hroot rfl] at hlength
          simp at hlength
        | false => rfl
      · rw [hbefore]
        exact fun segment hmem => (List.mem_replicate.mp hmem).2

theorem clean_of_nothing_kept {path : String} (hnone : cleanSegments path = []) :
    clean path = if isRooted path then "/" else "." := by
  rw [clean_eq, if_pos hnone]
  cases isRooted path <;> rfl

theorem canonical_clean (path : String) : Canonical (clean path) := by
  have hsegments := segments_clean path
  by_cases hnone : cleanSegments path = []
  · rw [if_pos hnone] at hsegments
    have hclean := clean_of_nothing_kept hnone
    refine ⟨?_, fun hdot hroot => ?_, fun before after hup => ?_⟩
    · rw [hclean]
      cases isRooted path <;> decide
    · cases hrooted : isRooted path <;> simp [hrooted, hdot, hroot] at hclean
    · have hmem : ".." ∈ [idleText (isRooted path)] := by
        rw [← hsegments, hup]
        simp
      cases hrooted : isRooted path <;> simp [idleText, hrooted] at hmem
  · rw [if_neg hnone] at hsegments
    have hkept : ∀ segment ∈ segments (clean path), ¬ Idle segment := by
      rw [hsegments]
      exact fun segment => not_idle_of_kept
    refine ⟨fun hempty => ?_, fun _ _ => hkept, fun before after hup => ?_⟩
    · rw [hempty] at hkept
      exact hkept "" (by decide) (Or.inl rfl)
    · rw [isRooted_clean]
      rw [hsegments] at hup
      exact (keeps_cleanSegments path).reduced.ups hup

/-- A cleaned path is the canonical form of where a path leads. It leads there from every base;
paths are cleaned alike just where they lead alike from every base; every other text that leads
there is longer, unless it is empty; and the form says nothing twice. -/
theorem cleaned_paths_are_canonical (path path' : String) :
    (∀ base, resolve base (clean path) = resolve base path) ∧
    (clean path = clean path' ↔ ∀ base, resolve base path = resolve base path') ∧
    (path' ≠ "" → (∀ base, resolve base path' = resolve base path) →
      path' = clean path ∨
        ((clean path).length < path'.length ∧
          (clean path).utf8ByteSize < path'.utf8ByteSize)) ∧
    clean (clean path) = clean path ∧ Canonical (clean path) := by
  have hleads (path : String) (base : List String) := resolve_clean base path
  have alike {path path' : String} (h : ∀ base, resolve base path = resolve base path') :
      clean path = clean path' := by
    obtain ⟨hrooted, hkept⟩ := kept_of_resolve h
    exact clean_congr hrooted hkept
  refine ⟨hleads path, ⟨fun hsame base => ?_, alike⟩, fun hne h => ?_, alike (hleads path),
    canonical_clean path⟩
  · rw [← hleads path base, hsame, hleads path' base]
  · rw [← alike h]
    exact clean_or_shorter hne

/-- Another text for the same path. -/
theorem cleaned_path_is_shorter :
    "a//b/" ≠ "" ∧ (∀ base, resolve base "a//b/" = resolve base "a/./b") ∧
      ("a//b/" = clean "a/./b" ∨
        ((clean "a/./b").length < "a//b/".length ∧
          (clean "a/./b").utf8ByteSize < "a//b/".utf8ByteSize)) := by
  have hne : "a//b/" ≠ "" := by decide
  have halike (base : List String) : resolve base "a//b/" = resolve base "a/./b" := by
    rw [resolve, resolve, show Text.split '/' "a//b/" = ["a", "", "b", ""] by decide,
      show Text.split '/' "a/./b" = ["a", ".", "b"] by decide]
    rfl
  exact ⟨hne, halike, (cleaned_paths_are_canonical "a/./b" "a//b/").2.2.1 hne halike⟩

example : clean "../a//.././../b/" = "../../b" := by decide

end NodeLogs.NodePath
