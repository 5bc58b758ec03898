import ProviderBindings.FileSystem.Locate

/-!
# Paths and their texts

A path that was read from a text has names that are neither empty nor a single dot and that hold no
slash. Such a path is given back by its own text, and following the text of it is following the path.
This is what lets a path go to a tool as a text and come back: `ofString_text` for the path itself,
`locateText_text` for the place it leads to, and `ofString_joinText` for a name put after it.
-/

namespace ProviderBindings

/-- A text starts with a slash exactly when its first character is one. -/
theorem startsWith_slash_iff (s : String) : s.startsWith "/" ↔ s.toList.head? = some '/' := by
  rw [String.startsWith_string_iff, show ("/" : String).toList = [ '/' ] from rfl]
  cases s.toList with
  | nil => simp
  | cons c cs =>
    rw [List.cons_prefix_cons, List.head?_cons, Option.some.injEq]
    constructor
    · exact fun h => h.1.symm
    · exact fun h => ⟨h.symm, List.nil_prefix⟩

namespace Path

/-- Whether a text can be one of the names of a path: it is neither empty nor a single dot, and holds
no slash. -/
def IsName (name : String) : Prop :=
  name ≠ "" ∧ name ≠ "." ∧ '/' ∉ name.toList

instance (name : String) : Decidable (IsName name) := by
  unfold IsName; infer_instance

/-- A path as it is read from a text. -/
def Written (p : Path) : Prop :=
  ∀ name ∈ p.names, IsName name

instance (p : Path) : Decidable p.Written := by
  unfold Written; infer_instance

/-- A name is not empty and does not start with a slash. -/
theorem IsName.exists_cons {name : String} (h : IsName name) :
    ∃ c cs, name.toList = c :: cs ∧ c ≠ '/' := by
  obtain ⟨hne, -, hslash⟩ := h
  cases hn : name.toList with
  | nil => exact absurd (String.toList_inj.1 (by simpa using hn)) hne
  | cons c cs =>
    refine ⟨c, cs, rfl, ?_⟩
    rintro rfl
    exact hslash (by simp [hn])

/-- The names of a text are names. -/
theorem isName_of_mem_namesOf {s name : String} (h : name ∈ namesOf s) : IsName name := by
  obtain ⟨hmem, hkeep⟩ := List.mem_filter.1 h
  have hslash : '/' ∉ name.toList := Text.not_mem_of_mem_split hmem
  simp only [bne_iff_ne, Bool.and_eq_true, ne_eq] at hkeep
  exact ⟨hkeep.1, hkeep.2, hslash⟩

/-- A path read from a text is written. -/
theorem written_ofString (s : String) : (ofString s).Written :=
  fun _ h => isName_of_mem_namesOf h

/-- A written path with a text put after it is written. -/
theorem Written.child {p : Path} (h : p.Written) (s : String) : (p.child s).Written := by
  intro name hname
  unfold Path.child join at hname
  split at hname
  · exact written_ofString s name hname
  · rcases List.mem_append.1 hname with hname | hname
    · exact h name hname
    · exact written_ofString s name hname

/-- A property of paths holds of all, if it holds of a path when it holds of the parent of that, as far as there is one. -/
@[elab_as_elim]
theorem parent_induction {motive : Path → Prop}
    (step : ∀ p : Path, (p.names ≠ [] → motive p.parent) → motive p) (p : Path) : motive p := by
  obtain ⟨count, hcount⟩ : ∃ n, p.names.length = n := ⟨_, rfl⟩
  induction count generalizing p with
  | zero => exact step p fun hne => absurd (List.length_eq_zero_iff.1 hcount) hne
  | succ count ih =>
    refine step p fun _ => ih p.parent ?_
    show p.names.dropLast.length = count
    rw [List.length_dropLast, hcount, Nat.add_sub_cancel]

/-- The parent of a written path is written. -/
theorem Written.parent {p : Path} (h : p.Written) : p.parent.Written :=
  fun name hname => h name (List.dropLast_subset _ hname)

/-- Names that are put between slashes are read again from a slashed text. -/
theorem namesOf_intercalate {names : List String} (h : ∀ name ∈ names, IsName name) :
    namesOf (String.intercalate "/" names) = names := by
  unfold namesOf
  cases names with
  | nil => rfl
  | cons first rest =>
    rw [Text.split_intercalate (by simp) fun name hname => (h name hname).2.2]
    refine List.filter_eq_self.2 fun name hname => ?_
    have hname := h name hname
    simp [hname.1, hname.2.1]

/-- A slash in front of a text adds no name. -/
theorem namesOf_slash (s : String) : namesOf ("/" ++ s) = namesOf s := by
  have hlist : ("/" ++ s).toList = '/' :: s.toList := by rw [String.toList_append]; rfl
  unfold namesOf Text.split
  rw [hlist, Text.splitChars, if_pos rfl]
  simp

/-- Names put between slashes start with no slash. -/
theorem head?_intercalate {names : List String} (h : ∀ name ∈ names, IsName name) :
    (String.intercalate "/" names).toList.head? ≠ some '/' := by
  rw [String.toList_intercalate]
  cases names with
  | nil => simp
  | cons first rest =>
    obtain ⟨c, cs, hcs, hc⟩ := (h first (by simp)).exists_cons
    cases rest with
    | nil => simpa [hcs] using hc
    | cons next rest => simpa [List.intercalate_cons_of_ne_nil, hcs] using hc

/-- The text of a relative path with names is its names between slashes. -/
theorem text_of_relative {p : Path} (hp : p.anchor = .relative) (hne : p.names ≠ []) :
    p.text = String.intercalate "/" p.names := by
  unfold text
  rw [hp]
  simp [hne]

/-- The anchor of a text is told by the slashes in front of what starts with none. -/
theorem anchorOf_slashes {s : String} (h : s.toList.head? ≠ some '/') :
    anchorOf s = .relative ∧ anchorOf ("/" ++ s) = .root ∧ anchorOf ("/" ++ ("/" ++ s)) = .doubleRoot := by
  have hslash (t : String) : ("/" ++ t).toList = '/' :: t.toList := by
    rw [String.toList_append]
    rfl
  unfold anchorOf
  simp only [hslash]
  cases hs : s.toList with
  | nil => exact ⟨rfl, rfl, rfl⟩
  | cons c cs =>
    have hc : c ≠ '/' := by simpa [hs] using h
    refine ⟨?_, ?_, ?_⟩
    · split <;> simp_all
    · split <;> simp_all
    · simp [hc]

/-- A written path is read again from its text. -/
theorem ofString_text {p : Path} (h : p.Written) : ofString p.text = p := by
  obtain ⟨anchor, names⟩ := p
  have hnames : ∀ name ∈ names, IsName name := h
  obtain ⟨hrelative, hroot, hdouble⟩ := anchorOf_slashes (head?_intercalate hnames)
  cases anchor with
  | relative =>
    by_cases hne : names = []
    · subst hne
      rfl
    · rw [text_of_relative rfl hne]
      unfold ofString
      rw [hrelative, namesOf_intercalate hnames]
  | root =>
    show ofString ("/" ++ String.intercalate "/" names) = _
    unfold ofString
    rw [hroot, namesOf_slash, namesOf_intercalate hnames]
  | doubleRoot =>
    show ofString ("/" ++ "/" ++ String.intercalate "/" names) = _
    rw [String.append_assoc]
    unfold ofString
    rw [hdouble, namesOf_slash, namesOf_slash, namesOf_intercalate hnames]

/-- A name put after a path as a text is put after it. -/
theorem child_of_isName (p : Path) {name : String} (h : IsName name) :
    p.child name = ⟨p.anchor, p.names ++ [name]⟩ := by
  have hnames : ∀ n ∈ [name], IsName n := by simpa using h
  have hread := ofString_text (p := ⟨.relative, [name]⟩) hnames
  have hname : ofString name = ⟨.relative, [name]⟩ := by
    rwa [text_of_relative rfl (by simp), String.intercalate_singleton] at hread
  unfold Path.child join
  rw [hname]
  rfl

/-- A text ends in a slash exactly when its last character is one. -/
theorem endsWith_slash_iff (s : String) : s.endsWith "/" ↔ s.toList.getLast? = some '/' := by
  show s.toSlice.endsWith "/" ↔ _
  rw [String.Slice.endsWith_string_iff, String.copy_toSlice, List.getLast?_eq_some_iff]
  exact ⟨fun ⟨t, ht⟩ => ⟨t, ht.symm⟩, fun ⟨t, ht⟩ => ⟨t, ht.symm⟩⟩

/-- Names put between slashes have a last character, which is no slash. -/
theorem exists_getLast?_intercalate {names : List String} (h : ∀ name ∈ names, IsName name)
    (hne : names ≠ []) :
    ∃ c, (String.intercalate "/" names).toList.getLast? = some c ∧ c ≠ '/' := by
  induction names with
  | nil => exact absurd rfl hne
  | cons first rest ih =>
    cases rest with
    | nil =>
      obtain ⟨c, cs, hcs, -⟩ := (h first (by simp)).exists_cons
      have hsome : first.toList ≠ [] := by simp [hcs]
      refine ⟨first.toList.getLast hsome, ?_, ?_⟩
      · rw [String.intercalate_singleton, List.getLast?_eq_some_getLast hsome]
      · intro hlast
        exact (h first (by simp)).2.2 (hlast ▸ List.getLast_mem hsome)
    | cons next rest =>
      obtain ⟨c, hc, hslash⟩ := ih (fun name hname => h name (List.mem_cons_of_mem _ hname)) (by simp)
      refine ⟨c, ?_, hslash⟩
      rw [String.intercalate_cons_of_ne_nil (by simp), String.toList_append, List.getLast?_append, hc]
      rfl

/-- The text of a path ends in a slash only when the path is a root. -/
theorem endsWith_text_iff {p : Path} (h : p.Written) :
    p.text.endsWith "/" ↔ p.anchor ≠ .relative ∧ p.names = [] := by
  obtain ⟨anchor, names⟩ := p
  rw [endsWith_slash_iff]
  by_cases hne : names = []
  · subst hne
    cases anchor <;> simp [text]
  · obtain ⟨c, hc, hslash⟩ := exists_getLast?_intercalate h hne
    have hend : ∀ s : String, (s ++ String.intercalate "/" names).toList.getLast? = some c := by
      intro s
      rw [String.toList_append, List.getLast?_append, hc]
      rfl
    have htext : (⟨anchor, names⟩ : Path).text.toList.getLast? = some c := by
      cases anchor with
      | relative => rwa [text_of_relative rfl hne]
      | root => exact hend "/"
      | doubleRoot => exact hend "//"
    rw [htext]
    simp [hslash, hne]

/-- The text of a path is not empty. -/
theorem text_ne_empty {p : Path} (h : p.Written) : p.text ≠ "" := by
  obtain ⟨anchor, names⟩ := p
  intro hempty
  have hread := ofString_text h
  rw [hempty] at hread
  rw [← hread] at hempty
  exact absurd hempty (by decide)

/-- A path with a name after it has the longer text. -/
theorem text_le_text_concat {anchor : Anchor} {names : List String} (hne : names ≠ []) (name : String) :
    (⟨anchor, names⟩ : Path).text.utf8ByteSize ≤
      (⟨anchor, names ++ [name]⟩ : Path).text.utf8ByteSize := by
  have hjoin : String.intercalate "/" (names ++ [name]) =
      String.intercalate "/" names ++ "/" ++ name := by
    rw [String.intercalate_append_of_ne_nil hne (by simp), String.intercalate_singleton]
  cases anchor with
  | relative =>
    rw [text_of_relative rfl hne, text_of_relative rfl (by simp)]
    show (String.intercalate "/" names).utf8ByteSize ≤
      (String.intercalate "/" (names ++ [name])).utf8ByteSize
    rw [hjoin, String.utf8ByteSize_append, String.utf8ByteSize_append]
    omega
  | root =>
    show ("/" ++ String.intercalate "/" names).utf8ByteSize ≤
      ("/" ++ String.intercalate "/" (names ++ [name])).utf8ByteSize
    rw [hjoin]
    simp only [String.utf8ByteSize_append]
    omega
  | doubleRoot =>
    show ("//" ++ String.intercalate "/" names).utf8ByteSize ≤
      ("//" ++ String.intercalate "/" (names ++ [name])).utf8ByteSize
    rw [hjoin]
    simp only [String.utf8ByteSize_append]
    omega

/-- A name joined to the text of a written path gives the text of the path with the name after it, but
for the working directory, whose dot stays. -/
theorem joinText_text {p : Path} (hp : p.Written) {name : String} (hn : IsName name) :
    joinText p.text name = (p.child name).text ∨
      p = ⟨.relative, []⟩ ∧ joinText p.text name = "." ++ "/" ++ name := by
  have hstart : ¬name.startsWith "/" := by
    obtain ⟨c, cs, hcs, hc⟩ := hn.exists_cons
    rw [startsWith_slash_iff, hcs]
    simpa using hc
  have hends := endsWith_text_iff hp
  have htext : p.text.isEmpty = false := by simpa using text_ne_empty hp
  rw [child_of_isName p hn]
  obtain ⟨anchor, names⟩ := p
  unfold joinText
  rw [if_neg hstart, htext, Bool.false_or]
  by_cases hne : names = []
  · subst hne
    cases anchor with
    | relative =>
      rw [if_neg (by simp [hends])]
      exact .inr ⟨rfl, rfl⟩
    | root | doubleRoot =>
      rw [if_pos (by simp [hends])]
      exact .inl (by simp [text])
  · rw [if_neg (by simp [hends, hne])]
    refine .inl ?_
    cases anchor <;>
      simp [text, hne, String.intercalate_append_of_ne_nil hne, String.append_assoc]

/-- A name joined to the text of a written path gives the path with the name after it. -/
theorem ofString_joinText {p : Path} (hp : p.Written) {name : String} (hn : IsName name) :
    ofString (joinText p.text name) = p.child name := by
  rcases joinText_text hp hn with htext | ⟨rfl, htext⟩
  · rw [htext, ofString_text (hp.child name)]
  · have hshort := ofString_text (hp.child name)
    rw [child_of_isName _ hn] at hshort ⊢
    rw [text_of_relative rfl (by simp)] at hshort
    have hname : anchorOf name = .relative ∧ namesOf name = [name] := by
      simpa [ofString] using hshort
    have hlist : ("." ++ "/" ++ name).toList = '.' :: '/' :: name.toList := by
      simp [String.toList_append]
    have hnames : namesOf ("." ++ "/" ++ name) = namesOf name := by
      unfold namesOf Text.split
      rw [hlist]
      rfl
    have hanchor : anchorOf ("." ++ "/" ++ name) = .relative := by
      unfold anchorOf
      rw [hlist]
      rfl
    rw [htext]
    show (⟨anchorOf ("." ++ "/" ++ name), namesOf ("." ++ "/" ++ name)⟩ : Path) = _
    rw [hanchor, hnames, hname.2]
    rfl

/-- A slash in front of a text adds an empty piece. -/
theorem split_slash (s : String) : Text.split '/' ("/" ++ s) = "" :: Text.split '/' s := by
  have hlist : ("/" ++ s).toList = '/' :: s.toList := by rw [String.toList_append]; rfl
  unfold Text.split
  rw [hlist, Text.splitChars, if_pos rfl]
  rfl

end Path

/-! ## Following the text of a path -/

/-- A text whose pieces are names, with any number of empty ones before them, is walked along the
names. -/
theorem Route.names_ofString (count : Nat) {s : String} {names : List String}
    (h : ∀ name ∈ names, Path.IsName name)
    (hs : Text.split '/' s = List.replicate count "" ++ names) (hne : names ≠ []) :
    (Route.ofString s).names = names := by
  have hkept : names.filter (· != "") = names :=
    List.filter_eq_self.2 fun name hname => by simpa using (h name hname).1
  have hlast : (List.replicate count "" ++ names).getLast? ≠ some "" := by
    rw [List.getLast?_append, List.getLast?_eq_some_getLast hne]
    intro hempty
    have hmem : names.getLast hne ∈ names := List.getLast_mem hne
    exact (h _ hmem).1 (by simpa using hempty)
  have hfilter : (List.replicate count "" ++ names).filter (· != "") = names := by
    rw [List.filter_append, List.filter_replicate, hkept]
    simp
  unfold Route.ofString
  dsimp only
  rw [hs, hfilter, if_neg]
  simp only [Bool.and_eq_true, beq_iff_eq, not_and]
  exact fun _ => hlast

/-- The text of a path is walked along the names of the path, and the dot that stands for no names at
all along itself. -/
theorem Route.ofString_text {p : Path} (h : p.Written) :
    (Route.ofString p.text).fromRoot = p.isAbsolute ∧
      ((Route.ofString p.text).names = p.names ∨
        p.names = [] ∧ (Route.ofString p.text).names = ["."]) := by
  obtain ⟨anchor, names⟩ := p
  have habsolute : (Route.ofString (Path.text ⟨anchor, names⟩)).fromRoot =
      (⟨anchor, names⟩ : Path).isAbsolute := by
    have hhead := Path.head?_intercalate h
    show (Path.text ⟨anchor, names⟩).startsWith "/" = _
    rw [Bool.eq_iff_iff, startsWith_slash_iff]
    cases anchor with
    | relative =>
      by_cases hne : names = []
      · subst hne
        simp [Path.text, Path.isAbsolute]
      · rw [Path.text_of_relative rfl hne]
        simpa [Path.isAbsolute] using hhead
    | root | doubleRoot => simp [Path.text, Path.isAbsolute, String.toList_append]
  refine ⟨habsolute, ?_⟩
  by_cases hne : names = []
  · subst hne
    cases anchor with
    | relative => exact .inr ⟨rfl, by decide⟩
    | root | doubleRoot => exact .inl (by decide)
  · have hsplit := Text.split_intercalate hne fun name hname => (h name hname).2.2
    refine .inl ?_
    -- each slash at the front is one empty part more, which is not walked along
    cases anchor with
    | relative =>
      rw [Path.text_of_relative rfl hne]
      exact Route.names_ofString 0 h hsplit hne
    | root =>
      have hslash : Text.split '/' ("/" ++ String.intercalate "/" names) = "" :: names := by
        rw [Path.split_slash, hsplit]
      exact Route.names_ofString 1 h hslash hne
    | doubleRoot =>
      have hslash : Text.split '/' ("/" ++ ("/" ++ String.intercalate "/" names)) =
          "" :: "" :: names := by
        rw [Path.split_slash, Path.split_slash, hsplit]
      exact Route.names_ofString 2 h hslash hne

/-- A name that stays where it is can be left out at the end of a walk. -/
theorem FileSystem.locateFrom_dot (fs : FileSystem) (ending : FileSystem.Ending) (links : Nat)
    (here : Location) : fs.locateFrom ending links here ["."] = fs.locateFrom ending links here [] := by
  unfold FileSystem.locateFrom
  simp [FileSystem.walk, FileSystem.isIdle]

/-- Following the text of a written path is following the path. -/
theorem FileSystem.locateText_text (fs : FileSystem) (ending : FileSystem.Ending) {p : Path}
    (h : p.Written) : fs.locateText ending p.text = fs.locate ending p := by
  have hempty : p.text.isEmpty = false := by simpa using Path.text_ne_empty h
  obtain ⟨hroot, hnames⟩ := Route.ofString_text h
  unfold FileSystem.locateText FileSystem.locate FileSystem.locateRoute
  rw [hempty, hroot]
  simp only [Bool.false_eq_true, if_false, Path.route]
  rcases hnames with hnames | ⟨hnil, hnames⟩
  · rw [hnames]
    rfl
  · rw [hnames, hnil, FileSystem.locateFrom_dot]
    rfl

/-- Following a name after a dot is following the name, unless the text gets too long. -/
theorem FileSystem.locateText_dot (fs : FileSystem) (ending : FileSystem.Ending) {name : String}
    (h : Path.IsName name) :
    fs.locateText ending ("." ++ "/" ++ name) =
      if ("." ++ "/" ++ name).utf8ByteSize > FileSystem.maxPathSize then .error .nameTooLong
      else fs.locateFrom ending FileSystem.maxLinks fs.workingDirectory [name] := by
  have hlist : ("." ++ "/" ++ name).toList = '.' :: '/' :: name.toList := by
    simp [String.toList_append]
  have hsplit : Text.split '/' ("." ++ "/" ++ name) = [".", name] := by
    have hnames : ∀ n ∈ [".", name], '/' ∉ n.toList := by
      intro n hn
      simp only [List.mem_cons, List.not_mem_nil, or_false] at hn
      rcases hn with rfl | rfl
      · decide
      · exact h.2.2
    have hread := Text.split_intercalate (by simp) hnames
    rwa [String.intercalate_cons_of_ne_nil (by simp), String.intercalate_singleton] at hread
  have hroute : Route.ofString ("." ++ "/" ++ name) = ⟨false, [".", name]⟩ := by
    have hroot : ("." ++ "/" ++ name).startsWith "/" = false := by
      rw [Bool.eq_false_iff, ne_eq, startsWith_slash_iff, hlist]
      simp
    unfold Route.ofString
    rw [hsplit, hroot]
    simp [h.1]
  have hempty : ("." ++ "/" ++ name).isEmpty = false := by
    rw [Bool.eq_false_iff, ne_eq, String.isEmpty_iff, ← String.toList_inj, hlist]
    simp
  -- the dot is on the walk, but stays where it is
  have hwalk : fs.locateFrom ending FileSystem.maxLinks fs.workingDirectory [".", name] =
      fs.locateFrom ending FileSystem.maxLinks fs.workingDirectory [name] := by
    rw [FileSystem.locateFrom, FileSystem.locateFrom, FileSystem.walk, if_pos (by decide)]
  unfold FileSystem.locateText FileSystem.locateRoute
  rw [hempty, hroute]
  simp only [Bool.false_eq_true, if_false]
  rw [hwalk]

/-- Where a name joined to the text of a path leads, the path with the name after it leads. -/
theorem FileSystem.locate_of_joinText {fs : FileSystem} {ending : FileSystem.Ending} {p : Path}
    (hp : p.Written) {name : String} (hn : Path.IsName name) {place : Location}
    (h : fs.locateText ending (Path.joinText p.text name) = .ok place) :
    fs.locate ending (p.child name) = .ok place := by
  rcases Path.joinText_text hp hn with htext | ⟨rfl, htext⟩
  · rwa [htext, FileSystem.locateText_text fs ending (hp.child name)] at h
  · rw [htext, FileSystem.locateText_dot fs ending hn] at h
    split at h
    · cases h
    · next hsize =>
      rw [Path.child_of_isName _ hn]
      show fs.locateRoute ending _ ⟨false, [name]⟩ = _
      unfold FileSystem.locateRoute
      rw [if_neg]
      · exact h
      · intro hlong
        refine hsize (Nat.lt_of_lt_of_le hlong ?_)
        rw [Path.text_of_relative rfl (by simp)]
        simp [String.intercalate_singleton]

/-- Where a path with a name after it leads, the name joined to the text of the path leads, unless the name
is too long. -/
theorem FileSystem.locateText_joinText {fs : FileSystem} {ending : FileSystem.Ending} {p : Path}
    (hp : p.Written) {name : String} (hn : Path.IsName name)
    (hshort : name.utf8ByteSize ≤ FileSystem.maxNameSize) {place : Location}
    (h : fs.locate ending (p.child name) = .ok place) :
    fs.locateText ending (Path.joinText p.text name) = .ok place := by
  rcases Path.joinText_text hp hn with htext | ⟨rfl, htext⟩
  · rwa [htext, FileSystem.locateText_text fs ending (hp.child name)]
  · rw [htext, FileSystem.locateText_dot fs ending hn, if_neg]
    · rw [Path.child_of_isName _ hn] at h
      change fs.locateRoute ending _ ⟨false, [name]⟩ = _ at h
      unfold FileSystem.locateRoute at h
      split at h
      · cases h
      · exact h
    · rw [String.utf8ByteSize_append, String.utf8ByteSize_append]
      have hdot : ".".utf8ByteSize = 1 := by decide
      have hslash : "/".utf8ByteSize = 1 := by decide
      unfold FileSystem.maxNameSize at hshort
      unfold FileSystem.maxPathSize
      omega

/-! ## Texts that are no path -/

/-- A text can be a path when none of its characters is a half or the zero byte. -/
theorem PathFault.ofText?_eq_none_iff {s : String} :
    PathFault.ofText? s = none ↔ ∀ c ∈ s.toList, PathFault.isHalf c = false ∧ c ≠ '\x00' := by
  unfold PathFault.ofText?
  by_cases hhalf : s.toList.any PathFault.isHalf = true
  · rw [if_pos hhalf]
    obtain ⟨c, hc, hbad⟩ := List.any_eq_true.1 hhalf
    refine ⟨fun h => (by cases h), fun h => ?_⟩
    rw [(h c hc).1] at hbad
    cases hbad
  · rw [if_neg hhalf]
    have hgood : ∀ c ∈ s.toList, PathFault.isHalf c = false := by
      intro c hc
      cases hbad : PathFault.isHalf c with
      | false => rfl
      | true => exact absurd (List.any_eq_true.2 ⟨c, hc, hbad⟩) hhalf
    by_cases hzero : s.toList.contains '\x00' = true
    · rw [if_pos hzero]
      refine ⟨fun h => (by cases h), fun h => ?_⟩
      exact absurd rfl (h _ (by simpa using hzero)).2
    · rw [if_neg hzero]
      refine ⟨fun _ c hc => ⟨hgood c hc, ?_⟩, fun _ => rfl⟩
      rintro rfl
      exact hzero (by simpa using hc)

/-- Two texts after one another can be a path when both can. -/
theorem PathFault.ofText?_append {a b : String} :
    PathFault.ofText? (a ++ b) = none ↔ PathFault.ofText? a = none ∧ PathFault.ofText? b = none := by
  simp only [PathFault.ofText?_eq_none_iff, String.toList_append, List.mem_append]
  exact ⟨fun h => ⟨fun c hc => h c (.inl hc), fun c hc => h c (.inr hc)⟩,
    fun h c hc => hc.elim (h.1 c) (h.2 c)⟩

/-- Names between slashes can be a path when all of them can. -/
theorem PathFault.ofText?_intercalate {names : List String} :
    PathFault.ofText? (String.intercalate "/" names) = none ↔
      ∀ name ∈ names, PathFault.ofText? name = none := by
  induction names with
  | nil => simp [PathFault.ofText?_eq_none_iff]
  | cons name rest ih =>
    cases rest with
    | nil => simp
    | cons next rest =>
      rw [String.intercalate_cons_of_ne_nil (by simp), PathFault.ofText?_append,
        PathFault.ofText?_append, ih, List.forall_mem_cons]
      have hslash : PathFault.ofText? "/" = none := by decide
      simp [hslash]

/-- The text of a path can be one when its names can. -/
theorem PathFault.ofText?_text {p : Path} :
    PathFault.ofText? p.text = none ↔ ∀ name ∈ p.names, PathFault.ofText? name = none := by
  obtain ⟨anchor, names⟩ := p
  have hdot : PathFault.ofText? "." = none := by decide
  have hslash : PathFault.ofText? "/" = none := by decide
  have hslashes : PathFault.ofText? "//" = none := by decide
  cases anchor with
  | relative =>
    by_cases hne : names = []
    · subst hne
      simpa [Path.text] using hdot
    · rw [Path.text_of_relative rfl hne, PathFault.ofText?_intercalate]
  | root =>
    show PathFault.ofText? ("/" ++ String.intercalate "/" names) = none ↔ _
    rw [PathFault.ofText?_append, PathFault.ofText?_intercalate]
    simp [hslash]
  | doubleRoot =>
    show PathFault.ofText? ("//" ++ String.intercalate "/" names) = none ↔ _
    rw [PathFault.ofText?_append, PathFault.ofText?_intercalate]
    simp [hslashes]

/-- The text of a path can be one still with names at its end that can. -/
theorem PathFault.ofText?_text_append {anchor : Anchor} {names more : List String}
    (h : PathFault.ofText? (⟨anchor, names⟩ : Path).text = none) (hmore : ∀ name ∈ more, PathFault.ofText? name = none) :
    PathFault.ofText? (⟨anchor, names ++ more⟩ : Path).text = none := by
  rw [PathFault.ofText?_text] at h ⊢
  intro name hname
  exact (List.mem_append.1 hname).elim (h name) (hmore name)

/-- No name of a path has a fault when its text has none. -/
theorem FileSystem.nameFault?_of_text {p : Path} (h : PathFault.ofText? p.text = none) :
    FileSystem.nameFault? p = none := by
  unfold FileSystem.nameFault?
  rw [List.findSome?_eq_none_iff]
  exact PathFault.ofText?_text.1 h

end ProviderBindings
