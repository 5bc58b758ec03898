import ProviderBindings.Proofs.Grammar
import ProviderBindings.Proofs.Paths
import ProviderBindings.Proofs.FileSystem.Soundness
import ProviderBindings.Generation

/-!
# Sources and their places

The source of a constraint that was resolved is made of segments between slashes, each of which starts
with a letter or a digit. So the import name of a source spells a proper location below the output
directory, its *place*, with one name for each segment and no dash in any of them. Two sources have one
place only if they have one import name; but the place of one may lie above the place of another.
-/

namespace ProviderBindings

namespace Text

/-- Replacing characters that are no separators by others that are none goes through a cut. -/
theorem splitChars_map {sep : Char} {f : Char → Char} (h : ∀ c, f c = sep ↔ c = sep) (cs : List Char) :
    splitChars sep (cs.map f) = (splitChars sep cs).map (List.map f) := by
  induction cs with
  | nil => rfl
  | cons c cs ih =>
    by_cases hc : c = sep
    · rw [List.map_cons, splitChars, splitChars, if_pos ((h c).2 hc), if_pos hc, ih]
      rfl
    · rw [List.map_cons, splitChars, splitChars, if_neg (fun e => hc ((h c).1 e)), if_neg hc, ih]
      cases splitChars sep cs <;> rfl

/-- A text is its pieces with the separators back between them. -/
theorem intercalate_split (s : String) : String.intercalate "/" (split '/' s) = s := by
  rw [← String.toList_inj, String.toList_intercalate, split, List.map_map]
  have hid : (splitChars '/' s.toList).map (String.toList ∘ String.ofList) =
      splitChars '/' s.toList := by
    simp [Function.comp_def]
  rw [hid]
  exact intercalate_splitChars '/' s.toList

/-- The pieces of two texts with a slash between them are the pieces of both. -/
theorem split_append_slash (a b : String) :
    split '/' (a ++ "/" ++ b) = split '/' a ++ split '/' b := by
  have hlist : (a ++ "/" ++ b).toList = a.toList ++ '/' :: b.toList := by
    rw [String.toList_append, String.toList_append, List.append_assoc]
    rfl
  unfold split
  rw [hlist, splitChars_eq_splitOn, splitChars_eq_splitOn, splitChars_eq_splitOn,
    List.splitOn_append_cons_self, List.map_append]

/-- There is always a piece of a text. -/
theorem split_ne_nil (s : String) : split '/' s ≠ [] := by
  unfold split
  simpa using splitChars_ne_nil '/' s.toList

/-- A text without slashes is a single piece. -/
theorem split_of_not_mem {s : String} (h : '/' ∉ s.toList) : split '/' s = [s] := by
  have hread : split '/' (String.intercalate "/" [s]) = [s] :=
    split_intercalate (by simp) (by simpa using h)
  rwa [String.intercalate_singleton] at hread

end Text

/-- Whether a name starts with a letter or a digit, and a file can have it. -/
def StartsPlain (name : String) : Prop :=
  (∃ c cs, name.toList = c :: cs ∧ Text.isAlphanumeric c = true) ∧ PathFault.ofText? name = none

/-- Whether a text is made of segments that start with a letter or a digit and are names of files. -/
def Segmented (source : String) : Prop :=
  ∀ name ∈ Text.split '/' source, StartsPlain name

/-- A name starts with a letter or a digit when its first character is one. -/
theorem startsPlain_iff {name : String} :
    StartsPlain name ↔
      name.toList.head?.any Text.isAlphanumeric = true ∧ PathFault.ofText? name = none := by
  unfold StartsPlain
  refine and_congr_left fun _ => ?_
  cases name.toList with
  | nil => simp
  | cons c cs => simp

instance (name : String) : Decidable (StartsPlain name) :=
  decidable_of_iff _ startsPlain_iff.symm

instance (source : String) : Decidable (Segmented source) := by
  unfold Segmented; infer_instance

/-- Segments with a slash between them are segments. -/
theorem Segmented.slash {a b : String} (ha : Segmented a) (hb : Segmented b) :
    Segmented (a ++ "/" ++ b) := by
  intro name hname
  rw [Text.split_append_slash] at hname
  rcases List.mem_append.1 hname with hname | hname
  · exact ha name hname
  · exact hb name hname

/-- A text made of segments is a text that a path can have. -/
theorem Segmented.faultless {source : String} (h : Segmented source) :
    PathFault.ofText? source = none := by
  have hpieces : ∀ name ∈ Text.split '/' source, PathFault.ofText? name = none :=
    fun name hname => (h name hname).2
  rw [← Text.intercalate_split source]
  exact PathFault.ofText?_intercalate.2 hpieces

/-- The names below the output directory that the import name of a source spells. -/
def placeOf (source : String) : Location :=
  Path.namesOf (importName source)

/-- A name that starts with a letter or a digit is no dots. -/
theorem StartsPlain.ne {name : String} (h : StartsPlain name) :
    name ≠ "" ∧ name ≠ "." ∧ name ≠ ".." := by
  obtain ⟨⟨c, cs, hlist, hc⟩, -⟩ := h
  refine ⟨?_, ?_, ?_⟩ <;> rintro rfl
  · cases hlist
  · cases hlist
    revert hc
    decide
  · cases hlist
    revert hc
    decide

/-- The names of a text all of whose pieces start with a letter or a digit are these pieces. -/
theorem namesOf_of_startsPlain {s : String} (h : ∀ name ∈ Text.split '/' s, StartsPlain name) :
    Path.namesOf s = Text.split '/' s := by
  unfold Path.namesOf
  refine List.filter_eq_self.2 fun name hname => ?_
  have hne := (h name hname).ne
  simp [hne.1, hne.2.1]

/-- The names of a text all of whose pieces start with a letter or a digit are proper. -/
theorem proper_of_startsPlain {s : String} (h : ∀ name ∈ Text.split '/' s, StartsPlain name) :
    FileSystem.Proper (Text.split '/' s) := by
  intro name hname
  obtain ⟨hempty, hdot, hup⟩ := (h name hname).ne
  exact ⟨⟨hempty, hdot, Text.not_mem_of_mem_split hname⟩, hup⟩

/-! ## Sources of constraints -/

/-- A letter or a digit can stand in a path. -/
theorem isHalf_of_isAlphanumeric {c : Char} (h : Text.isAlphanumeric c = true) :
    PathFault.isHalf c = false ∧ c ≠ '\x00' :=
  Text.forall_of_isAlphanumeric (p := fun c => PathFault.isHalf c = false ∧ c ≠ '\x00') (by decide) h

/-- A character of a segment, and the line feed that is let through at its end, can stand in a path. -/
theorem Constraint.isHalf_of_isSegmentChar {c : Char} (h : isSegmentChar c = true ∨ c = '\n') :
    PathFault.isHalf c = false ∧ c ≠ '\x00' := by
  unfold isSegmentChar at h
  simp only [Bool.or_eq_true, beq_iff_eq] at h
  rcases h with (((h | rfl) | rfl) | rfl) | rfl
  · exact isHalf_of_isAlphanumeric h
  all_goals decide

/-- The pieces of a qualified name start with a letter or a digit, and a file can have their names. -/
theorem Constraint.Qualified.startsPlain {pieces : List (List Char)} (h : Qualified pieces)
    {piece : List Char} (hpiece : piece ∈ pieces) : StartsPlain (String.ofList piece) := by
  constructor
  · obtain ⟨first, rest, rfl, hfirst⟩ := h.exists_cons hpiece
    exact ⟨first, rest, String.toList_ofList, hfirst⟩
  · rw [PathFault.ofText?_eq_none_iff, String.toList_ofList]
    exact fun c hc => isHalf_of_isSegmentChar (h.isSegmentChar hpiece hc)

/-- The name of a constraint that was resolved is one of the pieces of its qualified name, and these are the
pieces between slashes. -/
theorem Constraint.split_of_resolve {name : String} {c : Constraint}
    (h : Constraint.resolve name = .ok c) :
    ∃ pieces, Qualified pieces ∧ Text.split '/' c.qualifiedName = pieces.map String.ofList ∧
      ∃ last ∈ pieces, c.name = String.ofList last := by
  obtain ⟨pieces, version, hpieces, -, rfl⟩ := resolve_ok_iff.1 h
  refine ⟨pieces, hpieces, ?_, pieces.getLast hpieces.ne_nil, List.getLast_mem _, ?_⟩
  · unfold Text.split ofPieces
    rw [String.toList_ofList, Text.splitChars_intercalate hpieces.ne_nil]
    exact fun piece hpiece => hpieces.not_mem (by decide) hpiece
  · simp [ofPieces, List.getLast?_eq_some_getLast hpieces.ne_nil]

/-- The short name of a constraint that was resolved is a single segment. -/
theorem Constraint.split_name_of_resolve {name : String} {c : Constraint} (h : resolve name = .ok c) :
    Text.split '/' c.name = [c.name] := by
  obtain ⟨pieces, hpieces, -, last, hlast, hname⟩ := split_of_resolve h
  refine Text.split_of_not_mem ?_
  rw [hname, String.toList_ofList]
  exact hpieces.not_mem (by decide) hlast

/-- The source of a constraint that was resolved is made of segments. -/
theorem Constraint.segmented_of_resolve {name : String} {c : Constraint}
    (h : Constraint.resolve name = .ok c) (kind : TargetKind) : Segmented (c.source kind) := by
  obtain ⟨pieces, hpieces, hsplit, last, hlast, hname⟩ := split_of_resolve h
  cases kind with
  | provider =>
    intro n hn
    rw [show c.source .provider = c.name from rfl, split_name_of_resolve h, List.mem_singleton] at hn
    rw [hn, hname]
    exact hpieces.startsPlain hlast
  | module =>
    intro n hn
    rw [show c.source .module = c.qualifiedName from rfl, hsplit] at hn
    obtain ⟨piece, hpiece, rfl⟩ := List.mem_map.1 hn
    exact hpieces.startsPlain hpiece

/-- The sources of constraints that names resolve to are made of segments. -/
theorem Constraint.segmented_of_mem {names : List String} {cs : List Constraint}
    (h : names.map Constraint.resolve = cs.map .ok) {c : Constraint} (hc : c ∈ cs) (kind : TargetKind) :
    Segmented (c.source kind) := by
  have hok : Except.ok c ∈ names.map Constraint.resolve := by
    rw [h]
    exact List.mem_map_of_mem hc
  obtain ⟨name, -, hname⟩ := List.mem_map.1 hok
  exact Constraint.segmented_of_resolve hname kind

/-! ## Places -/

/-- The pieces of an import name are the segments of the source, with their dashes replaced. -/
theorem split_importName (source : String) :
    Text.split '/' (importName source) = (Text.split '/' source).map importName := by
  have hswap : ∀ c : Char, (if c = '-' then '_' else c) = '/' ↔ c = '/' := by
    intro c
    split
    · next h =>
      subst h
      decide
    · rfl
  have hmap := Text.splitChars_map hswap source.toList
  unfold Text.split importName Text.swapChar
  rw [String.toList_ofList, hmap, List.map_map, List.map_map]
  simp [Function.comp_def]

/-- A segment starts with a letter or a digit after its dashes are replaced. -/
theorem StartsPlain.importable {name : String} (h : StartsPlain name) :
    StartsPlain (importName name) := by
  obtain ⟨⟨c, cs, hlist, hc⟩, hfault⟩ := h
  have hdash : c ≠ '-' := by
    rintro rfl
    revert hc
    decide
  refine ⟨⟨c, cs.map fun c => if c = '-' then '_' else c, ?_, hc⟩, ?_⟩
  · unfold importName Text.swapChar
    rw [String.toList_ofList, hlist, List.map_cons, if_neg hdash]
  · rw [PathFault.ofText?_eq_none_iff] at hfault ⊢
    intro d hd
    unfold importName Text.swapChar at hd
    rw [String.toList_ofList] at hd
    obtain ⟨e, he, rfl⟩ := List.mem_map.1 hd
    split
    · decide
    · exact hfault e he

/-- The pieces of the import name of a source start with a letter or a digit. -/
theorem Segmented.importable {source : String} (h : Segmented source) : Segmented (importName source) := by
  intro name hname
  rw [split_importName] at hname
  obtain ⟨segment, hsegment, rfl⟩ := List.mem_map.1 hname
  exact (h segment hsegment).importable

/-- The place of a source is made of the pieces of its import name. -/
theorem Segmented.placeOf_eq {source : String} (h : Segmented source) :
    placeOf source = Text.split '/' (importName source) :=
  namesOf_of_startsPlain h.importable

/-- The place of a source is proper. -/
theorem Segmented.proper_placeOf {source : String} (h : Segmented source) :
    FileSystem.Proper (placeOf source) := by
  rw [h.placeOf_eq]
  exact proper_of_startsPlain h.importable

/-- The place of a source is below the output directory and not the directory itself. -/
theorem Segmented.placeOf_ne_nil {source : String} (h : Segmented source) : placeOf source ≠ [] := by
  rw [h.placeOf_eq]
  exact Text.split_ne_nil _

/-- Names of a place start with a letter or a digit. -/
theorem Segmented.startsPlain_of_mem_placeOf {source name : String} (h : Segmented source)
    (hname : name ∈ placeOf source) : StartsPlain name := by
  rw [h.placeOf_eq] at hname
  exact h.importable name hname

/-- Two sources have one place only if they have one import name. -/
theorem placeOf_inj {a b : String} (ha : Segmented a) (hb : Segmented b) :
    placeOf a = placeOf b ↔ importName a = importName b := by
  constructor
  · intro h
    rw [ha.placeOf_eq, hb.placeOf_eq] at h
    rw [← Text.intercalate_split (importName a), h, Text.intercalate_split]
  · intro h
    unfold placeOf
    rw [h]

/-- The path of a text all of whose pieces are proper names is relative, and its names are the pieces. -/
theorem Path.ofString_of_proper {s : String} (h : FileSystem.Proper (Text.split '/' s)) :
    Path.ofString s = ⟨.relative, Text.split '/' s⟩ := by
  have htext : (⟨.relative, Text.split '/' s⟩ : Path).text = s := by
    rw [Path.text_of_relative rfl (Text.split_ne_nil s)]
    exact Text.intercalate_split s
  have hread := Path.ofString_text (p := ⟨.relative, Text.split '/' s⟩) fun name hname => (h name hname).1
  rwa [htext] at hread

/-- A text all of whose pieces are proper names leads on by them when it is put after a path. -/
theorem Path.child_of_proper {s : String} (h : FileSystem.Proper (Text.split '/' s)) (p : Path) :
    p.child s = ⟨p.anchor, p.names ++ Text.split '/' s⟩ := by
  rw [Path.child, Path.ofString_of_proper h]
  rfl

/-- The path of a text made of segments is relative, and its names are the segments. -/
theorem Segmented.ofString {s : String} (h : Segmented s) : Path.ofString s = ⟨.relative, Text.split '/' s⟩ :=
  Path.ofString_of_proper (proper_of_startsPlain h)

/-- The path of a text made of segments has no double dots. -/
theorem Segmented.not_mem_names {s : String} (h : Segmented s) : ".." ∉ (Path.ofString s).names := by
  rw [h.ofString]
  exact fun hup => (h _ hup).ne.2.2 rfl

/-- A text made of segments that is put after a path leads on by its segments. -/
theorem Segmented.child {s : String} (h : Segmented s) (p : Path) :
    p.child s = ⟨p.anchor, p.names ++ Text.split '/' s⟩ :=
  Path.child_of_proper (proper_of_startsPlain h) p

/-- An import name put after a path leads on by its place. -/
theorem Segmented.child_importName {source : String} (h : Segmented source) (p : Path) :
    p.child (importName source) = ⟨p.anchor, p.names ++ placeOf source⟩ := by
  rw [h.importable.child, h.placeOf_eq]

/-- After one path, two sources are at one place only if they have one import name. -/
theorem Segmented.child_importName_inj {a b : String} (ha : Segmented a) (hb : Segmented b) {p : Path} :
    p.child (importName a) = p.child (importName b) ↔ importName a = importName b := by
  rw [ha.child_importName, hb.child_importName, Path.mk.injEq, List.append_cancel_left_eq,
    ← placeOf_inj ha hb]
  exact and_iff_right rfl

end ProviderBindings
