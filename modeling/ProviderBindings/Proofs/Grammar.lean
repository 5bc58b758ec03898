import Mathlib.Data.List.Basic
import ProviderBindings.Constraint

/-!
# The grammar of constraints

A trimmed text is a constraint when it is names between slashes, and after an at sign perhaps a version
(`Constraint.Written`), and when these names are segments (`Constraint.Qualified`). `resolve_ok_iff` says
that `Constraint.resolve` accepts these texts and no others, and what it makes of each; the rest of the
library opens `resolve` nowhere else.

The grammar has one place where it is wider than it looks. The end that a segment is matched up to may be the
end of a line, and so each segment but the last may be followed by one line feed. After the last there is
none, as the name is trimmed.
-/

namespace ProviderBindings

namespace Constraint

/-- A segment: a letter or a digit, then letters, digits, dots, underscores and dashes. -/
def Segment (cs : List Char) : Prop :=
  ∃ first rest, cs = first :: rest ∧ Text.isAlphanumeric first = true ∧
    ∀ c ∈ rest, isSegmentChar c = true

/-- What stands between the slashes of a qualified name: segments, each of which but the last may be
followed by one line feed. -/
def Qualified (pieces : List (List Char)) : Prop :=
  ∃ init last, pieces = init ++ [last] ∧ Segment last ∧
    ∀ piece ∈ init, Segment piece ∨ ∃ segment, Segment segment ∧ piece = segment ++ ['\n']

/-- How a text is made up as a constraint: pieces joined by slashes, alone or before an at sign and a
version. Blanks around the name and around the version do not count. -/
inductive Written : List Char → List (List Char) → Option (List Char) → Prop
  | bare {name : List Char} {pieces : List (List Char)}
      (joined : Text.stripChars name = ['/'].intercalate pieces) : Written name pieces none
  | versioned {name version : List Char} {pieces : List (List Char)}
      (joined : Text.stripChars name = ['/'].intercalate pieces)
      (nonempty : Text.stripChars version ≠ []) (single : '@' ∉ Text.stripChars version) :
      Written (name ++ '@' :: version) pieces (some (Text.stripChars version))

/-- What a text with these pieces and this version stands for. -/
def ofPieces (text : List Char) (pieces : List (List Char)) (version : Option (List Char)) :
    Constraint where
  text := String.ofList text
  qualifiedName := String.ofList (['/'].intercalate pieces)
  name := String.ofList (pieces.getLastD [])
  scope := pieces.dropLast.getLast?.map String.ofList
  version := version.map String.ofList

/-! ## Segments -/

/-- Every character of a segment may stand in one. -/
theorem Segment.isSegmentChar {cs : List Char} (h : Segment cs) {c : Char} (hc : c ∈ cs) :
    isSegmentChar c = true := by
  obtain ⟨first, rest, rfl, hfirst, hrest⟩ := h
  rcases List.mem_cons.1 hc with rfl | hc
  · simp [Constraint.isSegmentChar, hfirst]
  · exact hrest c hc

/-- A segment is not empty. -/
theorem Segment.ne_nil {cs : List Char} (h : Segment cs) : cs ≠ [] := by
  obtain ⟨first, rest, rfl, -⟩ := h
  simp

/-- The characters that pass for a segment are a segment, and a segment before a line feed. -/
theorem isSegment_iff {cs : List Char} :
    isSegment cs = true ↔ Segment cs ∨ ∃ segment, Segment segment ∧ cs = segment ++ ['\n'] := by
  -- a line feed at the end is passed over, so that what is left has to be a segment
  have hkept : isSegment cs = true ↔ Segment (dropLineFeed cs) := by
    unfold isSegment Segment
    split
    · next h => simp [h]
    · next first rest h =>
      rw [Bool.and_eq_true, List.all_eq_true]
      constructor
      · exact fun hok => ⟨first, rest, h, hok⟩
      · rintro ⟨first', rest', h', hok⟩
        cases h.symm.trans h'
        exact hok
  rw [hkept]
  unfold dropLineFeed
  split
  · next hlast =>
    have hcs := List.dropLast_append_getLast? _ hlast
    constructor
    · exact fun h => .inr ⟨_, h, hcs.symm⟩
    · rintro (h | ⟨segment, h, rfl⟩)
      · exact absurd (h.isSegmentChar (List.mem_of_getLast? hlast)) (by decide)
      · rwa [List.dropLast_concat]
  · next hlast =>
    refine ⟨.inl, ?_⟩
    rintro (h | ⟨segment, h, rfl⟩)
    · exact h
    · simp at hlast

/-- There is at least one piece. -/
theorem Qualified.ne_nil {pieces : List (List Char)} (h : Qualified pieces) : pieces ≠ [] := by
  obtain ⟨init, last, rfl, -⟩ := h
  simp

/-- Every piece is a segment, or a segment before a line feed. -/
theorem Qualified.segment_or {pieces : List (List Char)} (h : Qualified pieces) {piece : List Char}
    (hpiece : piece ∈ pieces) :
    Segment piece ∨ ∃ segment, Segment segment ∧ piece = segment ++ ['\n'] := by
  obtain ⟨init, last, rfl, hlast, hinit⟩ := h
  rcases List.mem_append.1 hpiece with hpiece | hpiece
  · exact hinit piece hpiece
  · exact .inl (List.mem_singleton.1 hpiece ▸ hlast)

/-- The pieces make up a name that is not empty. -/
theorem Qualified.intercalate_ne_nil {pieces : List (List Char)} (h : Qualified pieces) :
    ['/'].intercalate pieces ≠ [] := by
  obtain ⟨init, last, rfl, hlast, -⟩ := h
  exact fun hnil => hlast.ne_nil (List.suffix_nil.1 (hnil ▸ Text.isSuffix_intercalate '/' init last))

/-- Every piece starts with a letter or a digit. -/
theorem Qualified.exists_cons {pieces : List (List Char)} (h : Qualified pieces) {piece : List Char}
    (hpiece : piece ∈ pieces) :
    ∃ first rest, piece = first :: rest ∧ Text.isAlphanumeric first = true := by
  have hsegment {cs : List Char} (h : Segment cs) (after : List Char) :
      ∃ first rest, cs ++ after = first :: rest ∧ Text.isAlphanumeric first = true := by
    obtain ⟨first, rest, rfl, hfirst, -⟩ := h
    exact ⟨first, rest ++ after, rfl, hfirst⟩
  rcases h.segment_or hpiece with h | ⟨segment, h, rfl⟩
  · simpa using hsegment h []
  · exact hsegment h ['\n']

/-- Every character of a piece may stand in a segment, or is the line feed after one. -/
theorem Qualified.isSegmentChar {pieces : List (List Char)} (h : Qualified pieces) {piece : List Char}
    (hpiece : piece ∈ pieces) {c : Char} (hc : c ∈ piece) : isSegmentChar c = true ∨ c = '\n' := by
  rcases h.segment_or hpiece with h | ⟨segment, h, rfl⟩
  · exact .inl (h.isSegmentChar hc)
  · rcases List.mem_append.1 hc with hc | hc
    · exact .inl (h.isSegmentChar hc)
    · exact .inr (List.mem_singleton.1 hc)

/-- No piece holds a character that can neither stand in a segment nor follow one. -/
theorem Qualified.not_mem {pieces : List (List Char)} (h : Qualified pieces) {c : Char}
    (hc : ¬(Constraint.isSegmentChar c = true ∨ c = '\n')) {piece : List Char} (hpiece : piece ∈ pieces) :
    c ∉ piece :=
  fun hmem => hc (h.isSegmentChar hpiece hmem)

/-- Such a character is not in the name that the pieces make up, unless it is a slash. -/
theorem Qualified.not_mem_intercalate {pieces : List (List Char)} (h : Qualified pieces) {c : Char}
    (hc : ¬((Constraint.isSegmentChar c = true ∨ c = '\n') ∨ c = '/')) :
    c ∉ ['/'].intercalate pieces := by
  intro hmem
  rcases Text.mem_intercalate hmem with hslash | ⟨piece, hpiece, hmem⟩
  · exact hc (.inr hslash)
  · exact hc (.inl (h.isSegmentChar hpiece hmem))

/-- The pieces of a trimmed name all pass for segments when they make up a qualified name. -/
theorem qualified_iff {name : List Char} {pieces : List (List Char)} (hne : pieces ≠ [])
    (h : Text.stripChars name = ['/'].intercalate pieces) :
    Qualified pieces ↔ ∀ piece ∈ pieces, isSegment piece = true := by
  simp only [isSegment_iff]
  constructor
  · exact fun hpieces piece hpiece => hpieces.segment_or hpiece
  · intro hall
    obtain ⟨init, last, rfl⟩ : ∃ init last, pieces = init ++ [last] :=
      ⟨_, _, (List.dropLast_append_getLast hne).symm⟩
    refine ⟨init, last, rfl, ?_, fun piece hpiece => hall piece (by simp [hpiece])⟩
    refine (hall last (by simp)).resolve_right ?_
    -- the last piece ends where the trimmed name ends, and a line feed is a blank
    rintro ⟨segment, -, rfl⟩
    have hend : (Text.stripChars name).getLast? = some '\n' := by
      obtain ⟨before, hbefore⟩ := Text.isSuffix_intercalate '/' init (segment ++ ['\n'])
      rw [h, ← hbefore, ← List.append_assoc, List.getLast?_concat]
    exact absurd (Text.getLast?_stripChars name '\n' hend) (by decide)

/-! ## Reading -/

/-- What reading comes to, by how the trimmed text is cut at its first at sign. -/
theorem resolve_ok_iff_of_cut {name : String} {before : List Char} {after : Option (List Char)}
    (hcut : Text.cutFirst '@' (Text.stripChars name.toList) = (before, after)) {c : Constraint} :
    resolve name = .ok c ↔
      (∀ version ∈ after, Text.stripChars version ≠ [] ∧ '@' ∉ Text.stripChars version) ∧
      (∀ piece ∈ Text.splitChars '/' (Text.stripChars before), isSegment piece = true) ∧
      c = ofPieces (Text.stripChars name.toList) (Text.splitChars '/' (Text.stripChars before))
        (after.map Text.stripChars) := by
  have hjoined := Text.intercalate_splitChars '/' (Text.stripChars before)
  unfold resolve ofPieces
  dsimp only
  rw [hcut, hjoined]
  dsimp only
  split
  · next hempty =>
    -- a text of blanks is cut into nothing at all, and nothing is no segment
    refine ⟨fun h => (by cases h), fun ⟨_, hsegments, _⟩ => ?_⟩
    rw [List.isEmpty_iff.1 hempty] at hcut
    cases hcut
    exact absurd (hsegments [] (by decide)) (by decide)
  · split
    · next hseveral =>
      refine ⟨fun h => (by cases h), fun ⟨hversion, _, _⟩ => ?_⟩
      cases after with
      | none => simp at hseveral
      | some version => exact absurd (by simpa using hseveral) (hversion version rfl).2
    · split
      · next hblank =>
        refine ⟨fun h => (by cases h), fun ⟨hversion, _, _⟩ => ?_⟩
        cases after with
        | none => simp at hblank
        | some version => exact absurd (by simpa using hblank) (hversion version rfl).1
      · next hsingle hblank =>
        have hversion : ∀ version ∈ after,
            Text.stripChars version ≠ [] ∧ '@' ∉ Text.stripChars version := by
          rintro version rfl
          exact ⟨by simpa using hblank, by simpa using hsingle⟩
        split
        · next piece hfind =>
          refine ⟨fun h => (by cases h), fun ⟨_, hsegments, _⟩ => ?_⟩
          have hpiece := List.find?_some hfind
          rw [hsegments piece (List.mem_of_find?_eq_some hfind)] at hpiece
          cases hpiece
        · next hfind =>
          have hsegments : ∀ piece ∈ Text.splitChars '/' (Text.stripChars before),
              isSegment piece = true := by simpa using List.find?_eq_none.1 hfind
          refine ⟨fun h => ⟨hversion, hsegments, (Except.ok.inj h).symm⟩, fun h => ?_⟩
          rw [h.2.2]

/-- A text is written in one way only, as it is cut at its first at sign and at the slashes before it. -/
theorem written_iff {text : List Char} {pieces : List (List Char)} {version : Option (List Char)}
    (hpieces : Qualified pieces) :
    Written text pieces version ↔ ∃ before after, Text.cutFirst '@' text = (before, after) ∧
      (∀ version ∈ after, Text.stripChars version ≠ [] ∧ '@' ∉ Text.stripChars version) ∧
      pieces = Text.splitChars '/' (Text.stripChars before) ∧ version = after.map Text.stripChars := by
  constructor
  · have hsplit {name : List Char} (h : Text.stripChars name = ['/'].intercalate pieces) :
        '@' ∉ name ∧ pieces = Text.splitChars '/' (Text.stripChars name) := by
      refine ⟨fun hmem => ?_, ?_⟩
      · rw [← Text.mem_stripChars_iff (by decide), h] at hmem
        exact hpieces.not_mem_intercalate (by decide) hmem
      · rw [h, Text.splitChars_intercalate hpieces.ne_nil]
        exact fun piece hpiece => hpieces.not_mem (by decide) hpiece
    rintro (⟨joined⟩ | ⟨joined, nonempty, single⟩)
    · obtain ⟨hname, hcut⟩ := hsplit joined
      exact ⟨text, none, Text.cutFirst_eq_iff.2 ⟨hname, by simp⟩, by simp, hcut, rfl⟩
    · next name version =>
      obtain ⟨hname, hcut⟩ := hsplit joined
      exact ⟨name, some version, Text.cutFirst_eq_iff.2 ⟨hname, by simp⟩,
        by simpa using ⟨nonempty, single⟩, hcut, rfl⟩
  · rintro ⟨before, after, hcut, hversion, rfl, rfl⟩
    obtain ⟨-, rfl⟩ := Text.cutFirst_eq_iff.1 hcut
    have joined := (Text.intercalate_splitChars '/' (Text.stripChars before)).symm
    cases after with
    | none => simpa using Written.bare joined
    | some version => exact .versioned joined (hversion version rfl).1 (hversion version rfl).2

/-- Reading accepts exactly the texts that are segments between slashes with at most one version, and gives
the parts of the text. -/
theorem resolve_ok_iff {name : String} {c : Constraint} :
    resolve name = .ok c ↔ ∃ pieces version, Qualified pieces ∧
      Written (Text.stripChars name.toList) pieces version ∧
      c = ofPieces (Text.stripChars name.toList) pieces version := by
  obtain ⟨⟨before, after⟩, hcut⟩ : ∃ cut, Text.cutFirst '@' (Text.stripChars name.toList) = cut :=
    ⟨_, rfl⟩
  have hjoined := (Text.intercalate_splitChars '/' (Text.stripChars before)).symm
  rw [resolve_ok_iff_of_cut hcut, ← qualified_iff (Text.splitChars_ne_nil '/' _) hjoined]
  constructor
  · rintro ⟨hversion, hpieces, hc⟩
    exact ⟨_, _, hpieces, (written_iff hpieces).2 ⟨before, after, hcut, hversion, rfl, rfl⟩, hc⟩
  · rintro ⟨pieces, version, hpieces, hwritten, hc⟩
    obtain ⟨before', after', hcut', hversion, rfl, rfl⟩ := (written_iff hpieces).1 hwritten
    cases hcut.symm.trans hcut'
    exact ⟨hversion, hpieces, hc⟩

/-- A text that is refused is refused for a fault of its own. -/
theorem resolve_error {name : String} {fault : ResolutionFault} (h : resolve name = .error fault) :
    fault = .empty ∨ fault = .severalVersions name ∨ fault = .emptyVersion name ∨
      ∃ piece, fault = .badSegment name piece := by
  unfold resolve at h
  dsimp only at h
  split at h
  · exact .inl (Except.error.inj h).symm
  · split at h
    · exact .inr (.inl (Except.error.inj h).symm)
    · split at h
      · exact .inr (.inr (.inl (Except.error.inj h).symm))
      · split at h
        · exact .inr (.inr (.inr ⟨_, (Except.error.inj h).symm⟩))
        · cases h

/-- **Reading follows the grammar.** A text is accepted exactly when it is, without the blanks at its ends,
a name or a name and a version, and the name is made of segments; the constraint then has the name,
its last segment, the one before it, the version and the text itself. Every other text is refused with a
fault of its own. -/
theorem resolve_outcome (name : String) :
    (∀ c, resolve name = .ok c ↔ ∃ pieces version, Qualified pieces ∧
      Written (Text.stripChars name.toList) pieces version ∧
      c = ofPieces (Text.stripChars name.toList) pieces version) ∧
    ((¬∃ pieces version, Qualified pieces ∧ Written (Text.stripChars name.toList) pieces version) ↔
      ∃ fault, resolve name = .error fault ∧
        (fault = .empty ∨ fault = .severalVersions name ∨ fault = .emptyVersion name ∨
          ∃ piece, fault = .badSegment name piece)) := by
  refine ⟨fun c => resolve_ok_iff, fun hnone => ?_, fun ⟨fault, h, _⟩ hsome => ?_⟩
  · cases h : resolve name with
    | error fault => exact ⟨fault, rfl, resolve_error h⟩
    | ok c =>
      obtain ⟨pieces, version, hpieces, hwritten, -⟩ := resolve_ok_iff.1 h
      exact absurd ⟨pieces, version, hpieces, hwritten⟩ hnone
  · obtain ⟨pieces, version, hpieces, hwritten⟩ := hsome
    cases h.symm.trans (resolve_ok_iff.2 ⟨pieces, version, hpieces, hwritten, rfl⟩)

/-- Not every piece of a name that is accepted is a segment in its entirety: the first may end in a
line feed. -/
theorem not_segments_of_resolve :
    ¬∀ name : String, (∃ c, resolve name = .ok c) ↔ ∃ pieces version, pieces ≠ [] ∧
      (∀ piece ∈ pieces, Segment piece) ∧ Written (Text.stripChars name.toList) pieces version := by
  intro hclaim
  obtain ⟨pieces, version, -, hsegments, hwritten⟩ :=
    (hclaim "a\n/b").1 ⟨⟨"a\n/b", "a\n/b", "b", some "a\n", none⟩, by rfl⟩
  have hfeed : '\n' ∈ Text.stripChars (Text.stripChars "a\n/b".toList) := by decide
  have hbare : '@' ∉ Text.stripChars "a\n/b".toList := by decide
  generalize Text.stripChars "a\n/b".toList = text at hwritten hfeed hbare
  cases hwritten with
  | bare joined =>
    rw [joined] at hfeed
    rcases Text.mem_intercalate hfeed with hslash | ⟨piece, hpiece, hmem⟩
    · exact absurd hslash (by decide)
    · exact absurd ((hsegments piece hpiece).isSegmentChar hmem) (by decide)
  | versioned => simp at hbare

/-! ## The canonical form -/

/-- The canonical text of a constraint: the qualified name, and the version after an at sign. -/
def canonical (c : Constraint) : String :=
  match c.version with
  | none => c.qualifiedName
  | some version => c.qualifiedName ++ "@" ++ version

/-- Neither the name nor the version has blanks at its ends, and a version is not empty and has no
at sign. -/
theorem Written.trimmed {text : List Char} {pieces : List (List Char)} {version : Option (List Char)}
    (h : Written text pieces version) :
    Text.stripChars (['/'].intercalate pieces) = ['/'].intercalate pieces ∧
      ∀ v ∈ version, Text.stripChars v = v ∧ v ≠ [] ∧ '@' ∉ v := by
  cases h with
  | bare joined => exact ⟨by rw [← joined, Text.stripChars_stripChars], by simp⟩
  | versioned joined nonempty single =>
    exact ⟨by rw [← joined, Text.stripChars_stripChars], by simpa using ⟨nonempty, single⟩⟩

/-- The name and the version with nothing but an at sign between them are trimmed, and are written as the
same pieces and the same version. -/
theorem Written.rejoined {text : List Char} {pieces : List (List Char)} {version : Option (List Char)}
    (hpieces : Qualified pieces) (h : Written text pieces version) {joined : List Char}
    (hjoined : joined = ['/'].intercalate pieces ++ (version.map ('@' :: ·)).getD []) :
    Text.stripChars joined = joined ∧ Written joined pieces version := by
  obtain ⟨hname, hversion⟩ := h.trimmed
  have hne := hpieces.intercalate_ne_nil
  cases version with
  | none =>
    obtain rfl : joined = ['/'].intercalate pieces := by simpa using hjoined
    exact ⟨hname, .bare hname⟩
  | some version =>
    obtain ⟨htrimmed, hnonempty, hsingle⟩ := hversion version rfl
    obtain rfl : joined = ['/'].intercalate pieces ++ '@' :: version := hjoined
    refine ⟨Text.stripChars_eq_self ?_ ?_, ?_⟩
    · -- the text starts as the name does, and ends as the version does
      rw [List.head?_append_of_ne_nil _ hne, ← hname]
      exact Text.head?_stripChars _
    · rw [List.getLast?_append_of_ne_nil _ (List.cons_ne_nil _ _),
        List.getLast?_cons_of_ne_nil hnonempty, ← htrimmed]
      exact Text.getLast?_stripChars _
    · have hwritten := Written.versioned hname (htrimmed.symm ▸ hnonempty) (htrimmed.symm ▸ hsingle)
      rwa [htrimmed] at hwritten

/-- The characters of the canonical text. -/
theorem toList_canonical_ofPieces (text : List Char) (pieces : List (List Char))
    (version : Option (List Char)) :
    (ofPieces text pieces version).canonical.toList =
      ['/'].intercalate pieces ++ (version.map ('@' :: ·)).getD [] := by
  cases version <;> simp [canonical, ofPieces]

/-- The canonical text of a constraint is read as that constraint. -/
theorem resolve_canonical {name : String} {c : Constraint} (h : resolve name = .ok c) :
    resolve c.canonical = .ok { c with text := c.canonical } := by
  obtain ⟨pieces, version, hpieces, hwritten, rfl⟩ := resolve_ok_iff.1 h
  obtain ⟨htrimmed, hrejoined⟩ :=
    hwritten.rejoined hpieces (toList_canonical_ofPieces (Text.stripChars name.toList) pieces version)
  refine resolve_ok_iff.2 ⟨pieces, version, hpieces, ?_, ?_⟩
  · rwa [htrimmed]
  · rw [htrimmed]
    simp [ofPieces]

/-- The text of a constraint, which is trimmed, is read as that constraint. -/
theorem resolve_text {name : String} {c : Constraint} (h : resolve name = .ok c) :
    resolve c.text = .ok c := by
  obtain ⟨pieces, version, hpieces, hwritten, rfl⟩ := resolve_ok_iff.1 h
  have htrimmed : Text.stripChars (ofPieces (Text.stripChars name.toList) pieces version).text.toList =
      Text.stripChars name.toList := by
    simp [ofPieces]
  exact resolve_ok_iff.2 ⟨pieces, version, hpieces, by rwa [htrimmed], by rw [htrimmed]⟩

/-- **Canonical texts.** The canonical text of a constraint that was read is read as the same name and version,
and so is its trimmed text; and two constraints that were read have the same qualified name and the same
version exactly when their canonical texts are the same. -/
theorem canonical_of_resolve {name : String} {c : Constraint} (h : resolve name = .ok c) :
    resolve c.canonical = .ok { c with text := c.canonical } ∧ resolve c.text = .ok c ∧
      ∀ (other : String) (d : Constraint), resolve other = .ok d →
        ((c.qualifiedName = d.qualifiedName ∧ c.version = d.version) ↔ c.canonical = d.canonical) := by
  refine ⟨resolve_canonical h, resolve_text h, fun other d hother => ⟨fun ⟨hname, hversion⟩ => ?_, fun hsame => ?_⟩⟩
  · unfold canonical
    rw [hname, hversion]
  · have hc := resolve_canonical h
    rw [hsame, resolve_canonical hother] at hc
    injection hc with hc
    injection hc with _ hname _ _ hversion
    exact ⟨hname.symm, hversion.symm⟩

/-- Blanks around the at sign of a constraint are not in its canonical text, those inside its version are. -/
theorem canonical_of_resolve_blanks :
    resolve " a/b @ ~> 3.0\n" = .ok ⟨"a/b @ ~> 3.0", "a/b", "b", some "a", some "~> 3.0"⟩ ∧
      resolve "a/b@~> 3.0" = .ok ⟨"a/b@~> 3.0", "a/b", "b", some "a", some "~> 3.0"⟩ := by
  have h : resolve " a/b @ ~> 3.0\n" =
      .ok ⟨"a/b @ ~> 3.0", "a/b", "b", some "a", some "~> 3.0"⟩ := by rfl
  exact ⟨h, (canonical_of_resolve h).1⟩

end Constraint

end ProviderBindings
