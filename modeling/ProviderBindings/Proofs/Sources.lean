import ProviderBindings.Proofs.Emissions
import ProviderBindings.Proofs.Literals

/-!
# The source that is generated

The text of a constraint is free: a version may hold quotes, backslashes, line ends, or characters of any
plane. What is generated for it is fixed all the same (`Constraint.HasSource`): seven lines of ASCII, in
which the name of the class is an identifier and everything of the constraint stands in string literals that
spell it unit by unit. So nothing in a constraint can end its literal, its line, or the comment it is in. The
literals are read back as what they spell exactly when no pair is split in the text of the constraint
(`Constraint.HasSource.isLiteral_iff`).

`run_emitBindings_hasSource` follows this through a whole emission: at the path of each constraint stands its
source, unless a later one was written to the same path.
-/

namespace ProviderBindings

/-! ## The lines of a file -/

/-- Whether a literal is complete and spells a text: its units are those of the text. -/
def Json.IsSpelling (literal text : String) : Prop :=
  literalUnits literal.toList = some (text.toList.flatMap units)

/-- Whether a literal is complete and is read as a text. -/
def Json.IsLiteral (literal text : String) : Prop :=
  literalText literal.toList = some text.toList

/-- A quoted text is a literal that spells it. -/
theorem Json.isSpelling_quote (text : String) : IsSpelling (quote text) text := by
  rw [IsSpelling, quote, String.toList_ofList, literalUnits_quoteChars]

/-- A literal is read as the text that it spells exactly when no pair is split in the text. -/
theorem Json.IsSpelling.isLiteral_iff {literal text : String} (h : IsSpelling literal text) :
    IsLiteral literal text ↔ Text.Unsplit text.toList := by
  rw [IsLiteral, literalText, h, Option.map_some, Option.some_inj, Text.joinUnits_flatMap_units_eq_iff]

namespace Constraint

/-- The seven lines of the source for a constraint: a comment, and a class with three constants. -/
def sourceLines (indentation : Int) (comment className fqn name version : String) : List String :=
  let constant (name literal : String) : String :=
    String.ofList (List.replicate indentation.toNat ' ') ++ "public static readonly " ++ name ++ " = " ++
      literal ++ ";"
  ["// generated by bindgen from " ++ comment,
   "",
   "export class " ++ className ++ " \x7b",
   constant "FQN" fqn,
   constant "NAME" name,
   constant "VERSION" version,
   "\x7d"]

/-- Whether a text is the source for a constraint: it is in ASCII, and it is seven lines without line ends
inside, with the name of a class and with literals that tell the constraint and its parts. -/
def HasSource (c : Constraint) (tells : String → String → Prop) (indentation : Int) (text : String) : Prop :=
  IsAscii text ∧ ∃ comment className fqn name version,
    text = Text.unlines (sourceLines indentation comment className fqn name version) ∧
      (∀ line ∈ sourceLines indentation comment className fqn name version, '\n' ∉ line.toList) ∧
      IsIdentifier className ∧ tells comment c.text ∧ tells fqn c.qualifiedName ∧
      tells name c.name ∧ tells version c.versionOrAny

/-- The lines that are written for a constraint are those of its source. -/
theorem fileLines_eq (c : Constraint) (indentation : Int) :
    c.fileLines indentation =
      sourceLines indentation (Json.quote c.text) (className c.name) (Json.quote c.qualifiedName)
        (Json.quote c.name) (Json.quote c.versionOrAny) := by
  have houtside (text : String) : Emitter.indented indentation 0 text = text := by
    unfold Emitter.indented
    split
    · rfl
    · simp
  have hinside (name literal : String) :
      Emitter.indented indentation 1 ("public static readonly " ++ name ++ " = " ++ literal ++ ";") =
        String.ofList (List.replicate indentation.toNat ' ') ++ "public static readonly " ++ name ++
          " = " ++ literal ++ ";" := by
    unfold Emitter.indented
    rw [if_neg (by simp)]
    simp [String.append_assoc]
  unfold fileLines sourceLines
  simp only [houtside, hinside]
  rfl

end Constraint

/-- What is written for a constraint is its source, with literals that spell it. -/
theorem Constraint.hasSource_fileLines (c : Constraint) (indentation : Int) :
    c.HasSource Json.IsSpelling indentation (Text.unlines (c.fileLines indentation)) := by
  refine ⟨c.isAscii_unlines_fileLines indentation, _, _, _, _, _, by rw [← fileLines_eq], fun line hline hfeed => ?_,
    isIdentifier_className c.name, Json.isSpelling_quote _, Json.isSpelling_quote _, Json.isSpelling_quote _,
    Json.isSpelling_quote _⟩
  rw [← fileLines_eq] at hline
  exact absurd (inAscii_of_mem_fileLines hline _ hfeed) (by decide)

/-! ## When the literals are read back -/

/-- Lines without line ends inside can be told from the text that is made of them. -/
theorem Text.unlines_inj {lines others : List String} (hne : lines ≠ []) (hne' : others ≠ [])
    (h : ∀ line ∈ lines, '\n' ∉ line.toList) (h' : ∀ line ∈ others, '\n' ∉ line.toList) :
    unlines lines = unlines others ↔ lines = others := by
  refine ⟨fun he => ?_, congrArg unlines⟩
  have hsplit {lines : List String} (hne : lines ≠ []) (h : ∀ line ∈ lines, '\n' ∉ line.toList) :
      splitChars '\n' (String.intercalate "\n" lines).toList = lines.map String.toList := by
    rw [String.toList_intercalate]
    refine splitChars_intercalate (by simpa using hne) fun piece hpiece => ?_
    obtain ⟨line, hline, rfl⟩ := List.mem_map.1 hpiece
    exact h line hline
  have hsame : splitChars '\n' (String.intercalate "\n" lines).toList =
      splitChars '\n' (String.intercalate "\n" others).toList := by
    rw [(String.append_left_inj _).1 he]
  rw [hsplit hne h, hsplit hne' h'] at hsame
  exact List.map_injective_iff.2 (fun _ _ => String.toList_inj.1) hsame

/-- A text that a path can have holds no first half of a pair, and so no pair is split in it. -/
theorem Text.unsplit_of_faultless {s : String} (h : PathFault.ofText? s = none) : Unsplit s.toList := by
  have hfirst : ∀ c ∈ s.toList, (half? c).any isFirstHalf = false := by
    intro c hc
    have hhalf := (PathFault.ofText?_eq_none_iff.1 h c hc).1
    unfold PathFault.isHalf at hhalf
    cases hn : half? c with
    | none => rfl
    | some n =>
      rw [hn] at hhalf
      simp only [Bool.not_eq_false', Bool.and_eq_true, decide_eq_true_eq] at hhalf
      simp [isFirstHalf]
      omega
  refine List.Pairwise.isChain (List.pairwise_of_forall_mem_list fun c hc d _ => ?_)
  rw [isSplitPair, hfirst c hc, Bool.false_and]

namespace Constraint

variable {name : String} {c : Constraint}

/-- The version of a constraint stands in its text. -/
theorem isInfix_of_resolve (h : resolve name = .ok c) {version : String} (hversion : c.version = some version) :
    version.toList <:+: c.text.toList := by
  obtain ⟨pieces, written, -, hwritten, rfl⟩ := resolve_ok_iff.1 h
  generalize Text.stripChars name.toList = text at hwritten hversion ⊢
  cases hwritten with
  | bare => cases hversion
  | @versioned before after _ =>
    obtain rfl : String.ofList (Text.stripChars after) = version := Option.some.inj hversion
    obtain ⟨front, back, hafter, -⟩ := Text.exists_eq_append_stripChars after
    refine ⟨before ++ '@' :: front, back, ?_⟩
    show before ++ '@' :: front ++ (String.ofList (Text.stripChars after)).toList ++ back =
      (String.ofList (before ++ '@' :: after)).toList
    rw [String.toList_ofList, String.toList_ofList]
    conv_rhs => rw [hafter]
    simp

/-- When no pair is split in the text of a constraint, none is in its version. -/
theorem unsplit_versionOrAny (h : resolve name = .ok c) (hc : Text.Unsplit c.text.toList) :
    Text.Unsplit c.versionOrAny.toList := by
  unfold versionOrAny
  cases hversion : c.version with
  | none => decide
  | some version => exact List.IsChain.infix hc (isInfix_of_resolve h hversion)

/-- The literals of a source are read back as what they spell exactly when no pair is split in the text of the
constraint. -/
theorem HasSource.isLiteral_iff (hc : resolve name = .ok c) {indentation : Int} {text : String}
    (h : c.HasSource Json.IsSpelling indentation text) :
    c.HasSource Json.IsLiteral indentation text ↔ Text.Unsplit c.text.toList := by
  obtain ⟨hascii, comment, className, fqn, name, version, rfl, hlines, hclass, hcomment, hfqn, hname, hversion⟩ := h
  constructor
  · rintro ⟨-, comment', className', fqn', name', version', he, hlines', -, hcomment', -⟩
    -- the comment is the rest of the first line
    have hsame := (Text.unlines_inj (List.cons_ne_nil _ _) (List.cons_ne_nil _ _) hlines hlines').1 he
    obtain rfl : comment = comment' := (String.append_right_inj _).1 (List.cons.inj hsame).1
    exact hcomment.isLiteral_iff.1 hcomment'
  · intro hunsplit
    exact ⟨hascii, comment, className, fqn, name, version, rfl, hlines, hclass, hcomment.isLiteral_iff.2 hunsplit,
      hfqn.isLiteral_iff.2 (Text.unsplit_of_faultless (segmented_of_resolve hc .module).faultless),
      hname.isLiteral_iff.2 (Text.unsplit_of_faultless (segmented_of_resolve hc .provider).faultless),
      hversion.isLiteral_iff.2 (unsplit_versionOrAny hc hunsplit)⟩

end Constraint

/-! ## A whole emission -/

/-- A key that is set last keeps its value while others are set. -/
theorem Assoc.get?_foldl_set {α : Type} (key value : α → String) {k : String} {entries : List α}
    (h : ∀ a ∈ entries, key a ≠ k) (table : List (String × String)) :
    get? k (entries.foldl (fun table a => set (key a) (value a) table) table) = get? k table := by
  induction entries generalizing table with
  | nil => rfl
  | cons a rest ih =>
    rw [List.foldl_cons, ih fun b hb => h b (List.mem_cons_of_mem _ hb), get?_set,
      if_neg (by simpa using h a (by simp))]

/-- What is emitted for names that resolve: the files of the emitter that it starts with, over them the file for
each, and over these the index of versions. -/
theorem run_emitBindings_files (layout : Layout) {kind : TargetKind} {names : List String} {cs : List Constraint}
    (hcs : names.map Constraint.resolve = cs.map .ok) {e : Emitter} (he : e.current = none) :
    ∃ code, (emitBindings layout names kind).run e = (.ok (), code) ∧
      code.files = Assoc.set VersionIndex.fileName (VersionIndex.text (versionTable cs))
        (cs.foldl (fun files c => Assoc.set (layout.filePath (c.source kind))
          (Text.unlines (c.fileLines e.indentation)) files) e.files) := by
  obtain ⟨emitted, hnames, -, hfiles⟩ := run_emitNames_files layout kind hcs [] he
  refine ⟨emitted.addFile VersionIndex.fileName (VersionIndex.text (versionTable cs)), ?_, ?_⟩
  · unfold emitBindings
    rw [run_bind_of_ok hnames]
    exact Emission.run_step rfl
  · rw [← hfiles]
    rfl

/-- **Nothing in a constraint gets out of its literal.** The emission for names that resolve succeeds with any
width of indentation, and at the path of each constraint stands its source, unless a later one was written
there. The literals spell the constraint and its parts, and are read back as these exactly when no pair is split
in the text of the constraint. -/
theorem run_emitBindings_hasSource (layout : Layout) (kind : TargetKind) {names : List String}
    {cs : List Constraint} (h : names.map Constraint.resolve = cs.map .ok) {e : Emitter}
    (he : e.current = none) :
    ∃ e', (emitBindings layout names kind).run e = (.ok (), e') ∧
      ∀ earlier c later, cs = earlier ++ c :: later →
        (∀ d ∈ later, d.source kind ≠ c.source kind) →
          ∃ text, Assoc.get? (layout.filePath (c.source kind)) e'.files = some text ∧
            c.HasSource Json.IsSpelling e.indentation text ∧
            (c.HasSource Json.IsLiteral e.indentation text ↔ Text.Unsplit c.text.toList) := by
  obtain ⟨emitted, hrun, hfiles⟩ : ∃ code, (emitBindings layout names kind).run e = (.ok (), code) ∧ _ :=
    run_emitBindings_files layout h he
  refine ⟨emitted, hrun, ?_⟩
  rintro earlier c later rfl hlater
  obtain ⟨name, -, hname⟩ : ∃ name ∈ names, Constraint.resolve name = .ok c :=
    List.mem_map.1 (h ▸ List.mem_map_of_mem (by simp))
  have hsource := c.hasSource_fileLines e.indentation
  refine ⟨_, ?_, hsource, hsource.isLiteral_iff hname⟩
  have hindex := (layout.filePath_ne (c.source kind)).symm
  have hpaths : ∀ d ∈ later, layout.filePath (d.source kind) ≠ layout.filePath (c.source kind) :=
    fun d hd hpath => hlater d hd (Layout.filePath_inj.1 hpath)
  rw [hfiles, Assoc.get?_set, if_neg (by simpa using hindex), List.foldl_append, List.foldl_cons,
    Assoc.get?_foldl_set (fun d => layout.filePath (Constraint.source d kind)) _ hpaths, Assoc.get?_set]
  simp

/-- A version of quotes, backslashes, line ends and characters of other planes stays in its literal. -/
theorem run_emitBindings_hasSource_quoted :
    let c : Constraint := ⟨"a/b@\"; \\\n*/\u2028😀", "a/b", "b", some "a", some "\"; \\\n*/\u2028😀"⟩
    ∃ e', (emitBindings (.ofKind .module) [" a/b@\"; \\\n*/\u2028😀\n"] .module).run { indentation := 4 } =
        (.ok (), e') ∧
      ∃ text, Assoc.get? "modules/a/b/index.ts" e'.files = some text ∧ c.HasSource Json.IsSpelling 4 text ∧
        c.HasSource Json.IsLiteral 4 text := by
  intro c
  have hc : [" a/b@\"; \\\n*/\u2028😀\n"].map Constraint.resolve = [c].map .ok := by rfl
  obtain ⟨e', hrun, hsource⟩ :=
    run_emitBindings_hasSource (.ofKind .module) .module hc (e := { indentation := 4 }) rfl
  obtain ⟨text, htext, hspelled, hread⟩ := hsource [] c [] rfl (by simp)
  exact ⟨e', hrun, text, htext, hspelled, hread.2 (by decide)⟩

/-- A name whose version is the two halves of a pair, each as a character of its own. -/
def splitName : String :=
  String.ofList ['a', '@', Text.ofHalf 0xD83D, Text.ofHalf 0xDE00]

/-- The constraint that this name stands for. -/
def splitConstraint : Constraint :=
  ⟨splitName, "a", "a", none, some (String.ofList [Text.ofHalf 0xD83D, Text.ofHalf 0xDE00])⟩

/-- The name is accepted. -/
theorem resolve_splitName : Constraint.resolve splitName = .ok splitConstraint := by
  rfl

/-- Not every source has literals that are read back: where a pair is split in the version, its halves are read as
one character. -/
theorem not_hasSource_always :
    ¬∀ (layout : Layout) (kind : TargetKind) (name : String) (c : Constraint), Constraint.resolve name = .ok c →
      ∃ e' text, (emitBindings layout [name] kind).run {} = (.ok (), e') ∧
        Assoc.get? (layout.filePath (c.source kind)) e'.files = some text ∧ c.HasSource Json.IsLiteral 2 text := by
  intro hclaim
  have hcs : [splitName].map Constraint.resolve = [splitConstraint].map .ok := congrArg ([·]) resolve_splitName
  obtain ⟨e', text, hrun, htext, hread⟩ := hclaim (.ofKind .provider) .provider splitName _ resolve_splitName
  obtain ⟨e'', hrun', hfiles⟩ :
      ∃ code, (emitBindings (.ofKind .provider) [splitName] .provider).run {} = (.ok (), code) ∧ _ :=
    run_emitBindings_files (.ofKind .provider) hcs rfl
  obtain rfl : e' = e'' := (Prod.ext_iff.1 (hrun.symm.trans hrun')).2
  obtain rfl : Text.unlines (splitConstraint.fileLines 2) = text := by
    rw [hfiles, Assoc.get?_set, if_neg (by decide)] at htext
    simpa [Assoc.get?_set] using htext
  have hsource := splitConstraint.hasSource_fileLines 2
  exact absurd ((hsource.isLiteral_iff resolve_splitName).1 hread) (by decide)

end ProviderBindings
