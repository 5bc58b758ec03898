import ProviderBindings.Proofs.Ascii

/-!
# Reading documents

`Json.read` reads a JSON document as its grammar has it: first its tokens, which blanks may stand between, and then
the value that they spell. It knows nothing of how documents are rendered here. `read_render` says that what is
rendered is read back, whatever the document is. Its strings are then those that their units spell, which are the
same unless a pair is split in one of them; the names of the members of an object come in the order they have in
the text, all of them, also where a name comes twice.
-/

namespace ProviderBindings

/-- A text as it is spelled by its units. -/
def Text.joined (s : String) : String :=
  String.ofList (joinUnits (s.toList.flatMap Json.units))

/-- A text is what its units spell exactly when no pair is split in it. -/
theorem Text.joined_eq_iff {s : String} : joined s = s ↔ Unsplit s.toList := by
  rw [joined, ← String.toList_inj, String.toList_ofList, joinUnits_flatMap_units_eq_iff]

namespace Json

/-! ## Tokens -/

/-- What a document is made of. -/
inductive Token where
  | leftBracket
  | rightBracket
  | leftBrace
  | rightBrace
  | comma
  | colon
  /-- A string literal, by its text. -/
  | text (s : String)
  /-- Characters that stand together: a number, or a value that has a name. -/
  | word (cs : List Char)
  deriving DecidableEq

/-- The token that a character is all alone. -/
def mark? : Char → Option Token
  | '[' => some .leftBracket
  | ']' => some .rightBracket
  | '\x7b' => some .leftBrace
  | '\x7d' => some .rightBrace
  | ',' => some .comma
  | ':' => some .colon
  | _ => none

/-- Whether a character only stands between tokens. -/
def isSpacing (c : Char) : Bool :=
  c == ' ' || c == '\n' || c == '\r' || c == '\t'

/-- Whether a character goes on with a word. -/
def isWordChar (c : Char) : Bool :=
  !isSpacing c && (mark? c).isNone && c != '"'

/-- How many of the characters after a first quote belong to its literal. The last quote is one of them. -/
def literalLength : List Char → Nat
  | '\\' :: _ :: rest => literalLength rest + 2
  | '"' :: _ => 1
  | _ :: rest => literalLength rest + 1
  | [] => 0

/-- The tokens of a text. -/
def tokens : List Char → Option (List Token)
  | [] => some []
  | c :: rest =>
    if isSpacing c then tokens rest
    else
      match mark? c with
      | some token => (tokens rest).map (token :: ·)
      | none =>
        if c = '"' then do
          let cs ← literalText (c :: rest.take (literalLength rest))
          (tokens (rest.drop (literalLength rest))).map (.text (String.ofList cs) :: ·)
        else
          (tokens (rest.dropWhile isWordChar)).map (.word (c :: rest.takeWhile isWordChar) :: ·)
termination_by cs => cs.length
decreasing_by
  · simp
  · simp
  · simp only [List.length_drop, List.length_cons]
    omega
  · have := (List.dropWhile_sublist isWordChar (l := rest)).length_le
    simp
    omega

/-! ## Values -/

/-- The number of digits, no idle zero in front. -/
def naturalOf? (cs : List Char) : Option Nat :=
  if cs ≠ [] ∧ cs.all Text.isDigit ∧ (cs.head? = some '0' → cs = ['0']) then some (Nat.ofDigitChars 10 cs 0)
  else none

/-- The number of digits with or without a minus in front. -/
def integerOf? : List Char → Option Int
  | '-' :: cs => (naturalOf? cs).map fun n => -n
  | cs => (naturalOf? cs).map fun n => n

/-- The value that a word is. -/
def ofWord? (cs : List Char) : Option Json :=
  if cs = "null".toList then some .null
  else if cs = "true".toList then some (.bool true)
  else if cs = "false".toList then some (.bool false)
  else (integerOf? cs).map .int

mutual

/-- The value at the front of tokens, and the tokens after it. -/
def readValue : Nat → List Token → Option (Json × List Token)
  | _ + 1, .text s :: rest => some (.str s, rest)
  | _ + 1, .word cs :: rest => (ofWord? cs).map (·, rest)
  | _ + 1, .leftBracket :: .rightBracket :: rest => some (.arr [], rest)
  | fuel + 1, .leftBracket :: rest => (readItems fuel rest).map fun (items, rest) => (.arr items, rest)
  | _ + 1, .leftBrace :: .rightBrace :: rest => some (.obj [], rest)
  | fuel + 1, .leftBrace :: rest => (readMembers fuel rest).map fun (members, rest) => (.obj members, rest)
  | _, _ => none

/-- One item of an array and those after it, to the end of the array. -/
def readItems : Nat → List Token → Option (List Json × List Token)
  | 0, _ => none
  | fuel + 1, ts =>
    match readValue fuel ts with
    | some (item, .comma :: rest) => (readItems fuel rest).map fun (items, rest) => (item :: items, rest)
    | some (item, .rightBracket :: rest) => some ([item], rest)
    | _ => none

/-- One member of an object and those after it, to the end of the object. -/
def readMembers : Nat → List Token → Option (List (String × Json) × List Token)
  | fuel + 1, .text name :: .colon :: ts =>
    match readValue fuel ts with
    | some (value, .comma :: rest) =>
      (readMembers fuel rest).map fun (members, rest) => ((name, value) :: members, rest)
    | some (value, .rightBrace :: rest) => some ([(name, value)], rest)
    | _ => none
  | _, _ => none

end

/-- The document that a text is. -/
def read (text : String) : Option Json :=
  (tokens text.toList).bind fun ts =>
    match readValue ts.length ts with
    | some (j, []) => some j
    | _ => none

/-! ## Characters that spell tokens -/

variable {a b : List Char} {ts us : List Token}

/-- Whether characters are read as tokens, whatever comes after them. -/
def Spells (a : List Char) (ts : List Token) : Prop :=
  ∀ rest, tokens (a ++ rest) = (tokens rest).map (ts ++ ·)

/-- Whether a word that stands before characters ends there. -/
def Ends (a : List Char) : Prop :=
  ∀ c ∈ a.head?, isWordChar c = false

/-- Whether characters are read as tokens when a word ends after them. -/
def SpellsAtEnd (a : List Char) (ts : List Token) : Prop :=
  ∀ rest, Ends rest → tokens (a ++ rest) = (tokens rest).map (ts ++ ·)

theorem Spells.atEnd (h : Spells a ts) : SpellsAtEnd a ts :=
  fun rest _ => h rest

theorem Spells.append (ha : Spells a ts) (hb : Spells b us) : Spells (a ++ b) (ts ++ us) := by
  intro rest
  rw [List.append_assoc, ha, hb, Option.map_map]
  congr 1
  funext vs
  simp

theorem Spells.append_atEnd (ha : Spells a ts) (hb : SpellsAtEnd b us) : SpellsAtEnd (a ++ b) (ts ++ us) := by
  intro rest hrest
  rw [List.append_assoc, ha, hb rest hrest, Option.map_map]
  congr 1
  funext vs
  simp

theorem SpellsAtEnd.append {c : Char} (ha : SpellsAtEnd a ts) (hc : isWordChar c = false)
    (hb : Spells (c :: b) us) : Spells (a ++ c :: b) (ts ++ us) := by
  intro rest
  have hends : Ends (c :: b ++ rest) := by
    rintro d ⟨⟩
    exact hc
  rw [List.append_assoc, ha _ hends, hb, Option.map_map]
  congr 1
  funext vs
  simp

/-- What only stands between tokens spells none. -/
theorem spells_spacing (h : ∀ c ∈ a, isSpacing c = true) : Spells a [] := by
  intro rest
  induction a with
  | nil => simp
  | cons c a ih =>
    rw [List.cons_append, tokens, if_pos (h c (by simp)), ih fun d hd => h d (List.mem_cons_of_mem _ hd)]

/-- A character that is a token spells it. -/
theorem spells_mark {c : Char} {token : Token} (h : mark? c = some token) : Spells [c] [token] := by
  intro rest
  have hspacing : isSpacing c = false := by
    unfold mark? at h
    split at h <;> cases h <;> rfl
  rw [List.singleton_append, tokens, if_neg (by simp [hspacing]), h]
  rfl

/-- A character that neither ends a literal nor escapes another is in it alone. -/
theorem literalLength_cons {c : Char} (hquote : c ≠ '"') (hback : c ≠ '\\') (rest : List Char) :
    literalLength (c :: rest) = literalLength rest + 1 := by
  rw [literalLength]
  · exact fun _ _ h => absurd h hback
  · exact hquote

/-- Digits are in a literal as they are. -/
theorem literalLength_digits {ds : List Char} (h : ∀ d ∈ ds, ∃ m : Fin 16, d = Text.hexDigit m) (rest : List Char) :
    literalLength (ds ++ rest) = ds.length + literalLength rest := by
  have hdigit : ∀ m : Fin 16, Text.hexDigit m ≠ '"' ∧ Text.hexDigit m ≠ '\\' := by decide
  induction ds with
  | nil => simp
  | cons d ds ih =>
    obtain ⟨m, rfl⟩ := h d (by simp)
    rw [List.cons_append, literalLength_cons (hdigit m).1 (hdigit m).2,
      ih fun e he => h e (List.mem_cons_of_mem _ he), List.length_cons]
    omega

/-- What a character is escaped as is in the literal as a whole. -/
theorem literalLength_escapeChar (c : Char) (rest : List Char) :
    literalLength (escapeChar c ++ rest) = (escapeChar c).length + literalLength rest := by
  have hescaped := escaped_escapeChar c
  generalize escapeChar c = cs at hescaped
  cases hescaped with
  | @short e =>
    show literalLength rest + 2 = _
    exact Nat.add_comm ..
  | plain hquote hback =>
    rw [List.singleton_append, literalLength_cons hquote hback, List.length_singleton, Nat.add_comm]
  | figures =>
    induction units c with
    | nil => simp
    | cons n ns ih =>
      rw [List.flatMap_cons, List.append_assoc, escapeUnit, List.cons_append, List.cons_append]
      show literalLength (Text.hexDigits 4 n ++ (ns.flatMap escapeUnit ++ rest)) + 2 = _
      rw [literalLength_digits fun d hd => Text.exists_of_mem_hexDigits hd, ih]
      simp only [List.length_append, List.length_cons]
      omega

/-- A quoted text spells the text. -/
theorem spells_quote (s : String) : Spells (quote s).toList [.text (Text.joined s)] := by
  intro rest
  -- quotes of the text are escaped, and so the literal ends at the last quote and not before
  have hlength (cs : List Char) :
      literalLength (cs.flatMap escapeChar ++ ('"' :: rest)) = (cs.flatMap escapeChar).length + 1 := by
    induction cs with
    | nil => rfl
    | cons c cs ih =>
      rw [List.flatMap_cons, List.append_assoc, literalLength_escapeChar, ih, List.length_append]
      omega
  have hsplit (cs : List Char) : cs.flatMap escapeChar ++ '"' :: rest = (cs.flatMap escapeChar ++ ['"']) ++ rest := by
    simp
  rw [quote, String.toList_ofList, quoteChars, List.cons_append, List.cons_append, List.append_assoc,
    List.singleton_append, tokens, if_neg (by decide)]
  have htake (cs : List Char) : (cs.flatMap escapeChar ++ '"' :: rest).take ((cs.flatMap escapeChar).length + 1) =
      cs.flatMap escapeChar ++ ['"'] := by
    rw [hsplit, List.take_left' (by simp)]
  have hdrop (cs : List Char) : (cs.flatMap escapeChar ++ '"' :: rest).drop ((cs.flatMap escapeChar).length + 1) =
      rest := by
    rw [hsplit, List.drop_left' (by simp)]
  rw [hlength, htake, hdrop]
  have hliteral : literalText ('"' :: (s.toList.flatMap escapeChar ++ ['"'])) =
      some (Text.joinUnits (s.toList.flatMap units)) := by
    rw [literalText, ← List.cons_append]
    show (literalUnits (quoteChars s.toList)).map Text.joinUnits = _
    rw [literalUnits_quoteChars]
    rfl
  show ((literalText ('"' :: (s.toList.flatMap escapeChar ++ ['"']))).bind fun cs =>
    (tokens rest).map (.text (String.ofList cs) :: ·)) = _
  rw [hliteral]
  rfl

/-- A word spells itself, when it ends. -/
theorem spellsAtEnd_word (hne : a ≠ []) (h : ∀ c ∈ a, isWordChar c = true) : SpellsAtEnd a [.word a] := by
  intro rest hrest
  obtain ⟨c, w, rfl⟩ := List.exists_cons_of_ne_nil hne
  have hc := h c (by simp)
  have hw : ∀ d ∈ w, isWordChar d = true := fun d hd => h d (List.mem_cons_of_mem _ hd)
  simp only [isWordChar, Bool.and_eq_true, Bool.not_eq_true', Option.isNone_iff_eq_none, bne_iff_ne, ne_eq] at hc
  obtain ⟨⟨hspacing, hmark⟩, hquote⟩ := hc
  -- what comes after the word does not go on with it
  have htake : rest.takeWhile isWordChar = [] := by
    cases rest with
    | nil => rfl
    | cons d rest => rw [List.takeWhile_cons, if_neg (by simp [hrest d rfl])]
  have hdrop : rest.dropWhile isWordChar = rest := by
    cases rest with
    | nil => rfl
    | cons d rest => rw [List.dropWhile_cons, if_neg (by simp [hrest d rfl])]
  rw [List.cons_append, tokens, if_neg (by simp [hspacing]), hmark]
  dsimp only
  rw [if_neg hquote, List.takeWhile_append_of_pos hw, List.dropWhile_append_of_pos hw, htake, hdrop, List.append_nil]
  rfl

/-! ## Documents as tokens -/

mutual

/-- The tokens of a document. -/
def tokensOf : Json → List Token
  | .null => [.word "null".toList]
  | .bool b => [.word (if b then "true" else "false").toList]
  | .int n => [.word (toString n).toList]
  | .str s => [.text s]
  | .arr items => .leftBracket :: [Token.comma].intercalate (tokensOfItems items) ++ [.rightBracket]
  | .obj members => .leftBrace :: [Token.comma].intercalate (tokensOfMembers members) ++ [.rightBrace]

/-- The tokens of each item of an array. -/
def tokensOfItems : List Json → List (List Token)
  | [] => []
  | item :: rest => tokensOf item :: tokensOfItems rest

/-- The tokens of each member of an object. -/
def tokensOfMembers : List (String × Json) → List (List Token)
  | [] => []
  | (name, value) :: rest => (.text name :: .colon :: tokensOf value) :: tokensOfMembers rest

end

mutual

/-- A document as it is spelled, that is, with each string as its units spell it. -/
def joined : Json → Json
  | .null => .null
  | .bool b => .bool b
  | .int n => .int n
  | .str s => .str (Text.joined s)
  | .arr items => .arr (joinedItems items)
  | .obj members => .obj (joinedMembers members)

/-- The items of an array as they are spelled. -/
def joinedItems : List Json → List Json
  | [] => []
  | item :: rest => joined item :: joinedItems rest

/-- The members of an object as they are spelled. -/
def joinedMembers : List (String × Json) → List (String × Json)
  | [] => []
  | (name, value) :: rest => (Text.joined name, joined value) :: joinedMembers rest

end

/-! ### What is rendered -/

/-- The name of a value is a word. -/
theorem spellsAtEnd_name {name : String} (h : name ∈ ["null", "true", "false"]) :
    SpellsAtEnd name.toList [.word name.toList] := by
  have hall : ∀ name ∈ ["null", "true", "false"], name.toList ≠ [] ∧ name.toList.all isWordChar = true := by decide
  exact spellsAtEnd_word (hall name h).1 (List.all_eq_true.1 (hall name h).2)

/-- A digit goes on with a word. -/
theorem isWordChar_of_isDigit {c : Char} (h : Text.isDigit c = true) : isWordChar c = true :=
  Text.forall_of_isAlphanumeric (p := fun c => isWordChar c = true) (by decide) (by simp [Text.isAlphanumeric, h])

/-- A number is a word. -/
theorem spellsAtEnd_int (n : Int) : SpellsAtEnd (toString n).toList [.word (toString n).toList] := by
  refine spellsAtEnd_word ?_ ?_
  · cases n with
    | ofNat n =>
      show n.repr.toList ≠ []
      rw [Nat.repr_eq_ofList_toDigits, String.toList_ofList]
      exact Nat.toDigits_ne_nil
    | negSucc n =>
      show ("-" ++ n.succ.repr).toList ≠ []
      simp
  · intro c hc
    cases n with
    | ofNat n => exact isWordChar_of_isDigit (isDigit_of_mem_repr hc)
    | negSucc n =>
      change c ∈ ("-" ++ n.succ.repr).toList at hc
      rw [String.toList_append, List.mem_append] at hc
      rcases hc with hc | hc
      · obtain rfl : c = '-' := by simpa using hc
        rfl
      · exact isWordChar_of_isDigit (isDigit_of_mem_repr hc)

/-- The margin of a line spells nothing. -/
theorem spells_margin (depth : Nat) : Spells (margin depth).toList [] := by
  refine spells_spacing fun c hc => ?_
  rw [margin, String.toList_ofList] at hc
  rw [List.eq_of_mem_replicate hc]
  rfl

/-- Items one to a line spell their tokens with commas in between. -/
theorem spellsAtEnd_lines (depth : Nat) {items : List String} {tss : List (List Token)}
    (h : List.Forall₂ (fun item ts => SpellsAtEnd item.toList ts) items tss) :
    SpellsAtEnd (String.intercalate ",\n" (items.map (margin depth ++ ·))).toList ([Token.comma].intercalate tss) := by
  have hcomma : Spells [','] [.comma] := spells_mark rfl
  have hfeed : Spells ['\n'] [] := spells_spacing (List.all_eq_true.1 rfl)
  rw [String.toList_intercalate, List.map_map]
  induction h with
  | nil => exact (spells_spacing (by simp)).atEnd
  | @cons item ts items tss hitem hrest ih =>
    have hline : SpellsAtEnd (margin depth ++ item).toList ts := by
      rw [String.toList_append]
      exact (spells_margin depth).append_atEnd hitem
    cases hrest with
    | nil => simpa using hline
    | cons hnext hmore =>
      rw [List.map_cons, List.map_cons, List.intercalate_cons_cons, List.intercalate_cons_cons]
      -- the comma ends a word at the end of the line
      exact (hline.append rfl (hcomma.append hfeed)).append_atEnd ih

/-- Items between brackets spell their tokens between those of the brackets. -/
theorem spells_bracketed {left right : String} {l r : Token} (hleft : Spells left.toList [l])
    (hright : Spells right.toList [r]) (depth : Nat) {items : List String} {tss : List (List Token)}
    (h : List.Forall₂ (fun item ts => SpellsAtEnd item.toList ts) items tss) :
    Spells (bracketed left right depth items).toList (l :: [Token.comma].intercalate tss ++ [r]) := by
  have hfeed : Spells "\n".toList [] := spells_spacing (List.all_eq_true.1 rfl)
  have hlines := spellsAtEnd_lines (depth + 1) h
  unfold bracketed
  split
  · next hempty =>
    rw [List.isEmpty_iff] at hempty
    subst hempty
    cases h
    rw [String.toList_append]
    exact hleft.append hright
  · simp only [String.toList_append, List.append_assoc]
    rw [← List.append_assoc]
    refine (hleft.append hfeed).append ?_
    exact hlines.append rfl (hfeed.append ((spells_margin depth).append hright))

mutual

/-- A rendered document spells its tokens. -/
theorem spellsAtEnd_renderAt (depth : Nat) (j : Json) : SpellsAtEnd (renderAt depth j).toList (tokensOf (joined j)) := by
  cases j with
  | null =>
    show SpellsAtEnd "null".toList _
    exact spellsAtEnd_name (by simp)
  | bool b =>
    show SpellsAtEnd (if b then "true" else "false").toList _
    cases b <;> exact spellsAtEnd_name (by simp)
  | int n => exact spellsAtEnd_int n
  | str s => exact (spells_quote s).atEnd
  | arr items =>
    have hleft : Spells "[".toList [.leftBracket] := spells_mark (c := '[') rfl
    have hright : Spells "]".toList [.rightBracket] := spells_mark (c := ']') rfl
    exact (spells_bracketed hleft hright depth (spellsAtEnd_renderItems (depth + 1) items)).atEnd
  | obj members =>
    have hleft : Spells "\x7b".toList [.leftBrace] := spells_mark (c := '\x7b') rfl
    have hright : Spells "\x7d".toList [.rightBrace] := spells_mark (c := '\x7d') rfl
    exact (spells_bracketed hleft hright depth (spellsAtEnd_renderMembers (depth + 1) members)).atEnd

/-- Each rendered item of an array spells its tokens. -/
theorem spellsAtEnd_renderItems (depth : Nat) (items : List Json) :
    List.Forall₂ (fun item ts => SpellsAtEnd item.toList ts) (renderItems depth items)
      (tokensOfItems (joinedItems items)) := by
  cases items with
  | nil => exact .nil
  | cons item rest => exact .cons (spellsAtEnd_renderAt depth item) (spellsAtEnd_renderItems depth rest)

/-- Each rendered member of an object spells its tokens. -/
theorem spellsAtEnd_renderMembers (depth : Nat) (members : List (String × Json)) :
    List.Forall₂ (fun item ts => SpellsAtEnd item.toList ts) (renderMembers depth members)
      (tokensOfMembers (joinedMembers members)) := by
  cases members with
  | nil => exact .nil
  | cons member rest =>
    obtain ⟨name, value⟩ := member
    refine .cons ?_ (spellsAtEnd_renderMembers depth rest)
    have hcolon : Spells ": ".toList [.colon] :=
      (spells_mark rfl : Spells [':'] _).append (spells_spacing (List.all_eq_true.1 rfl))
    simp only [String.toList_append]
    exact ((spells_quote name).append hcolon).append_atEnd (spellsAtEnd_renderAt depth value)

end

/-! ### What is read -/

/-- The number of digits is read from them. -/
theorem naturalOf?_repr (n : Nat) : naturalOf? n.repr.toList = some n := by
  have hne : n.repr.toList ≠ [] := by
    rw [Nat.repr_eq_ofList_toDigits, String.toList_ofList]
    exact Nat.toDigits_ne_nil
  have hall : n.repr.toList.all Text.isDigit = true := List.all_eq_true.2 fun c hc => isDigit_of_mem_repr hc
  have hzero (n : Nat) : (Nat.toDigits 10 n).head? = some '0' → Nat.toDigits 10 n = ['0'] := by
    induction n using Nat.strongRecOn with
    | _ n ih =>
      have hdigit : ∀ m : Fin 10, Nat.digitChar m = '0' → m = 0 := by decide
      rw [Nat.toDigits_eq_if (by decide)]
      split
      · next hlt =>
        intro h
        obtain rfl : n = 0 := congrArg Fin.val (hdigit ⟨n, hlt⟩ (by simpa using h))
        rfl
      · next hge =>
        rw [List.head?_append_of_ne_nil _ Nat.toDigits_ne_nil]
        intro h
        -- the digits before the last would be a zero alone, and the number would be smaller than it is
        have hdigits := ih (n / 10) (by omega) h
        have hvalue : n / 10 = 0 := by
          rw [← Nat.ofDigitChars_ten_toDigits (n := n / 10), hdigits]
          rfl
        omega
  rw [naturalOf?, if_pos]
  · rw [Nat.repr_eq_ofList_toDigits, String.toList_ofList, Nat.ofDigitChars_ten_toDigits]
  · refine ⟨hne, hall, ?_⟩
    rw [Nat.repr_eq_ofList_toDigits, String.toList_ofList]
    exact hzero n

/-- A number is read from its word. -/
theorem integerOf?_toString (n : Int) : integerOf? (toString n).toList = some n := by
  cases n with
  | ofNat n =>
    show integerOf? n.repr.toList = _
    rw [integerOf?, naturalOf?_repr]
    · rfl
    · intro cs h
      have hminus : Text.isDigit '-' = true := isDigit_of_mem_repr (n := n) (by simp [h])
      exact absurd hminus (by decide)
  | negSucc n =>
    have hlist : (toString (Int.negSucc n)).toList = '-' :: n.succ.repr.toList := by
      show ("-" ++ n.succ.repr).toList = _
      rw [String.toList_append]
      rfl
    rw [hlist, integerOf?, naturalOf?_repr]
    rfl

/-- The word of a number is read as the number. -/
theorem ofWord?_toString (n : Int) : ofWord? (toString n).toList = some (.int n) := by
  have hname : ∀ name ∈ ["null", "true", "false"], integerOf? name.toList = none := by decide
  have hother {name : String} (h : name ∈ ["null", "true", "false"]) : (toString n).toList ≠ name.toList := by
    intro he
    have hnumber := integerOf?_toString n
    rw [he, hname name h] at hnumber
    cases hnumber
  rw [ofWord?, if_neg (hother (by simp)), if_neg (hother (by simp)), if_neg (hother (by simp)), integerOf?_toString]
  rfl

/-- The tokens of the items of an array, with commas in between. -/
def tokensInArray (items : List Json) : List Token :=
  [Token.comma].intercalate (tokensOfItems items)

/-- The tokens of the members of an object, with commas in between. -/
def tokensInObject (members : List (String × Json)) : List Token :=
  [Token.comma].intercalate (tokensOfMembers members)

theorem tokensInArray_singleton (item : Json) : tokensInArray [item] = tokensOf item := by
  simp [tokensInArray, tokensOfItems]

theorem tokensInArray_cons_cons (item next : Json) (items : List Json) :
    tokensInArray (item :: next :: items) = tokensOf item ++ .comma :: tokensInArray (next :: items) := by
  simp [tokensInArray, tokensOfItems, List.intercalate_cons_cons]

theorem tokensInObject_singleton (name : String) (value : Json) :
    tokensInObject [(name, value)] = .text name :: .colon :: tokensOf value := by
  simp [tokensInObject, tokensOfMembers]

theorem tokensInObject_cons_cons (name : String) (value : Json) (next : String × Json)
    (members : List (String × Json)) :
    tokensInObject ((name, value) :: next :: members) =
      .text name :: .colon :: (tokensOf value ++ .comma :: tokensInObject (next :: members)) := by
  simp [tokensInObject, tokensOfMembers, List.intercalate_cons_cons]

/-- Items do not start with the end of their array. -/
theorem tokensInArray_ne (item : Json) (items : List Json) (rest ts : List Token) :
    tokensInArray (item :: items) ++ rest ≠ .rightBracket :: ts := by
  have hitem (j : Json) (rest : List Token) : tokensOf j ++ rest ≠ .rightBracket :: ts := by
    cases j <;> simp [tokensOf]
  cases items with
  | nil =>
    rw [tokensInArray_singleton]
    exact hitem item rest
  | cons next items =>
    rw [tokensInArray_cons_cons, List.append_assoc]
    exact hitem item _

/-- Members do not start with the end of their object. -/
theorem tokensInObject_ne (member : String × Json) (members : List (String × Json)) (rest ts : List Token) :
    tokensInObject (member :: members) ++ rest ≠ .rightBrace :: ts := by
  obtain ⟨name, value⟩ := member
  cases members with
  | nil => simp [tokensInObject_singleton]
  | cons next members => simp [tokensInObject_cons_cons]

/-- Whether so many steps are enough to read what has no more tokens: a document from its tokens, items from theirs up
to the end of their array, and members from theirs up to the end of their object. -/
structure ReadsWithin (fuel : Nat) : Prop where
  value : ∀ j rest, (tokensOf j).length ≤ fuel → readValue fuel (tokensOf j ++ rest) = some (j, rest)
  items : ∀ item items rest, (tokensInArray (item :: items)).length < fuel →
    readItems fuel (tokensInArray (item :: items) ++ .rightBracket :: rest) = some (item :: items, rest)
  members : ∀ member members rest, (tokensInObject (member :: members)).length < fuel →
    readMembers fuel (tokensInObject (member :: members) ++ .rightBrace :: rest) = some (member :: members, rest)

namespace ReadsWithin

variable {fuel : Nat}

/-- A document takes a step more than what is between its brackets. -/
theorem value_succ (h : ReadsWithin fuel) (j : Json) (rest : List Token) (hfuel : (tokensOf j).length ≤ fuel + 1) :
    readValue (fuel + 1) (tokensOf j ++ rest) = some (j, rest) := by
  cases j with
  | null => simp [tokensOf, readValue, ofWord?]
  | bool b => cases b <;> simp [tokensOf, readValue, ofWord?]
  | int n =>
    rw [tokensOf, List.singleton_append, readValue, ofWord?_toString]
    rfl
  | str s => simp [tokensOf, readValue]
  | arr items =>
    rw [tokensOf, ← tokensInArray] at hfuel ⊢
    cases items with
    | nil => simp [tokensInArray, tokensOfItems, readValue]
    | cons item items =>
      simp only [List.cons_append, List.nil_append, List.append_assoc, List.length_cons, List.length_append,
        List.length_nil] at hfuel ⊢
      rw [readValue, h.items item items rest (by omega)]
      · rfl
      · exact tokensInArray_ne item items _
  | obj members =>
    rw [tokensOf, ← tokensInObject] at hfuel ⊢
    cases members with
    | nil => simp [tokensInObject, tokensOfMembers, readValue]
    | cons member members =>
      simp only [List.cons_append, List.nil_append, List.append_assoc, List.length_cons, List.length_append,
        List.length_nil] at hfuel ⊢
      rw [readValue, h.members member members rest (by omega)]
      · rfl
      · exact tokensInObject_ne member members _

/-- Items take a step more than the first of them and than the others. -/
theorem items_succ (h : ReadsWithin fuel) (item : Json) (items : List Json) (rest : List Token)
    (hfuel : (tokensInArray (item :: items)).length < fuel + 1) :
    readItems (fuel + 1) (tokensInArray (item :: items) ++ .rightBracket :: rest) = some (item :: items, rest) := by
  cases items with
  | nil =>
    rw [tokensInArray_singleton] at hfuel ⊢
    rw [readItems, h.value item _ (by omega)]
  | cons next items =>
    rw [tokensInArray_cons_cons] at hfuel ⊢
    simp only [List.length_append, List.length_cons, List.append_assoc, List.cons_append] at hfuel ⊢
    rw [readItems, h.value item _ (by omega)]
    dsimp only
    rw [h.items next items rest (by omega)]
    rfl

/-- Members take a step more than the value of the first of them and than the others. -/
theorem members_succ (h : ReadsWithin fuel) (member : String × Json) (members : List (String × Json))
    (rest : List Token) (hfuel : (tokensInObject (member :: members)).length < fuel + 1) :
    readMembers (fuel + 1) (tokensInObject (member :: members) ++ .rightBrace :: rest) =
      some (member :: members, rest) := by
  obtain ⟨name, value⟩ := member
  cases members with
  | nil =>
    rw [tokensInObject_singleton] at hfuel ⊢
    simp only [List.length_cons, List.cons_append] at hfuel ⊢
    rw [readMembers, h.value value _ (by omega)]
  | cons next members =>
    rw [tokensInObject_cons_cons] at hfuel ⊢
    simp only [List.length_append, List.length_cons, List.append_assoc, List.cons_append] at hfuel ⊢
    rw [readMembers, h.value value _ (by omega)]
    dsimp only
    rw [h.members next members rest (by omega)]
    rfl

end ReadsWithin

/-- No more steps are needed than there are tokens. -/
theorem readsWithin (fuel : Nat) : ReadsWithin fuel := by
  -- each reader takes one token at least before it calls another
  induction fuel with
  | zero =>
    refine ⟨fun j rest h => ?_, fun _ _ _ h => absurd h (Nat.not_lt_zero _), fun _ _ _ h => absurd h (Nat.not_lt_zero _)⟩
    cases j <;> simp [tokensOf] at h
  | succ fuel ih => exact ⟨ih.value_succ, ih.items_succ, ih.members_succ⟩

/-- **What is rendered is read back**, also with blanks after it. -/
theorem read_render (j : Json) {blanks : String} (h : ∀ c ∈ blanks.toList, isSpacing c = true) :
    read (render j ++ blanks) = some (joined j) := by
  have hends : Ends blanks.toList := by
    intro c hc
    have hspacing := h c (List.mem_of_mem_head? hc)
    simp [isWordChar, hspacing]
  have hnone : tokens blanks.toList = some [] := by
    have hspells := spells_spacing h []
    rwa [List.append_nil, tokens] at hspells
  have htokens : tokens (render j ++ blanks).toList = some (tokensOf (joined j)) := by
    rw [String.toList_append, render, spellsAtEnd_renderAt 0 j _ hends, hnone]
    simp
  have hvalue := (readsWithin (tokensOf (joined j)).length).value (joined j) [] le_rfl
  rw [List.append_nil] at hvalue
  rw [read, htokens, Option.bind_some, hvalue]

end Json

end ProviderBindings
