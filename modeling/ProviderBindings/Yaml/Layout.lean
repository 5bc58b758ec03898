import ProviderBindings.Yaml.Lexeme

/-!
# Cutting a text into tokens

A text is cut into tokens from left to right. Indentation is turned into starts and ends of blocks as
lines begin deeper or less deep. A mapping key is not known to be one before its colon comes, so the
start of every possible key is kept, one for each level of brackets, and the key mark is inserted there
once the colon is found on the same line.

Reading goes on token by token, so that a fault only counts when a token behind it is asked for: a `Scan`
holds the tokens up to the first fault and the fault itself.
-/

namespace ProviderBindings.Yaml

/-- A place where a mapping key may have started. -/
structure KeyStart where
  /-- How many tokens came before it. -/
  position : Nat
  /-- Whether a key has to stand there for the indentation to make sense. -/
  required : Bool
  index : Nat
  line : Nat
  column : Nat

/-- The state of cutting a text. -/
structure Layout where
  cursor : Cursor
  /-- How many brackets are open. -/
  flow : Nat := 0
  /-- The column of the current block, and of those around it. -/
  indent : Int := -1
  indents : List Int := []
  /-- The tokens found. -/
  tokens : Array Token := #[]
  /-- Whether a key may start at the position. -/
  allowKey : Bool := true
  /-- Where keys may have started, by how many brackets were open. -/
  keys : List (Nat × KeyStart) := []

namespace Layout

/-- A step of cutting. -/
abbrev Step := Layout → Except Fault Layout

/-- The possible key at the current level of brackets. -/
def key? (l : Layout) : Option KeyStart :=
  l.keys.lookup l.flow

/-- Forget the possible key at the current level. -/
def dropKey (l : Layout) : Layout :=
  { l with keys := l.keys.filter (·.1 != l.flow) }

/-- Give up the possible key at the current level, which must not be a required one. -/
def removeKey : Step := fun l =>
  if l.key?.any (·.required) then .error .malformed else .ok l.dropKey

/-- Keep the position as the start of a possible key, if one may start there. -/
def saveKey : Step := fun l =>
  if l.allowKey then do
    let required := l.flow = 0 && l.indent = l.cursor.column
    let l ← removeKey l
    let start : KeyStart :=
      ⟨l.tokens.size, required, l.cursor.index, l.cursor.line, l.cursor.column⟩
    pure { l with keys := (l.flow, start) :: l.keys }
  else .ok l

/-- Whether a possible key is too far back: on another line, or more than 1024 characters away. -/
def isStale (l : Layout) (k : KeyStart) : Bool :=
  k.line != l.cursor.line || l.cursor.index - k.index > 1024

/-- Give up all possible keys that are too far back. -/
def dropStaleKeys : Step := fun l =>
  if l.keys.any fun (_, k) => l.isStale k && k.required then .error .malformed
  else .ok { l with keys := l.keys.filter fun (_, k) => !l.isStale k }

/-- The layout with one more token. -/
def push (l : Layout) (t : Token) : Layout :=
  { l with tokens := l.tokens.push t }

/-- Close the blocks that are indented deeper than a column. -/
def unwind (column : Int) (l : Layout) : Layout :=
  if l.flow != 0 then l else go l.indents l
where
  /-- Close one block after another, given the columns of those around. -/
  go : List Int → Layout → Layout
    | [], l => l
    | outer :: rest, l =>
      if l.indent > column then go rest { l.push .blockEnd with indent := outer, indents := rest }
      else l

/-- Whether a column starts a deeper block. -/
def isDeeper (l : Layout) (column : Nat) : Bool :=
  l.indent < column

/-- Enter a deeper block. -/
def enter (l : Layout) (column : Nat) : Layout :=
  { l with indent := column, indents := l.indent :: l.indents }

/-- Skip white space, comments and line ends before a token. After a line end outside brackets a key
may start. -/
def skipToToken : Nat → Layout → Layout
  | 0, l => l
  | fuel + 1, l =>
    let c := l.cursor.skipComment
    match c.lineBreak? with
    | none => { l with cursor := c }
    | some (_, c) => skipToToken fuel { l with cursor := c, allowKey := l.flow = 0 || l.allowKey }

/-- Take a token of some characters. -/
def take (l : Layout) (width : Nat) (t : Token) : Layout :=
  { l.push t with cursor := l.cursor.skip width }

/-- A mark between documents, or a directive: all blocks end before it. -/
def betweenDocuments : Step := fun l => do
  let l ← removeKey (l.unwind (-1))
  pure { l with allowKey := false }

/-- The start of a bracketed collection, which may be a key. -/
def flowStart (t : Token) : Step := fun l => do
  let l ← saveKey l
  pure ({ l with flow := l.flow + 1, allowKey := true }.take 1 t)

/-- The end of a bracketed collection; there must be one to end. -/
def flowEnd (t : Token) : Step := fun l => do
  let l ← removeKey l
  if l.flow = 0 then .error .malformed
  else pure ({ l with flow := l.flow - 1, allowKey := false }.take 1 t)

/-- A comma between items. -/
def flowEntry : Step := fun l => do
  let l ← removeKey l
  pure ({ l with allowKey := true }.take 1 .flowEntry)

/-- A mark that may start a block where it stands. -/
def blockMark (start : Token) : Step := fun l =>
  if l.flow != 0 then .ok l
  else if !l.allowKey then .error .malformed
  else if l.isDeeper l.cursor.column then .ok ((l.enter l.cursor.column).push start)
  else .ok l

/-- A dash before an item. -/
def blockEntry : Step := fun l => do
  let l ← removeKey (← blockMark .blockSequenceStart l)
  pure ({ l with allowKey := true }.take 1 .blockEntry)

/-- A question mark before a key. -/
def explicitKey : Step := fun l => do
  let l ← removeKey (← blockMark .blockMappingStart l)
  pure ({ l with allowKey := l.flow = 0 }.take 1 .key)

/-- A colon before a value: what started the possible key turns out to be a key. -/
def value : Step := fun l =>
  match l.key? with
  | some k =>
    let l := l.dropKey
    let opens := l.flow = 0 && l.isDeeper k.column
    let marks : Array Token := if opens then #[.blockMappingStart, .key] else #[.key]
    let tokens := l.tokens.extract 0 k.position ++ marks ++ l.tokens.extract k.position l.tokens.size
    let l := { (if opens then l.enter k.column else l) with tokens, allowKey := false }
    .ok (l.take 1 .value)
  | none => do
    let l ← removeKey (← blockMark .blockMappingStart l)
    pure ({ l with allowKey := l.flow = 0 }.take 1 .value)

/-- The state after a token has been read. -/
def accept (l : Layout) (result : Except Fault (Token × Cursor)) : Except Fault Layout := do
  let (t, c) ← result
  pure { l.push t with cursor := c }

/-- A property or a quoted scalar, which may be a key. -/
def keyLike (read : Cursor → Except Fault (Token × Cursor)) : Step := fun l => do
  let l ← saveKey l
  { l with allowKey := false }.accept (read l.cursor)

/-- A block scalar, after which a key may start. -/
def blockScalar (folded : Bool) : Step := fun l => do
  let l ← removeKey l
  { l with allowKey := true }.accept (Lexeme.block folded l.indent l.cursor)

/-- A plain scalar, which may be a key. -/
def plainScalar : Step := fun l => do
  let l ← saveKey l
  let c := l.cursor
  let (cs, ended, c) := Lexeme.plainText (l.flow != 0) (l.indent + 1) (c.rest.length + 1) c
  pure { l.push (.scalar (String.ofList cs) true) with cursor := c, allowKey := ended }

/-- Whether a plain scalar may start at the position. -/
def startsPlain (l : Layout) (ch : Char) : Bool :=
  let next := l.cursor.peekAt 1
  if ch == '-' then !endsWord next
  else if ch == '?' || ch == ':' then l.flow = 0 && !endsWord next
  else !("\t,[]\x7b\x7d#&*!|>'\"%@`".toList.contains ch)

/-- Take the next token, which starts with a character. -/
def next (ch : Char) : Step := fun l =>
  let after := l.cursor.peekAt 1
  let atMargin := l.cursor.column = 0
  let marksWord := l.flow != 0 || endsWord after
  if ch == '%' && atMargin then do
    let l ← betweenDocuments l
    l.accept (Lexeme.directive l.cursor)
  else if (ch == '-' || ch == '.') && atMargin && l.cursor.seesSeparator then do
    let l ← betweenDocuments l
    pure (l.take 3 (if ch == '-' then .documentStart else .documentEnd))
  else if ch == '[' then flowStart .flowSequenceStart l
  else if ch == '\x7b' then flowStart .flowMappingStart l
  else if ch == ']' then flowEnd .flowSequenceEnd l
  else if ch == '\x7d' then flowEnd .flowMappingEnd l
  else if ch == ',' then flowEntry l
  else if ch == '-' && endsWord after then blockEntry l
  else if ch == '?' && marksWord then explicitKey l
  else if ch == ':' && marksWord then value l
  else if ch == '*' then
    keyLike (fun c => (Lexeme.anchorName c).map fun (name, c) => (.alias name, c)) l
  else if ch == '&' then
    keyLike (fun c => (Lexeme.anchorName c).map fun (name, c) => (.anchor name, c)) l
  else if ch == '!' then keyLike Lexeme.tag l
  else if ch == '|' && l.flow = 0 then blockScalar false l
  else if ch == '>' && l.flow = 0 then blockScalar true l
  else if ch == '\x27' then keyLike (Lexeme.quoted false) l
  else if ch == '"' then keyLike (Lexeme.quoted true) l
  else if l.startsPlain ch then plainScalar l
  else .error .malformed

/-- Take a step: to the next token and past it, or to the end of the text. The step says whether that was
the end. -/
def advance (l : Layout) : Except Fault (Layout × Bool) := do
  let l := skipToToken (l.cursor.rest.length + 1) l
  let l ← dropStaleKeys l
  let l := l.unwind l.cursor.column
  match l.cursor.peek with
  | none => pure (← removeKey (l.unwind (-1)), true)
  | some ch => pure (← next ch l, false)

/-- The tokens that are known for sure: those before the first place where a key mark may still be put. -/
def settled (l : Layout) : List Token :=
  let pending := (l.keys.filter fun (_, k) => !l.isStale k).map fun (_, k) => k.position
  (l.tokens.extract 0 ((pending.min?).getD l.tokens.size)).toList

end Layout

/-- What cutting a text comes to. -/
structure Scan where
  /-- The tokens of the text, up to the first fault. -/
  tokens : List Token
  /-- The fault that comes up when a token after these is asked for. -/
  fault : Option Fault := none

/-- Take tokens to the end of the text or to the first fault. -/
def Layout.run : Nat → Layout → Scan
  | 0, l => ⟨l.settled, some .malformed⟩
  | fuel + 1, l =>
    match l.advance with
    | .error fault => ⟨l.settled, some fault⟩
    | .ok (l, true) => ⟨l.tokens.toList, none⟩
    | .ok (l, false) => run fuel l

/-- A character that may stand in a text at all. -/
def isAllowed (c : Char) : Bool :=
  let n := c.toNat
  n == 0x09 || n == 0x0A || n == 0x0D || (0x20 ≤ n && n ≤ 0x7E) || n == 0x85 ||
    (0xA0 ≤ n && n ≤ 0xD7FF) || (0xE000 ≤ n && n ≤ 0xFFFD) || 0x10000 ≤ n

/-- The text cut into tokens. Of a text with a character that may not stand in it there are none. -/
def Scan.ofText (s : String) : Scan :=
  let cs := s.toList
  if cs.all isAllowed then
    let start : Cursor := ⟨cs, 0, 0, 0⟩
    let start := if start.sees '\ufeff' then start.step else start
    Layout.run (cs.length + 1) { cursor := start }
  else ⟨[], some .malformed⟩

end ProviderBindings.Yaml
