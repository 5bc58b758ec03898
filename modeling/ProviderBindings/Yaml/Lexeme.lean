import ProviderBindings.Text.Letters
import ProviderBindings.Yaml.Cursor
import ProviderBindings.Yaml.Fault
import ProviderBindings.Yaml.Token

/-!
# Reading single tokens

The readers of directives, tags, anchors and of the three kinds of scalars. Each takes the position a
token starts at and gives what was read with the position after it.
-/

namespace ProviderBindings.Yaml.Lexeme

/-! ## Directives -/

/-- A character of an anchor or of a directive's name. -/
def isNameChar (c : Char) : Bool :=
  Text.isAlphanumeric c || c == '-' || c == '_'

/-- A character that may stand in the text of a tag. -/
def isTagChar (c : Char) : Bool :=
  Text.isAlphanumeric c || "-;/?:@&=+$,_.!~*'()[]".toList.contains c

/-- Fail unless something holds. -/
def require (holds : Bool) : Except Fault Unit :=
  if holds then .ok () else .error .malformed

/-- A space, a line end, or the end of the text; a tab is none of these. -/
def endsField : Option Char → Bool
  | none => true
  | some c => c == ' ' || isBreak c

/-- The rest of a line that may hold nothing but a comment. -/
def emptyLine (c : Cursor) : Except Fault Cursor := do
  let c := c.skipComment
  require (endsLine c.peek)
  pure ((c.lineBreak?.map (·.2)).getD c)

/-- A decimal number. -/
def number (c : Cursor) : Except Fault (Nat × Cursor) := do
  let (digits, c) := c.span Text.isDigit
  require (!digits.isEmpty)
  if digits.length > maxDigits then throw (.scalar (.hugeInt digits.length))
  pure (Text.numberOf 10 digits, c)

/-- Bytes given as percent escapes, as many as follow one another. -/
def percentBytes : Nat → Cursor → Except Fault (List UInt8 × Cursor)
  | 0, c => .ok ([], c)
  | fuel + 1, c =>
    if c.sees '%' then do
      let digits := (c.rest.drop 1).take 2
      require (digits.length = 2 && digits.all Text.isHexDigit)
      let (bytes, c) ← percentBytes fuel (c.skip 3)
      pure (UInt8.ofNat (Text.numberOf 16 digits) :: bytes, c)
    else .ok ([], c)

/-- The text of a tag, percent escapes decoded. -/
def tagText : Nat → Cursor → Except Fault (List Char × Cursor)
  | 0, c => .ok ([], c)
  | fuel + 1, c =>
    if c.sees '%' then do
      let (bytes, c) ← percentBytes c.rest.length c
      match String.fromUTF8? ⟨bytes.toArray⟩ with
      | none => .error .malformed
      | some s => do
        let (more, c) ← tagText fuel c
        pure (s.toList ++ more, c)
    else
      match c.span isTagChar with
      | ([], c) => .ok ([], c)
      | (cs, c) => do
        let (more, c) ← tagText fuel c
        pure (cs ++ more, c)

/-- The text of a tag, which must not be empty. -/
def tagSuffix (c : Cursor) : Except Fault (String × Cursor) := do
  let (cs, after) ← tagText (c.rest.length + 1) c
  require (after.index != c.index)
  pure (String.ofList cs, after)

/-- The handle of a tag: an exclamation mark, or a word between two. -/
def tagHandle (c : Cursor) : Except Fault (String × Cursor) := do
  require (c.sees '!')
  if c.peekAt 1 == some ' ' then pure ("!", c.step)
  else
    let (name, after) := c.step.span isNameChar
    require (after.sees '!')
    pure (String.ofList ('!' :: name ++ ['!']), after.step)

/-- A directive, from its percent sign to the end of its line. -/
def directive (c : Cursor) : Except Fault (Token × Cursor) := do
  let (name, c) := c.step.span isNameChar
  require (!name.isEmpty && endsField c.peek)
  let skipSpaces (c : Cursor) := c.skipWhile (· == ' ')
  let (d, c) ←
    if name == "YAML".toList then do
      let (major, c) ← number (skipSpaces c)
      require (c.sees '.')
      let (_, c) ← number c.step
      require (endsField c.peek)
      pure (Directive.version major, c)
    else if name == "TAG".toList then do
      let (handle, c) ← tagHandle (skipSpaces c)
      require (c.sees ' ')
      let (lead, c) ← tagSuffix (skipSpaces c)
      require (endsField c.peek)
      pure (Directive.handle handle lead, c)
    else pure (Directive.other, c.skipWhile (!isBreak ·))
  pure (.directive d, ← emptyLine c)

/-! ## Properties of nodes -/

/-- The name of an anchor or an alias, after its mark. -/
def anchorName (c : Cursor) : Except Fault (String × Cursor) := do
  let (name, c) := c.step.span isNameChar
  let ends := match c.peek with
    | none => true
    | some ch => isSpace ch || isBreak ch || "?:,]\x7d%@`".toList.contains ch
  require (!name.isEmpty && ends)
  pure (String.ofList name, c)

/-- A tag: verbatim between angle brackets, a lone exclamation mark, or a handle with a suffix. -/
def tag (c : Cursor) : Except Fault (Token × Cursor) := do
  let (token, c) ←
    if c.peekAt 1 == some '<' then do
      let (suffix, c) ← tagSuffix (c.skip 2)
      require (c.sees '>')
      pure (Token.tag none suffix, c.step)
    else if endsWord (c.peekAt 1) then pure (Token.tag none "!", c.step)
    else do
      let word := c.rest.tail.takeWhile fun ch => ch != ' ' && !isBreak ch
      let (handle, c) ← if word.contains '!' then tagHandle c else pure ("!", c.step)
      let (suffix, c) ← tagSuffix c
      pure (Token.tag (some handle) suffix, c)
  require (endsField c.peek)
  pure (token, c)

/-! ## Quoted scalars -/

/-- The escapes of one character. -/
def escapes : List (Char × Char) :=
  [('0', '\x00'), ('a', '\x07'), ('b', '\x08'), ('t', '\t'), ('\t', '\t'), ('n', '\n'),
   ('v', '\x0b'), ('f', '\x0c'), ('r', '\r'), ('e', '\x1b'), (' ', ' '), ('"', '"'), ('\\', '\\'),
   ('/', '/'), ('N', '\x85'), ('_', '\xa0'), ('L', '\u2028'), ('P', '\u2029')]

/-- How many hexadecimal digits follow an escape of a character's number. -/
def escapeWidth? : Char → Option Nat
  | 'x' => some 2
  | 'u' => some 4
  | 'U' => some 8
  | _ => none

/-- The empty lines inside a quoted scalar, with the indentation after them. -/
def quotedBreaks : Nat → Cursor → Except Fault (List Char × Cursor)
  | 0, c => .ok ([], c)
  | fuel + 1, c => do
    require (!c.seesSeparator)
    let c := c.skipWhile isSpace
    match c.lineBreak? with
    | none => pure ([], c)
    | some (ch, c) => do
      let (more, c) ← quotedBreaks fuel c
      pure (ch :: more, c)

/-- White space inside a quoted scalar: kept inside a line; a single line end becomes a space, and of
several all but the first are kept. -/
def quotedSpaces (c : Cursor) : Except Fault (List Char × Cursor) := do
  let (spaces, c) := c.span isSpace
  match c.lineBreak? with
  | none => pure (spaces, c)
  | some (ch, c) => do
    let (breaks, c) ← quotedBreaks c.rest.length.succ c
    let first := if ch != '\n' then [ch] else if breaks.isEmpty then [' '] else []
    pure (first ++ breaks, c)

/-- An escape in a double-quoted scalar, from its backslash on. -/
def escape (c : Cursor) : Except Fault (List Char × Cursor) := do
  let c := c.step
  match c.peek with
  | none => .error .malformed
  | some ch =>
    match escapes.lookup ch, escapeWidth? ch with
    | some plain, _ => pure ([plain], c.step)
    | none, some width => do
      let digits := (c.rest.drop 1).take width
      require (digits.length = width && digits.all Text.isHexDigit)
      let n := Text.numberOf 16 digits
      if Text.isHalfNumber n then pure ([Text.ofHalf n], c.skip (width + 1))
      else if n < 0x110000 then pure ([Char.ofNat n], c.skip (width + 1))
      else .error (.scalar (if n < 0x80000000 then .notCharacter else .hugeCharacter))
    | none, none =>
      match c.lineBreak? with
      | none => .error .malformed
      | some (_, c) => quotedBreaks c.rest.length.succ c

/-- The text of a quoted scalar from a position inside the quotes on. -/
def quotedText (double : Bool) : Nat → Cursor → Except Fault (List Char × Cursor)
  | 0, _ => .error .malformed
  | fuel + 1, c =>
    let quote := if double then '"' else '\x27'
    match c.peek with
    | none => .error .malformed
    | some ch => do
      if ch == quote then
        if !double && c.peekAt 1 == some quote then
          let (more, c) ← quotedText double fuel (c.skip 2)
          pure (quote :: more, c)
        else pure ([], c.step)
      else
        let (cs, c) ←
          if double && ch == '\\' then escape c
          else if isSpace ch || isBreak ch then quotedSpaces c
          else pure ([ch], c.step)
        let (more, c) ← quotedText double fuel c
        pure (cs ++ more, c)

/-- A quoted scalar. -/
def quoted (double : Bool) (c : Cursor) : Except Fault (Token × Cursor) := do
  let (cs, c) ← quotedText double (c.rest.length + 1) c.step
  pure (.scalar (String.ofList cs) false, c)

/-! ## Plain scalars -/

/-- Characters with a meaning of their own inside brackets. -/
def isFlowMark (c : Char) : Bool :=
  c == ',' || c == '[' || c == ']' || c == '\x7b' || c == '\x7d'

/-- Whether a colon before the given character ends a plain scalar. -/
def endsKey (inFlow : Bool) (next : Option Char) : Bool :=
  endsWord next || (inFlow && next.any isFlowMark)

/-- The part of a plain scalar up to white space. -/
def plainRun (inFlow : Bool) : List Char → List Char
  | [] => []
  | ch :: rest =>
    if isSpace ch || isBreak ch || (ch == ':' && endsKey inFlow rest.head?) ||
        (inFlow && (isFlowMark ch || ch == '?')) then []
    else ch :: plainRun inFlow rest

/-- The empty lines inside a plain scalar, unless a document separator comes first. -/
def plainBreaks : Nat → Cursor → Option (List Char) × Cursor
  | 0, c => (some [], c)
  | fuel + 1, c =>
    let c := c.skipWhile (· == ' ')
    match c.lineBreak? with
    | none => (some [], c)
    | some (ch, c) =>
      if c.seesSeparator then (none, c)
      else
        let (more, c) := plainBreaks fuel c
        (more.map (ch :: ·), c)

/-- The white space after a part of a plain scalar as it stands between two parts, empty where the
scalar ends; also whether a line ended in it. -/
def plainSpaces (c : Cursor) : List Char × Bool × Cursor :=
  let (spaces, c) := c.span (· == ' ')
  match c.lineBreak? with
  | none => (spaces, false, c)
  | some (ch, c) =>
    if c.seesSeparator then ([], true, c)
    else
      match plainBreaks c.rest.length.succ c with
      | (none, c) => ([], true, c)
      | (some breaks, c) =>
        let first := if ch != '\n' then [ch] else if breaks.isEmpty then [' '] else []
        (first ++ breaks, true, c)

/-- The text of a plain scalar that belongs at least at a column, whether a line ended after it, and
the position after it. -/
def plainText (inFlow : Bool) (indent : Int) : Nat → Cursor → List Char × Bool × Cursor
  | 0, c => ([], false, c)
  | fuel + 1, c =>
    match plainRun inFlow c.rest with
    | [] => ([], false, c)
    | run =>
      let (spaces, ended, after) := plainSpaces (c.skip run.length)
      if spaces.isEmpty || after.sees '#' || (!inFlow && after.column < indent) then
        (run, ended, after)
      else
        match plainRun inFlow after.rest with
        | [] => (run, ended, after)
        | _ =>
          let (more, ended, after) := plainText inFlow indent fuel after
          (run ++ spaces ++ more, ended, after)

/-! ## Block scalars -/

/-- What happens to the line ends after a block scalar. -/
inductive Chomping where
  /-- One line end stays. -/
  | clip
  /-- None stays. -/
  | strip
  /-- All stay. -/
  | keep
  deriving DecidableEq, Repr

/-- The marks after the start of a block scalar: chomping and indentation in either order. -/
def blockHeader (c : Cursor) : Except Fault ((Chomping × Option Nat) × Cursor) := do
  let chomping (c : Cursor) : Option Chomping × Cursor :=
    if c.sees '+' then (some .keep, c.step)
    else if c.sees '-' then (some .strip, c.step)
    else (none, c)
  let increment (c : Cursor) : Option Nat × Cursor :=
    match c.peek with
    | some ch => if Text.isDigit ch then (some (Text.hexValue ch), c.step) else (none, c)
    | none => (none, c)
  let (first, c) := chomping c
  let (width, c) := increment c
  let (second, c) := if first.isNone && width.isSome then chomping c else (none, c)
  require (width != some 0 && endsField c.peek)
  pure (((first.or second).getD .clip, width), c)

/-- The empty lines of a block scalar before its indentation is known, and the widest line of spaces
among them. -/
def blockIndentation : Nat → Nat → Cursor → List Char × Nat × Cursor
  | 0, widest, c => ([], widest, c)
  | fuel + 1, widest, c =>
    if c.sees ' ' then blockIndentation fuel (max widest (c.column + 1)) c.step
    else
      match c.lineBreak? with
      | none => ([], widest, c)
      | some (ch, c) =>
        let (more, widest, c) := blockIndentation fuel widest c
        (ch :: more, widest, c)

/-- The position after the spaces before a column. -/
def skipIndent (indent : Nat) : Nat → Cursor → Cursor
  | 0, c => c
  | fuel + 1, c => if c.column < indent && c.sees ' ' then skipIndent indent fuel c.step else c

/-- The empty lines inside a block scalar. -/
def blockBreaks (indent : Nat) : Nat → Cursor → List Char × Cursor
  | 0, c => ([], c)
  | fuel + 1, c =>
    let c := skipIndent indent indent c
    match c.lineBreak? with
    | none => ([], c)
    | some (ch, c) =>
      let (more, c) := blockBreaks indent fuel c
      (ch :: more, c)

/-- The lines of a block scalar from the first on, given the empty lines before it. A folded scalar
joins two lines that neither start with white space nor have empty lines between them. -/
def blockLines (folded : Bool) (chomping : Chomping) (indent : Nat) :
    Nat → List Char → Cursor → List Char × Cursor
  | 0, _, c => ([], c)
  | fuel + 1, breaks, c =>
    let startsFull := !(c.peek.any isSpace)
    let (text, c) := c.span (!isBreak ·)
    let (lineEnd, c) := match c.lineBreak? with
      | some (ch, c) => ([ch], c)
      | none => ([], c)
    let (after, c) := blockBreaks indent c.rest.length.succ c
    if c.column = indent && c.peek.isSome then
      let joint :=
        if folded && lineEnd == ['\n'] && startsFull && !(c.peek.any isSpace) then
          if after.isEmpty then [' '] else []
        else lineEnd
      let (more, c) := blockLines folded chomping indent fuel after c
      (breaks ++ text ++ joint ++ more, c)
    else
      let tail := match chomping with
        | .strip => []
        | .clip => lineEnd
        | .keep => lineEnd ++ after
      (breaks ++ text ++ tail, c)

/-- A block scalar below an indentation. -/
def block (folded : Bool) (indent : Int) (c : Cursor) : Except Fault (Token × Cursor) := do
  let ((chomping, width), c) ← blockHeader c.step
  let c ← emptyLine c
  let least := (max (indent + 1) 1).toNat
  let fuel := c.rest.length + 1
  let (breaks, column, c) := match width with
    | none =>
      let (breaks, widest, c) := blockIndentation fuel 0 c
      (breaks, max least widest, c)
    | some width =>
      let column := least + width - 1
      let (breaks, c) := blockBreaks column fuel c
      (breaks, column, c)
  if c.column = column && c.peek.isSome then
    let (text, c) := blockLines folded chomping column fuel breaks c
    pure (.scalar (String.ofList text) false, c)
  else
    let tail := if chomping = .keep then breaks else []
    pure (.scalar (String.ofList tail) false, c)

end ProviderBindings.Yaml.Lexeme
