/-!
# Reading positions

A cursor is what is left of a text with the position it starts at. YAML's layout is told by columns, so
every step keeps count of lines and columns.
-/

namespace ProviderBindings.Yaml

/-- A character that ends a line. -/
def isBreak (c : Char) : Bool :=
  c == '\n' || c == '\r' || c == '\x85' || c == '\u2028' || c == '\u2029'

/-- A space or a tab. -/
def isSpace (c : Char) : Bool :=
  c == ' ' || c == '\t'

/-- A space, a tab, a line end, or the end of the text. -/
def endsWord : Option Char → Bool
  | none => true
  | some c => isSpace c || isBreak c

/-- A line end or the end of the text. -/
def endsLine : Option Char → Bool
  | none => true
  | some c => isBreak c

/-- A position in a text. -/
structure Cursor where
  /-- The text from the position on. -/
  rest : List Char
  index : Nat := 0
  line : Nat := 0
  column : Nat := 0

namespace Cursor

variable (c : Cursor)

/-- The character at the position. -/
def peek : Option Char :=
  c.rest.head?

/-- The character some steps after the position. -/
def peekAt (n : Nat) : Option Char :=
  c.rest[n]?

/-- Whether the given character stands at the position. -/
def sees (ch : Char) : Bool :=
  c.peek == some ch

/-- One step on. A carriage return before a line feed is part of that line end, and a byte order mark
has no width. -/
def step : Cursor :=
  match c.rest with
  | [] => c
  | ch :: rest =>
    if isBreak ch && !(ch == '\r' && rest.head? == some '\n') then
      ⟨rest, c.index + 1, c.line + 1, 0⟩
    else if ch == '\ufeff' then ⟨rest, c.index + 1, c.line, c.column⟩
    else ⟨rest, c.index + 1, c.line, c.column + 1⟩

/-- Some steps on. -/
def skip : Nat → Cursor → Cursor
  | 0, c => c
  | n + 1, c => skip n c.step

/-- The characters of a kind from the position on, and the position after them. -/
def span (p : Char → Bool) : List Char × Cursor :=
  let taken := c.rest.takeWhile p
  (taken, c.skip taken.length)

/-- The position after all characters of a kind. -/
def skipWhile (p : Char → Bool) : Cursor :=
  (c.span p).2

/-- The line end at the position, and the position after it. All line ends but the line and paragraph
separators count as line feeds. -/
def lineBreak? : Option (Char × Cursor) :=
  match c.peek with
  | none => none
  | some ch =>
    if ch == '\u2028' || ch == '\u2029' then some (ch, c.step)
    else if isBreak ch then
      if ch == '\r' && c.peekAt 1 == some '\n' then some ('\n', c.skip 2) else some ('\n', c.step)
    else none

/-- Whether three dashes or three dots stand at the position as a word of their own. -/
def seesSeparator : Bool :=
  (c.rest.take 3 == ['-', '-', '-'] || c.rest.take 3 == ['.', '.', '.']) && endsWord (c.peekAt 3)

/-- The position after the spaces and the comment that may end a line. -/
def skipComment : Cursor :=
  let c := c.skipWhile (· == ' ')
  if c.sees '#' then c.skipWhile (!isBreak ·) else c

end Cursor

end ProviderBindings.Yaml
