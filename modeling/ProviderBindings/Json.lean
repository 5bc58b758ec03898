import ProviderBindings.Text.Half
import ProviderBindings.Text.Letters

/-!
# JSON documents

The documents this library writes: manifests, version indexes, result reports, and the string
literals of generated code. Everything written is ASCII. A character outside the printable range of
ASCII is escaped by its UTF-16 units, so no reader needs to know the encoding; a string literal never
spans lines.
-/

namespace ProviderBindings

/-- A JSON document; the members of an object keep the order they are listed in. -/
inductive Json where
  | null
  | bool (b : Bool)
  | int (n : Int)
  | str (s : String)
  | arr (items : List Json)
  | obj (members : List (String × Json))

namespace Json

/-- The UTF-16 units of a character: one, or a surrogate pair. A half of a pair is one. -/
def units (c : Char) : List Nat :=
  match Text.half? c with
  | some n => [n]
  | none =>
    if c.toNat < 0x10000 then [c.toNat]
    else [0xD800 + (c.toNat - 0x10000) / 0x400, 0xDC00 + (c.toNat - 0x10000) % 0x400]

/-- A half of a pair is one unit. -/
theorem units_of_half {c : Char} {n : Nat} (h : Text.half? c = some n) : units c = [n] := by
  unfold units
  rw [h]

/-- A character of the first plane is one unit. -/
theorem units_of_lt {c : Char} (h : Text.half? c = none) (hlow : c.toNat < 0x10000) :
    units c = [c.toNat] := by
  unfold units
  rw [h]
  exact if_pos hlow

/-- A character of another plane is a pair. -/
theorem units_of_not_lt {c : Char} (h : Text.half? c = none) (hhigh : ¬c.toNat < 0x10000) :
    units c = [0xD800 + (c.toNat - 0x10000) / 0x400, 0xDC00 + (c.toNat - 0x10000) % 0x400] := by
  unfold units
  rw [h]
  exact if_neg hhigh

/-- A UTF-16 unit as an escape. -/
def escapeUnit (n : Nat) : List Char :=
  '\\' :: 'u' :: Text.hexDigits 4 n

/-- A character as it stands inside a string literal. -/
def escapeChar (c : Char) : List Char :=
  if c = '"' || c = '\\' then ['\\', c]
  else if c = '\n' then ['\\', 'n']
  else if c = '\r' then ['\\', 'r']
  else if c = '\t' then ['\\', 't']
  else if c = '\x08' then ['\\', 'b']
  else if c = '\x0c' then ['\\', 'f']
  else if ' ' ≤ c && c ≤ '~' then [c]
  else (units c).flatMap escapeUnit

/-- The characters of a string literal, quotes included. -/
def quoteChars (cs : List Char) : List Char :=
  '"' :: cs.flatMap escapeChar ++ ['"']

/-- A text as a JSON string literal. -/
def quote (s : String) : String :=
  String.ofList (quoteChars s.toList)

/-- Two spaces for every level of nesting. -/
def margin (depth : Nat) : String :=
  String.ofList (List.replicate (2 * depth) ' ')

/-- Items one to a line at the given depth, between brackets; no item at all gives the bare
brackets. -/
def bracketed (left right : String) (depth : Nat) (items : List String) : String :=
  if items.isEmpty then left ++ right
  else
    left ++ "\n" ++ String.intercalate ",\n" (items.map (margin (depth + 1) ++ ·)) ++ "\n" ++
      margin depth ++ right

mutual

/-- A document that starts at the given depth of nesting, each item on its own line. -/
def renderAt (depth : Nat) : Json → String
  | .null => "null"
  | .bool b => if b then "true" else "false"
  | .int n => toString n
  | .str s => quote s
  | .arr items => bracketed "[" "]" depth (renderItems (depth + 1) items)
  | .obj members => bracketed "\x7b" "\x7d" depth (renderMembers (depth + 1) members)

/-- The items of an array. -/
def renderItems (depth : Nat) : List Json → List String
  | [] => []
  | item :: rest => renderAt depth item :: renderItems depth rest

/-- The members of an object, each a quoted name and its value. -/
def renderMembers (depth : Nat) : List (String × Json) → List String
  | [] => []
  | (name, value) :: rest =>
    (quote name ++ ": " ++ renderAt depth value) :: renderMembers depth rest

end

/-- The document as text, indented by two spaces a level. -/
def render (j : Json) : String :=
  renderAt 0 j

/-- An array of strings. -/
def strings (items : List String) : Json :=
  .arr (items.map .str)

/-- A string, or null where there is none. -/
def optional : Option String → Json
  | none => .null
  | some s => .str s

end Json

end ProviderBindings
