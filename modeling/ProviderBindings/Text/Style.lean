import ProviderBindings.Text.Letters

/-!
# Terminal styles

Text for a terminal may hold escape sequences that set colours and move about: the escape character, a
bracket, parameters, and a letter. Where no terminal is written to they are left out.
-/

namespace ProviderBindings.Text

/-- A character of the parameters of an escape sequence. -/
def isStyleParameter (c : Char) : Bool :=
  c == ';' || c == '?' || isDigit c

/-- How many characters the escape sequence has that characters start with, if they start with one. -/
def styleLength? : List Char → Option Nat
  | '\x1b' :: '[' :: rest =>
    let size := (rest.takeWhile isStyleParameter).length
    match rest.drop size with
    | c :: _ => if isSmall c || isCapital c then some (size + 3) else none
    | [] => none
  | _ => none

/-- The characters without escape sequences, after the given number of characters of one. -/
def removeStyles : Nat → List Char → List Char
  | _, [] => []
  | skip + 1, _ :: rest => removeStyles skip rest
  | 0, c :: rest =>
    match styleLength? (c :: rest) with
    | some size => removeStyles (size - 1) rest
    | none => c :: removeStyles 0 rest

/-- The text without escape sequences. -/
def unstyled (s : String) : String :=
  String.ofList (removeStyles 0 s.toList)

end ProviderBindings.Text
