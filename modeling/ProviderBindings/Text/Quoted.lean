import ProviderBindings.Text.Half
import ProviderBindings.Text.Letters
import ProviderBindings.Text.Printable

/-!
# Quoted texts

How a text is shown inside an error message: between single quotes, or between double quotes when
it holds a single quote and no double one; line ends, tabs, backslashes and the quote itself are
escaped with a backslash, and a character that does not print is given by its number.
-/

namespace ProviderBindings.Text

/-- A character given by its number. -/
def numbered (n : Nat) : List Char :=
  if n < 0x100 then '\\' :: 'x' :: hexDigits 2 n
  else if n < 0x10000 then '\\' :: 'u' :: hexDigits 4 n
  else '\\' :: 'U' :: hexDigits 8 n

/-- The text with its halves of surrogate pairs given by their numbers. -/
def showHalves (s : String) : String :=
  String.ofList (s.toList.flatMap fun c => ((half? c).map numbered).getD [c])

/-- A character of a quoted text, as it is written between the quotes. -/
def quoteChar (quote c : Char) : List Char :=
  if c = quote || c = '\\' then ['\\', c]
  else if c = '\n' then ['\\', 'n']
  else if c = '\r' then ['\\', 'r']
  else if c = '\t' then ['\\', 't']
  else if isPrintable c then [c]
  else numbered ((half? c).getD c.toNat)

/-- The quote that a text is shown in. -/
def quoteFor (cs : List Char) : Char :=
  if cs.contains '\x27' && !cs.contains '"' then '"' else '\x27'

/-- The text between quotes. -/
def quoted (s : String) : String :=
  let quote := quoteFor s.toList
  String.ofList (quote :: s.toList.flatMap (quoteChar quote) ++ [quote])

end ProviderBindings.Text
