import ProviderBindings.Text.Blank
import ProviderBindings.Text.Letters

/-!
# Numerals of all scripts

Numbers may be written in the decimal digits of any script. `plainNumeral` is the text of a number with
its digits written in ASCII, which is the form that numbers are read from.
-/

namespace ProviderBindings.Text

/-- The digits for zero outside ASCII, as of Unicode 14; the digits up to nine follow each of them. -/
def zeros : List Nat :=
  [0x660, 0x6F0, 0x7C0, 0x966, 0x9E6, 0xA66, 0xAE6, 0xB66, 0xBE6, 0xC66, 0xCE6, 0xD66, 0xDE6, 0xE50,
   0xED0, 0xF20, 0x1040, 0x1090, 0x17E0, 0x1810, 0x1946, 0x19D0, 0x1A80, 0x1A90, 0x1B50, 0x1BB0,
   0x1C40, 0x1C50, 0xA620, 0xA8D0, 0xA900, 0xA9D0, 0xA9F0, 0xAA50, 0xABF0, 0xFF10, 0x104A0, 0x10D30,
   0x11066, 0x110F0, 0x11136, 0x111D0, 0x112F0, 0x11450, 0x114D0, 0x11650, 0x116C0, 0x11730,
   0x118E0, 0x11950, 0x11C50, 0x11D50, 0x11DA0, 0x16A60, 0x16AC0, 0x16B50, 0x1D7CE, 0x1D7D8,
   0x1D7E2, 0x1D7EC, 0x1D7F6, 0x1E140, 0x1E2F0, 0x1E950, 0x1FBF0]

/-- The value of a decimal digit outside ASCII. -/
def digitValue? (c : Char) : Option Nat :=
  (zeros.find? fun z => z ≤ c.toNat && c.toNat < z + 10).map (c.toNat - ·)

/-- Characters with digits and spaces outside ASCII written in ASCII, cut off with a question mark at
the first that is neither. -/
def plainDigits : List Char → List Char
  | [] => []
  | c :: rest =>
    if c.toNat < 0x7F then c :: plainDigits rest
    else if isBlank c then ' ' :: plainDigits rest
    else
      match digitValue? c with
      | some n => Char.ofNat (48 + n) :: plainDigits rest
      | none => ['?']

/-- The text of a number with its digits and spaces in ASCII. A text of ASCII is left alone. -/
def plainNumeral (cs : List Char) : List Char :=
  if cs.all (·.toNat < 0x80) then cs else plainDigits cs

/-- Characters without a sign in front. -/
def dropSign : List Char → List Char
  | '+' :: rest => rest
  | '-' :: rest => rest
  | cs => cs

/-- A not empty run of characters of a kind. -/
def isRunOf (p : Char → Bool) (cs : List Char) : Bool :=
  !cs.isEmpty && cs.all p

/-- A blank around a plain numeral: the space and the controls from tab to carriage return. -/
def isNumeralBlank (c : Char) : Bool :=
  c == ' ' || ('\t' ≤ c && c ≤ '\r')

end ProviderBindings.Text
