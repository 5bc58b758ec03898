import ProviderBindings.Text.Numeral
import ProviderBindings.Text.Split

/-!
# Numbers with a fraction

Numbers with a fraction are kept to 53 binary digits, within the range that eleven bits of exponent
give. The magnitude of every finite one is a whole multiple of the least positive one, two to the power
-1074, and so it is held as a sign and that multiple; zero has both signs. `roundRatio` rounds a
quotient to the nearest such number, a tie to the one with an even mantissa.
-/

namespace ProviderBindings

/-- A number with a fraction. -/
inductive Double where
  /-- The given multiple of the least positive number, with a sign. -/
  | finite (negative : Bool) (units : Nat)
  | infinite (negative : Bool)
  /-- What is no number. There is one that is the same wherever it is written; every other is `distinct`
  from all, even from those that look like it. -/
  | undefined (distinct : Bool)
  deriving DecidableEq, Repr

namespace Double

/-- How many units make one. -/
def unitsPerOne : Nat :=
  Nat.pow 2 1074

/-- The binary digits that are kept. -/
def precision : Nat := 53

/-- The least number of units that is beyond all finite numbers. -/
def overflow : Nat :=
  Nat.pow 2 2098

/-- A quotient rounded to the nearest whole number, a tie to the even one. -/
def roundQuotient (n d : Nat) : Nat :=
  let q := n / d
  if 2 * (n % d) < d then q
  else if d < 2 * (n % d) then q + 1
  else q + q % 2

/-- The number with a sign and a magnitude in units. -/
def ofUnits (negative : Bool) (units : Nat) : Double :=
  if overflow ≤ units then .infinite negative
  else .finite negative units

/-- The number nearest to a quotient of units. -/
def roundUnits (negative : Bool) (n d : Nat) : Double :=
  let surplus := (n / d).log2 + 1 - precision
  let step := Nat.pow 2 surplus
  ofUnits negative (roundQuotient n (d * step) * step)

/-- The number nearest to a quotient. -/
def roundRatio (negative : Bool) (n d : Nat) : Double :=
  roundUnits negative (n * unitsPerOne) d

/-- The number nearest to digits times a power of ten. Where the power alone tells that the number is too
large or too small, it is not worked out. -/
def ofDecimal (negative : Bool) (digits : Nat) (exponent : Int) : Double :=
  let size : Int := (Nat.toDigits 10 digits).length + exponent
  if digits = 0 || size < -400 then .finite negative 0
  else if 400 < size then .infinite negative
  else if exponent < 0 then roundRatio negative digits (Nat.pow 10 exponent.natAbs)
  else roundRatio negative (digits * Nat.pow 10 exponent.natAbs) 1

/-- The number that a sign and a word for infinity or for no number, or digits with or without a fraction
and an exponent, stand for. -/
def ofNumeral? (cs : List Char) : Option Double :=
  let numeral := Text.trimChars Text.isNumeralBlank (Text.plainNumeral cs)
  let negative := numeral.head? == some '-'
  let digits := Text.dropSign numeral
  let word := String.ofList digits
  if word == "inf" || word == "infinity" then some (.infinite negative)
  else if word == "nan" then some (.undefined true)
  else
    let exponent := (digits.dropWhile (· != 'e')).drop 1
    let (whole, fraction) := Text.cutFirst '.' (digits.takeWhile (· != 'e'))
    let fraction := fraction.getD []
    if !Text.isRunOf Text.isDigit (whole ++ fraction) then none
    else if !digits.contains 'e' then
      some (.ofDecimal negative (Text.numberOf 10 (whole ++ fraction)) (-fraction.length))
    else if Text.isRunOf Text.isDigit (Text.dropSign exponent) then
      let n : Int := Text.numberOf 10 (Text.dropSign exponent)
      let n := if exponent.head? == some '-' then -n else n
      some (.ofDecimal negative (Text.numberOf 10 (whole ++ fraction)) (n - fraction.length))
    else none

/-- The number nearest to an integer. -/
def ofInt (n : Int) : Double :=
  roundRatio (n < 0) n.natAbs 1

/-- The integer with a sign and a magnitude. -/
def signed (negative : Bool) (units : Nat) : Int :=
  if negative then -(units : Int) else units

/-- The integer that a number is, if it is one. -/
def toInt? : Double → Option Int
  | finite negative units =>
    if units % unitsPerOne = 0 then some (signed negative (units / unitsPerOne)) else none
  | _ => none

/-- Whether a number is zero. -/
def isZero (x : Double) : Bool :=
  x.toInt? == some 0

/-- The sum of two numbers. -/
protected def add : Double → Double → Double
  | finite a m, finite b n =>
    let sum := signed a m + signed b n
    roundUnits (if sum = 0 then a && b else sum < 0) sum.natAbs 1
  | infinite a, infinite b => if a = b then infinite a else undefined true
  | undefined _, _ => undefined true
  | _, undefined _ => undefined true
  | infinite a, _ => infinite a
  | _, infinite b => infinite b

/-- The product of two numbers. -/
protected def mul : Double → Double → Double
  | finite a m, finite b n => roundUnits (a != b) (m * n) unitsPerOne
  | finite a m, infinite b => if m = 0 then undefined true else infinite (a != b)
  | infinite a, finite b n => if n = 0 then undefined true else infinite (a != b)
  | infinite a, infinite b => infinite (a != b)
  | _, _ => undefined true

/-- The number with the other sign. -/
protected def neg : Double → Double
  | finite a m => finite (!a) m
  | infinite a => infinite (!a)
  | undefined distinct => undefined distinct

instance : Add Double := ⟨Double.add⟩
instance : Mul Double := ⟨Double.mul⟩
instance : Neg Double := ⟨Double.neg⟩

end Double

end ProviderBindings
