import ProviderBindings.Text.Quoted

/-!
# Faults of YAML texts

A text is malformed when it breaks the rules of YAML; all such faults count as one. A scalar that is
tagged or looks like a number, a truth value or a date, and turns out to be none, is a fault of its own
kind.
-/

namespace ProviderBindings.Yaml

/-- What can be wrong with a scalar. -/
inductive ScalarFault where
  /-- The text is no integer in the base. -/
  | notInt (base : Nat) (text : String)
  /-- The decimal number has too many digits. -/
  | hugeInt (digits : Nat)
  /-- The text is no number with a fraction. -/
  | notFloat (text : String)
  /-- A number to base sixty has too many parts. -/
  | hugeFloat
  /-- Nothing is left of a number beside its sign. -/
  | emptyNumber
  /-- The text is no truth value. -/
  | notBool (text : String)
  /-- The text does not look like a date. -/
  | notTimestamp
  /-- A mapping stands where a date is promised. -/
  | timestampMapping
  | yearOutOfRange (year : Nat)
  | monthOutOfRange
  | dayOutOfRange
  | hourOutOfRange
  | minuteOutOfRange
  | secondOutOfRange
  | offsetOutOfRange (days seconds : Int)
  /-- An escape stands for no character. -/
  | notCharacter
  /-- An escape gives a number that no character could ever have. -/
  | hugeCharacter
  /-- A mapping is its own default. -/
  | endless
  deriving DecidableEq, Repr

/-- How many digits a decimal integer may have. -/
def maxDigits : Nat := 4300

/-- How many characters of a quoted text are shown in the wording of a fault that cuts it off. -/
def shownLength : Nat := 200

/-- The wording of a fault. -/
def ScalarFault.message : ScalarFault → String
  | notInt base text =>
    s!"invalid literal for int() with base {base}: " ++
      String.ofList ((Text.quoted text).toList.take shownLength)
  | hugeInt digits =>
    s!"Exceeds the limit ({maxDigits} digits) for integer string conversion: value has {digits} digits; " ++
      "use sys.set_int_max_str_digits() to increase the limit"
  | notFloat text => "could not convert string to float: " ++ Text.quoted text
  | hugeFloat => "int too large to convert to float"
  | emptyNumber => "string index out of range"
  | notBool text => text
  | notTimestamp => "'NoneType' object has no attribute 'groupdict'"
  | timestampMapping => "expected string or bytes-like object, got 'list'"
  | yearOutOfRange year => s!"year {year} is out of range"
  | monthOutOfRange => "month must be in 1..12"
  | dayOutOfRange => "day is out of range for month"
  | hourOutOfRange => "hour must be in 0..23"
  | minuteOutOfRange => "minute must be in 0..59"
  | secondOutOfRange => "second must be in 0..59"
  | offsetOutOfRange days seconds =>
    "offset must be a timedelta strictly between -timedelta(hours=24) and timedelta(hours=24), not " ++
      "datetime.timedelta(days=" ++ toString days ++
      (if seconds = 0 then "" else ", seconds=" ++ toString seconds) ++ ")."
  | notCharacter => "chr() arg not in range(0x110000)"
  | hugeCharacter => "Python int too large to convert to C int"
  | endless => "maximum recursion depth exceeded"

/-- What can be wrong with a text. -/
inductive Fault where
  /-- The text breaks the rules of YAML. -/
  | malformed
  | scalar (fault : ScalarFault)
  deriving DecidableEq, Repr

end ProviderBindings.Yaml
