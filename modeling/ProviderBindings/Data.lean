import ProviderBindings.Double

/-!
# Values of data files

The values that configuration files and requests are made of, before anything is known about their
meaning. Lists, sets and dictionaries hold further values; a dictionary keeps its text keys only, since
no other key is ever asked for.
-/

namespace ProviderBindings

/-- A value read from data. -/
inductive Data where
  | null
  | bool (b : Bool)
  | int (n : Int)
  | float (x : Double)
  | str (s : String)
  | bytes (values : List UInt8)
  /-- A date, by its number of days. -/
  | date (days : Int)
  /-- A date with a time of day, by its number of microseconds, in universal time or in a time of no
  known place. -/
  | moment (universal : Bool) (microseconds : Int)
  | list (items : List Data)
  | set (items : List Data)
  | dict (fields : List (String × Data))
  deriving Inhabited

namespace Data

/-- The word for the kind of a value. -/
def typeName : Data → String
  | null => "NoneType"
  | bool _ => "bool"
  | int _ => "int"
  | float _ => "float"
  | str _ => "str"
  | bytes _ => "bytes"
  | date _ => "date"
  | moment _ _ => "datetime"
  | list _ => "list"
  | .set _ => "set"
  | dict _ => "dict"

/-- Whether the value counts as nothing: null, false, zero, and whatever is empty. -/
def isVoid : Data → Bool
  | null => true
  | bool b => !b
  | int n => n == 0
  | float x => x.isZero
  | str s => s.isEmpty
  | bytes values => values.isEmpty
  | list items => items.isEmpty
  | .set items => items.isEmpty
  | dict fields => fields.isEmpty
  | _ => false

/-- The integer that a value equals, if it equals one: truth values equal one and zero. -/
def integer? : Data → Option Int
  | bool b => some (if b then 1 else 0)
  | int n => some n
  | float x => x.toInt?
  | _ => none

/-- Whether two values that are no collections are equal. -/
def sameScalar (a b : Data) : Bool :=
  match a.integer?, b.integer? with
  | some m, some n => m == n
  | _, _ =>
    match a, b with
    | null, null => true
    | float x, float y => x == y && x != .undefined true
    | str s, str t => s == t
    | bytes v, bytes w => v == w
    | date d, date e => d == e
    | moment u m, moment v n => u == v && m == n
    | _, _ => false

end Data

end ProviderBindings
