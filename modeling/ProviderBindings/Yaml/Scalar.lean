import ProviderBindings.Data
import ProviderBindings.Text.Lowercase
import ProviderBindings.Text.Numeral
import ProviderBindings.Text.Split
import ProviderBindings.Yaml.Fault

/-!
# Scalars

What a plain scalar stands for is told by its text: nothing, a truth value, a number, a date, or the
text itself. `Tag.ofPlain` gives the tag of a text, and `Tag.scalarValue` the value of a text under a
tag, which fails where an explicit tag promises more than the text holds.
-/

namespace ProviderBindings.Yaml

/-- The kinds of nodes that have a meaning. -/
inductive Tag where
  | null
  | bool
  | int
  | float
  | binary
  | timestamp
  | str
  | seq
  | map
  | set
  | orderedMap
  | pairs
  /-- A key under which other mappings are merged in. -/
  | merge
  /-- The key of a mapping's default value. -/
  | value
  /-- A tag without a meaning. -/
  | unknown
  deriving DecidableEq, Repr

namespace Tag

/-- The tags with a meaning by their names below `tag:yaml.org,2002:`. -/
def standard : List (String × Tag) :=
  [("null", null), ("bool", bool), ("int", int), ("float", float), ("binary", binary),
   ("timestamp", timestamp), ("str", str), ("seq", seq), ("map", map), ("set", set),
   ("omap", orderedMap), ("pairs", pairs), ("merge", merge), ("value", value)]

/-- The name that the standard tags start with. -/
def standardLead : String := "tag:yaml.org,2002:"

/-- The tag of a name. -/
def ofName (name : String) : Tag :=
  ((standard.find? fun entry => standardLead ++ entry.1 == name).map (·.2)).getD unknown

/-- Whether values of the tag can be keys: collections cannot. -/
def isHashable : Tag → Bool
  | seq => false
  | map => false
  | set => false
  | orderedMap => false
  | pairs => false
  | _ => true

/-! ## Texts that look like something -/

/-- A digit or an underscore. -/
def isDigitOrLine (c : Char) : Bool :=
  Text.isDigit c || c == '_'

/-- A digit followed by digits and underscores. -/
def isDigitRun : List Char → Bool
  | [] => false
  | c :: rest => Text.isDigit c && rest.all isDigitOrLine

/-- Two digits below sixty, or one. -/
def isSixty : List Char → Bool
  | [a] => Text.isDigit a
  | [a, b] => '0' ≤ a && a ≤ '5' && Text.isDigit b
  | _ => false

/-- Whether characters look like an integer: binary, octal, decimal, hexadecimal, or to base sixty. -/
def looksInt (cs : List Char) : Bool :=
  match Text.dropSign cs with
  | ['0'] => true
  | '0' :: 'b' :: rest => Text.isRunOf (fun c => c == '0' || c == '1' || c == '_') rest
  | '0' :: 'x' :: rest => Text.isRunOf (fun c => Text.isHexDigit c || c == '_') rest
  | '0' :: rest => Text.isRunOf (fun c => ('0' ≤ c && c ≤ '7') || c == '_') rest
  | cs =>
    match Text.splitChars ':' cs with
    | first :: rest => isDigitRun first && rest.all isSixty
    | [] => false

/-- An exponent: the letter, a sign, and digits; or nothing. -/
def isExponent : List Char → Bool
  | [] => true
  | c :: sign :: digits =>
    (c == 'e' || c == 'E') && (sign == '+' || sign == '-') && Text.isRunOf Text.isDigit digits
  | _ => false

/-- Digits and underscores, with an exponent after them. -/
def isFraction (cs : List Char) : Bool :=
  isExponent (cs.dropWhile isDigitOrLine)

/-- Whether characters look like a number with a fraction. -/
def looksFloat (cs : List Char) : Bool :=
  let unsigned := Text.dropSign cs
  let (whole, fraction) := Text.cutFirst '.' unsigned
  match fraction with
  | none => false
  | some fraction =>
    match Text.splitChars ':' whole with
    | [[]] =>
      [".inf", ".Inf", ".INF"].contains (String.ofList unsigned) ||
        (cs == unsigned && ([".nan", ".NaN", ".NAN"].contains (String.ofList cs) ||
          (fraction.head?.any Text.isDigit && isFraction fraction)))
    | [whole] => isDigitRun whole && isFraction fraction
    | first :: rest => isDigitRun first && rest.all isSixty && fraction.all isDigitOrLine
    | [] => false

/-- A date, perhaps with a time of day and a distance from universal time in minutes. -/
structure Moment where
  year : Nat
  month : Nat
  day : Nat
  time : Option (Nat × Nat × Nat) := none
  microsecond : Nat := 0
  offset : Option Int := none
  deriving DecidableEq, Repr

/-- Take digits, between `least` and `most` of them. -/
def takeDigits (least most : Nat) (cs : List Char) : Option (Nat × List Char) :=
  let digits := (cs.takeWhile Text.isDigit).take most
  if least ≤ digits.length then some (Text.numberOf 10 digits, cs.drop digits.length) else none

/-- Take a given character. -/
def takeChar (c : Char) : List Char → Option (List Char)
  | [] => none
  | d :: rest => if d = c then some rest else none

/-- What may follow a time of day: a Z, or a sign with hours and perhaps minutes. -/
def readOffset : List Char → Option Int
  | ['Z'] => some 0
  | sign :: rest =>
    if sign == '+' || sign == '-' then do
      let (hours, rest) ← takeDigits 1 2 rest
      let minutes ←
        if rest.isEmpty then some 0
        else do
          let (minutes, rest) ← takeDigits 2 2 (← takeChar ':' rest)
          if rest.isEmpty then some minutes else none
      let n : Int := (hours * 60 + minutes : Nat)
      some (if sign == '-' then -n else n)
    else none
  | [] => none

/-- Read a date with or without a time. -/
def readMoment (cs : List Char) : Option Moment := do
  let (year, cs) ← takeDigits 4 4 cs
  let (month, cs) ← takeDigits 1 2 (← takeChar '-' cs)
  let (day, cs) ← takeDigits 1 2 (← takeChar '-' cs)
  let isGap (c : Char) : Bool := c == ' ' || c == '\t'
  match cs with
  | [] => some { year, month, day }
  | c :: rest =>
    let cs ← if c == 'T' || c == 't' then some rest
      else if isGap c then some (rest.dropWhile isGap) else none
    let (hour, cs) ← takeDigits 1 2 cs
    let (minute, cs) ← takeDigits 2 2 (← takeChar ':' cs)
    let (second, cs) ← takeDigits 2 2 (← takeChar ':' cs)
    let (fraction, cs) := match cs with
      | '.' :: rest => (rest.takeWhile Text.isDigit, rest.dropWhile Text.isDigit)
      | cs => ([], cs)
    let microsecond := Text.numberOf 10 ((fraction ++ List.replicate 6 '0').take 6)
    let moment : Moment := { year, month, day, time := some (hour, minute, second), microsecond }
    if cs.isEmpty then some moment
    else do
      let offset ← readOffset (cs.dropWhile isGap)
      some { moment with offset := some offset }

/-- Whether characters look like a date: with a time, or in exactly four, two and two digits. -/
def looksTimestamp (cs : List Char) : Bool :=
  match readMoment cs with
  | none => false
  | some m => m.time.isSome || cs.length = 10

/-- The words for truth values. -/
def boolWords : List (String × Bool) :=
  [("yes", true), ("no", false), ("true", true), ("false", false), ("on", true), ("off", false)]

/-- The ways to write a word: small, capitalized, or in capitals. -/
def spellings (word : String) : List String :=
  let cs := word.toList
  [word, String.ofList ((cs.take 1).map Text.upperChar ++ cs.drop 1),
    String.ofList (cs.map Text.upperChar)]

/-- The tag of a plain scalar. -/
def ofPlain (s : String) : Tag :=
  let cs := s.toList
  let cs := if cs.getLast? = some '\n' then cs.dropLast else cs
  let s := String.ofList cs
  if (boolWords.flatMap fun word => spellings word.1).contains s then bool
  else if looksFloat cs then float
  else if looksInt cs then int
  else if s == "<<" then merge
  else if s == "" || s == "~" || (spellings "null").contains s then null
  else if looksTimestamp cs then timestamp
  else if s == "=" then value
  else if s == "!" || s == "&" || s == "*" then unknown
  else str

/-! ## Values -/

/-- An integer in a base: a sign, the base's mark, and digits, with blanks around. -/
def readInt (base : Nat) (cs : List Char) : Except ScalarFault Int :=
  let numeral := Text.trimChars Text.isNumeralBlank (Text.plainNumeral cs)
  let negative := numeral.head? == some '-'
  let digits := Text.dropSign numeral
  let mark : Char := if base = 2 then 'b' else if base = 8 then 'o' else 'x'
  let digits := match digits with
    | '0' :: c :: rest => if base != 10 && Text.lowerChar c == mark then rest else digits
    | _ => digits
  let size := (digits.takeWhile Text.isDigit).length
  if base = 10 && size > maxDigits then .error (.hugeInt size)
  else if Text.isRunOf (fun c => Text.isHexDigit c && Text.hexValue c < base) digits then
    let n : Int := Text.numberOf base digits
    .ok (if negative then -n else n)
  else .error (.notInt base (String.ofList cs))

/-- The integer that the text of a scalar denotes. -/
def intValue (s : String) : Except ScalarFault Int := do
  let cs := s.toList.filter (· != '_')
  if cs.isEmpty then throw .emptyNumber
  let sign : Int := if cs.head? == some '-' then -1 else 1
  let cs := Text.dropSign cs
  let signed (n : Int) : Int := sign * n
  match cs with
  | ['0'] => pure 0
  | '0' :: 'b' :: rest => signed <$> readInt 2 rest
  | '0' :: 'x' :: rest => signed <$> readInt 16 rest
  | '0' :: _ => signed <$> readInt 8 cs
  | [] => throw .emptyNumber
  | cs =>
    if cs.contains ':' then
      let parts ← (Text.splitChars ':' cs).mapM (readInt 10)
      pure (signed (parts.foldl (fun n part => n * 60 + part) 0))
    else signed <$> readInt 10 cs

/-- How many parts a number to base sixty may have before the value of a part is beyond all numbers. -/
def maxParts : Nat := 174

/-- The number that parts to base sixty stand for, the last of them first. -/
def ofSixties (parts : List Double) : Double :=
  (parts.zipIdx.map fun (part, place) => part * Double.ofInt (Nat.pow 60 place : Nat)).foldl (· + ·)
    (.finite false 0)

/-- The number that the text of a scalar denotes. -/
def floatValue (s : String) : Except ScalarFault Double := do
  let cs := (Text.lowercase (String.ofList (s.toList.filter (· != '_')))).toList
  if cs.isEmpty then throw .emptyNumber
  let signed (x : Double) : Double := if cs.head? == some '-' then -x else x
  let cs := Text.dropSign cs
  let read (cs : List Char) : Except ScalarFault Double :=
    match Double.ofNumeral? cs with
    | some x => .ok x
    | none => .error (.notFloat (String.ofList cs))
  if cs == ".inf".toList then pure (signed (.infinite false))
  else if cs == ".nan".toList then pure (.undefined false)
  else if cs.contains ':' then
    let parts ← (Text.splitChars ':' cs).mapM read
    if parts.length > maxParts then throw .hugeFloat
    pure (signed (ofSixties parts.reverse))
  else signed <$> read cs

/-- The days of a month. -/
def daysIn (year month : Nat) : Nat :=
  if month = 2 then
    if year % 4 = 0 && (year % 100 != 0 || year % 400 = 0) then 29 else 28
  else if month = 4 || month = 6 || month = 9 || month = 11 then 30
  else 31

/-- Check that a date exists. -/
def Moment.check (m : Moment) : Except ScalarFault Unit := do
  if m.time.isSome then
    if let some offset := m.offset then
      if offset.natAbs ≥ 24 * 60 then
        throw (.offsetOutOfRange (offset / (24 * 60)) (offset % (24 * 60) * 60))
  if m.year < 1 then throw (.yearOutOfRange m.year)
  if m.month < 1 || m.month > 12 then throw .monthOutOfRange
  if m.day < 1 || m.day > daysIn m.year m.month then throw .dayOutOfRange
  if let some (hour, minute, second) := m.time then
    if hour > 23 then throw .hourOutOfRange
    if minute > 59 then throw .minuteOutOfRange
    if second > 59 then throw .secondOutOfRange

/-- How many days it is to a date from the day before the first of all years. -/
def Moment.days (m : Moment) : Int :=
  let past := m.year - 1
  let monthsBefore := (List.range (m.month - 1)).map fun month => daysIn m.year (month + 1)
  (365 * past + past / 4 - past / 100 + past / 400 + monthsBefore.foldl (· + ·) 0 + m.day : Nat)

/-- The value of a date. -/
def Moment.value (m : Moment) : Data :=
  match m.time with
  | none => .date m.days
  | some (hour, minute, second) =>
    let minutes : Int := m.days * (24 * 60) + (hour * 60 + minute : Nat) - m.offset.getD 0
    .moment m.offset.isSome ((minutes * 60 + second) * 1000000 + m.microsecond)

/-- The value of a character of the base-64 alphabet. -/
def sextet? (c : Char) : Option Nat :=
  if Text.isCapital c then some (c.toNat - 65)
  else if Text.isSmall c then some (c.toNat - 71)
  else if Text.isDigit c then some (c.toNat + 4)
  else if c == '+' then some 62
  else if c == '/' then some 63
  else none

/-- The bytes of base-64 text, given how many characters of the current group of four came before,
the bits left over from them, and how many padding signs came last. Other characters are skipped. -/
def base64Bytes : Nat → Nat → Nat → List Char → Option (List UInt8)
  | place, _, _, [] => if place = 0 then some [] else none
  | place, left, pads, c :: rest =>
    if c == '=' then
      if place ≥ 2 && place + pads + 1 ≥ 4 then some []
      else base64Bytes place left (if place ≥ 2 then pads + 1 else pads) rest
    else
      match sextet? c with
      | none => base64Bytes place left pads rest
      | some n =>
        match place with
        | 0 => base64Bytes 1 n 0 rest
        | 1 => (UInt8.ofNat (left * 4 + n / 16) :: ·) <$> base64Bytes 2 (n % 16) 0 rest
        | 2 => (UInt8.ofNat (left * 16 + n / 4) :: ·) <$> base64Bytes 3 (n % 4) 0 rest
        | _ => (UInt8.ofNat (left * 64 + n) :: ·) <$> base64Bytes 0 0 0 rest

/-- The value of a scalar under a tag. -/
def scalarValue (s : String) : Tag → Except Fault Data
  | null => .ok .null
  | str => .ok (.str s)
  | bool =>
    match boolWords.lookup (Text.lowercase s) with
    | some b => .ok (.bool b)
    | none => .error (.scalar (.notBool (Text.lowercase s)))
  | int => (intValue s).mapError .scalar |>.map .int
  | float => (floatValue s).mapError .scalar |>.map .float
  | binary =>
    if s.toList.all fun c => c.toNat < 128 then
      match base64Bytes 0 0 0 s.toList with
      | some bytes => .ok (.bytes bytes)
      | none => .error .malformed
    else .error .malformed
  | timestamp =>
    let cs := s.toList
    let cs := if cs.getLast? = some '\n' then cs.dropLast else cs
    match readMoment cs with
    | none => .error (.scalar .notTimestamp)
    | some m => (m.check.mapError .scalar).map fun _ => m.value
  | _ => .error .malformed

end Tag

end ProviderBindings.Yaml
