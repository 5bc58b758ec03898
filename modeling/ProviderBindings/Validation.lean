import ProviderBindings.Data
import ProviderBindings.Text.Blank
import ProviderBindings.Text.Letters
import ProviderBindings.Text.Split

/-!
# Validation of data

A record is read from data field by field, and everything that is wrong with it is reported at once:
`Checked` collects the issues of all fields in order. The readers below accept a value of another kind
where it clearly stands for the wanted one, such as a yes for true or digits for a number.
-/

namespace ProviderBindings

/-- One step on the way to a value inside data. -/
inductive Place where
  | field (name : String)
  | index (i : Nat)
  deriving DecidableEq, Repr

/-- The text of a step. -/
def Place.text : Place → String
  | field name => name
  | index i => toString i

/-- What can be wrong with a value. -/
inductive IssueKind where
  | notText
  | notUnicode
  | notList
  | notDictionary
  | notPath
  | notLanguage
  | notOutcome
  | missing
  | notBool
  | unreadableBool
  | notInt
  | unreadableInt
  /-- An integer of too many digits, or a number with a fraction that fits into no word. -/
  | hugeInt
  | fractional
  | notFinite
  /-- The whole input is no dictionary that the named record could be read from. -/
  | notRecord (record : String)
  deriving DecidableEq, Repr

namespace IssueKind

/-- The short name of an issue. -/
def code : IssueKind → String
  | notText => "string_type"
  | notUnicode => "string_unicode"
  | notList => "list_type"
  | notDictionary => "dict_type"
  | notPath => "path_type"
  | notLanguage => "enum"
  | notOutcome => "literal_error"
  | missing => "missing"
  | notBool => "bool_type"
  | unreadableBool => "bool_parsing"
  | notInt => "int_type"
  | unreadableInt => "int_parsing"
  | hugeInt => "int_parsing_size"
  | fractional => "int_from_float"
  | notFinite => "finite_number"
  | notRecord _ => "model_type"

/-- The wording of an issue. -/
def message : IssueKind → String
  | notText => "Input should be a valid string"
  | notUnicode => "Input should be a valid string, unable to parse raw data as a unicode string"
  | notList => "Input should be a valid list"
  | notDictionary => "Input should be a valid dictionary"
  | notPath => "Input is not a valid path for <class 'pathlib.Path'>"
  | notLanguage => "Input should be 'typescript', 'python', 'dotnet' or 'java'"
  | notOutcome => "Input should be 'ok' or 'failed'"
  | missing => "Field required"
  | notBool => "Input should be a valid boolean"
  | unreadableBool => "Input should be a valid boolean, unable to interpret input"
  | notInt => "Input should be a valid integer"
  | unreadableInt => "Input should be a valid integer, unable to parse string as an integer"
  | hugeInt => "Unable to parse input string as an integer, exceeded maximum size"
  | fractional => "Input should be a valid integer, got a number with a fractional part"
  | notFinite => "Input should be a finite number"
  | notRecord record => "Input should be a valid dictionary or instance of " ++ record

end IssueKind

/-- Something wrong at a place inside data. -/
structure Issue where
  place : List Place
  kind : IssueKind
  deriving DecidableEq, Repr

/-- The issue as seen from one step further out. -/
def Issue.under (step : Place) (i : Issue) : Issue :=
  { i with place := step :: i.place }

/-- The lines about an issue in an error message. -/
def Issue.lines (i : Issue) : List String :=
  (if i.place.isEmpty then [] else [String.intercalate "." (i.place.map Place.text)]) ++
    ["  " ++ i.kind.message ++ " [type=" ++ i.kind.code ++ "]"]

/-- The error message about all issues of a record. -/
def Issue.report (record : String) (issues : List Issue) : String :=
  let plural := if issues.length = 1 then "" else "s"
  String.intercalate "\n"
    ((toString issues.length ++ " validation error" ++ plural ++ " for " ++ record) ::
      issues.flatMap Issue.lines)

/-- A value read from data, or all that is wrong with it. -/
inductive Checked (α : Type) where
  | good (value : α)
  | bad (issues : List Issue)

namespace Checked

/-- Both issues of the function and issues of the argument are kept. -/
protected def seq (f : Checked (α → β)) (x : Unit → Checked α) : Checked β :=
  match f, x () with
  | good f, good a => good (f a)
  | good _, bad issues => bad issues
  | bad issues, good _ => bad issues
  | bad issues, bad more => bad (issues ++ more)

instance : Applicative Checked where
  pure := good
  seq := Checked.seq

/-- The reading as seen from one step further out. -/
def under (step : Place) : Checked α → Checked α
  | good a => good a
  | bad issues => bad (issues.map (Issue.under step))

/-- A single issue with the value itself. -/
def issue (kind : IssueKind) : Checked α :=
  bad [⟨[], kind⟩]

/-- All readings of a list, or all their issues. -/
def all : List (Checked α) → Checked (List α)
  | [] => good []
  | x :: xs => (· :: ·) <$> x <*> all xs

end Checked

namespace Data

/-- Read a text. -/
def asText : Data → Checked String
  | .str s => .good s
  | .bytes values =>
    match String.fromUTF8? ⟨values.toArray⟩ with
    | some s => .good s
    | none => .issue .notUnicode
  | _ => .issue .notText

/-- Read a list with a reader for its items. -/
def asList (item : Data → Checked α) : Data → Checked (List α)
  | .list items => go items
  | .set items => go items
  | _ => .issue .notList
where
  go (items : List Data) : Checked (List α) :=
    .all ((items.zipIdx).map fun (value, i) => (item value).under (.index i))

/-- Read a dictionary with a reader for its values. -/
def asDictionary (value : Data → Checked α) : Data → Checked (List (String × α))
  | .dict fields =>
    .all (fields.map fun (name, v) => ((name, ·) <$> value v).under (.field name))
  | _ => .issue .notDictionary

/-- Read a value that may be null. -/
def asOptional (value : Data → Checked α) : Data → Checked (Option α)
  | .null => .good none
  | v => some <$> value v

/-- The words for true. -/
def trueWords : List String := ["1", "on", "t", "true", "y", "yes"]

/-- The words for false. -/
def falseWords : List String := ["0", "off", "f", "false", "n", "no"]

/-- The first number that does not fit into a signed word of 64 bits. -/
def wordLimit : Int := 9223372036854775808

/-- The truth value that an integer stands for: one or zero. Other integers are unreadable, unless they
fit into no word. -/
def boolOfInt (n : Int) : Checked Bool :=
  if n = 1 then .good true
  else if n = 0 then .good false
  else if -wordLimit ≤ n && n < wordLimit then .issue .unreadableBool
  else .issue .notBool

/-- The integer that a number with a fraction stands for: it must be one, and be less than the limit of
words on either side of zero. -/
def intOfDouble (x : Double) : Checked Int :=
  match x, x.toInt? with
  | .finite _ _, some n => if -wordLimit < n && n < wordLimit then .good n else .issue .hugeInt
  | .finite _ _, none => .issue .fractional
  | _, _ => .issue .notFinite

/-- Read a truth value. -/
def asBool : Data → Checked Bool
  | .bool b => .good b
  | .int n => boolOfInt n
  | .float x =>
    match intOfDouble x with
    | .good n => boolOfInt n
    | .bad _ => .issue .notBool
  | .str s =>
    let word := Text.lower s
    if trueWords.contains word then .good true
    else if falseWords.contains word then .good false
    else .issue .unreadableBool
  | _ => .issue .notBool

/-! ## Integers in texts -/

/-- A blank around an integer: white space, but for the information separators of ASCII. -/
def isIntegerBlank (c : Char) : Bool :=
  Text.isBlank c && !(0x1C ≤ c.toNat && c.toNat ≤ 0x1F)

/-- A character that starts an integer: a digit other than zero, or a minus sign. -/
def startsInteger (c : Char) : Bool :=
  ('1' ≤ c && c ≤ '9') || c == '-'

/-- Digits without the zeros and underscores that come after a first zero. The last of them stays where
no other digit follows. -/
def dropZeros : List Char → Option (List Char)
  | [] => none
  | c :: rest => if c == '0' then go c rest else if startsInteger c then some (c :: rest) else none
where
  /-- The rest after a zero or an underscore. -/
  go (last : Char) : List Char → Option (List Char)
    | [] => some [last]
    | c :: rest =>
      if c == '0' || c == '_' then go c rest
      else if startsInteger c then some (c :: rest)
      else if c == '.' then some (last :: c :: rest)
      else none

/-- An integer without a fraction of zeros. -/
def dropZeroFraction (cs : List Char) : List Char :=
  match Text.cutFirst '.' cs with
  | (whole, some fraction) => if !fraction.isEmpty && fraction.all (· == '0') then whole else cs
  | _ => cs

/-- An integer without underscores, if each of them stands between two other characters. -/
def dropUnderscores (cs : List Char) : List Char :=
  if (Text.splitChars '_' cs).all (!·.isEmpty) then cs.filter (· != '_') else cs

/-- An integer in its plain form: without blanks around, a plus sign before a digit, zeros in front, a
fraction of zeros, and underscores. -/
def plainInteger (cs : List Char) : Option (List Char) :=
  let cs := Text.trimChars isIntegerBlank cs
  let cs := match cs with
    | '+' :: c :: rest => if Text.isDigit c then c :: rest else cs
    | _ => cs
  (dropZeros cs).map fun cs => dropUnderscores (dropZeroFraction cs)

/-- How many characters an integer may have in its plain form. -/
def integerLimit : Nat := 4300

/-- The integer that a text spells. -/
def intOfText (s : String) : Checked Int :=
  match plainInteger s.toList with
  | none => .issue .unreadableInt
  | some cs =>
    let negative := cs.head? == some '-'
    let digits := if negative then cs.drop 1 else cs
    let size := cs.length - digits.length + (digits.takeWhile Text.isDigit).length
    if digits.head? == some '0' && digits.length > 1 then .issue .unreadableInt
    else if size > integerLimit then .issue .hugeInt
    else if digits.isEmpty || !digits.all Text.isDigit then .issue .unreadableInt
    else
      let n : Int := Text.numberOf 10 digits
      .good (if negative then -n else n)

/-- Read an integer. -/
def asInt : Data → Checked Int
  | .bool b => .good (if b then 1 else 0)
  | .int n => .good n
  | .float x => intOfDouble x
  | .str s => intOfText s
  | _ => .issue .notInt

/-- The value of a field; of several under one name the last counts. -/
def field? (name : String) (fields : List (String × Data)) : Option Data :=
  (fields.reverse.find? fun entry => entry.1 == name).map (·.2)

/-- Read a field that has to be there. -/
def required (name : String) (value : Data → Checked α) (fields : List (String × Data)) :
    Checked α :=
  (match field? name fields with
    | some v => value v
    | none => .issue .missing).under (.field name)

/-- Read a field that may be left out. -/
def optional (name : String) (default : α) (value : Data → Checked α)
    (fields : List (String × Data)) : Checked α :=
  (match field? name fields with
    | some v => value v
    | none => .good default).under (.field name)

end Data

end ProviderBindings
