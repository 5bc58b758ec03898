import ProviderBindings.Notice
import ProviderBindings.Path
import ProviderBindings.Text.Quoted

/-!
# Log handlers

Log records go to handlers: the console, and perhaps a file. Each handler has a threshold of its own and
a format, and a threshold in front of all of them lets through what any of them wants.
-/

namespace ProviderBindings

/-- The name of a level's number. -/
def LogLevel.label (number : Int) : String :=
  match [notset, debug, info, warning, error, critical].find? (·.number == number) with
  | some notset => "NOTSET"
  | some debug => "DEBUG"
  | some info => "INFO"
  | some warning => "WARNING"
  | some error => "ERROR"
  | some critical => "CRITICAL"
  | none => s!"Level {number}"

/-- How a log record is written. -/
inductive LogFormat where
  /-- The message alone. -/
  | minimal
  /-- Time of day, logger and message. -/
  | verbose
  /-- Time, level, logger, place and message; the time with or without the date. -/
  | detailed (dated : Bool)
  deriving DecidableEq, Repr

/-- The present time, as log records show it. -/
structure Clock where
  /-- The time of day. -/
  time : String
  /-- The date with the time of day. -/
  dateTime : String

namespace Clock

/-- A number written with at least the given count of digits. -/
def digits (width n : Nat) : String :=
  let text := toString n
  String.ofList (List.replicate (width - text.length) '0') ++ text

/-- The clock that stands at a date and a time of day. -/
def standingAt (year month day hour minute second millisecond : Nat) : Clock :=
  let time := digits 2 hour ++ ":" ++ digits 2 minute ++ ":" ++ digits 2 second
  { time
    dateTime := digits 4 year ++ "-" ++ digits 2 month ++ "-" ++ digits 2 day ++ " " ++ time ++ "," ++
      digits 3 millisecond }

end Clock

namespace LogFormat

/-- The pattern of a format. -/
def pattern : LogFormat → String
  | minimal => "%(message)s"
  | verbose => "%(asctime)s [%(name)s] %(message)s"
  | detailed _ => "%(asctime)s %(levelname)-5s %(name)s:%(lineno)d — %(message)s"

/-- The pattern for times in a format, if it is not the usual one. -/
def timePattern : LogFormat → Option String
  | minimal => none
  | verbose => some "%H:%M:%S"
  | detailed dated => if dated then none else some "%H:%M:%S"

/-- The text of a record, with the line end after it. -/
def write (clock : Clock) (r : LogRecord) : LogFormat → String
  | minimal => r.message ++ "\n"
  | verbose => clock.time ++ " [" ++ r.logger ++ "] " ++ r.message ++ "\n"
  | detailed dated =>
    (if dated then clock.dateTime else clock.time) ++ " " ++
      Text.padRight 5 (LogLevel.label r.level) ++ " " ++ r.logger ++ ":" ++ toString r.line ++
      " — " ++ r.message ++ "\n"

/-- The format of the console, which tells the more the lower its threshold is. -/
def ofConsoleLevel (level : Int) : LogFormat :=
  if level ≤ LogLevel.debug.number then .detailed false
  else if level ≤ LogLevel.info.number then .verbose
  else .minimal

end LogFormat

/-- A place that log records go to. -/
structure LogHandler where
  /-- The file it writes to; without one it writes to the console. -/
  file : Option Path
  /-- The least level it writes. -/
  level : Int
  format : LogFormat
  deriving DecidableEq, Repr

namespace LogHandler

/-- What the handler writes of a list of records. -/
def output (clock : Clock) (records : List LogRecord) (h : LogHandler) : String :=
  String.join ((records.filter fun r => h.level ≤ r.level).map fun r => h.format.write clock r)

end LogHandler

/-- The handlers in use, and the threshold in front of them. -/
structure LogSetup where
  handlers : List LogHandler
  rootLevel : Int
  deriving DecidableEq, Repr

namespace LogSetup

/-- Whether a record of a level gets past the threshold in front of the handlers. -/
def isEnabled (s : LogSetup) (level : Int) : Bool :=
  0 < level && s.rootLevel ≤ level

/-- The records that get past the threshold. -/
def enabled (s : LogSetup) (records : List LogRecord) : List LogRecord :=
  records.filter fun r => s.isEnabled r.level

/-- What goes to the console of a list of records. Halves of surrogate pairs are shown by their
numbers. -/
def console (s : LogSetup) (clock : Clock) (records : List LogRecord) : String :=
  Text.showHalves <|
    String.join ((s.handlers.filter (·.file.isNone)).map (·.output clock (s.enabled records)))

/-- What goes to the log file of a record. A record with a half of a surrogate pair cannot be written. -/
def fileText (s : LogSetup) (clock : Clock) (r : LogRecord) : String :=
  if Text.hasHalf r.message then ""
  else String.join ((s.handlers.filter (·.file.isSome)).map (·.output clock (s.enabled [r])))

/-- The setup of handlers: the threshold in front of them is the least of theirs. -/
def ofHandlers (handlers : List LogHandler) : LogSetup :=
  ⟨handlers, ((handlers.map (·.level)).min?).getD 0⟩

end LogSetup

end ProviderBindings
