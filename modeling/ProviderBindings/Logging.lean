import ProviderBindings.Host

/-!
# Logging

Logging is set up once for a command: a console handler, and a file handler if the user names a file.

The console's level is told, in this order, by a flag for debugging, one for more output, one for less,
the environment, and else it is that of warnings. A name that is no level counts as that too.
-/

namespace ProviderBindings

/-- The level with a name. -/
def LogLevel.ofName? (name : String) : Option LogLevel :=
  [("CRITICAL", critical), ("FATAL", critical), ("ERROR", error), ("WARNING", warning),
   ("WARN", warning), ("INFO", info), ("DEBUG", debug), ("NOTSET", notset)].lookup (Text.upper name)

/-- The number of the level with a name; of a name that is no level, the number for warnings. -/
def LogLevel.numberOf (name : String) : Int :=
  ((ofName? name).getD warning).number

/-- Where log records go and which ones. -/
structure LogSettings where
  /-- The name of the console's level. -/
  level : String := "WARNING"
  /-- The log file, if there is to be one. -/
  file : Option Path := none
  /-- The name of the file's level, if it has one of its own. -/
  fileLevel : Option String := none
  deriving DecidableEq, Repr

/-- What the flags of the command line say about logging. -/
structure LogFlags where
  debug : Bool := false
  verbose : Bool := false
  quiet : Bool := false
  deriving DecidableEq, Repr

namespace LogSettings

/-- The settings that flags and environment variables make. -/
def ofFlags (flags : LogFlags) (environment : List (String × String)) : LogSettings :=
  let setting (name : String) : Option String :=
    (Assoc.get? name environment).filter fun value => !value.isEmpty
  { level :=
      if flags.debug then "DEBUG"
      else if flags.verbose then "INFO"
      else if flags.quiet then "ERROR"
      else (setting "BINDGEN_LOG_LEVEL").getD "WARNING"
    file := (setting "BINDGEN_LOG_FILE").map Path.ofString
    fileLevel := setting "BINDGEN_LOG_FILE_LEVEL" }

/-- Read settings from data. -/
def ofData : Data → Checked LogSettings
  | .dict fields =>
    (fun level file fileLevel => { level, file, fileLevel }) <$>
      Data.optional "level" "WARNING" Data.asText fields <*>
      Data.optional "file" none (Data.asOptional fun
        | .str s => .good (Path.ofString s)
        | _ => .issue .notPath) fields <*>
      Data.optional "file_level" none (Data.asOptional Data.asText) fields
  | _ => .issue (.notRecord "LogSettings")

variable (s : LogSettings)

/-- The threshold of the console. -/
def consoleLevel : Int :=
  LogLevel.numberOf s.level

/-- The threshold of the log file: its own, or that of the console. -/
def fileLogLevel : Int :=
  match s.fileLevel.filter (!·.isEmpty) with
  | some name => LogLevel.numberOf name
  | none => s.consoleLevel

end LogSettings

namespace LogSetup

/-- The handlers for settings: the console, and the file if one is named. -/
def handlersFor (settings : LogSettings) (file : Option Path) : List LogHandler :=
  { file := none, level := settings.consoleLevel
    format := .ofConsoleLevel settings.consoleLevel } ::
  file.toList.map fun path =>
    { file := some path, level := settings.fileLogLevel, format := .detailed true }

/-- The path of a log file from the root, as it is spelled. -/
def absolutePath (fs : FileSystem) (file : Path) : Path :=
  ⟨if file.anchor = .doubleRoot then .doubleRoot else .root, fs.spelled file⟩

/-- Set logging up and give the handlers. The log file is opened first, made with the directories it lacks,
so that nothing has changed if that cannot be done. -/
def install (settings : LogSettings) : HostAction (List LogHandler) := do
  let file ← match settings.file with
    | none => pure none
    | some file =>
      Host.withFiles (FileSystem.makeDirectories file.parent)
      if !file.isAbsolute then
        let _ ← Host.workingDirectory
      let path := absolutePath (← get).files file
      Host.withFiles (FileSystem.hold path)
      pure (some path)
  let handlers := handlersFor settings file
  modify fun host => { host with logging := ofHandlers handlers }
  pure handlers

end LogSetup

end ProviderBindings
