import ProviderBindings.Logging
import ProviderBindings.Proofs.FileSystem.Making

/-!
# Thresholds of the log

A record that is logged passes a threshold in front of all handlers, and then the one of each. `LogLevel.Means` says which
threshold a text means, `LogFlags.AskFor` and `FileAsksFor` which ones flags and environment variables ask for, and
`LogHandler.wants` which records a handler is there for. The threshold in front is the least of the handlers', so that it
keeps nothing from a handler that the handler wants (`LogSetup.output_enabled`). What has no level passes nowhere.

`LogSetup.install_outcome` says what setting logging up comes to: `LogSetup.SetUpBy`, which follows the records to the
console and into the file, or a failure that leaves logging as it was. The file is held open at one place
(`Host.HoldsLog`), where a record that is left adds its line or nothing, so that what a whole log adds is by induction on
its records (`Host.HoldsLog.run_forM_leave`).
-/

namespace ProviderBindings

/-! ## Levels by name -/

namespace LogLevel

/-- What a level is called, in capitals. -/
def names : LogLevel → List String
  | notset => ["NOTSET"]
  | debug => ["DEBUG"]
  | info => ["INFO"]
  | warning => ["WARNING", "WARN"]
  | error => ["ERROR"]
  | critical => ["CRITICAL", "FATAL"]

/-- The threshold that a text means: the number of the level it names in whatever case, and of a text that names none the
number for warnings. -/
inductive Means (text : String) : Int → Prop
  | named {level : LogLevel} (hname : Text.upper text ∈ level.names) : Means text level.number
  | unknown (hname : ∀ level : LogLevel, Text.upper text ∉ level.names) : Means text warning.number

/-- A text is found to be a level's exactly when it names it. -/
theorem ofName?_eq_some_iff {text : String} {level : LogLevel} :
    ofName? text = some level ↔ Text.upper text ∈ level.names := by
  unfold ofName?
  generalize Text.upper text = name
  constructor
  · intro h
    obtain ⟨before, after, htable, -⟩ := List.lookup_eq_some_iff.1 h
    have hmem : (name, level) ∈ before ++ (name, level) :: after := by simp
    rw [← htable] at hmem
    simp only [List.mem_cons, Prod.mk.injEq, List.not_mem_nil, or_false] at hmem
    rcases hmem with ⟨rfl, rfl⟩ | ⟨rfl, rfl⟩ | ⟨rfl, rfl⟩ | ⟨rfl, rfl⟩ | ⟨rfl, rfl⟩ | ⟨rfl, rfl⟩ | ⟨rfl, rfl⟩ |
      ⟨rfl, rfl⟩ <;> decide
  · intro h
    cases level <;> simp only [names, List.mem_cons, List.not_mem_nil, or_false] at h
    case warning => rcases h with rfl | rfl <;> rfl
    case critical => rcases h with rfl | rfl <;> rfl
    all_goals
      subst h
      rfl

/-- Every text means the threshold that is read from it. -/
theorem means_numberOf (text : String) : Means text (numberOf text) := by
  unfold numberOf
  cases hname : ofName? text with
  | some level => exact .named (ofName?_eq_some_iff.1 hname)
  | none =>
    refine .unknown fun level hmem => ?_
    rw [ofName?_eq_some_iff.2 hmem] at hname
    cases hname

/-- A text means one threshold only. -/
theorem Means.eq_numberOf {text : String} {n : Int} (h : Means text n) : n = numberOf text := by
  unfold numberOf
  cases h with
  | named hname => rw [ofName?_eq_some_iff.2 hname, Option.getD_some]
  | unknown hname =>
    cases hfound : ofName? text with
    | some level => exact absurd (ofName?_eq_some_iff.1 hfound) (hname level)
    | none => rfl

/-- A text that names a level means the number of that. -/
theorem numberOf_eq {text : String} {level : LogLevel} (h : Text.upper text ∈ level.names) :
    numberOf text = level.number :=
  (Means.named h).eq_numberOf.symm

/-- Names may be written in any case, and with a letter whose capital is one of ASCII. -/
example : numberOf "Warnıng" = 30 := by decide +kernel

/-- Levels have numbers from zero on. -/
theorem number_nonneg (level : LogLevel) : 0 ≤ level.number := by
  cases level <;> decide

/-- No threshold is below zero. -/
theorem numberOf_nonneg (text : String) : 0 ≤ numberOf text :=
  number_nonneg _

end LogLevel

/-! ## What is asked for -/

/-- The threshold of the console that flags and environment variables ask for. -/
inductive LogFlags.AskFor (flags : LogFlags) (environment : List (String × String)) : Int → Prop
  | debug (hflag : flags.debug = true) : AskFor flags environment LogLevel.debug.number
  | verbose (hdebug : flags.debug = false) (hflag : flags.verbose = true) :
      AskFor flags environment LogLevel.info.number
  | quiet (hdebug : flags.debug = false) (hverbose : flags.verbose = false) (hflag : flags.quiet = true) :
      AskFor flags environment LogLevel.error.number
  | environment {text : String} {n : Int} (hflags : flags = {})
      (htext : Assoc.get? "BINDGEN_LOG_LEVEL" environment = some text) (hmeans : LogLevel.Means text n) :
      AskFor flags environment n
  | nothing (hflags : flags = {}) (htext : Assoc.get? "BINDGEN_LOG_LEVEL" environment = none) :
      AskFor flags environment LogLevel.warning.number

/-- The threshold of the log file that environment variables ask for, beside that of the console. -/
inductive FileAsksFor (environment : List (String × String)) (console : Int) : Int → Prop
  | own {text : String} {n : Int} (htext : Assoc.get? "BINDGEN_LOG_FILE_LEVEL" environment = some text)
      (hne : text ≠ "") (hmeans : LogLevel.Means text n) : FileAsksFor environment console n
  | console (htext : ∀ text, Assoc.get? "BINDGEN_LOG_FILE_LEVEL" environment = some text → text = "") :
      FileAsksFor environment console console

/-- Whether environment variables name a path for the log file. -/
def NamesLogFile (environment : List (String × String)) (file : Path) : Prop :=
  ∃ text, Assoc.get? "BINDGEN_LOG_FILE" environment = some text ∧ text ≠ "" ∧ file = .ofString text

namespace LogSettings

variable (flags : LogFlags) (environment : List (String × String))

/-- A text counts where it is not empty. -/
theorem filter_text (text : String) :
    (some text).filter (fun value : String => !value.isEmpty) = if text = "" then none else some text := by
  by_cases hempty : text = "" <;> simp [Option.filter, hempty]

/-- The threshold of the console is the one that is asked for. -/
theorem askFor_consoleLevel : flags.AskFor environment (ofFlags flags environment).consoleLevel := by
  obtain ⟨debug, verbose, quiet⟩ := flags
  cases debug with
  | true =>
    have hlevel : LogLevel.numberOf "DEBUG" = LogLevel.debug.number := LogLevel.numberOf_eq (by decide)
    show LogFlags.AskFor _ _ (LogLevel.numberOf "DEBUG")
    exact hlevel ▸ .debug rfl
  | false =>
    cases verbose with
    | true =>
      have hlevel : LogLevel.numberOf "INFO" = LogLevel.info.number := LogLevel.numberOf_eq (by decide)
      show LogFlags.AskFor _ _ (LogLevel.numberOf "INFO")
      exact hlevel ▸ .verbose rfl rfl
    | false =>
      cases quiet with
      | true =>
        have hlevel : LogLevel.numberOf "ERROR" = LogLevel.error.number := LogLevel.numberOf_eq (by decide)
        show LogFlags.AskFor _ _ (LogLevel.numberOf "ERROR")
        exact hlevel ▸ .quiet rfl rfl rfl
      | false =>
        show LogFlags.AskFor _ _ (LogLevel.numberOf (((Assoc.get? "BINDGEN_LOG_LEVEL" environment).filter
          fun value : String => !value.isEmpty).getD "WARNING"))
        have hwarning : LogLevel.numberOf "WARNING" = LogLevel.warning.number := LogLevel.numberOf_eq (by decide)
        cases htext : Assoc.get? "BINDGEN_LOG_LEVEL" environment with
        | none => exact hwarning ▸ .nothing rfl htext
        | some text =>
          refine .environment rfl htext ?_
          rw [filter_text]
          split
          · next hempty =>
            -- an empty text is passed over, and it would mean the same
            subst hempty
            rw [Option.getD_none, hwarning]
            exact .unknown fun level => by cases level <;> decide
          · exact LogLevel.means_numberOf text

/-- The threshold of the log file is what its text means, where one counts, or that of the console. -/
theorem fileLogLevel_eq (settings : LogSettings) : settings.fileLogLevel =
    ((settings.fileLevel.filter fun value : String => !value.isEmpty).map LogLevel.numberOf).getD
      settings.consoleLevel := by
  unfold fileLogLevel
  split
  · next name hname => rw [hname, Option.map_some, Option.getD_some]
  · next hnone => rw [hnone, Option.map_none, Option.getD_none]

/-- The threshold of the log file is the one that is asked for. -/
theorem fileAsksFor_fileLogLevel :
    FileAsksFor environment (ofFlags flags environment).consoleLevel (ofFlags flags environment).fileLogLevel := by
  have hlevel : (ofFlags flags environment).fileLevel =
      (Assoc.get? "BINDGEN_LOG_FILE_LEVEL" environment).filter fun value : String => !value.isEmpty := rfl
  rw [fileLogLevel_eq, hlevel]
  generalize (ofFlags flags environment).consoleLevel = console
  cases htext : Assoc.get? "BINDGEN_LOG_FILE_LEVEL" environment with
  | none =>
    rw [Option.filter_none, Option.filter_none, Option.map_none, Option.getD_none]
    exact .console fun text h => by rw [htext] at h; cases h
  | some text =>
    rw [filter_text]
    by_cases hempty : text = ""
    · rw [if_pos hempty, Option.filter_none, Option.map_none, Option.getD_none]
      exact .console fun other h => by rw [htext] at h; cases h; exact hempty
    · -- the text is looked at twice, when it is read and when it is used
      rw [if_neg hempty, filter_text, if_neg hempty, Option.map_some, Option.getD_some]
      exact .own htext hempty (LogLevel.means_numberOf text)

/-- The log file is the one that is named. -/
theorem file_ofFlags_iff {file : Path} : (ofFlags flags environment).file = some file ↔ NamesLogFile environment file := by
  show (((Assoc.get? "BINDGEN_LOG_FILE" environment).filter fun value : String => !value.isEmpty).map Path.ofString) =
    some file ↔ _
  unfold NamesLogFile
  simp only [Option.map_eq_some_iff, Option.filter_eq_some_iff, and_assoc, eq_comm (a := file), Bool.not_eq_true',
    String.isEmpty_eq_false_iff]

end LogSettings

/-! ## What a handler writes -/

namespace LogHandler

/-- Whether a handler is there for a record, which is as grave as its threshold says. What has no level is for none. -/
def wants (h : LogHandler) (r : LogRecord) : Bool :=
  h.level ≤ r.level && r.level != 0

/-- What a handler writes for the records that it wants, in their order. -/
def linesOf (clock : Clock) (records : List LogRecord) (h : LogHandler) : List String :=
  (records.filter h.wants).map (h.format.write clock)

end LogHandler

/-- No record is written as nothing. -/
theorem LogFormat.write_ne_empty (clock : Clock) (r : LogRecord) (f : LogFormat) : f.write clock r ≠ "" := by
  cases f <;> simp [write, String.append_eq_empty_iff]

namespace LogSetup

/-- Whether a record that is logged is written by a handler in use. -/
def Emits (s : LogSetup) (h : LogHandler) (r : LogRecord) : Prop :=
  h ∈ s.handlers ∧ ∀ clock, h.output clock (s.enabled [r]) = h.format.write clock r

variable {handlers : List LogHandler} {h : LogHandler}

/-- The threshold in front of the handlers is no higher than that of any of them. -/
theorem rootLevel_le (hmem : h ∈ handlers) : (ofHandlers handlers).rootLevel ≤ h.level := by
  have hlevel : h.level ∈ handlers.map (·.level) := List.mem_map_of_mem hmem
  show ((handlers.map (·.level)).min?).getD 0 ≤ h.level
  cases hmin : (handlers.map (·.level)).min? with
  | none => rw [List.min?_eq_none_iff.1 hmin] at hlevel; cases hlevel
  | some least => exact (List.min?_eq_some_iff.1 hmin).2 _ hlevel

/-- A handler whose threshold is not below zero gets every record that it wants past the threshold in front. -/
theorem wants_eq (hmem : h ∈ handlers) (hlevel : 0 ≤ h.level) (r : LogRecord) :
    (decide (h.level ≤ r.level) && (ofHandlers handlers).isEnabled r.level) = h.wants r := by
  have hroot := rootLevel_le hmem
  rw [Bool.eq_iff_iff]
  simp only [isEnabled, LogHandler.wants, Bool.and_eq_true, decide_eq_true_eq, bne_iff_ne]
  omega

/-- What a handler writes of logged records are the records it wants. -/
theorem output_enabled (hmem : h ∈ handlers) (hlevel : 0 ≤ h.level) (clock : Clock) (records : List LogRecord) :
    h.output clock ((ofHandlers handlers).enabled records) = String.join (h.linesOf clock records) := by
  unfold LogHandler.output LogHandler.linesOf enabled
  rw [List.filter_filter]
  exact congrArg (fun p => String.join ((records.filter p).map _)) (funext fun r => wants_eq hmem hlevel r)

/-- A handler in use writes a record exactly when it wants it. -/
theorem emits_iff (hmem : h ∈ handlers) (hlevel : 0 ≤ h.level) (r : LogRecord) :
    (ofHandlers handlers).Emits h r ↔ h.level ≤ r.level ∧ r.level ≠ 0 := by
  have hwants : h.wants r = true ↔ h.level ≤ r.level ∧ r.level ≠ 0 := by simp [LogHandler.wants]
  have hone (clock : Clock) : h.output clock ((ofHandlers handlers).enabled [r]) =
      if h.wants r then h.format.write clock r else "" := by
    rw [output_enabled hmem hlevel, LogHandler.linesOf]
    by_cases hr : h.wants r = true <;> simp [hr]
  rw [← hwants]
  constructor
  · rintro ⟨-, hall⟩
    have hnow := hall (.standingAt 1970 1 1 0 0 0 0)
    rw [hone] at hnow
    by_contra hr
    rw [if_neg hr] at hnow
    exact LogFormat.write_ne_empty _ r h.format hnow.symm
  · intro hr
    refine ⟨hmem, fun clock => ?_⟩
    rw [hone, if_pos hr]

end LogSetup

/-! ## Setting logging up -/

/-- A file that has been opened is held, and it stands where its path leads. -/
theorem FileSystem.run_hold_ok {p : Path} {fs t : FileSystem} (h : (hold p).run fs = (.ok (), t)) :
    ∃ place content executable, fs.locate .write p = .ok place ∧ t.held = some place ∧
      t.get? place = some (.file content executable) := by
  unfold hold at h
  obtain ⟨place, fs', hplace, hrest⟩ := exists_of_run_bind_ok h
  obtain ⟨-, hlocate, rfl⟩ := run_locateM_ok_iff.1 hplace
  rw [run_bind, run_get] at hrest
  dsimp only at hrest
  split at hrest
  · cases hrest
  · next content executable hfile =>
    cases hrest
    exact ⟨place, content, executable, hlocate, rfl, hfile⟩
  · next hdirectory _ =>
    cases hrest
    refine ⟨place, .text "", false, hlocate, rfl, ?_⟩
    show (fs'.put place _).get? place = _
    rw [get?_put _ _ (not_isNameless_of_get?_ne hdirectory), if_pos rfl]

/-- Work that starts at the working directory is not begun where that is gone. -/
theorem Host.run_fromWorkingDirectory (relative : Bool) {α : Type} (work : HostAction α) (host : Host) :
    (if relative = true then (do let _ ← workingDirectory; work) else work).run host = work.run host ∨
      ∃ failure, (if relative = true then (do let _ ← workingDirectory; work) else work).run host =
        (.error failure, host) := by
  cases relative with
  | false => exact .inl rfl
  | true =>
    rw [if_pos rfl, run_bind, run_workingDirectory]
    by_cases hgone : FileSystem.isGone host.files.workingDirectory = true
    · rw [if_pos hgone]
      exact .inr ⟨_, rfl⟩
    · rw [if_neg hgone]
      exact .inl rfl

namespace LogSetup

/-- Setting logging up puts the handlers for the settings into use, or it fails at the log file, and then nothing but
files has changed. -/
theorem run_install_cases (settings : LogSettings) (host : Host) :
    (∃ file files, (install settings).run host =
        (.ok (handlersFor settings file), { host with files, logging := ofHandlers (handlersFor settings file) }) ∧
      (file.isSome ↔ settings.file.isSome) ∧
      ∀ path ∈ file, ∃ named before, settings.file = some named ∧ path = absolutePath before named ∧
        (FileSystem.hold path).run before = (.ok (), files)) ∨
    ∃ failure files, (install settings).run host = (.error failure, { host with files }) ∧ settings.file.isSome := by
  unfold install
  cases hfile : settings.file with
  | none => exact .inl ⟨none, host.files, rfl, by simp, by simp⟩
  | some file =>
    dsimp only
    rw [run_bind, run_withFiles]
    rcases (FileSystem.makeDirectories file.parent).run host.files with ⟨failure | _, made⟩
    · exact .inr ⟨_, made, rfl, rfl⟩
    dsimp only [Except.mapError]
    rcases Host.run_fromWorkingDirectory (!file.isAbsolute) _ { host with files := made } with hstart | ⟨failure, hstart⟩
    · rw [hstart, run_bind, run_get]
      dsimp only
      rw [run_bind, run_withFiles]
      dsimp only
      rcases hopen : (FileSystem.hold (absolutePath made file)).run made with ⟨failure | _, opened⟩
      · exact .inr ⟨_, opened, rfl, rfl⟩
      · refine .inl ⟨some (absolutePath made file), opened, rfl, by simp, fun path hpath => ?_⟩
        obtain rfl := Option.mem_some.1 hpath
        exact ⟨file, made, rfl, rfl, hopen⟩
    · rw [hstart]
      exact .inr ⟨failure, made, rfl, rfl⟩

end LogSetup

/-! ## Records in the log file -/

/-- A file to which nothing is added stays as it is. -/
theorem Content.append_empty (content : Content) : content.append "" = content := by
  cases content <;> simp [append]

/-- A file with texts added at its end, one after another. -/
def Content.appendAll (content : Content) (texts : List String) : Content :=
  texts.foldl (fun content text => content.append text) content

namespace Host

/-- Whether a host holds a log file open that stands at a place. -/
structure HoldsLog (host : Host) (place : Location) (content : Content) (executable : Bool) : Prop where
  /-- The file at the place is held open. -/
  held : host.files.held = some place
  /-- It has this content. -/
  file : host.files.get? place = some (.file content executable)

variable {host : Host} {place : Location} {content : Content} {executable : Bool}

/-- A record that is left adds to the log file what is written of it. -/
theorem HoldsLog.run_leave (h : host.HoldsLog place content executable) (r : LogRecord) :
    ∃ host', (leave r).run host = (.ok (), host') ∧ host'.logging = host.logging ∧ host'.clock = host.clock ∧
      host'.HoldsLog place (content.append (host.logging.fileText host.clock r)) executable := by
  refine ⟨_, rfl, rfl, rfl, ⟨(FileSystem.writeHeld_frame _ _).2.trans h.held, ?_⟩⟩
  have hname : ¬FileSystem.isNameless place := FileSystem.not_isNameless_of_get?_ne (by rw [h.file]; simp)
  show (host.files.writeHeld _).get? place = _
  unfold FileSystem.writeHeld
  rw [h.held]
  dsimp only
  rw [h.file]
  dsimp only
  rw [FileSystem.get?_put _ _ hname, if_pos rfl]

/-- Records that are left one after another add to the log file what is written of them. -/
theorem HoldsLog.run_forM_leave (h : host.HoldsLog place content executable) (records : List LogRecord) :
    ∃ host', (forM records leave).run host = (.ok (), host') ∧ host'.logging = host.logging ∧
      host'.HoldsLog place (content.appendAll (records.map (host.logging.fileText host.clock))) executable := by
  induction records generalizing host content with
  | nil => exact ⟨host, rfl, rfl, h⟩
  | cons r records ih =>
    obtain ⟨next, hleave, hlogging, hclock, hnext⟩ := h.run_leave r
    obtain ⟨last, hrest, hlast, hall⟩ := ih hnext
    refine ⟨last, ?_, hlast.trans hlogging, ?_⟩
    · rw [List.forM_cons, run_bind_of_ok hleave]
      exact hrest
    · rwa [hlogging, hclock] at hall

end Host

namespace LogSetup

/-- What is written of a record to the log file is its line, if the handler for the file wants it and it can be encoded. -/
theorem fileText_eq {console file : LogHandler} (hconsole : console.file = none) (hfile : file.file.isSome = true)
    (hlevel : 0 ≤ file.level) (clock : Clock) (r : LogRecord) :
    (ofHandlers [console, file]).fileText clock r =
      if file.wants r && !Text.hasHalf r.message then file.format.write clock r else "" := by
  have hfiles : [console, file].filter (fun h : LogHandler => h.file.isSome) = [file] := by simp [hconsole, hfile]
  unfold fileText
  show (if _ then "" else String.join (([console, file].filter fun h : LogHandler => h.file.isSome).map _)) = _
  rw [hfiles, List.map_singleton, output_enabled (by simp) hlevel, LogHandler.linesOf]
  cases Text.hasHalf r.message <;> cases hwants : file.wants r <;> simp [hwants]

/-- The records that are written to a log file add a line each, and the others add nothing. -/
theorem appendAll_fileText (console file : LogHandler) (hconsole : console.file = none)
    (hfile : file.file.isSome = true) (hlevel : 0 ≤ file.level) (clock : Clock) (records : List LogRecord) (content : Content) :
    content.appendAll (records.map ((ofHandlers [console, file]).fileText clock)) =
      content.appendAll (file.linesOf clock (records.filter fun r => !Text.hasHalf r.message)) := by
  induction records generalizing content with
  | nil => rfl
  | cons r records ih =>
    show (content.append _).appendAll _ = _
    rw [ih, fileText_eq hconsole hfile hlevel]
    cases hhalf : Text.hasHalf r.message <;> cases hwants : file.wants r <;>
      simp [LogHandler.linesOf, Content.appendAll, Content.append_empty, hhalf, hwants]

/-- What logging is like that flags and environment variables have set up, with a handler for the console and one for a
file if that is named. -/
structure SetUpBy (flags : LogFlags) (environment : List (String × String)) (console : LogHandler)
    (file : Option LogHandler) (host : Host) : Prop where
  /-- The handlers are these. -/
  handlers : host.logging.handlers = console :: file.toList
  /-- That for the console writes to no file. -/
  console_file : console.file = none
  /-- It has the level that is asked for. -/
  console_level : flags.AskFor environment console.level
  /-- There is one for a file exactly when one is named. -/
  file_isSome : file.isSome = true ↔ ∃ path, NamesLogFile environment path
  /-- It has the level that is asked for, beside that of the console. -/
  file_level : ∀ h ∈ file, FileAsksFor environment console.level h.level
  /-- A record is written by the handlers whose threshold its level reaches, unless it has none. -/
  emits_iff : ∀ h ∈ console :: file.toList, ∀ r : LogRecord,
    host.logging.Emits h r ↔ h.level ≤ r.level ∧ r.level ≠ 0
  /-- The console shows the lines of the records that its handler wants. -/
  shown : ∀ clock records, host.logging.console clock records =
    Text.showHalves (String.join (console.linesOf clock records))
  /-- The file is open, and the lines of the records that its handler wants are added to it, as far as they can be
  encoded. -/
  written : ∀ h ∈ file, ∃ named before place content executable, NamesLogFile environment named ∧
    h.file = some (absolutePath before named) ∧ before.locate .write (absolutePath before named) = .ok place ∧
    host.HoldsLog place content executable ∧
    ∀ records : List LogRecord, ∃ host', (forM records Host.leave).run host = (.ok (), host') ∧
      host'.HoldsLog place
        (content.appendAll (h.linesOf host.clock (records.filter fun r => !Text.hasHalf r.message))) executable

/-- The handler for the console. -/
def consoleHandler (settings : LogSettings) : LogHandler :=
  ⟨none, settings.consoleLevel, .ofConsoleLevel settings.consoleLevel⟩

/-- The handler for a file. -/
def fileHandler (settings : LogSettings) (path : Path) : LogHandler :=
  ⟨some path, settings.fileLogLevel, .detailed true⟩

/-- The handler for the console has the threshold of the console. -/
@[simp]
theorem consoleHandler_level (settings : LogSettings) : (consoleHandler settings).level = settings.consoleLevel := by
  simp only [consoleHandler]

/-- The handler for a file has the threshold of the log file. -/
@[simp]
theorem fileHandler_level (settings : LogSettings) (path : Path) :
    (fileHandler settings path).level = settings.fileLogLevel := rfl

/-- The handlers for settings are that for the console and perhaps that for a file. -/
theorem handlersFor_eq (settings : LogSettings) (path? : Option Path) :
    handlersFor settings path? = consoleHandler settings :: (path?.map (fileHandler settings)).toList := by
  rw [Option.toList_map]
  rfl

/-- No handler has a threshold below zero. -/
theorem level_nonneg {settings : LogSettings} {path? : Option Path} {h : LogHandler}
    (hmem : h ∈ handlersFor settings path?) : 0 ≤ h.level := by
  rw [handlersFor_eq, List.mem_cons, Option.mem_toList, Option.map_eq_some_iff] at hmem
  rcases hmem with rfl | ⟨path, -, rfl⟩
  · rw [consoleHandler_level]
    exact LogLevel.numberOf_nonneg settings.level
  · rw [fileHandler_level]
    unfold LogSettings.fileLogLevel
    split <;> exact LogLevel.numberOf_nonneg _

/-- The console shows what its handler wants, whether or not there is a handler for a file. -/
theorem console_handlersFor (settings : LogSettings) (path? : Option Path) (clock : Clock) (records : List LogRecord) :
    (ofHandlers (handlersFor settings path?)).console clock records =
      Text.showHalves (String.join ((consoleHandler settings).linesOf clock records)) := by
  have honly : (handlersFor settings path?).filter (fun h : LogHandler => h.file.isNone) = [consoleHandler settings] := by
    rw [handlersFor_eq]
    cases path? <;> rfl
  have hmem := (List.mem_filter.1 (honly ▸ List.mem_singleton_self _)).1
  rw [← output_enabled hmem (level_nonneg hmem)]
  unfold LogSetup.console
  show Text.showHalves (String.join (List.map _ (List.filter _ (handlersFor _ path?)))) = _
  rw [honly, List.map_singleton, String.join_cons, String.join_nil, String.append_empty]

/-- Records that are left while the log file is open add the lines that its handler wants, as far as they can be
encoded. -/
theorem run_forM_leave_handlersFor {settings : LogSettings} {path : Path} {host : Host} {place : Location}
    {content : Content} {executable : Bool} (h : host.HoldsLog place content executable)
    (hlogging : host.logging = ofHandlers (handlersFor settings (some path))) (records : List LogRecord) :
    ∃ host', (forM records Host.leave).run host = (.ok (), host') ∧
      host'.HoldsLog place (content.appendAll ((fileHandler settings path).linesOf host.clock
        (records.filter fun r => !Text.hasHalf r.message))) executable := by
  obtain ⟨host', hrun, -, hafter⟩ := h.run_forM_leave records
  have hmem : fileHandler settings path ∈ handlersFor settings (some path) := by
    simp [handlersFor_eq]
  rw [hlogging, handlersFor_eq, Option.map_some, Option.toList_some,
    appendAll_fileText _ _ rfl rfl (level_nonneg hmem)] at hafter
  exact ⟨host', hrun, hafter⟩

/-- Logging is set up as it is asked for, once the handlers for the settings are in use and the file is open. -/
theorem setUpBy_of_opened {flags : LogFlags} {environment : List (String × String)} {path? : Option Path} {host : Host}
    (hnamed : path?.isSome = true ↔ ∃ path, NamesLogFile environment path)
    (hlogging : host.logging = ofHandlers (handlersFor (.ofFlags flags environment) path?))
    (hopened : ∀ path ∈ path?, ∃ named before, NamesLogFile environment named ∧ path = absolutePath before named ∧
      (FileSystem.hold path).run before = (.ok (), host.files)) :
    SetUpBy flags environment (consoleHandler (.ofFlags flags environment))
      (path?.map (fileHandler (.ofFlags flags environment))) host := by
  have hhandlers := handlersFor_eq (.ofFlags flags environment) path?
  constructor
  case handlers => rw [hlogging, ← hhandlers]; rfl
  case console_file => rfl
  case console_level =>
    rw [consoleHandler_level]
    exact LogSettings.askFor_consoleLevel flags environment
  case file_isSome => rwa [Option.isSome_map]
  case file_level =>
    intro h hh
    obtain ⟨path, -, rfl⟩ := Option.map_eq_some_iff.1 hh
    rw [consoleHandler_level, fileHandler_level]
    exact LogSettings.fileAsksFor_fileLogLevel flags environment
  case emits_iff =>
    intro h hh r
    rw [← hhandlers] at hh
    rw [hlogging]
    exact LogSetup.emits_iff hh (level_nonneg hh) r
  case shown =>
    intro clock records
    rw [hlogging]
    exact console_handlersFor _ path? clock records
  case written =>
    intro h hh
    obtain ⟨path, rfl, rfl⟩ := Option.map_eq_some_iff.1 hh
    obtain ⟨named, before, hname, rfl, hopen⟩ := hopened path rfl
    obtain ⟨place, content, executable, hlocate, hheld, hfile⟩ := FileSystem.run_hold_ok hopen
    have hholds : host.HoldsLog place content executable := ⟨hheld, hfile⟩
    exact ⟨named, before, place, content, executable, hname, rfl, hlocate, hholds,
      run_forM_leave_handlersFor hholds hlogging⟩

/-- **How logging is set up.** By flags and environment variables logging is set up with the thresholds that they ask for,
or the log file that they name cannot be made, and then logging is as it was. -/
theorem install_outcome (flags : LogFlags) (environment : List (String × String)) (host : Host) :
    (∃ (console : LogHandler) (file : Option LogHandler) (host' : Host),
      (install (.ofFlags flags environment)).run host = (.ok (console :: file.toList), host') ∧
      SetUpBy flags environment console file host') ∨
    ∃ failure host', (install (.ofFlags flags environment)).run host = (.error failure, host') ∧
      (∃ path, NamesLogFile environment path) ∧ host'.logging = host.logging := by
  have hnamed : (LogSettings.ofFlags flags environment).file.isSome = true ↔ ∃ path, NamesLogFile environment path := by
    simp only [Option.isSome_iff_exists, LogSettings.file_ofFlags_iff]
  rcases run_install_cases (.ofFlags flags environment) host with
    ⟨path?, files, hrun, hsome, hopened⟩ | ⟨failure, files, hrun, hsome⟩
  · let settings := LogSettings.ofFlags flags environment
    refine .inl ⟨consoleHandler settings, path?.map (fileHandler settings),
      { host with files, logging := ofHandlers (handlersFor settings path?) }, ?_,
      setUpBy_of_opened (hsome.trans hnamed) rfl ?_⟩
    · rw [← handlersFor_eq]
      exact hrun
    · intro path hpath
      obtain ⟨named, before, hfile, rfl, hopen⟩ := hopened path hpath
      exact ⟨named, before, (LogSettings.file_ofFlags_iff ..).1 hfile, rfl, hopen⟩
  · exact .inr ⟨failure, _, hrun, hnamed.1 hsome, rfl⟩

/-- A record is not written always by the handlers whose threshold its level reaches. A handler may have no threshold, and
a record no level. -/
theorem not_emits_of_level_le :
    ¬∀ (flags : LogFlags) (environment : List (String × String)) (host host' : Host) (handlers : List LogHandler),
      (install (.ofFlags flags environment)).run host = (.ok handlers, host') →
        ∀ h ∈ handlers, ∀ r : LogRecord, host'.logging.Emits h r ↔ h.level ≤ r.level := by
  let settings := LogSettings.ofFlags {} [("BINDGEN_LOG_LEVEL", "NOTSET")]
  let host : Host := { files := {}, temporary := .fromRoot ["tmp"] }
  intro hall
  have hrun : (install settings).run host =
      (.ok (handlersFor settings none), { host with logging := ofHandlers (handlersFor settings none) }) := rfl
  have hname : settings.level = "NOTSET" := rfl
  have hlevel : (consoleHandler settings).level = LogLevel.notset.number := by
    rw [consoleHandler_level, LogSettings.consoleLevel, hname]
    exact LogLevel.numberOf_eq (by decide)
  have hmem : consoleHandler settings ∈ handlersFor settings none := List.mem_singleton_self _
  have hemits := hall _ _ _ _ _ hrun _ hmem ⟨0, "bindgen", 1, "zero"⟩
  rw [emits_iff hmem (level_nonneg hmem), hlevel] at hemits
  exact absurd (hemits.2 (Int.le_refl 0)).2 (by decide)

end LogSetup

end ProviderBindings
