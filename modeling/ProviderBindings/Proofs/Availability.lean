import ProviderBindings.CommandLine
import ProviderBindings.Proofs.FileSystem.Padding

/-!
# Tools that are said to be there

A tool is said to be there for either of two reasons: its executable is found the way that a process start finds it
(`Host.CanStart`), or there is a file at the path that the executable spells. The second does not do for a start.
`Host.Misleads` lists how there can be such a file and nothing to start: the executable is a bare name, and the file
one of the working directory; or the file may not be run; or the text is more than its path, with a slash or a dot at the
end, or too long as it stands. Nothing else makes a tool seem to be there (`CommandTool.isAvailable_outcome`).
-/

namespace ProviderBindings

/-! ## What can be started -/

/-- Whether a path text leads to a regular file that may be run. -/
def FileSystem.HasProgram (fs : FileSystem) (s : String) : Prop :=
  ∃ content, fs.glance s = some (.file content true)

/-- A path text is shown to be that of an executable when it leads to a file that may be run. -/
theorem FileSystem.showsExecutable_iff {fs : FileSystem} {s : String} :
    fs.showsExecutable s = true ↔ fs.HasProgram s := by
  unfold showsExecutable HasProgram
  rcases fs.glance s with _ | ⟨content, executable⟩ | _ | target <;> simp

/-- The directories that a command is looked up in. -/
def Host.searchPath (host : Host) : List String :=
  let path := (Assoc.get? "PATH" host.environment).getD CommandTool.standardSearchPath
  if path.isEmpty then [] else Text.split ':' path

/-- Whether a process can be started with an executable: what holds a slash has to lead to a file that may be run, and a
bare name has to be that of one in a directory of the search path. -/
inductive Host.CanStart (host : Host) (executable : String) : Prop
  | path (hslash : '/' ∈ executable.toList) (hprogram : host.files.HasProgram executable)
  | name {directory : String} (hslash : '/' ∉ executable.toList) (hmem : directory ∈ host.searchPath)
      (hprogram : host.files.HasProgram (Path.joinText directory executable))

/-- A bare command stands for the first file of its name that may be run, in the directories of the search path. -/
theorem CommandTool.search_of_bare {host : Host} {command : String} (h : '/' ∉ command.toList) :
    search host command =
      (host.searchPath.map (Path.joinText · command)).find? host.files.showsExecutable := by
  unfold search Host.searchPath
  rw [String.contains_char_eq, if_neg (by simpa using h)]
  dsimp only
  split <;> rfl

/-- A command is found exactly when a process can be started with it. -/
theorem CommandTool.search_isSome_iff {host : Host} {command : String} :
    (search host command).isSome = true ↔ host.CanStart command := by
  by_cases hslash : '/' ∈ command.toList
  · have hsearch : search host command = if host.files.showsExecutable command then some command else none := by
      unfold search
      rw [String.contains_char_eq, if_pos (decide_eq_true hslash)]
    have hfound : (search host command).isSome = true ↔ host.files.HasProgram command := by
      rw [hsearch, ← FileSystem.showsExecutable_iff]
      split <;> simp [*]
    refine hfound.trans ⟨.path hslash, ?_⟩
    rintro (⟨-, hprogram⟩ | ⟨hno, -⟩)
    · exact hprogram
    · exact absurd hslash hno
  · have hfound : (search host command).isSome = true ↔
        ∃ directory ∈ host.searchPath, host.files.HasProgram (Path.joinText directory command) := by
      rw [search_of_bare hslash]
      simp only [List.find?_isSome, FileSystem.showsExecutable_iff, List.mem_map, exists_exists_and_eq_and]
    refine hfound.trans ⟨fun ⟨_, hmem, hprogram⟩ => .name hslash hmem hprogram, ?_⟩
    rintro (⟨hyes, -⟩ | ⟨-, hmem, hprogram⟩)
    · exact absurd hyes hslash
    · exact ⟨_, hmem, hprogram⟩

/-! ## What only seems to be there -/

/-- Why a file at the path that an executable names need not be one that can be started. -/
inductive Host.Misleads (host : Host) (executable : String) : Prop
  /-- A process start does not look up a bare name in the working directory. -/
  | bare (hslash : '/' ∉ executable.toList)
  /-- The file may not be run. -/
  | plain {content : Content} (hplain : host.files.glance executable = some (.file content false))
  /-- The text ends in a slash or a dot, which its path does not keep, and so wants a directory. -/
  | ended {last : String} (hlast : last ∈ (Text.split '/' executable).getLast?)
      (hidle : FileSystem.isIdle last = true)
  /-- The text is too long, though that of its path may not be. -/
  | long (hlong : FileSystem.maxPathSize < executable.utf8ByteSize)

/-- Whether an executable that cannot be started names a file nevertheless. -/
structure Host.FalselyFound (host : Host) (executable : String) : Prop where
  /-- The text of the executable leads to a file. -/
  file : host.files.HasFile (Path.ofString executable)
  /-- No process can be started from it. -/
  not_canStart : ¬host.CanStart executable
  /-- There is a reason why the file is taken for one that can be started. -/
  misleads : host.Misleads executable

/-- A file at the path that an executable names can be started, if it is not misleading. -/
theorem Host.canStart_or_falselyFound {host : Host} {executable : String}
    (hfile : host.files.HasFile (Path.ofString executable)) :
    host.CanStart executable ∨ host.FalselyFound executable := by
  by_cases hstart : host.CanStart executable
  · exact .inl hstart
  refine .inr ⟨hfile, hstart, ?_⟩
  by_cases hslash : '/' ∈ executable.toList
  swap
  · exact .bare hslash
  by_cases hlong : FileSystem.maxPathSize < executable.utf8ByteSize
  · exact .long hlong
  by_cases hlast : ∀ last ∈ (Text.split '/' executable).getLast?, FileSystem.isIdle last = false
  · -- the text leads to what its path leads to, which may not be run
    obtain ⟨content, run, hstatus⟩ := hfile
    have hglance := FileSystem.glance_of_status (Nat.not_lt.1 hlong) hlast hstatus
    cases run with
    | true => exact absurd (.path hslash ⟨content, hglance⟩) hstart
    | false => exact .plain hglance
  · push Not at hlast
    obtain ⟨last, hmem, hidle⟩ := hlast
    exact .ended hmem (by simpa using hidle)

/-! ## What is said -/

/-- A tool is said to be there exactly when the path of its executable can be looked at and a process can be started with
it, or a file misleads. -/
theorem CommandTool.isAvailable_eq_true_iff {tool : CommandTool} {host : Host} :
    tool.isAvailable host = .ok true ↔
      (∃ found, host.files.status .follow (Path.ofString (tool.executableOn host)) = .ok found) ∧
        (host.CanStart (tool.executableOn host) ∨ host.FalselyFound (tool.executableOn host)) := by
  unfold isAvailable
  dsimp only
  generalize tool.executableOn host = executable
  rcases hlooked : host.files.isFile (Path.ofString executable) with e | _ | _
  · rw [FileSystem.isFile_eq_error_iff] at hlooked
    rw [hlooked]
    exact ⟨fun h => (by cases h), fun ⟨⟨_, h⟩, _⟩ => (by cases h)⟩
  · -- no file is there, so that it is all up to the search
    obtain ⟨hfound, hno⟩ := FileSystem.isFile_eq_false_iff.1 hlooked
    have hsearch : (Except.ok (search host executable).isSome : Except SystemError Bool) = .ok true ↔
        host.CanStart executable := by
      rw [Except.ok.injEq, search_isSome_iff]
    refine hsearch.trans ⟨fun h => ⟨hfound, .inl h⟩, ?_⟩
    rintro ⟨-, hstart | hfalse⟩
    · exact hstart
    · exact absurd hfalse.file hno
  · have hfile := FileSystem.isFile_eq_true_iff.1 hlooked
    obtain ⟨content, run, hstatus⟩ := hfile
    exact ⟨fun _ => ⟨⟨_, hstatus⟩, Host.canStart_or_falselyFound ⟨content, run, hstatus⟩⟩, fun _ => rfl⟩

/-! ## What is said of the registered tools -/

/-- The state of a registered tool stands where the tool does. -/
theorem Registry.getElem?_status {r : Registry} {i : Nat} {name : String} {tool : Tool}
    (h : r.tools[i]? = some (name, tool)) (host : Host) :
    (r.status host)[i]? = some ⟨name, (tool.isAvailable host).toOption.getD false, tool.kindName⟩ := by
  unfold status
  rw [List.getElem?_map, h]
  rfl

/-- What is asked about a tool counts as a no where it breaks. -/
theorem CommandTool.getD_isAvailable {tool : CommandTool} {host : Host} :
    ((Tool.command tool).isAvailable host).toOption.getD false = true ↔ tool.isAvailable host = .ok true := by
  unfold Tool.isAvailable
  dsimp only
  generalize tool.isAvailable host = answer
  rcases answer with e | found
  · exact ⟨fun h => (by cases h), fun h => (by cases h)⟩
  · exact (Except.ok.injEq found true).symm.to_iff

/-- The line that shows a tool. -/
theorem exists_getElem?_showTools {session : Session} {i : Nat} {entry : Registry.Status}
    (h : (session.registry.status session.host)[i]? = some entry) :
    ∃ lines rest, CommandLine.showTools false session = CommandLine.ending true ("🔧 Toolchain:" :: lines) ∧
      lines[i]? = some ((if entry.available then "   ✓ " else "   ✗ ") ++ Text.padRight 12 entry.name ++ rest) := by
  -- where the tool is, which its line says only if it is there
  let location := ((session.registry.find? entry.name).map (CommandLine.locationOf session.host)).getD ""
  unfold CommandLine.showTools
  refine ⟨_, if entry.available then " " ++ location else " not found", rfl, ?_⟩
  rw [List.getElem?_map, h]
  cases hentry : entry.available <;> simp [hentry, location, String.append_assoc]

/-- A tool is said to be there, in the state of the registry and by the program, exactly when the path of its executable
can be looked at and a process can be started with it, or a file misleads. -/
theorem CommandTool.isAvailable_outcome (tool : CommandTool) (session : Session) :
    (tool.isAvailable session.host = .ok true ↔
      (∃ found, session.host.files.status .follow (Path.ofString (tool.executableOn session.host)) = .ok found) ∧
        (session.host.CanStart (tool.executableOn session.host) ∨
          session.host.FalselyFound (tool.executableOn session.host))) ∧
      ∀ (i : Nat) (name : String), session.registry.tools[i]? = some (name, .command tool) →
        ∃ entry lines rest, (session.registry.status session.host)[i]? = some entry ∧ entry.name = name ∧
          (entry.available = true ↔ tool.isAvailable session.host = .ok true) ∧
          CommandLine.showTools false session = CommandLine.ending true ("🔧 Toolchain:" :: lines) ∧
          lines[i]? =
            some ((if entry.available then "   ✓ " else "   ✗ ") ++ Text.padRight 12 name ++ rest) := by
  refine ⟨isAvailable_eq_true_iff, fun i name h => ?_⟩
  have hentry := Registry.getElem?_status h session.host
  obtain ⟨lines, rest, hshow, hline⟩ := exists_getElem?_showTools hentry
  exact ⟨_, lines, rest, hentry, rfl, getD_isAvailable, hshow, hline⟩

/-- A host with an empty search path, where a plain file in the working directory has the name of the compiler. -/
def emptyPathHost : Host where
  files := { entries := [(["w"], .directory), (["w", "jsii"], .file (.text "x") false)], workingDirectory := ["w"] }
  environment := [("PATH", "")]
  temporary := .fromRoot ["tmp"]

/-- A tool that is said to be there need not be one that can be started. -/
theorem CommandTool.not_canStart_of_isAvailable :
    ¬∀ (tool : CommandTool) (host : Host), tool.isAvailable host = .ok true →
      host.CanStart (tool.executableOn host) := by
  have hno : ¬emptyPathHost.CanStart "jsii" := by
    have hnowhere : emptyPathHost.searchPath = [] := by decide
    rintro (⟨hslash, -⟩ | ⟨-, hmem, -⟩)
    · exact absurd hslash (by decide)
    · rw [hnowhere] at hmem
      cases hmem
  have hsearch : search emptyPathHost "jsii" = none := by
    rw [← Option.not_isSome_iff_eq_none, search_isSome_iff]
    exact hno
  -- the bare name is what is left to start, and it is a file of the working directory
  have hexecutable : executableOn ⟨.compiler, none⟩ emptyPathHost = "jsii" := by
    change (search emptyPathHost "jsii").getD "jsii" = "jsii"
    rw [hsearch]
    rfl
  have hfile : emptyPathHost.files.isFile (Path.ofString "jsii") = .ok true := by decide +kernel
  have havailable : isAvailable ⟨.compiler, none⟩ emptyPathHost = .ok true := by
    unfold isAvailable
    dsimp only
    rw [hexecutable, hfile]
    rfl
  intro h
  have hstart := h _ _ havailable
  rw [hexecutable] at hstart
  exact hno hstart

end ProviderBindings
