import ProviderBindings.Proofs.Building

/-!
# Receipts of external tools

An action that is for one of the external tools always comes back with a receipt. `CommandTool.Ready` says what a
tool has to find before its process may start, and `Receipt.Tells` what a receipt has to say of the process, or
of there having been none. Each step on the way has one lemma: the check of the context
(`objection?_eq_none_iff`), the process and what is made of its end (`CommandTool.run_execute`), and the tool that
is asked to act (`run_runTool_command`). Notices on the way leave the history and the behaviour of processes as they
are, so that the end of a process can be told from the host that the action started on (`run_execute_command`).
-/

namespace ProviderBindings

open FileSystem

/-! ## What a tool has to find -/

/-- Whether a tool finds what it needs to act in a context: its working directory, and there a manifest if it is
the compiler, or a compiled assembly if it is the packager, which also has to be told a target. -/
structure CommandTool.Ready (tool : CommandTool) (context : Context) (fs : FileSystem) : Prop where
  /-- The working directory is one. -/
  directory : fs.status .follow (Path.ofString context.workingDirectory) = .ok (some .directory)
  /-- The compiler finds a manifest in it. -/
  manifest : tool.kind = .compiler →
    fs.HasFile ((Path.ofString context.workingDirectory).child "package.json")
  /-- The packager is told a target. -/
  target : tool.kind = .packager → "--target" ∈ context.action.args
  /-- The packager finds an assembly in it. -/
  assembly : tool.kind = .packager → fs.HasFile ((Path.ofString context.workingDirectory).child ".jsii")

/-- A tool objects to nothing exactly when it finds what it needs. -/
theorem CommandTool.objection?_eq_none_iff {tool : CommandTool} {context : Context} {host : Host} :
    tool.objection? context host = .ok none ↔ tool.Ready context host.files := by
  have hlook : ∀ {p : Path} {text : String},
      (do if ← host.files.isFile p then pure none else pure (some text) : Except SystemError (Option String)) =
        .ok none ↔ host.files.HasFile p := by
    intro p text
    rw [← isFile_eq_true_iff]
    rcases host.files.isFile p with e | found
    · simp [bind, Except.bind]
    · cases found <;> simp [bind, Except.bind, pure, Except.pure]
  have hdirectory : host.files.isDirectory (Path.ofString context.workingDirectory) = .ok true ↔
      host.files.status .follow (Path.ofString context.workingDirectory) = .ok (some .directory) := by
    rw [isDirectory_eq_true_iff, status_eq_some_iff]
  obtain ⟨kind, executable⟩ := tool
  unfold objection?
  dsimp only
  rcases hlooked : host.files.isDirectory (Path.ofString context.workingDirectory) with e | _ | _
  · refine ⟨fun h => (by cases h), fun h => ?_⟩
    rw [hdirectory.2 h.directory] at hlooked
    cases hlooked
  · refine ⟨fun h => (by cases h), fun h => ?_⟩
    rw [hdirectory.2 h.directory] at hlooked
    cases hlooked
  · have hthere := hdirectory.1 hlooked
    cases kind with
    | compiler =>
      exact Iff.trans hlook ⟨fun h => ⟨hthere, fun _ => h, nofun, nofun⟩, fun h => h.manifest rfl⟩
    | packager =>
      by_cases htarget : "--target" ∈ context.action.args
      · have hcontains : context.action.args.contains "--target" = true := by simpa using htarget
        rw [hcontains]
        exact Iff.trans hlook
          ⟨fun h => ⟨hthere, nofun, fun _ => htarget, fun _ => h⟩, fun h => h.assembly rfl⟩
      · have hcontains : context.action.args.contains "--target" = false := by simpa using htarget
        rw [hcontains]
        exact ⟨fun h => (by cases h), fun h => absurd (h.target rfl) htarget⟩

/-! ## What a receipt has to say -/

/-- How a process ends that was started on a host, where it is a process that was started. -/
def Host.processEnd (host : Host) (start : ToolStart) : Option ProcessEnd :=
  match start.invocation with
  | .process command =>
    some (host.processes (host.history.filter ToolStart.isProcess).length command start.files).1
  | .standIn _ _ => none

/-- What a process that ended with a code other than zero is said to have failed with: the first that is not empty of
what it printed as errors and what it printed, blanks at the ends removed, or else its code in words. -/
def exitError (code : Int) (stdout stderr : String) : String :=
  ([Text.strip stderr, Text.strip stdout].find? fun text => !text.isEmpty).getD
    s!"Command exited with code {code}"

/-- Whether a receipt is true to how a process ended, or to there having been none. -/
structure Receipt.Tells (receipt : Receipt) (processEnd : Option ProcessEnd) : Prop where
  /-- Only a process that ended with code zero is a success. -/
  succeeded_iff : receipt.succeeded = true ↔ ∃ stdout stderr, processEnd = some (.exited 0 stdout stderr)
  /-- A failure has words. -/
  error : receipt.succeeded = false → ∃ text, receipt.error = some text ∧ text ≠ ""
  /-- The failure of a process that ended has its code, and the words that it left. -/
  exit : ∀ code stdout stderr, processEnd = some (.exited code stdout stderr) → code ≠ 0 →
    receipt.returnCode = some code ∧ receipt.error = some (exitError code stdout stderr)

/-- A text is not empty when its beginning is not. -/
theorem append_ne_empty {start : String} (h : start ≠ "") (rest : String) : start ++ rest ≠ "" := by
  rw [ne_eq, String.append_eq_empty_iff]
  exact fun hempty => h hempty.1

/-- There are always words for the failure of a process. -/
theorem exitError_ne_empty (code : Int) (stdout stderr : String) : exitError code stdout stderr ≠ "" := by
  unfold exitError
  cases hfound : [Text.strip stderr, Text.strip stdout].find? fun text => !text.isEmpty with
  | none => exact append_ne_empty (by decide) _
  | some text =>
    have hkept := List.find?_some hfound
    rintro rfl
    cases hkept

/-- A failed receipt with words is true to whatever is no end of a process. -/
theorem Receipt.Tells.of_failed {receipt : Receipt} {processEnd : Option ProcessEnd} {text : String}
    (hfailed : receipt.succeeded = false) (herror : receipt.error = some text) (hne : text ≠ "")
    (hno : ∀ code stdout stderr, processEnd ≠ some (.exited code stdout stderr)) : receipt.Tells processEnd where
  succeeded_iff := by
    rw [hfailed]
    exact ⟨nofun, fun ⟨stdout, stderr, h⟩ => absurd h (hno 0 stdout stderr)⟩
  error _ := ⟨text, herror, hne⟩
  exit code stdout stderr h := absurd h (hno code stdout stderr)

/-- The receipt of a process that ended is true to its end. -/
theorem CommandTool.receiptOfExit_tells (tool : CommandTool) (actionId commandLine : String) (code : Int)
    (stdout stderr : String) :
    (tool.receiptOfExit actionId commandLine code stdout stderr).Tells (some (.exited code stdout stderr)) := by
  by_cases hcode : code = 0
  · subst hcode
    have hok : (tool.receiptOfExit actionId commandLine 0 stdout stderr).succeeded = true := rfl
    refine ⟨⟨fun _ => ⟨stdout, stderr, rfl⟩, fun _ => hok⟩, fun h => ?_, fun code _ _ h hne => ?_⟩
    · rw [hok] at h
      cases h
    · cases h
      exact absurd rfl hne
  -- another code than zero: the receipt has failed, and gives the code and the words for it
  · have hfailed : (tool.receiptOfExit actionId commandLine code stdout stderr).succeeded = false := by
      unfold receiptOfExit
      simp only [if_neg hcode]
      rfl
    have hreturn : (tool.receiptOfExit actionId commandLine code stdout stderr).returnCode = some code := by
      unfold receiptOfExit
      simp only [if_neg hcode]
    have herror : (tool.receiptOfExit actionId commandLine code stdout stderr).error =
        some (exitError code stdout stderr) := by
      unfold receiptOfExit exitError
      simp only [if_neg hcode, List.find?_cons, List.find?_nil]
      cases (Text.strip stderr).isEmpty <;> cases (Text.strip stdout).isEmpty <;> rfl
    refine ⟨⟨fun h => ?_, ?_⟩, fun _ => ⟨_, herror, exitError_ne_empty code stdout stderr⟩, ?_⟩
    · rw [hfailed] at h
      cases h
    · rintro ⟨_, _, h⟩
      cases h
      exact absurd rfl hcode
    · rintro _ _ _ h -
      cases h
      exact ⟨hreturn, herror⟩

/-! ## The steps of an action -/

/-- A process is noted with the files it found, and comes out as the host says that processes do. -/
theorem run_runProcess (command : Command) (host : Host) :
    (Host.runProcess command).run host =
      (.ok (host.processes (host.history.filter ToolStart.isProcess).length command host.files).1,
        { host with
          history := host.history ++ [⟨.process command, host.files⟩]
          files := (host.processes (host.history.filter ToolStart.isProcess).length command host.files).2 }) := rfl

/-- A tool that acts starts one process. Its receipt is true to how that ended; it breaks out only where the process did
not end. -/
theorem CommandTool.run_execute (tool : CommandTool) (context : Context) (host : Host) :
    ∃ result host' start, (tool.execute context).run host = (result, host') ∧
      host'.history = host.history ++ [start] ∧ start.isProcess = true ∧
      (∀ receipt, result = .ok receipt → receipt.Tells (host.processEnd start)) ∧
      ∀ failure, result = .error failure →
        ∀ code stdout stderr, host.processEnd start ≠ some (.exited code stdout stderr) := by
  unfold CommandTool.execute
  rw [run_bind, run_get]
  dsimp only
  rw [run_bind_of_ok (run_runProcess _ host)]
  generalize hcommand : (⟨tool.executableOn host :: context.action.args, context.workingDirectory,
    Assoc.update host.environment context.environment, context.timeout⟩ : Command) = command
  have hend : host.processEnd ⟨.process command, host.files⟩ =
      some (host.processes (host.history.filter ToolStart.isProcess).length command host.files).1 := rfl
  generalize (host.processes (host.history.filter ToolStart.isProcess).length command host.files).1 = ended at hend ⊢
  -- a process that did not end makes a failed receipt with words of its own, or breaks out
  cases ended with
  | exited code stdout stderr =>
    refine ⟨_, _, _, rfl, rfl, rfl, ?_, fun _ h => nomatch h⟩
    rintro _ ⟨⟩
    rw [hend]
    exact tool.receiptOfExit_tells ..
  | timedOut =>
    refine ⟨_, _, _, rfl, rfl, rfl, ?_, fun _ h => nomatch h⟩
    rintro _ ⟨⟩
    rw [hend]
    exact .of_failed rfl rfl (append_ne_empty (append_ne_empty (by decide) _) _) nofun
  | broken failure =>
    cases failure with
    | system e =>
      dsimp only
      split
      · refine ⟨_, _, _, rfl, rfl, rfl, ?_, fun _ h => nomatch h⟩
        rintro _ ⟨⟩
        rw [hend]
        exact .of_failed rfl rfl (append_ne_empty (by decide) _) nofun
      · refine ⟨_, _, _, rfl, rfl, rfl, ?_, fun _ h => nomatch h⟩
        rintro _ ⟨⟩
        rw [hend]
        exact .of_failed rfl rfl (append_ne_empty (by decide) _) nofun
    | _ =>
      refine ⟨_, _, _, rfl, rfl, rfl, (fun _ h => nomatch h), ?_⟩
      rintro _ - _ _ _
      rw [hend]
      exact nofun

/-- A notice leaves the tools that were started and the behaviour of processes as they are. -/
theorem run_note_tools (n : Notice) (s : Session) :
    ∃ host, (Run.note n).run s = (.ok (), { s with host }) ∧ host.history = s.host.history ∧
      host.processes = s.host.processes :=
  ⟨_, rfl, rfl, rfl⟩

/-- An external tool that is asked to act starts one process, and answers with a receipt that is true to how that
ended. -/
theorem run_runTool_command (tool : CommandTool) (context : Context) (s : Session) :
    ∃ receipt t start, (Run.runTool (.command tool) context).run s = (.ok receipt, t) ∧
      t.host.history = s.host.history ++ [start] ∧ start.isProcess = true ∧
      receipt.Tells (s.host.processEnd start) := by
  obtain ⟨noted, hnote, hhistory, hprocesses⟩ :=
    run_note_tools (.running context.action.adapter context.action.id context.workingDirectory) s
  have hsame : ∀ start, noted.processEnd start = s.host.processEnd start := by
    intro start
    unfold Host.processEnd
    rw [hhistory, hprocesses]
  obtain ⟨result, host, start, hexecute, hstart, hprocess, htells, hbreaks⟩ := tool.run_execute context noted
  rw [hhistory] at hstart
  simp only [hsame] at htells hbreaks
  -- what is left once there is a receipt is a notice where it is a failed one
  have hlast : ∀ (receipt : Receipt) (u : Session), ∃ t : Session, (do
      if !receipt.succeeded then
        Run.note (.toolFailed context.action.adapter context.action.id receipt.error)
      pure receipt : Run Receipt).run u = (.ok receipt, t) ∧ t.host.history = u.host.history := by
    intro receipt u
    cases receipt.succeeded
    · obtain ⟨last, hlast, hkept, -⟩ :=
        run_note_tools (.toolFailed context.action.adapter context.action.id receipt.error) u
      refine ⟨{ u with host := last }, ?_, hkept⟩
      exact run_bind_of_ok hlast _
    · exact ⟨u, rfl, rfl⟩
  unfold Run.runTool
  rw [run_bind_of_ok hnote, run_bind_of_ok (run_modify ..), run_bind_of_ok (run_attempt ..), run_onHost]
  change (tool.execute context).run noted = _ at hexecute
  dsimp only [Tool.execute]
  rw [hexecute]
  cases result with
  | ok receipt =>
    dsimp only
    obtain ⟨t, hrun, hkept⟩ := hlast receipt
      { s with host, registry := s.registry.change context.action.adapter (·.asked context) }
    exact ⟨receipt, t, start, hrun, hkept.trans hstart, hprocess, htells receipt rfl⟩
  | error failure =>
    dsimp only
    obtain ⟨broken, hbroken, hkept, -⟩ := run_note_tools (.toolBroke context.action.adapter failure.text)
      { s with host, registry := s.registry.change context.action.adapter (·.asked context) }
    have hne : "Unexpected error: " ++ failure.text ≠ "" := append_ne_empty (by decide) _
    have htrue : (Receipt.failure context.action.adapter context.action.id
        ("Unexpected error: " ++ failure.text)).Tells (s.host.processEnd start) :=
      .of_failed rfl rfl hne (hbreaks failure rfl)
    obtain ⟨t, hrun, hkept'⟩ := hlast
      (Receipt.failure context.action.adapter context.action.id ("Unexpected error: " ++ failure.text))
      { s with host := broken, registry := s.registry.change context.action.adapter (·.asked context) }
    refine ⟨_, t, start, ?_, hkept'.trans (hkept.trans hstart), hprocess, htrue⟩
    rw [run_bind_of_ok hbroken]
    exact hrun

/-- What an action of a session comes to that is for an external tool, or for none: at most one process is started, just
when there is a tool that finds what it needs, and the receipt is true to how the process ends. -/
structure Answered (context : Context) (s : Session) (receipt : Receipt) (t : Session) (started : Option ToolStart) :
    Prop where
  /-- The process that is started, if any, is the one thing that is new in the history of the host. -/
  history : t.host.history = s.host.history ++ started.toList
  /-- It is a process and not another call. -/
  isProcess : ∀ start ∈ started, start.isProcess = true
  /-- One is started exactly when there is an external tool for the action that finds what it needs. -/
  started_iff : started.isSome = true ↔
    ∃ tool, s.registry.find? context.action.adapter = some (.command tool) ∧ tool.Ready context s.host.files
  /-- The receipt says how the process ended, or that there was none. -/
  tells : receipt.Tells (started.bind s.host.processEnd)

/-- An action that is refused with some words starts nothing. -/
theorem Answered.refused {context : Context} {s : Session} {error : String} (hne : error ≠ "")
    (hnone : ¬∃ tool, s.registry.find? context.action.adapter = some (.command tool) ∧
      tool.Ready context s.host.files) :
    Answered context s (Receipt.failure context.action.adapter context.action.id error) s none where
  history := (List.append_nil _).symm
  isProcess _ h := by cases h
  started_iff := ⟨nofun, fun h => absurd h hnone⟩
  tells := .of_failed rfl rfl hne nofun

/-- The registered tool is asked to act when it is there and finds what it needs; otherwise there is a refusal. -/
theorem run_answer_command (context : Context) (s : Session)
    (real : ∀ tool, s.registry.find? context.action.adapter = some tool → ∃ t, tool = .command t) :
    ∃ receipt t started, (Run.answer context).run s = (.ok receipt, t) ∧ Answered context s receipt t started := by
  unfold Run.answer
  rw [run_bind, run_get]
  dsimp only
  cases hfind : s.registry.find? context.action.adapter with
  | none =>
    refine ⟨_, s, none, rfl, .refused ?_ ?_⟩
    · exact append_ne_empty (append_ne_empty (by decide) _) _
    · rw [hfind]
      rintro ⟨_, h, -⟩
      cases h
  | some tool =>
    obtain ⟨tool, rfl⟩ := real tool hfind
    -- no other tool is registered under that name, so that it is ready when it objects to nothing
    have hready : (∃ other, s.registry.find? context.action.adapter = some (.command other) ∧
        other.Ready context s.host.files) ↔ tool.objection? context s.host = .ok none := by
      rw [hfind, CommandTool.objection?_eq_none_iff]
      constructor
      · rintro ⟨_, h, hready⟩
        cases h
        exact hready
      · exact fun h => ⟨tool, rfl, h⟩
    dsimp only [Tool.objection]
    rcases hobjection : tool.objection? context s.host with e | _ | objection
    · refine ⟨_, s, none, rfl, .refused (append_ne_empty (by decide) _) ?_⟩
      rw [hready, hobjection]
      exact nofun
    · obtain ⟨receipt, t, start, hrun, hhistory, hprocess, htells⟩ := run_runTool_command tool context s
      refine ⟨receipt, t, some start, hrun, hhistory, ?_, ⟨fun _ => hready.2 hobjection, fun _ => rfl⟩, htells⟩
      rintro _ ⟨⟩
      exact hprocess
    · refine ⟨_, s, none, rfl, .refused (append_ne_empty (by decide) _) ?_⟩
      rw [hready, hobjection]
      exact nofun

/-- An action for which an external tool is registered, or none at all, always comes back with a receipt. At most one
process is started, just when there is a tool that finds what it needs, and the receipt is true to how it ends. -/
theorem run_execute_command (context : Context) (s : Session)
    (real : ∀ tool, s.registry.find? context.action.adapter = some tool → ∃ t, tool = .command t) :
    ∃ receipt t started, (Run.execute context).run s = (.ok receipt, t) ∧ Answered context s receipt t started := by
  obtain ⟨receipt, t, started, hanswer, h⟩ := run_answer_command context s real
  refine ⟨receipt, { t with dispatches := t.dispatches ++ [⟨context, s.host, t.host, receipt⟩] }, started, ?_,
    ⟨h.history, h.isProcess, h.started_iff, h.tells⟩⟩
  unfold Run.execute
  rw [run_bind, run_get]
  dsimp only
  rw [run_bind_of_ok hanswer, run_bind, run_modify]
  rfl

/-- A session with the external tools and a directory with a manifest, in which every process fails with code three and
prints nothing but blanks as errors. -/
def failingTools : Session where
  host :=
    { files := { entries := [(["w"], .directory), (["w", "package.json"], .file (.text "\x7b\x7d") false)] }
      temporary := .fromRoot ["tmp"]
      processes := fun _ _ fs => (.exited 3 "no such type" " \n", fs) }
  registry := .standard

/-- An action for the compiler in the directory with the manifest. -/
def compileThere : Context where
  action := { id := "compile:a", adapter := "jsii" }
  workingDirectory := "/w"

/-- What the compiler that fails is asked to do comes back with a receipt that tells so. -/
theorem run_execute_command_failing :
    (∀ tool, failingTools.registry.find? compileThere.action.adapter = some tool → ∃ t, tool = .command t) ∧
      ∃ receipt t started, (Run.execute compileThere).run failingTools = (.ok receipt, t) ∧
        Answered compileThere failingTools receipt t started := by
  have hreal : ∀ tool, failingTools.registry.find? compileThere.action.adapter = some tool →
      ∃ t, tool = .command t := by
    rintro tool ⟨⟩
    exact ⟨_, rfl⟩
  exact ⟨hreal, run_execute_command compileThere failingTools hreal⟩

end ProviderBindings
