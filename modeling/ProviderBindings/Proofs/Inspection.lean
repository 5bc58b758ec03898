import ProviderBindings.Proofs.ProjectRuns
import ProviderBindings.Proofs.SiteTurns
import ProviderBindings.Proofs.Stamping

/-!
# Inspecting tools

Whether a single tool kept to its directory can be computed: the entries before and after it tell all that it
changed (`Dispatch.contained_of_isContained`). So the dispatches of a run at hand can be inspected, where the results
about all runs assume that tools are contained.
-/

namespace ProviderBindings

open FileSystem

/-- Whether the entries of a tree, its working directory and the file it holds open make it sound. -/
def FileSystem.isSound (fs : FileSystem) : Bool :=
  (fs.entries.all fun entry =>
      decide (Proper entry.1 ∧ Short entry.1 ∧ fs.get? entry.1.dropLast = some .directory)) &&
    (fs.workingDirectory.inits.all fun location => fs.get? location == some .directory) &&
    fs.held.isNone

/-- A tree that looks sound is sound. -/
theorem FileSystem.sound_of_isSound {fs : FileSystem} (h : fs.isSound = true) : fs.Sound := by
  simp only [isSound, Bool.and_eq_true, List.all_eq_true, decide_eq_true_eq, beq_iff_eq,
    Option.isNone_iff_eq_none] at h
  obtain ⟨⟨hentries, hworking⟩, hheld⟩ := h
  refine sound_of_entries hentries hworking fun location hl => ?_
  rw [hheld] at hl
  cases hl

/-- Nothing stands where no entry is listed. -/
theorem FileSystem.get?_eq_none_of_not_listed {fs : FileSystem} {location : Location}
    (hname : ¬isNameless location) (h : ∀ entry ∈ fs.entries, entry.1 ≠ location) :
    fs.get? location = none := by
  rw [get?_of_not_isNameless hname, ← Option.not_isSome_iff_eq_none, Assoc.isSome_get?]
  intro hmem
  obtain ⟨entry, hentry, he⟩ := List.mem_map.1 hmem
  exact h entry hentry he

/-- Whether no link is listed in a tree. -/
def FileSystem.isUnlinked (fs : FileSystem) : Bool :=
  fs.entries.all fun entry => !(entry.2 matches .link _)

/-- No link is where none is listed. -/
theorem FileSystem.get?_ne_link_of_isUnlinked {fs : FileSystem} (h : fs.isUnlinked = true) (location : Location)
    (target : String) : fs.get? location ≠ some (.link target) := by
  intro htarget
  have hname : ¬isNameless location := by
    refine not_isNameless_of_get?_ne (?_ : fs.get? location ≠ _)
    rw [htarget]
    simp
  rw [get?_of_not_isNameless hname] at htarget
  have hentry := List.all_eq_true.1 h _ (Assoc.mem_of_get?_eq_some htarget)
  simp at hentry

/-- Whether the entries on the way along names from a location are no links. -/
def FileSystem.isLinkFree (fs : FileSystem) (here : Location) (names : List String) : Bool :=
  names.inits.all fun top => top.isEmpty || !(fs.get? (here ++ top) matches some (.link _))

/-- Names that look free of links are. -/
theorem FileSystem.linkFree_of_isLinkFree {fs : FileSystem} {here : Location} {names : List String}
    (h : fs.isLinkFree here names = true) : fs.LinkFree here names := by
  intro top htop hne target hlink
  have hplain := List.all_eq_true.1 h top ((List.mem_inits _ _).2 htop)
  rw [hlink] at hplain
  simp [hne] at hplain

/-- A directory that no entry is listed below is empty. -/
theorem FileSystem.isEmptyDirectory_of_isEmptyBelow {fs : FileSystem} {top : Location}
    (hthere : fs.get? top = some .directory) (h : fs.isEmptyBelow top = true) : fs.IsEmptyDirectory top := by
  refine ⟨hthere, funext fun rest => ?_⟩
  show fs.get? (top ++ rest) = View.empty rest
  unfold View.empty
  by_cases hrest : rest = []
  · subst hrest
    rw [List.append_nil]
    exact hthere
  by_cases hname : isNameless rest
  · rw [if_pos hname, get?_of_isNameless]
    rwa [isNameless_append hrest]
  · rw [if_neg hname]
    refine get?_eq_none_of_not_listed (by rwa [isNameless_append hrest]) fun entry hentry he => ?_
    have hoff := List.all_eq_true.1 h entry hentry
    have hin : within top (top ++ rest) = true := within_iff_isPrefix.2 (List.prefix_append _ _)
    simp [he, hin, hrest] at hoff

/-- Whether the same stands everywhere in two trees but below a location. -/
def FileSystem.isKeptBeside (work : Location) (fs t : FileSystem) : Bool :=
  (fs.entries ++ t.entries).all fun entry =>
    (decide (work <+: entry.1) && entry.1 != work) || t.get? entry.1 == fs.get? entry.1

/-- What stands at a location is the same in two trees when that is so wherever an entry is listed. -/
theorem FileSystem.get?_eq_of_listed {fs t : FileSystem} {location : Location}
    (h : ∀ entry ∈ fs.entries ++ t.entries, entry.1 = location → t.get? location = fs.get? location) :
    t.get? location = fs.get? location := by
  by_cases hname : isNameless location
  · rw [get?_of_isNameless hname, get?_of_isNameless hname]
  by_cases hlisted : ∃ entry ∈ fs.entries ++ t.entries, entry.1 = location
  · obtain ⟨entry, hentry, he⟩ := hlisted
    exact h entry hentry he
  · -- nothing is listed at the location in either tree
    rw [get?_eq_none_of_not_listed hname fun entry hentry he =>
        hlisted ⟨entry, List.mem_append_right _ hentry, he⟩,
      get?_eq_none_of_not_listed hname fun entry hentry he =>
        hlisted ⟨entry, List.mem_append_left _ hentry, he⟩]

/-- What stands beside a location is told by the entries. -/
theorem FileSystem.get?_of_isKeptBeside {work : Location} {fs t : FileSystem}
    (h : isKeptBeside work fs t = true) {location : Location} (hl : ¬Below work location) :
    t.get? location = fs.get? location := by
  refine get?_eq_of_listed fun entry hentry he => ?_
  subst he
  have hkept := List.all_eq_true.1 h entry hentry
  rw [Bool.or_eq_true, beq_iff_eq] at hkept
  refine hkept.resolve_left fun hbelow => hl ?_
  rw [Bool.and_eq_true, decide_eq_true_eq, bne_iff_ne] at hbelow
  exact hbelow

/-- Whether files were written below a location, and nothing else was changed there. -/
def FileSystem.isWritten (work : Location) (files : List (String × String)) (fs t : FileSystem) : Bool :=
  (files.all fun file => (Text.split '/' file.1).inits.all fun rest =>
      t.get? (work ++ rest) == (fs.view work).writeAll files rest) &&
    (fs.entries ++ t.entries).all fun entry => t.get? entry.1 == fs.get? entry.1 ||
      !(decide (work <+: entry.1) && files.all fun file => !decide (entry.1 <+: work ++ Text.split '/' file.1))

/-- What stands below a location is told by the entries where files were written and nothing else was changed. -/
theorem FileSystem.view_of_isWritten {work : Location} {files : List (String × String)} {fs t : FileSystem}
    (h : isWritten work files fs t = true) : t.view work = (fs.view work).writeAll files := by
  rw [isWritten, Bool.and_eq_true] at h
  obtain ⟨hway, hother⟩ := h
  funext rest
  by_cases hrest : ∃ file ∈ files, rest <+: Text.split '/' file.1
  · obtain ⟨file, hfile, hin⟩ := hrest
    exact beq_iff_eq.1 (List.all_eq_true.1 (List.all_eq_true.1 hway file hfile) rest ((List.mem_inits _ _).2 hin))
  · have hapart : ∀ file ∈ files, ¬rest <+: Text.split '/' file.1 := fun file hfile hin => hrest ⟨file, hfile, hin⟩
    rw [View.writeAll_of_apart hapart]
    refine get?_eq_of_listed fun entry hentry he => ?_
    have hkept := List.all_eq_true.1 hother entry hentry
    have hoff : (decide (work <+: work ++ rest) &&
        files.all fun file => !decide (work ++ rest <+: work ++ Text.split '/' file.1)) = true := by
      rw [Bool.and_eq_true, decide_eq_true_eq, List.all_eq_true]
      refine ⟨List.prefix_append _ _, fun file hfile => ?_⟩
      simpa [List.prefix_append_right_inj] using hapart file hfile
    rw [he, hoff] at hkept
    simpa using hkept

namespace Dispatch

/-- Whether a tool kept everything but what is below the directory it worked in. -/
def isContained (c : Dispatch) : Bool :=
  match c.before.files.locate .follow (.ofString c.context.workingDirectory) with
  | .error _ => true
  | .ok work =>
    c.after.files.isSound && isKeptBeside work c.before.files c.after.files &&
      c.after.files.workingDirectory == c.before.files.workingDirectory &&
      c.after.files.held == c.before.files.held && c.after.staged == c.before.staged &&
      c.after.temporary == c.before.temporary

/-- Whether a tool kept everything but what is below the directory it worked in, and left no links where packages
are made. -/
def isTidy (c : Dispatch) : Bool :=
  c.isContained &&
    match c.before.files.locate .follow (.ofString c.context.workingDirectory) with
    | .error _ => true
    | .ok work => c.after.files.entries.all fun entry =>
        !decide (work ++ ["dist"] <+: entry.1) || !(entry.2 matches .link _)

/-- A tool that looks contained is. -/
theorem contained_of_isContained {c : Dispatch} (h : c.isContained = true) : c.Contained := by
  intro work hwork
  simp only [isContained, hwork, Bool.and_eq_true, beq_iff_eq] at h
  obtain ⟨⟨⟨⟨⟨hsound, hkept⟩, hworking⟩, hheld⟩, hstaged⟩, htemporary⟩ := h
  have hbeside : ∀ {location}, ¬Below work location →
      c.after.files.get? location = c.before.files.get? location := get?_of_isKeptBeside hkept
  refine ⟨sound_of_isSound hsound, fun hl _ => hbeside hl, fun hl _ => ?_, hworking, hheld, hstaged, htemporary⟩
  unfold shapeAt
  rw [hbeside hl]

/-- A tool that looks tidy is contained and leaves no links where packages are made. -/
theorem contained_of_isTidy {c : Dispatch} (h : c.isTidy = true) : c.Contained ∧ c.LeavesNoLink := by
  unfold isTidy at h
  rw [Bool.and_eq_true] at h
  refine ⟨contained_of_isContained h.1, fun work hwork rest target htarget => ?_⟩
  have hname : ¬isNameless (work ++ "dist" :: rest) := by
    refine not_isNameless_of_get?_ne (?_ : c.after.files.get? _ ≠ _)
    rw [htarget]
    simp
  rw [get?_of_not_isNameless hname] at htarget
  have hall := h.2
  simp only [hwork] at hall
  have hentry := List.all_eq_true.1 hall _ (Assoc.mem_of_get?_eq_some htarget)
  simp at hentry

end Dispatch

/-- The stage that an outcome failed in. -/
def stageOf {α : Type} (outcome : Except Failure α × Session) : Option String :=
  match outcome.1 with
  | .error (.generation e) => e.stage
  | _ => none

/-- Whether a check passes. -/
def isOk {ε : Type} (check : Except ε Unit) : Bool :=
  match check with
  | .ok () => true
  | .error _ => false

/-- A check that looks passed has passed. -/
theorem isOk_iff {ε : Type} {check : Except ε Unit} : isOk check = true ↔ check = .ok () := by
  cases check <;> simp [isOk]

/-- What looks like a success is one. -/
theorem exists_of_isOk {ε α : Type} {result : Except ε α} (h : result.isOk = true) : ∃ a, result = .ok a := by
  cases result with
  | ok a => exact ⟨a, rfl⟩
  | error e => cases h

namespace Getter

/-- The code that is not told otherwise is that of the bindings. -/
theorem isStandard_default : ({} : Getter).IsStandard :=
  ⟨rfl, .provider, rfl⟩

/-- The code that a request comes to, if it comes to any. -/
def codeOf (g : Getter) (request : Request) : Emitter :=
  match ((g.emission request).run { host := RunOptions.bareHost }).1 with
  | .ok code => code
  | .error _ => {}

/-- A request whose names pass the check is accepted with its code. -/
theorem IsStandard.accepted_codeOf {g : Getter} (hg : g.IsStandard) {request : Request} {harvester : Harvester}
    (hharvester : Harvester.ofLanguage request.language = .ok harvester) (hne : request.names ≠ [])
    (hcheck : checkCollisions request.names request.language request.kind = .ok ()) :
    Accepted g request harvester (g.codeOf request) := by
  obtain ⟨code, haccepted⟩ := hg.exists_accepted hharvester hne hcheck
  have hcode : g.codeOf request = code := by
    unfold codeOf
    rw [haccepted.emission]
  rwa [hcode]

/-- A session with tools. -/
def stocked : Session := { host := RunOptions.bareHost, registry := RunOptions.standInTools }

/-- A request for two providers. -/
def twoNames : Request :=
  { language := .python, outputDirectory := .fromRoot ["out"], names := ["a", "b"] }

/-- The tools of the request for two providers keep to their directories. -/
theorem tidy_stocked :
    (stocked.dispatchesOf (({} : Getter).get twoNames)).all Dispatch.isTidy = true ∧
      (stocked.dispatchesOf (({} : Getter).get twoNames)).length = 4 := by
  decide +kernel

/-- The tools of the request for two providers are contained, and leave no links where packages are made. -/
theorem contained_stocked {c : Dispatch} (hc : c ∈ stocked.dispatchesOf (({} : Getter).get twoNames)) :
    c.Contained ∧ c.LeavesNoLink :=
  Dispatch.contained_of_isTidy (List.all_eq_true.1 tidy_stocked.1 c hc)

end Getter

end ProviderBindings
