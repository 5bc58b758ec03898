import ProviderBindings.Proofs.FileSystem.Operations

/-!
# Removing and moving

What it means that something was removed, and that something was moved to a free place. `Removed` says what
a tree has lost; a directory is removed by clearing it first, which comes to the same as removing it at
once. A move to a free place along a path without links is a transplant, or changes nothing
(`run_move_cases`): the ways in which it could be done otherwise all fail where the rename does.
-/

namespace ProviderBindings.FileSystem

variable {fs t : FileSystem} {ending : Ending}

/-! ## Removing -/

/-- Whether a tree is another without what stood at and below a location. -/
structure Removed (top : Location) (fs t : FileSystem) : Prop where
  /-- Nothing stands at the location or below it. -/
  gone : ∀ {location}, ¬isNameless location → top <+: location → t.get? location = none
  /-- Everything else is as it was. -/
  kept : ∀ {location}, ¬top <+: location → t.get? location = fs.get? location
  /-- A working directory that was not there is where it was. -/
  working : ¬top <+: fs.workingDirectory → t.workingDirectory = fs.workingDirectory
  /-- A working directory that was there is gone. -/
  detached : top <+: fs.workingDirectory →
    t.workingDirectory = detach top.dropLast fs.workingDirectory
  /-- A file that is held open is let go when it was there. -/
  held : t.held = fs.held.filter (!within top ·)
  /-- A sound tree stays sound. -/
  sound : fs.Sound → t.Sound

/-- What was taken out of a tree has been removed. -/
theorem removed_remove (fs : FileSystem) (top : Location) : Removed top fs (fs.remove top) := by
  refine ⟨get?_remove_of_isPrefix, get?_remove_of_not_isPrefix, fun hw => ?_, fun hw => ?_, rfl,
    fun h => h.remove top⟩
  · simp [remove, within_eq_false hw]
  · simp [remove, within_iff_isPrefix.2 hw]

/-- Removing makes no links. -/
theorem Removed.link {top : Location} (h : Removed top fs t) {location : Location} {target : String}
    (hlink : t.get? location = some (.link target)) : fs.get? location = some (.link target) := by
  have hname : ¬isNameless location := not_isNameless_of_get?_ne (by rw [hlink]; simp)
  by_cases hin : top <+: location
  · rw [h.gone hname hin] at hlink
    cases hlink
  · rw [← h.kept hin, hlink]

/-- Trees with the same entries, seen from the same working directory, with the same file held open are one. -/
theorem eq_of_fields (hentries : t.entries = fs.entries) (hworking : t.workingDirectory = fs.workingDirectory)
    (hheld : t.held = fs.held) : t = fs := by
  cases t
  cases fs
  cases hentries
  cases hworking
  cases hheld
  rfl

/-- What was removed is not there to be removed again. -/
theorem remove_remove {top : Location} (h : ¬top <+: (fs.remove top).workingDirectory) :
    (fs.remove top).remove top = fs.remove top := by
  have hworking : ((fs.remove top).remove top).workingDirectory = (fs.remove top).workingDirectory :=
    (removed_remove (fs.remove top) top).working h
  have hentries : ((fs.remove top).remove top).entries = (fs.remove top).entries := by
    simp [remove, List.filter_filter]
  have hheld : ((fs.remove top).remove top).held = (fs.remove top).held := by
    simp [remove, Option.filter_filter]
  exact eq_of_fields hentries hworking hheld

/-- A location below another keeps its length when it is detached from there. -/
theorem length_detach {kept location : Location} (h : kept.length ≤ location.length) :
    (detach kept location).length = location.length := by
  unfold detach
  rw [List.length_append, List.length_replicate]
  omega

/-- What is detached from a location is detached from one above it all the same. -/
theorem detach_detach {top location : Location} (h : top <+: location) :
    detach top.dropLast (detach top location) = detach top.dropLast location := by
  have hlength : (detach top location).length = location.length := length_detach h.length_le
  rw [detach, hlength]
  rfl

/-- Whether two locations are the same, or lie equally deep below a third. -/
def Shifted (top a b : Location) : Prop :=
  a = b ∨ ∃ l l' : Location, a = top ++ l ∧ b = top ++ l' ∧ l.length = l'.length

/-- A location was not shifted to itself. -/
theorem Shifted.refl (top a : Location) : Shifted top a a :=
  .inl rfl

/-- What was shifted can be shifted back. -/
theorem Shifted.symm {top a b : Location} (h : Shifted top a b) : Shifted top b a := by
  rcases h with rfl | ⟨l, l', ha, hb, hlength⟩
  · exact .refl _ _
  · exact .inr ⟨l', l, hb, ha, hlength.symm⟩

/-- What was shifted twice was shifted. -/
theorem Shifted.trans {top a b c : Location} (h : Shifted top a b) (hb : Shifted top b c) :
    Shifted top a c := by
  rcases h with rfl | ⟨l, l', rfl, rfl, hlength⟩
  · exact hb
  · rcases hb with rfl | ⟨m, m', hm, rfl, hlength'⟩
    · exact .inr ⟨l, l', rfl, rfl, hlength⟩
    · obtain rfl := List.append_cancel_left hm
      exact .inr ⟨l, m', rfl, rfl, hlength.trans hlength'⟩

/-- What was shifted below a location was shifted below one above it. -/
theorem Shifted.mono {top above a b : Location} (h : Shifted top a b) (ht : above <+: top) :
    Shifted above a b := by
  rcases h with rfl | ⟨l, l', rfl, rfl, hlength⟩
  · exact .refl _ _
  · obtain ⟨rest, rfl⟩ := ht
    refine .inr ⟨rest ++ l, rest ++ l', by simp, by simp, ?_⟩
    rw [List.length_append, List.length_append, hlength]

/-- A location is shifted when it is detached. -/
theorem shifted_detach {kept location : Location} (h : kept <+: location) :
    Shifted kept location (detach kept location) := by
  obtain ⟨rest, rfl⟩ := h
  refine .inr ⟨rest, List.replicate ((kept ++ rest).length - kept.length) "", rfl, rfl, ?_⟩
  simp

/-- The working directory of a tree from which something was removed was shifted. -/
theorem Removed.shifted {top : Location} (h : Removed top fs t) :
    Shifted top.dropLast fs.workingDirectory t.workingDirectory := by
  by_cases hin : top <+: fs.workingDirectory
  · rw [h.detached hin]
    exact shifted_detach ((List.dropLast_prefix top).trans hin)
  · rw [h.working hin]
    exact .refl _ _

/-- The working directory of a tree from which something was removed is where it was, or is gone from right above. -/
theorem Removed.working_cases {top : Location} (h : Removed top fs t) :
    t.workingDirectory = fs.workingDirectory ∨
      ∃ count, t.workingDirectory = top.dropLast ++ List.replicate count "" := by
  by_cases hin : top <+: fs.workingDirectory
  · exact .inr ⟨_, h.detached hin⟩
  · exact .inl (h.working hin)

/-- In a sound tree the working directory is not at or below a free place. -/
theorem Sound.not_isPrefix_workingDirectory (h : fs.Sound) {top : Location} (hfree : fs.get? top = none) :
    ¬top <+: fs.workingDirectory := by
  intro hin
  rw [h.working hin] at hfree
  cases hfree

/-- Taking out what is not there leaves everything where it is. -/
theorem Sound.get?_remove_of_none (h : fs.Sound) {top : Location} (hfree : fs.get? top = none) (location : Location) :
    (fs.remove top).get? location = fs.get? location := by
  by_cases hin : top <+: location
  · by_cases hname : isNameless location
    · rw [get?_of_isNameless hname, get?_of_isNameless hname]
    · rw [get?_remove_of_isPrefix hname hin, h.none_of_isPrefix hfree hin hname]
  · exact get?_remove_of_not_isPrefix hin

/-- To take out a location that was cleared comes to the same as to take it out at once. -/
theorem remove_clear (fs : FileSystem) (top : Location) : (fs.clear top).remove top = fs.remove top := by
  have hentries : ((fs.clear top).remove top).entries = (fs.remove top).entries := by
    show (fs.entries.filter _).filter _ = _
    rw [List.filter_filter]
    refine List.filter_congr fun entry _ => ?_
    cases within top entry.1 <;> simp
  -- a working directory in there is gone either way, and as many steps below what is left
  have hworking : ((fs.clear top).remove top).workingDirectory = (fs.remove top).workingDirectory := by
    by_cases hw : top <+: fs.workingDirectory
    · have hclear : (fs.clear top).workingDirectory = detach top fs.workingDirectory := by
        simp [clear, within_iff_isPrefix.2 hw]
      have hin : top <+: (fs.clear top).workingDirectory := by
        rw [hclear]
        exact List.prefix_append _ _
      rw [(removed_remove (fs.clear top) top).detached hin, hclear, detach_detach hw, (removed_remove fs top).detached hw]
    · have hclear : (fs.clear top).workingDirectory = fs.workingDirectory := by
        simp [clear, within_eq_false hw]
      rw [(removed_remove (fs.clear top) top).working (hclear ▸ hw), hclear, (removed_remove fs top).working hw]
  have hheld : ((fs.clear top).remove top).held = (fs.remove top).held := by
    show (fs.held.filter _).filter _ = _
    rw [Option.filter_filter]
    refine congrArg (fun p => Option.filter p fs.held) (funext fun location => ?_)
    cases within top location <;> simp
  exact eq_of_fields hentries hworking hheld

/-- A location that was cleared before it was taken out has been removed. -/
theorem removed_clear_remove (fs : FileSystem) (top : Location) :
    Removed top fs ((fs.clear top).remove top) :=
  remove_clear fs top ▸ removed_remove fs top

/-- Nothing stands below a location that was cleared. -/
theorem isEmptyBelow_clear (fs : FileSystem) (top : Location) : (fs.clear top).isEmptyBelow top := by
  unfold isEmptyBelow clear
  rw [List.all_eq_true]
  exact fun entry hentry => (List.mem_filter.1 hentry).2

/-- A directory that its path leads to, before and after it is cleared, is removed with all that is
below it. -/
theorem run_removeTree {p : Path} {place : Location} (hfault : PathFault.ofText? p.text = none)
    (hl : fs.locate .keep p = .ok place) (hd : fs.get? place = some .directory)
    (hl' : (fs.clear place).locate .keep p = .ok place) {name : String}
    (hlast : p.names.getLast? = some name) (hup : name ≠ "..") :
    (removeTree p).run fs = (.ok (), (fs.clear place).remove place) := by
  have hcleared : (fs.clear place).get? place = some .directory := by
    rw [get?_clear_of_not_below fun _ => rfl, hd]
  have hempty : (fs.clear place).isEmptyBelow place = true := isEmptyBelow_clear fs place
  have hfirst : (locateM .keep p).run fs = (.ok place, fs) :=
    run_locateM_ok_iff.2 ⟨hfault, hl, rfl⟩
  -- the path is followed a second time, when the directory is empty
  have hsecond : (locateM .keep p).run (fs.clear place) = (.ok place, fs.clear place) :=
    run_locateM_ok_iff.2 ⟨hfault, hl', rfl⟩
  have hremove : (removeDirectory p).run (fs.clear place) =
      (.ok (), (fs.clear place).remove place) := by
    rw [removeDirectory, run_bind_of_ok hsecond, run_bind, run_get]
    dsimp only
    rw [hlast, hcleared]
    split
    · next hnone => cases hnone
    · next hdots => exact absurd (Option.some.inj hdots) hup
    · next hnone => cases hnone
    · rw [if_pos hempty, run_set]
    · next hnot _ hentry => exact absurd (Option.some.inj hentry).symm hnot
  rw [removeTree, run_bind_of_ok hfirst, run_bind, run_get]
  dsimp only
  rw [hd]
  dsimp only
  rw [run_bind, run_set]
  exact hremove

/-! ## Moving to a free place -/

/-- A text that leads to no directory, because the path it is the text of does not, shows none. -/
theorem showsDirectory_text {p : Path} (hp : p.Written)
    (h : ∀ place, fs.locate .follow p = .ok place → fs.get? place ≠ some .directory) :
    fs.showsDirectory p.text = false := by
  unfold showsDirectory glance
  split
  · rfl
  · rw [locateText_text fs _ hp]
    cases hl : fs.locate .follow p with
    | error e => rfl
    | ok place =>
      have hplace : fs.get? place ≠ some .directory := h place hl
      simpa [Except.toOption] using hplace

/-- The text of a path that is found to lead to nothing shows no directory. -/
theorem showsDirectory_of_status_none {p : Path} (hp : p.Written) (hfault : PathFault.ofText? p.text = none)
    (hstatus : fs.status .follow p = .ok none) : fs.showsDirectory p.text = false := by
  refine showsDirectory_text hp fun place hl hd => ?_
  rw [status_eq_some_iff.2 ⟨hfault, place, hl, hd⟩] at hstatus
  cases hstatus

/-- A path that leads on along proper names is properly named. -/
theorem isProperlyNamed_append {anchor : Anchor} {names more : Location} (hp : Proper more)
    (hne : more ≠ []) : isProperlyNamed ⟨anchor, names ++ more⟩ := by
  have hlast : (names ++ more).getLastD "" = more.getLast hne := by
    rw [List.getLastD_eq_getLast?, List.getLast?_append_of_ne_nil _ hne,
      List.getLast?_eq_some_getLast hne]
    rfl
  have hup : more.getLast hne ≠ ".." := (hp _ (List.getLast_mem hne)).2
  show (!(names ++ more).isEmpty && (names ++ more).getLastD "" != "..") = true
  rw [hlast]
  simp [hup, hne]

/-- A path along proper names is properly named. -/
theorem isProperlyNamed_of_proper {p : Path} (hp : Proper p.names) (hne : p.names ≠ []) : isProperlyNamed p := by
  have hnamed : isProperlyNamed ⟨p.anchor, [] ++ p.names⟩ := isProperlyNamed_append hp hne
  exact hnamed

/-- The text of a path without a fault is accepted. -/
theorem run_requirePath_of_none {p : Path} (h : PathFault.ofText? p.text = none) :
    (requirePath p.text).run fs = (.ok (), fs) := by
  rw [run_requirePath, h]

/-- What stands where a path leads is renamed to a place that another path leads to, when it may take that place. -/
theorem run_rename_of_replaceable {source target : Path} {src dst : Location} {entry : Entry}
    (hfault : PathFault.ofText? source.text = none) (hfault' : PathFault.ofText? target.text = none)
    (hsrc : fs.locate .keep source = .ok src) (hdst : fs.locate .keep target = .ok dst)
    (hentry : fs.get? src = some entry) (hplace : fs.replaceable entry dst = .ok ())
    (hname : isProperlyNamed source) (hname' : isProperlyNamed target) (hin : ¬src <+: dst) :
    (rename source target).run fs = (.ok (), (fs.remove dst).transplant src dst) := by
  have hne : (src == dst) = false := by
    rw [beq_eq_false_iff_ne]
    rintro rfl
    exact hin (List.prefix_refl _)
  rw [rename, run_bind_of_ok (run_requirePath_of_none hfault), run_bind_of_ok (run_requirePath_of_none hfault'),
    run_bind, run_get]
  dsimp only
  rw [hsrc, hdst]
  dsimp only
  rw [hname, hname', hentry]
  dsimp only
  rw [hne, within_eq_false hin, hplace]
  rfl

/-- Anything may take a free place. -/
theorem replaceable_of_free {dst : Location} (hfree : fs.get? dst = none) (entry : Entry) :
    fs.replaceable entry dst = .ok () := by
  unfold replaceable
  rw [hfree]

/-- What stands where a path leads is renamed to a free place that another path leads to. -/
theorem run_rename {source target : Path} {src dst : Location} {entry : Entry}
    (hfault : PathFault.ofText? source.text = none) (hfault' : PathFault.ofText? target.text = none)
    (hsrc : fs.locate .keep source = .ok src) (hdst : fs.locate .keep target = .ok dst)
    (hentry : fs.get? src = some entry) (hfree : fs.get? dst = none)
    (hname : isProperlyNamed source) (hname' : isProperlyNamed target) (hin : ¬src <+: dst) :
    (rename source target).run fs = (.ok (), (fs.remove dst).transplant src dst) :=
  run_rename_of_replaceable hfault hfault' hsrc hdst hentry (replaceable_of_free hfree entry) hname hname' hin

/-- Whether a path is the path of nothing, or leads nowhere when a link at its end is kept. -/
def Unreached (fs : FileSystem) (p : Path) : Prop :=
  PathFault.ofText? p.text = none → ∀ place, fs.locate .keep p ≠ .ok place

/-- Where a target is not reached, a move to it fails and changes nothing. -/
theorem MovesTo.failed_of_unreached {source target : Path} {result : Except FileFailure Unit}
    (h : MovesTo source target fs result t) (hun : fs.Unreached target) :
    t = fs ∧ ∃ failure, result = .error failure := by
  cases h with
  | failed => exact ⟨rfl, _, rfl⟩
  | renamed hrenames =>
    cases hrenames with
    | same _ hfault' _ hdst | moved _ hfault' _ hdst => exact absurd hdst (hun hfault' _)
  | copied _ _ hcopies =>
    cases hcopies with
    | failed => exact ⟨rfl, _, rfl⟩
    | copied _ _ hfault' hdst => exact absurd hdst (hun hfault' _)

/-- Nothing can be moved to a path that is not reached, and trying changes nothing. -/
theorem run_move_error {source target : Path} (hp : target.Written) (hun : fs.Unreached target) :
    ∃ failure, (move source target).run fs = (.error failure, fs) := by
  have hshows : fs.showsDirectory target.text = false := by
    cases hfault : PathFault.ofText? target.text with
    | some fault =>
      unfold showsDirectory glance
      rw [hfault]
      rfl
    | none =>
      refine showsDirectory_text hp fun place hplace hdir => ?_
      obtain ⟨other, hkeep, -⟩ := locate_keep hplace (by simp [hdir])
      exact hun hfault other hkeep
  rcases hrun : (move source target).run fs with ⟨result, t⟩
  cases moves_of_run hp hrun with
  | there _ hto =>
    obtain ⟨rfl, failure, rfl⟩ := hto.failed_of_unreached hun
    exact ⟨failure, rfl⟩
  | same hother | taken hother | into hother => simp [hshows] at hother

/-- Nothing is moved but by a rename, to a path that leads to no directory. -/
theorem run_move_of_rename {source target : Path} (hshows : fs.showsDirectory target.text = false)
    (hrename : (rename source target).run fs = (.ok (), t)) : (move source target).run fs = (.ok (), t) := by
  rw [move, run_bind, run_get]
  dsimp only
  rw [hshows]
  simp only [Bool.not_false, if_true]
  rw [moveTo, run_orElse, hrename]

/-- What is moved to a free place, along a path from the root without links, is transplanted, or else nothing
changes. -/
theorem run_move_cases {source : Path} {src dst : Location} {entry : Entry}
    (hfault : PathFault.ofText? source.text = none) (hsrc : fs.locate .keep source = .ok src)
    (hentry : fs.get? src = some entry) (hname : isProperlyNamed source) (hp : Proper dst)
    (hne : dst ≠ []) (hl : fs.LinkFree [] dst) (hfree : fs.get? dst = none) (hin : ¬src <+: dst) :
    (∃ failure, (move source (.fromRoot dst)).run fs = (.error failure, fs)) ∨
      (move source (.fromRoot dst)).run fs = (.ok (), (fs.remove dst).transplant src dst) ∧
        Short dst := by
  have hwritten : (Path.fromRoot dst).Written := hp.written
  cases hdst : fs.locate .keep (.fromRoot dst) with
  | error e => exact .inl (run_move_error hwritten fun _ place hplace => by simp [hdst] at hplace)
  | ok place =>
    obtain ⟨rfl, -⟩ := locate_fromRoot_inv hdst hp hl
    have hname' : isProperlyNamed (.fromRoot place) := isProperlyNamed_of_proper hp hne
    cases hfault' : PathFault.ofText? (Path.fromRoot place).text with
    | some fault => exact .inl (run_move_error hwritten fun hnone => by simp [hfault'] at hnone)
    | none =>
      have hrename := run_rename hfault hfault' hsrc hdst hentry hfree hname hname' hin
      have hshows : fs.showsDirectory (Path.fromRoot place).text = false := by
        refine showsDirectory_text hwritten fun other hother => ?_
        obtain ⟨rfl, -⟩ := locate_fromRoot_inv hother hp hl
        rw [hfree]
        simp
      obtain ⟨-, links, -, hlead⟩ := locate_eq_ok_iff.1 hdst
      exact .inr ⟨run_move_of_rename hshows hrename, hlead.short hp hl⟩

end ProviderBindings.FileSystem
