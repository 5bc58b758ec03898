import ProviderBindings.Proofs.FileSystem.Removing

/-!
# Collected packages

What a harvest does to the file tree, for an output directory without links. When it succeeds the package
stands at its place in the output directory exactly as it stood where the packager left it, nothing of
what stood there before is left, directories lead to it, and everything else is as it was (`Harvested`).
When it fails on the way it leaves at most the place cleared and directories that lead to it (`Disturbed`).
`Harvests` lists what a harvest can come to, as `Clears` does for the place that is cleared first, `Replaces`
for the package that is put there and `Finishes` for the marker at the end.
-/

namespace ProviderBindings

namespace FileSystem

variable {fs t : FileSystem} {ending : Ending}

/-- In a sound tree the path from the root to an entry leads to it, unless the path is too long. -/
theorem Sound.locate_of_isSome (hs : fs.Sound) {place : Location} (hp : Proper place)
    (hne : place ≠ []) (hsome : (fs.get? place).isSome)
    (hl : ∀ target, fs.get? place ≠ some (.link target)) :
    fs.locate ending (.fromRoot place) = .ok place ∨
      fs.locate ending (.fromRoot place) = .error .nameTooLong := by
  have hname : ¬isNameless place := hp.not_isNameless hne
  by_cases hsize : (Path.fromRoot place).text.utf8ByteSize ≤ maxPathSize
  · refine .inl (locate_fromRoot hsize hp (hs.short hname hsome) (fun top ht hnt => ?_) ?_)
    · exact hs.directory_of_isPrefix hname hsome ht hnt
    · exact fun target htarget => absurd htarget (hl target)
  · refine .inr ?_
    unfold locate locateRoute
    rw [if_pos (Nat.lt_of_not_le hsize)]

/-- In a sound tree nothing stands where a path from the root without links is found to lead to
nothing. -/
theorem Sound.none_of_status (hs : fs.Sound) {place : Location} (hp : Proper place)
    (hl : fs.LinkFree [] place) (hne : place ≠ [])
    (hfault : PathFault.ofText? (Path.fromRoot place).text = none)
    (h : fs.status ending (.fromRoot place) = .ok none) : fs.get? place = none := by
  rw [← Option.not_isSome_iff_eq_none]
  intro hsome
  unfold status at h
  rw [hfault] at h
  simp only [Option.isSome_none, Bool.false_eq_true, if_false] at h
  have hlead : fs.locate ending (.fromRoot place) = .ok place ∨
      fs.locate ending (.fromRoot place) = .error .nameTooLong :=
    hs.locate_of_isSome hp hne hsome (hl (List.prefix_refl _) hne)
  rcases hlead with hok | herr
  · rw [hok] at h
    simp only [Except.ok.injEq] at h
    rw [h] at hsome
    cases hsome
  · rw [herr] at h
    cases h

/-- Nothing has been removed where nothing stood. -/
theorem Sound.removed_of_none (hs : fs.Sound) {top : Location} (hn : fs.get? top = none) :
    Removed top fs fs := by
  refine ⟨fun hl ht => hs.none_of_isPrefix hn ht hl, fun _ => rfl, fun _ => rfl, fun hw => ?_, ?_, id⟩
  · have hthere : fs.get? top = some .directory := hs.working hw
    rw [hn] at hthere
    cases hthere
  cases hheld : fs.held with
  | none => rfl
  | some place => simp [Option.filter, within_eq_false (hs.not_isPrefix_held_of_none hn hheld)]

/-- Removing keeps what leads to a place beside what is removed. -/
theorem Removed.linkFree {top : Location} (h : Removed top fs t) {here : Location}
    {names : List String} (hl : fs.LinkFree here names) : t.LinkFree here names :=
  fun ht hne target hlink => hl ht hne target (h.link hlink)

end FileSystem

namespace Harvester

open FileSystem

variable {fs t : FileSystem}

/-- What clearing the place at the end of a path comes to. -/
inductive Clears (target : Path) (fs : FileSystem) : Except FileFailure Unit → FileSystem → Prop
  /-- It cannot be told what stands there. -/
  | lost {e : SystemError} (h : fs.status .follow target = .error e ∨ fs.status .keep target = .error e) :
      Clears target fs (.error (.system e)) fs
  /-- Nothing is found there, and nothing is done. -/
  | vacant (hfound : fs.status .follow target = .ok none) : Clears target fs (.ok ()) fs
  /-- A directory is removed with all that is below it. -/
  | tree {result : Except FileFailure Unit} {t : FileSystem} (hfound : fs.status .follow target = .ok (some .directory))
      (hplain : ∀ text, fs.status .keep target ≠ .ok (some (.link text)))
      (h : (removeTree target).run fs = (result, t)) : Clears target fs result t
  /-- Anything else is removed as a file is, a link to a directory included. -/
  | file {found : Entry} {result : Except FileFailure Unit} {t : FileSystem}
      (hfound : fs.status .follow target = .ok (some found))
      (hother : found = .directory → ∃ text, fs.status .keep target = .ok (some (.link text)))
      (h : (unlink target).run fs = (result, t)) : Clears target fs result t

/-- A place is cleared in one of these ways. -/
theorem clears_of_run {target : Path} {result : Except FileFailure Unit}
    (h : (clearPlace target).run fs = (result, t)) : Clears target fs result t := by
  rw [clearPlace, run_bind, run_look, pathExists] at h
  cases hfound : fs.status .follow target with
  | error e =>
    rw [hfound] at h
    cases h
    exact .lost (.inl hfound)
  | ok found =>
    rw [hfound] at h
    cases found with
    | none =>
      cases h
      exact .vacant hfound
    | some found =>
      simp only [Except.map, Except.mapError, Option.isSome_some, if_true] at h
      rw [run_bind, run_look, isDirectory, hfound] at h
      simp only [Except.map, Except.mapError] at h
      rw [run_bind, run_look, isLink] at h
      cases hhere : fs.status .keep target with
      | error e =>
        rw [hhere] at h
        cases h
        exact .lost (.inr hhere)
      | ok here =>
        rw [hhere] at h
        simp only [Except.map, Except.mapError] at h
        -- a link goes as a file does, and so what it leads to is not looked at again
        by_cases hlink : ∃ text, here = some (.link text)
        · obtain ⟨text, rfl⟩ := hlink
          exact .file hfound (fun _ => ⟨text, hhere⟩) (by simpa using h)
        · have hplain : ∀ text, fs.status .keep target ≠ .ok (some (.link text)) := by
            rintro text hthere
            exact hlink ⟨text, Except.ok.inj (hhere.symm.trans hthere)⟩
          by_cases hdirectory : found = .directory
          · subst hdirectory
            refine .tree hfound hplain ?_
            cases here with
            | none => simpa using h
            | some entry => cases entry <;> simp_all
          · refine .file hfound (fun hd => absurd hd hdirectory) ?_
            simpa [hdirectory] using h

/-- To clear a place preserves what removing what stands there preserves. -/
theorem preserves_clearPlace {I : FileSystem → Prop} {target : Path} (htree : Preserves I (removeTree target))
    (hfile : Preserves I (unlink target)) : Preserves I (clearPlace target) := by
  intro fs h
  rcases hrun : (clearPlace target).run fs with ⟨result, t⟩
  cases clears_of_run hrun with
  | lost | vacant => exact h
  | tree _ _ hremoves => exact htree.of_run h hremoves
  | file _ _ hremoves => exact hfile.of_run h hremoves

/-- To clear a place on a path without links removes what is at and below it, or changes nothing. -/
theorem run_clearPlace_cases (hs : fs.Sound) {place : Location} (hp : Proper place) (hne : place ≠ [])
    (hl : fs.LinkFree [] place) (hfault : PathFault.ofText? (Path.fromRoot place).text = none) :
    (∃ failure, (clearPlace (.fromRoot place)).run fs = (.error failure, fs)) ∨
      ∃ t, (clearPlace (.fromRoot place)).run fs = (.ok (), t) ∧ Removed place fs t := by
  rcases hrun : (clearPlace (.fromRoot place)).run fs with ⟨result, t⟩
  cases clears_of_run hrun with
  | lost => exact .inl ⟨_, rfl⟩
  | vacant hfound => exact .inr ⟨_, rfl, hs.removed_of_none (hs.none_of_status hp hl hne hfault hfound)⟩
  | tree hfound _ h =>
    obtain ⟨-, place', hfollow, hd⟩ := status_eq_some_iff.1 hfound
    obtain ⟨rfl, habove⟩ := locate_fromRoot_inv hfollow hp hl
    have hkeep : fs.locate .keep (.fromRoot place') = .ok place' := locate_of_linkFree hfollow hp hl
    -- the path still leads there when what is below has been removed
    have hcleared : (fs.clear place').locate .keep (.fromRoot place') = .ok place' := by
      refine locate_fromRoot (locate_eq_ok_iff.1 hkeep).1 hp
        (hs.short (hp.not_isNameless hne) (by simp [hd])) (fun top ht hnt => ?_) fun _ _ => rfl
      rw [get?_clear_of_not_below fun hle => ht.eq_of_length_le hle.length_le]
      exact habove top ht hnt
    have hlast : (Path.fromRoot place').names.getLast? = some (place'.getLast hne) :=
      List.getLast?_eq_some_getLast hne
    rw [run_removeTree hfault hkeep hd hcleared hlast (hp _ (List.getLast_mem hne)).2] at h
    cases h
    exact .inr ⟨_, rfl, removed_clear_remove fs place'⟩
  | file _ _ h =>
    cases unlinks_of_run h with
    | failed => exact .inl ⟨_, rfl⟩
    | removed _ hkeep =>
      obtain ⟨rfl, -⟩ := locate_fromRoot_inv hkeep hp hl
      exact .inr ⟨_, rfl, removed_remove fs _⟩

/-- Whether a tree is another after a package was moved from `src` to its place `dst`. -/
structure Harvested (src dst : Location) (fs t : FileSystem) : Prop where
  /-- The package stands at its place as it stood before, and nothing else stands there. -/
  arrived : ∀ {rest}, ¬isNameless (dst ++ rest) → t.get? (dst ++ rest) = fs.get? (src ++ rest)
  /-- Nothing is left where it stood. -/
  gone : ∀ {location}, ¬isNameless location → src <+: location → t.get? location = none
  /-- Directories lead to its place. -/
  above : ∀ {location}, location <+: dst → location ≠ dst → t.get? location = some .directory
  /-- Nothing else stood on the way to its place. -/
  way : ∀ {location entry}, location <+: dst → location ≠ dst → fs.get? location = some entry →
    entry = .directory
  /-- Everything else is as it was. -/
  kept : ∀ {location}, ¬location <+: dst → ¬dst <+: location → ¬src <+: location →
    t.get? location = fs.get? location
  /-- A working directory that was not in the package is where it was, or in what has taken its place. -/
  working : ¬src <+: fs.workingDirectory →
    Shifted dst.dropLast fs.workingDirectory t.workingDirectory
  /-- A file that is held open is let go when its place was cleared, and goes along when it is in the package. -/
  held : t.held = (fs.held.filter (!within dst ·)).map (moved src dst)
  /-- The tree is sound. -/
  sound : t.Sound

/-- Whether a tree is another after a package was to be moved from `src` to its place `dst`, whether or not it
was: beside these two places there are at most new directories, and links came with the package alone. -/
structure Disturbed (src dst : Location) (fs t : FileSystem) : Prop where
  /-- What is at neither of the two places, nor on the way to the second, is as it was. -/
  kept : ∀ {location}, ¬location <+: dst → ¬dst <+: location → ¬src <+: location →
    t.get? location = fs.get? location
  /-- On the way to the second place at most directories are new. -/
  above : ∀ {location}, location <+: dst → location ≠ dst →
    t.get? location = fs.get? location ∨ t.get? location = some .directory
  /-- A link there is one that stood there, or came with the package. -/
  links : ∀ {location target}, dst <+: location → t.get? location = some (.link target) →
    fs.get? location = some (.link target) ∨ ∃ rest, fs.get? (src ++ rest) = some (.link target)
  /-- A working directory that was not in the package is where it was, or in what has taken its place. -/
  working : ¬src <+: fs.workingDirectory →
    Shifted dst.dropLast fs.workingDirectory t.workingDirectory
  /-- If the package had no file that is held open, none is that was not. -/
  held : (∀ location, fs.held = some location → ¬src <+: location) →
    ∀ {location}, t.held = some location → fs.held = some location
  /-- The tree is sound. -/
  sound : t.Sound

/-- Nothing was disturbed where nothing was done. -/
theorem disturbed_refl {src dst : Location} (hs : fs.Sound) : Disturbed src dst fs fs :=
  ⟨fun _ _ _ => rfl, fun _ _ => .inl rfl, fun _ hl => .inl hl, fun _ => .refl _ _, fun _ _ hl => hl, hs⟩

/-- A package that was harvested disturbed no more than that. -/
theorem Harvested.disturbed {src dst : Location} (h : Harvested src dst fs t) :
    Disturbed src dst fs t := by
  refine ⟨h.kept, fun ha hne => .inr (h.above ha hne), fun {location target} hd hl => ?_, h.working,
    fun hsrc location hl => ?_, h.sound⟩
  · obtain ⟨rest, rfl⟩ := hd
    have hname := not_isNameless_of_get?_ne (by rw [hl]; simp)
    rw [h.arrived hname] at hl
    exact .inr ⟨rest, hl⟩
  · rw [h.held, Option.map_eq_some_iff] at hl
    obtain ⟨place, hplace, rfl⟩ := hl
    have hheld : fs.held = some place := (Option.filter_eq_some_iff.1 hplace).1
    rw [hheld, moved_of_not_isPrefix (hsrc place hheld)]

/-- A place that was cleared, with directories made on the way to it, was disturbed no more than that. -/
theorem disturbed_of_removed {src dst : Location} {u : FileSystem} (hu : Removed dst fs u)
    (hs : fs.Sound) (hg : Grown u t)
    (he : ∀ {location}, ¬location <+: dst.dropLast → t.get? location = u.get? location) :
    Disturbed src dst fs t := by
  have hup : dst.dropLast <+: dst := List.dropLast_prefix dst
  refine ⟨fun ha hb _ => ?_, fun {location} ha hne => ?_, fun {location target} hd hl => ?_, fun _ => ?_,
    fun _ location hl => ?_, hg.sound (hu.sound hs)⟩
  · rw [he fun hl => ha (hl.trans hup), hu.kept hb]
  · have hnot : ¬dst <+: location := fun hb => hne (ha.eq_of_length_le hb.length_le)
    rw [← hu.kept hnot]
    cases hbefore : u.get? location with
    | some entry => exact .inl (hg.kept hbefore)
    | none =>
      cases hafter : t.get? location with
      | none => exact .inl rfl
      | some entry =>
        rw [hg.new hbefore hafter]
        exact .inr rfl
  · have hname := not_isNameless_of_get?_ne (by rw [hl]; simp)
    have hnone : u.get? location = none := hu.gone hname hd
    cases hg.new hnone hl
  · rw [hg.working]
    exact hu.shifted
  · rw [hg.held, hu.held] at hl
    exact (Option.filter_eq_some_iff.1 hl).1

/-- What is transplanted to a place that was cleared, with directories that lead there, has been harvested. -/
theorem harvested_transplant (hs : fs.Sound) {src dst : Location} {u v : FileSystem} (hsrc : Proper src)
    (hsne : src ≠ []) (hp : Proper dst) (hne : dst ≠ []) (hin : ¬src <+: dst) (hout : ¬dst <+: src)
    (hremoved : Removed dst fs u) (hgrown : Grown u v)
    (hmade : ∀ location, v.get? location =
      if location <+: dst.dropLast then some .directory else u.get? location)
    (hvfree : v.get? dst = none) (hshort : Short dst) :
    Harvested src dst fs ((v.remove dst).transplant src dst) := by
  have hup : dst.dropLast <+: dst := List.dropLast_prefix dst
  have hvs : v.Sound := hgrown.sound (hremoved.sound hs)
  have hx := hvs.get?_remove_of_none hvfree
  have hxs : (v.remove dst).Sound := hvs.remove dst
  have hsrcname : ¬isNameless src := hsrc.not_isNameless hsne
  have hfree : ∀ l, dst <+: l → ¬isNameless l → (v.remove dst).get? l = none :=
    fun l hle hn => get?_remove_of_isPrefix hn hle
  constructor
  · intro rest hrest
    rw [get?_transplant_append hsrcname hfree hrest, hx, hmade, if_neg, hremoved.kept (not_prefix_append hout hin)]
    exact fun hle => hin ((List.prefix_append src rest).trans (hle.trans hup))
  · intro location hlocation hle
    rw [get?_transplant hlocation hsrcname hfree, if_neg, if_pos hle]
    intro hdst
    obtain ⟨rest, rfl⟩ := hle
    exact not_prefix_append hout hin hdst
  · intro location hle hnot
    have hnle : ¬dst <+: location := fun h' => hnot (hle.eq_of_length_le h'.length_le)
    rw [get?_transplant_of_not_isPrefix hsrcname hfree hnle fun h' => hin (h'.trans hle), hx, hmade,
      if_pos (isPrefix_dropLast hle hnot)]
  · intro location entry hle hnot hentry
    have hbefore : u.get? location = some entry := by
      rw [hremoved.kept fun h' => hnot (hle.eq_of_length_le h'.length_le), hentry]
    have hafter := hgrown.kept hbefore
    rw [hmade, if_pos (isPrefix_dropLast hle hnot)] at hafter
    cases hafter
    rfl
  · intro location hle hnle hsle
    rw [get?_transplant_of_not_isPrefix hsrcname hfree hnle hsle, hx, hmade, if_neg fun h' => hle (h'.trans hup),
      hremoved.kept hnle]
  · intro hsw
    have hworking : (v.remove dst).workingDirectory = u.workingDirectory := by
      rw [(removed_remove v dst).working (hvs.not_isPrefix_workingDirectory hvfree), hgrown.working]
    -- the working directory is where it was, or it was in the place and is gone; in neither case is it moved
    have hout' : ¬src <+: (v.remove dst).workingDirectory := by
      rw [hworking]
      rcases hremoved.working_cases with he | ⟨count, he⟩
      · rw [he]
        exact hsw
      · rw [he]
        exact fun hpre => hin ((isPrefix_of_not_isNameless hpre hsrcname).trans hup)
    show Shifted _ _ (moved src dst (v.remove dst).workingDirectory)
    rw [moved_of_not_isPrefix hout', hworking]
    exact hremoved.shifted
  · show (v.held.filter _).map _ = _
    rw [hgrown.held, hremoved.held, Option.filter_filter]
    simp
  · refine hxs.transplant hsrcname hp hne ?_ hshort ?_ hin
    · rw [hx, hvfree]
    · rw [hx, hmade, if_pos (List.prefix_refl _)]

/-- What putting something in the place of something else comes to. -/
inductive Replaces (src dst : Location) (fs : FileSystem) : Except FileFailure Unit → FileSystem → Prop
  /-- It fails and disturbs no more than the place. -/
  | disturbed {failure : FileFailure} {t : FileSystem} (h : Disturbed src dst fs t) :
      Replaces src dst fs (.error failure) t
  | harvested {t : FileSystem} (h : Harvested src dst fs t) : Replaces src dst fs (.ok ()) t

/-- Something is put in the place of something else, along a path from the root without links, in one of these
ways. -/
theorem replaces_of_run (hs : fs.Sound) {source : Path} {src dst : Location}
    (hsource : PathFault.ofText? source.text = none) (hname : isProperlyNamed source)
    (hfind : ∀ {u}, Removed dst fs u → ∀ {v}, Grown u v → v.locate .keep source = .ok src)
    (hsrc : Proper src) (hsne : src ≠ []) (hsome : (fs.get? src).isSome) (hp : Proper dst)
    (hne : dst ≠ []) (hfault : PathFault.ofText? (Path.fromRoot dst).text = none)
    (hl : fs.LinkFree [] dst) (hin : ¬src <+: dst) (hout : ¬dst <+: src) {outcome : Except FileFailure Unit}
    (hrun : (replacePlace source (.fromRoot dst)).run fs = (outcome, t)) : Replaces src dst fs outcome t := by
  rw [replacePlace, run_bind] at hrun
  rcases run_clearPlace_cases hs hp hne hl hfault with ⟨failure, hclear⟩ | ⟨u, hclear, hremoved⟩
  · rw [hclear] at hrun
    cases hrun
    exact .disturbed (disturbed_refl hs)
  rw [hclear] at hrun
  dsimp only at hrun
  have hus : u.Sound := hremoved.sound hs
  have hup : dst.dropLast <+: dst := List.dropLast_prefix dst
  have hproper : Proper dst.dropLast := hp.of_isPrefix hup
  have hfree : u.LinkFree [] dst := hremoved.linkFree hl
  have hparentfree : u.LinkFree [] dst.dropLast := fun ht => hfree (ht.trans hup)
  have hwritten : (Path.fromRoot dst).Written := hp.written
  rw [run_bind] at hrun
  rcases hparents : (makeDirectories (Path.fromRoot dst).parent).run u with ⟨failure | ⟨⟩, v⟩
  · rw [hparents] at hrun
    cases hrun
    exact .disturbed (disturbed_of_removed hremoved hs (grown_makeDirectories hus hwritten.parent hparents)
      (elsewhere_makeDirectories hus hproper hparentfree hparents))
  rw [hparents] at hrun
  dsimp only at hrun
  have hgrown : Grown u v := grown_makeDirectories hus hwritten.parent hparents
  have hmade : ∀ location, v.get? location =
      if location <+: dst.dropLast then some .directory else u.get? location :=
    run_makeDirectories_fromRoot_ok hus hproper hparentfree hparents
  -- the place is free still, since only what is above it was made, and the source is where it was
  have hvfree : v.get? dst = none := by
    rw [hmade, if_neg (not_isPrefix_dropLast hne), hremoved.gone (hp.not_isNameless hne) (List.prefix_refl dst)]
  obtain ⟨entry, hentry⟩ : ∃ entry, fs.get? src = some entry := Option.isSome_iff_exists.1 hsome
  have hventry : v.get? src = some entry :=
    hgrown.kept (by rw [hremoved.kept hout, hentry])
  rcases run_move_cases hsource (hfind hremoved hgrown) hventry hname hp hne (hgrown.linkFree hfree)
    hvfree hin with ⟨failure, hmove⟩ | ⟨hmove, hshort⟩
  · rw [hmove] at hrun
    cases hrun
    exact .disturbed (disturbed_of_removed hremoved hs hgrown
      (elsewhere_makeDirectories hus hproper hparentfree hparents))
  · rw [hmove] at hrun
    cases hrun
    exact .harvested (harvested_transplant hs hsrc hsne hp hne hin hout hremoved hgrown hmade hvfree hshort)

/-- What a failure of file work is told as when a reason is given for it. -/
def faulted (fault : SystemError → HarvestFault) : FileFailure → Failure
  | .system e => .generation { cause := .harvest (fault e) }
  | .unnameable problem => Host.failureOfPath problem

/-- File work under a reason for its failure ends as it does without, and its failure is told as that. -/
theorem run_orFault (fault : SystemError → HarvestFault) (work : FileAction Unit) (host : Host) :
    (orFault fault work).run host =
      ((work.run host.files).1.mapError (faulted fault), { host with files := (work.run host.files).2 }) := by
  unfold orFault
  rw [run_tryCatch, run_withFiles]
  rcases work.run host.files with ⟨failure | ⟨⟩, files⟩
  · cases failure with
    | system e => rfl
    | unnameable problem => cases problem <;> rfl
  · rfl

/-- What collecting the package for a name comes to. -/
inductive Harvests (directory output : Path) (name : String) (host : Host) : Except Failure Path → Host → Prop
  /-- It cannot be seen whether there is a package. -/
  | unseen {e : SystemError} (h : host.files.pathExists (sourcePath directory name) = .error e) :
      Harvests directory output name host (.error (.system e)) host
  /-- There is no package. -/
  | missing (h : host.files.pathExists (sourcePath directory name) = .ok false) :
      Harvests directory output name host
        (.error (.generation { cause := .harvest (.outputMissing (sourcePath directory name).text) })) host
  /-- The package cannot be put in the place of what is there. -/
  | unmoved {entry : Entry} {failure : FileFailure} {files : FileSystem}
      (hfound : host.files.status .follow (sourcePath directory name) = .ok (some entry))
      (h : (replacePlace (sourcePath directory name) (output.child name)).run host.files = (.error failure, files)) :
      Harvests directory output name host
        (.error (faulted (.cannotMove (sourcePath directory name).text (output.child name).text) failure))
        { host with files }
  /-- The package is put there, and that is noted. -/
  | moved {entry : Entry} {files : FileSystem} {host' : Host}
      (hfound : host.files.status .follow (sourcePath directory name) = .ok (some entry))
      (h : (replacePlace (sourcePath directory name) (output.child name)).run host.files = (.ok (), files))
      (hnoted : Noted { host with files } host') :
      Harvests directory output name host (.ok (output.child name)) host'

/-- A package is collected in one of these ways. -/
theorem harvests_of_run {directory output : Path} {name : String} {host host' : Host}
    {result : Except Failure Path}
    (h : (harvest directory output name .package).run host = (result, host')) :
    Harvests directory output name host result host' := by
  unfold harvest at h
  dsimp only at h
  rw [run_bind, run_hostLook] at h
  cases hexists : host.files.pathExists (sourcePath directory name) with
  | error e =>
    rw [hexists] at h
    cases h
    exact .unseen hexists
  | ok found =>
    rw [hexists] at h
    cases found with
    | false =>
      cases h
      exact .missing hexists
    | true =>
      obtain ⟨entry, hfound⟩ := pathExists_eq_true_iff.1 hexists
      simp only [Except.mapError, Bool.not_true, Bool.false_eq_true, if_false] at h
      rw [run_bind, run_orFault] at h
      rcases hreplace : (replacePlace (sourcePath directory name) (output.child name)).run host.files with
        ⟨failure | ⟨⟩, files⟩
      · rw [hreplace] at h
        cases h
        exact .unmoved hfound hreplace
      · rw [hreplace] at h
        obtain ⟨noted, hnote, hnoted⟩ := exists_run_note (.harvested name (output.child name).text)
          { host with files }
        simp only [Except.mapError, run_bind_of_ok hnote] at h
        cases h
        exact .moved hfound hreplace hnoted

/-- A package that was harvested was put at its place below the output directory. -/
theorem run_harvest_path {directory output path : Path} {name : String} {host host' : Host}
    (h : (harvest directory output name .package).run host = (.ok path, host')) :
    path = output.child name := by
  cases harvests_of_run h with
  | moved => rfl

/-- What finishing the output directory comes to. -/
inductive Finishes (output : Path) (host : Host) : Except Failure Unit → Host → Prop
  /-- The marker cannot be written, and nothing changes. -/
  | unmarked {failure : FileFailure}
      (h : (writeText (output.child markerName) "").run host.files = (.error failure, host.files)) :
      Finishes output host (.error (faulted (.cannotMark (output.child markerName).text) failure)) host
  /-- There is an empty marker. -/
  | marked {files : FileSystem} (h : (writeText (output.child markerName) "").run host.files = (.ok (), files)) :
      Finishes output host (.ok ()) { host with files }

/-- The output directory is finished in one of these ways. -/
theorem finishes_of_run {output : Path} {host host' : Host} {result : Except Failure Unit}
    (h : (package.finalize output).run host = (result, host')) : Finishes output host result host' := by
  change (orFault _ _).run host = _ at h
  rw [run_orFault] at h
  rcases hwrite : (writeText (output.child markerName) "").run host.files with ⟨failure | ⟨⟩, files⟩
  · obtain rfl := run_writeText_error hwrite
    rw [hwrite] at h
    cases h
    exact .unmarked hwrite
  · rw [hwrite] at h
    cases h
    exact .marked hwrite

end Harvester

end ProviderBindings
