import ProviderBindings.Proofs.Collecting

/-!
# Whether a package takes its place

A harvest clears the place of the package, makes the missing directories on the way to it and renames the package to it.
A package is *deliverable* when nothing is in its way but what stands at the place: the parent of the place is a
directory or can be made one, and neither the path of the place nor that of the package leads through what stands there.
Along plain paths, and with neither of the two inside the other, it is enough that the parent can be made
(`Harvester.deliverable_of_plain`).

A deliverable package takes its place whatever stands there, with one exception (`Harvester.run_harvest_ok_iff`): a link
that leads nowhere passes for nothing when the place is looked at, so that it is not removed, and a directory cannot be
renamed to it. Then the harvest fails with an error of its own and changes nothing.
-/

namespace ProviderBindings

namespace FileSystem

variable {fs t : FileSystem} {p : Path} {place : Location}

/-- The tree without what stands where a path leads when a link at its end is kept. -/
def without (fs : FileSystem) (p : Path) : FileSystem :=
  match fs.locate .keep p with
  | .ok place => if (fs.get? place).isSome then fs.remove place else fs
  | .error _ => fs

/-- What stands where a path leads is missing in the tree without it. -/
theorem without_of_isSome (hl : fs.locate .keep p = .ok place) (hsome : (fs.get? place).isSome) :
    fs.without p = fs.remove place := by
  unfold without
  rw [hl]
  exact if_pos hsome

/-- A path leads on to what is no link, also when links at its end are followed. -/
theorem locate_follow_of_keep (hl : fs.locate .keep p = .ok place)
    (hlink : ∀ target, fs.get? place ≠ some (.link target)) : fs.locate .follow p = .ok place := by
  obtain ⟨hsize, links, hle, hlead⟩ := locate_eq_ok_iff.1 hl
  exact locate_eq_ok_iff.2 ⟨hsize, links, hle, hlead.follow hlink⟩

/-- Where a path is found to lead to nothing, no link apart, the tree is the one without what stands there. -/
theorem without_of_status_none (hfault : PathFault.ofText? p.text = none) (hstatus : fs.status .follow p = .ok none)
    (hlink : ∀ target, fs.status .keep p ≠ .ok (some (.link target))) : fs.without p = fs := by
  unfold without
  split
  · next place hl =>
    refine if_neg fun hsome => ?_
    obtain ⟨entry, hentry⟩ := Option.isSome_iff_exists.1 hsome
    have hplain : ∀ target, fs.get? place ≠ some (.link target) := fun target htarget =>
      hlink target (status_eq_some_iff.2 ⟨hfault, place, hl, htarget⟩)
    rw [status_eq_some_iff.2 ⟨hfault, place, locate_follow_of_keep hl hplain, hentry⟩] at hstatus
    cases hstatus
  · rfl

/-! ## Paths to a place that is cleared -/

/-- Names that lead somewhere from what is left of a location lead there from the location. -/
theorem Leads.of_detached {ending : Ending} {links : Nat} {a b : Location} {names : List String}
    (h : fs.Leads ending links b names place) (hab : Detached a b) (hgone : isGone place = false) :
    fs.Leads ending links a names place := by
  -- the walk goes up from what is gone until it is where the other is, or ends there
  induction h generalizing a with
  | done => exact hab.eq_of_not_gone hgone ▸ .done
  | idle hidle _ ih => exact .idle hidle (ih hab hgone)
  | up _ ih => exact .up (ih hab.dropLast hgone)
  | enter hpass hdir hrest => exact hab.eq_of_not_gone hpass.notGone ▸ .enter hpass hdir hrest
  | last hpass hdir hlink => exact hab.eq_of_not_gone hpass.notGone ▸ .last hpass hdir hlink
  | link hpass hlink hkeep hrest => exact hab.eq_of_not_gone hpass.notGone ▸ .link hpass hlink hkeep hrest

/-- What is left of the working directory when a location is taken out is left of what it is when that is cleared. -/
theorem detached_clear_remove (fs : FileSystem) (top : Location) :
    Detached (fs.clear top).workingDirectory (fs.remove top).workingDirectory := by
  rw [← remove_clear]
  by_cases hin : top <+: (fs.clear top).workingDirectory
  · rw [(removed_remove (fs.clear top) top).detached hin]
    exact detached_detach ((List.dropLast_prefix top).trans hin)
  · rw [(removed_remove (fs.clear top) top).working hin]
    exact .refl _

/-- What is in a tree without a location is in the tree in which only what is below it is missing. -/
theorem carries_remove_clear (fs : FileSystem) (top : Location) : Carries (fs.remove top) (fs.clear top) := by
  intro location entry hentry
  rw [get?_remove] at hentry
  rw [get?_clear]
  split at hentry
  · cases hentry
  · next hout =>
    rw [if_neg fun hin => hout ⟨hin.1, hin.2.2⟩]
    exact Carries.refl fs hentry

/-- A path that leads to a directory with and without it leads there also when the directory is emptied. -/
theorem locate_clear (hd : fs.get? place = some .directory) (hgone : isGone place = false)
    (hl : (fs.remove place).locate .keep p = .ok place) : (fs.clear place).locate .keep p = .ok place := by
  obtain ⟨hsize, links, hle, hlead⟩ := locate_eq_ok_iff.1 hl
  have hthere : (fs.clear place).get? place = some .directory := by
    rw [get?_clear_of_not_below fun _ => rfl, hd]
  refine locate_eq_ok_iff.2 ⟨hsize, links, hle, ?_⟩
  have hcarried := hlead.carried (carries_remove_clear fs place) fun _ target => by simp [hthere]
  exact hcarried.of_detached ((detached_clear_remove fs place).startOf p) hgone

/-- A file or link that a path leads to is removed. -/
theorem run_unlink (hfault : PathFault.ofText? p.text = none) (hl : fs.locate .keep p = .ok place) {entry : Entry}
    (hentry : fs.get? place = some entry) (hplain : entry ≠ .directory) :
    (unlink p).run fs = (.ok (), fs.remove place) := by
  have hfirst : (locateM .keep p).run fs = (.ok place, fs) := run_locateM_ok_iff.2 ⟨hfault, hl, rfl⟩
  rw [unlink, run_bind_of_ok hfirst, run_bind, run_get]
  dsimp only
  rw [hentry]
  cases entry with
  | directory => exact absurd rfl hplain
  | file content executable => rfl
  | link target => rfl

/-! ## Names at the end of a path -/

/-- A path with a name at its end that can be renamed from and to is that of its parent with this name. -/
theorem exists_of_isProperlyNamed (hp : p.Written) (hnamed : isProperlyNamed p) :
    ∃ names name, p.names = names ++ [name] ∧ Proper [name] := by
  unfold isProperlyNamed at hnamed
  simp only [Bool.and_eq_true, Bool.not_eq_true', List.isEmpty_eq_false_iff, bne_iff_ne] at hnamed
  obtain ⟨hne, hup⟩ := hnamed
  refine ⟨p.names.dropLast, p.names.getLast hne, (List.dropLast_append_getLast hne).symm, fun name hname => ?_⟩
  obtain rfl := List.mem_singleton.1 hname
  refine ⟨hp _ (List.getLast_mem hne), fun he => hup ?_⟩
  rw [Path.name, List.getLastD_eq_getLast?, List.getLast?_eq_some_getLast hne, he]
  rfl

/-- What such a path leads to has a name, in a directory to which the parent leads. -/
theorem Sound.locate_parent (hs : fs.Sound) (hp : p.Written) (hnamed : isProperlyNamed p)
    (hl : fs.locate .keep p = .ok place) :
    ¬isNameless place ∧ fs.locate .follow p.parent = .ok place.dropLast ∧ fs.get? place.dropLast = some .directory := by
  obtain ⟨names, name, hnames, hname⟩ := exists_of_isProperlyNamed hp hnamed
  obtain ⟨anchor, all⟩ := p
  obtain rfl : all = names ++ [name] := hnames
  obtain ⟨middle, hmiddle, rfl⟩ := exists_locate_of_concat hl hname
  have hnameless : ¬isNameless (middle ++ [name]) := by
    rw [isNameless_append (by simp)]
    exact hname.not_isNameless (by simp)
  obtain ⟨-, -, -, hparent⟩ := hs.named_place hp hl hnameless
  refine ⟨hnameless, ?_, hparent⟩
  rw [List.dropLast_concat]
  simpa [Path.parent] using hmiddle

/-- The parent of such a path need not be made when the path leads somewhere. -/
theorem Sound.run_makeDirectories_parent (hs : fs.Sound) (hp : p.Written) (hnamed : isProperlyNamed p)
    (hfault : PathFault.ofText? p.text = none) (hl : fs.locate .keep p = .ok place) :
    (makeDirectories p.parent).run fs = (.ok (), fs) := by
  obtain ⟨-, hparent, hd⟩ := hs.locate_parent hp hnamed hl
  have hsay : p.parent.Sayable := Path.Sayable.parent ⟨hp, PathFault.ofText?_text.1 hfault⟩
  exact run_makeDirectories_of_directory hp.parent (isDirectory_eq_true_iff.2 ⟨hsay.text, _, hparent, hd⟩)

/-! ## Plain paths to a place that is cleared -/

/-- In the tree without what stands where a path leads, that has been removed. -/
theorem Sound.removed_without (hs : fs.Sound) (hl : fs.locate .keep p = .ok place) :
    Removed place fs (fs.without p) := by
  by_cases hsome : (fs.get? place).isSome
  · rw [without_of_isSome hl hsome]
    exact removed_remove fs place
  · unfold without
    rw [hl]
    dsimp only
    rw [if_neg hsome]
    exact hs.removed_of_none (by simpa using hsome)

/-- A path starts where it did when nothing was removed that it spells or that is above what it spells. -/
theorem Removed.startOf_eq {top : Location} (h : Removed top fs t) (hout : ¬top <+: fs.endOf p) :
    t.startOf p = fs.startOf p := by
  unfold endOf FileSystem.startOf at *
  split
  · rfl
  · next hrelative =>
    rw [if_neg hrelative] at hout
    exact h.working fun hin => hout (hin.trans (List.prefix_append _ _))

/-- A plain path leads where it spells also in another tree in which it starts at the same location and directories lead
to its parent. -/
theorem Plain.locate_of_rooted (hp : fs.Plain p) (hs : fs.Sound) (hne : p.names ≠ [])
    (hl : fs.locate .keep p = .ok (fs.endOf p)) (hstart : t.startOf p = fs.startOf p)
    (hroot : t.Rooted (fs.endOf p).dropLast) : t.locate .keep p = .ok (fs.endOf p) := by
  obtain ⟨hsize, links, -, hlead⟩ := locate_eq_ok_iff.1 hl
  obtain ⟨-, hshort, -⟩ := hs.named_place hp.written hl (hp.not_isNameless hne)
  refine locate_eq_ok_iff.2 ⟨hsize, 0, Nat.zero_le _, hstart ▸ ?_⟩
  refine leads_of_directories hp.proper (fun name hname => hshort name (List.mem_append_right _ hname))
    (hlead.not_gone hp.proper hne) (fun top ht hne' _ => hroot ?_) fun _ _ _ => rfl
  exact isPrefix_dropLast ((List.prefix_append_right_inj _).2 ht) fun he => hne' (List.append_cancel_left he)

end FileSystem

namespace Harvester

open FileSystem

variable {fs t : FileSystem} {source target directory output : Path} {src dst place : Location} {name : String}
  {host : Host}

/-! ## Clearing and moving -/

/-- A place at which something is found is cleared of it, when its path does not lead through that. -/
theorem run_clearPlace_found (hs : fs.Sound) (hp : target.Written) (hnamed : isProperlyNamed target) {found : Entry}
    (hfound : fs.status .follow target = .ok (some found)) (hl : fs.locate .keep target = .ok place)
    (hdirect : (fs.remove place).locate .keep target = .ok place) {entry : Entry}
    (hentry : fs.get? place = some entry) :
    (clearPlace target).run fs = (.ok (), fs.remove place) := by
  obtain ⟨hfault, other, hfollow, hother⟩ := status_eq_some_iff.1 hfound
  have hkeep : fs.status .keep target = .ok (some entry) := status_eq_some_iff.2 ⟨hfault, place, hl, hentry⟩
  -- what is found is what stands there, a link apart
  have hsame : (∀ text, entry ≠ .link text) → found = entry := by
    intro hlink
    have hthere := locate_follow_of_keep hl fun text htext => hlink text (Option.some.inj (hentry.symm.trans htext))
    rw [hthere] at hfollow
    cases hfollow
    exact Option.some.inj (hother.symm.trans hentry)
  rcases hrun : (clearPlace target).run fs with ⟨result, t⟩
  cases clears_of_run hrun with
  | lost h =>
    rcases h with h | h
    · cases hfound.symm.trans h
    · cases hkeep.symm.trans h
  | vacant h => cases hfound.symm.trans h
  | tree hdirectory hplain h =>
    obtain rfl : found = .directory := Option.some.inj (Except.ok.inj (hfound.symm.trans hdirectory))
    obtain rfl : entry = .directory := (hsame fun text he => hplain text (he ▸ hkeep)).symm
    obtain ⟨names, last, hnames, hlast⟩ := exists_of_isProperlyNamed hp hnamed
    obtain ⟨hnameless, -⟩ := hs.locate_parent hp hnamed hl
    have hgone : isGone place = false := by simp [isGone, hnameless]
    rw [run_removeTree hfault hl hentry (locate_clear hentry hgone hdirect) (by rw [hnames, List.getLast?_concat])
      (hlast last (by simp)).2, remove_clear] at h
    exact h.symm
  | file hother hdirectory h =>
    obtain rfl := Option.some.inj (Except.ok.inj (hfound.symm.trans hother))
    have hplain : entry ≠ .directory := by
      rintro rfl
      obtain ⟨text, htext⟩ := hdirectory (hsame (by simp))
      cases hkeep.symm.trans htext
    rw [run_unlink hfault hl hentry hplain] at h
    exact h.symm

/-- A place at which nothing is found is not cleared. -/
theorem run_clearPlace_none (hstatus : fs.status .follow target = .ok none) :
    (clearPlace target).run fs = (.ok (), fs) := by
  rw [clearPlace, run_bind, run_look, pathExists, hstatus]
  rfl

/-- A directory cannot take the place of a link, and trying changes nothing. -/
theorem run_move_onto_link (hsource : source.Written) (hp : target.Written) (hname : isProperlyNamed source)
    (hname' : isProperlyNamed target) (hfault' : PathFault.ofText? target.text = none)
    (hd : fs.status .keep source = .ok (some .directory)) (hl : fs.locate .keep target = .ok dst) {text : String}
    (hlink : fs.get? dst = some (.link text)) (hshows : fs.showsDirectory target.text = false) :
    ∃ e, (move source target).run fs = (.error (.system e), fs) := by
  obtain ⟨hfault, src, hsrc, hdirectory⟩ := status_eq_some_iff.1 hd
  have hfollow : fs.locate .follow source = .ok src := locate_follow_of_keep hsrc fun t ht => by
    rw [hdirectory] at ht
    cases ht
  -- the rename fails as a directory replaces no link, and the copy as its directory cannot be made there
  have hrename : ∃ e, (rename source target).run fs = (.error (.system e), fs) := by
    have hne : (src == dst) = false := by
      rw [beq_eq_false_iff_ne]
      rintro rfl
      rw [hdirectory] at hlink
      cases hlink
    have hreplace : fs.replaceable .directory dst = .error .notADirectory := by
      unfold replaceable
      rw [hlink]
    rw [rename, run_bind_of_ok (run_requirePath_of_none hfault), run_bind_of_ok (run_requirePath_of_none hfault'),
      run_bind, run_get]
    dsimp only
    rw [hsrc, hl]
    dsimp only
    rw [hname, hname', hdirectory]
    dsimp only
    rw [hne, hreplace]
    cases within src dst <;> exact ⟨_, rfl⟩
  have hmake : ∃ e, (moveByCopy source target).run fs = (.error (.system e), fs) := by
    have hfirst : (locateM .follow source).run fs = (.ok src, fs) := run_locateM_ok_iff.2 ⟨hfault, hfollow, rfl⟩
    rw [moveByCopy, run_bind_of_ok hfirst, run_bind, run_get]
    dsimp only
    rw [run_bind, makeDirectory, run_makeDirectoryAt, hfault', locateText_text fs _ hp, hl]
    simp [hlink]
  obtain ⟨e, hrename⟩ := hrename
  have hsourceShows : fs.showsDirectory source.text = true := by
    unfold showsDirectory glance
    rw [hfault, locateText_text fs _ hsource, hfollow]
    simp [Except.toOption, hdirectory]
  rw [move, run_bind, run_get]
  dsimp only
  rw [hshows]
  simp only [Bool.not_false, if_true]
  rw [moveTo, run_orElse, hrename]
  dsimp only
  rw [run_bind, run_get]
  dsimp only
  rw [hd]
  dsimp only
  rw [hsourceShows]
  simp only [if_true]
  split
  · exact ⟨_, rfl⟩
  · exact hmake

/-! ## Deliverable packages -/

/-- Whether a package can be moved from one path to another whatever stands there. In the tree `t` the missing
directories on the way have been made, and the place of the package is `dst`; when that is cleared, the package stands
at `src`. -/
structure Deliverable (source target : Path) (fs t : FileSystem) (src dst : Location) : Prop where
  /-- The package is a directory. -/
  package : fs.isDirectory source = .ok true
  /-- Its path ends in a name that a thing can be renamed from. -/
  sourceNamed : isProperlyNamed source
  /-- The path of its place ends in one that a thing can be renamed to. -/
  targetNamed : isProperlyNamed target
  /-- The operating system takes the path of its place. -/
  faultless : PathFault.ofText? target.text = none
  /-- The parent of the place is a directory or can be made one. -/
  made : (makeDirectories target.parent).run fs = (.ok (), t)
  /-- Then the path leads to the place. -/
  leadsTo : t.locate .keep target = .ok dst
  /-- There the same stands as before, or nothing. -/
  new : t = fs ∨ t.get? dst = none
  /-- The path does not lead through what stands there. -/
  direct : (t.without target).locate .keep target = .ok dst
  /-- Neither does that of the package. -/
  leads : (t.without target).locate .keep source = .ok src
  /-- Something stands at the end of it. -/
  there : ((t.without target).get? src).isSome
  /-- The place of the package is not in the package. -/
  apart : ¬src <+: dst

/-- Whether something stands in the way of a package: its place cannot be looked up, or a link is there that leads to
nothing and is not to be replaced by another link. -/
def Blocked (source target : Path) (fs : FileSystem) : Prop :=
  (∀ found, fs.status .follow target ≠ .ok found) ∨
    fs.status .follow target = .ok none ∧ (∃ text, fs.status .keep target = .ok (some (.link text))) ∧
      ∀ text, fs.status .keep source ≠ .ok (some (.link text))

/-- The text of the path of a deliverable package has no fault. -/
theorem Deliverable.faultless_source (h : Deliverable source target fs t src dst) :
    PathFault.ofText? source.text = none :=
  (isDirectory_eq_true_iff.1 h.package).1

/-- When the path leads somewhere from the first, it leads to the place, and nothing is to be made. -/
theorem Deliverable.eq_of_locate (h : Deliverable source target fs t src dst) (hs : fs.Sound) (hp : target.Written)
    (hl : fs.locate .keep target = .ok place) : fs = t ∧ dst = place := by
  have hnothing := hs.run_makeDirectories_parent hp h.targetNamed h.faultless hl
  rw [h.made] at hnothing
  obtain rfl : fs = t := (congrArg Prod.snd hnothing).symm
  exact ⟨rfl, Except.ok.inj (h.leadsTo.symm.trans hl)⟩

/-- When nothing is found at the place, and no link, nothing stands there after the parent was made either. -/
theorem Deliverable.without_eq (h : Deliverable source target fs t src dst)
    (hstatus : fs.status .follow target = .ok none)
    (hlink : ∀ text, fs.status .keep target ≠ .ok (some (.link text))) : t.without target = t := by
  rcases h.new with rfl | hnone
  · exact without_of_status_none h.faultless hstatus hlink
  · unfold without
    rw [h.leadsTo]
    exact if_neg (by simp [hnone])

/-- Where the place was cleared, a deliverable package is moved there. -/
theorem Deliverable.exists_run_move (h : Deliverable source target fs t src dst) (hs : fs.Sound) (hp : target.Written) :
    ∃ u, (move source target).run (t.without target) = (.ok (), u) := by
  have hts : t.Sound := (run_makeDirectories_ok hs hp.parent h.made).1.sound hs
  obtain ⟨hname, -⟩ := hts.locate_parent hp h.targetNamed h.leadsTo
  have hfree : (t.without target).get? dst = none := (hts.removed_without h.leadsTo).gone hname (List.prefix_refl _)
  obtain ⟨entry, hentry⟩ := Option.isSome_iff_exists.1 h.there
  refine ⟨_, run_move_of_rename (showsDirectory_text hp fun other hother hd => ?_)
    (run_rename h.faultless_source h.faultless h.leads h.direct hentry hfree h.sourceNamed h.targetNamed h.apart)⟩
  obtain ⟨keep, hkeep, hsome⟩ := locate_keep hother (by simp [hd])
  rw [h.direct] at hkeep
  cases hkeep
  simp [hfree] at hsome

/-- A deliverable package takes its place when what stands there is found. -/
theorem Deliverable.run_replacePlace_found (h : Deliverable source target fs t src dst) (hs : fs.Sound)
    (hp : target.Written) {found : Entry} (hfound : fs.status .follow target = .ok (some found)) :
    ∃ u, (replacePlace source target).run fs = (.ok (), u) := by
  obtain ⟨-, other, hfollow, hother⟩ := status_eq_some_iff.1 hfound
  obtain ⟨place, hl, hsome⟩ := locate_keep hfollow (by simp [hother])
  obtain ⟨entry, hentry⟩ := Option.isSome_iff_exists.1 hsome
  obtain ⟨rfl, rfl⟩ := h.eq_of_locate hs hp hl
  have hdirect := h.direct
  rw [without_of_isSome hl hsome] at hdirect
  have hclear := run_clearPlace_found hs hp h.targetNamed hfound hl hdirect hentry
  have hmade := (hs.remove dst).run_makeDirectories_parent hp h.targetNamed h.faultless hdirect
  obtain ⟨u, hmove⟩ := h.exists_run_move hs hp
  rw [without_of_isSome hl hsome] at hmove
  exact ⟨u, by rw [replacePlace, run_bind_of_ok hclear, run_bind_of_ok hmade, hmove]⟩

/-- A deliverable package takes its place when nothing stands there. -/
theorem Deliverable.run_replacePlace_free (h : Deliverable source target fs t src dst) (hs : fs.Sound)
    (hp : target.Written) (hstatus : fs.status .follow target = .ok none)
    (hlink : ∀ text, fs.status .keep target ≠ .ok (some (.link text))) :
    ∃ u, (replacePlace source target).run fs = (.ok (), u) := by
  obtain ⟨u, hmove⟩ := h.exists_run_move hs hp
  rw [h.without_eq hstatus hlink] at hmove
  exact ⟨u, by rw [replacePlace, run_bind_of_ok (run_clearPlace_none hstatus), run_bind_of_ok h.made, hmove]⟩

/-- A link takes the place of one that leads to nothing. -/
theorem Deliverable.run_replacePlace_link (h : Deliverable source target fs t src dst) (hs : fs.Sound)
    (hp : target.Written) (hstatus : fs.status .follow target = .ok none) {text : String}
    (hlink : fs.status .keep target = .ok (some (.link text))) {text' : String}
    (hsource : fs.status .keep source = .ok (some (.link text'))) :
    ∃ u, (replacePlace source target).run fs = (.ok (), u) := by
  obtain ⟨-, place, hl, hentry⟩ := status_eq_some_iff.1 hlink
  obtain ⟨-, package, hpackage, hentry'⟩ := status_eq_some_iff.1 hsource
  obtain ⟨rfl, rfl⟩ := h.eq_of_locate hs hp hl
  have hleads := h.leads
  have hthere := h.there
  rw [without_of_isSome hl (by simp [hentry])] at hleads hthere
  -- the package is found where it is without the link, and that is not below the link
  have hworking : ¬dst <+: fs.workingDirectory := by
    intro hin
    rw [hs.working hin] at hentry
    cases hentry
  have hcarries : Carries (fs.remove dst) fs := by
    intro location entry hkept
    rw [get?_remove] at hkept
    split at hkept
    · cases hkept
    · exact Carries.refl fs hkept
  have hsame : fs.locate .keep source = .ok src := by
    refine locate_carried hleads hcarries (startOf_eq ((removed_remove fs dst).working hworking).symm _) fun hnone => ?_
    simp [hnone] at hthere
  obtain rfl : package = src := Except.ok.inj (hpackage.symm.trans hsame)
  have hreplace : fs.replaceable (.link text') dst = .ok () := by
    unfold replaceable
    rw [hentry]
  have hrename := run_rename_of_replaceable h.faultless_source h.faultless hsame hl hentry' hreplace h.sourceNamed
    h.targetNamed h.apart
  have hmove := run_move_of_rename (showsDirectory_of_status_none hp h.faultless hstatus) hrename
  refine ⟨(fs.remove dst).transplant package dst, ?_⟩
  rw [replacePlace, run_bind_of_ok (run_clearPlace_none hstatus),
    run_bind_of_ok (hs.run_makeDirectories_parent hp h.targetNamed h.faultless hl), hmove]

/-- A package whose place is blocked does not take it, and nothing changes. -/
theorem Deliverable.run_replacePlace_blocked (h : Deliverable source target fs t src dst) (hs : fs.Sound)
    (hsource : source.Written) (hp : target.Written) (hblocked : Blocked source target fs) :
    ∃ e, (replacePlace source target).run fs = (.error (.system e), fs) := by
  rcases hblocked with hlost | ⟨hstatus, ⟨text, hlink⟩, hplain⟩
  · have hclear : ∃ e, (clearPlace target).run fs = (.error (.system e), fs) := by
      rw [clearPlace, run_bind, run_look, pathExists]
      cases hstatus : fs.status .follow target with
      | ok found => exact absurd hstatus (hlost found)
      | error e => exact ⟨e, rfl⟩
    obtain ⟨e, hclear⟩ := hclear
    exact ⟨e, by rw [replacePlace, run_bind_of_error hclear]⟩
  · obtain ⟨-, place, hl, hentry⟩ := status_eq_some_iff.1 hlink
    -- the package is no link, so that a directory is what stands there
    obtain ⟨hfault, package, hfollow, hd⟩ := isDirectory_eq_true_iff.1 h.package
    obtain ⟨other, hkeep, hsome⟩ := locate_keep hfollow (by simp [hd])
    have hsame : fs.locate .follow source = .ok other := locate_follow_of_keep hkeep fun t ht =>
      hplain t (status_eq_some_iff.2 ⟨hfault, other, hkeep, ht⟩)
    obtain rfl : package = other := Except.ok.inj (hfollow.symm.trans hsame)
    obtain ⟨e, hmove⟩ := run_move_onto_link hsource hp h.sourceNamed h.targetNamed h.faultless
      (status_eq_some_iff.2 ⟨hfault, package, hkeep, hd⟩) hl hentry
      (showsDirectory_of_status_none hp h.faultless hstatus)
    refine ⟨e, ?_⟩
    rw [replacePlace, run_bind_of_ok (run_clearPlace_none hstatus),
      run_bind_of_ok (hs.run_makeDirectories_parent hp h.targetNamed h.faultless hl), hmove]

/-- A deliverable package takes its place unless that is blocked. -/
theorem Deliverable.run_replacePlace_ok (h : Deliverable source target fs t src dst) (hs : fs.Sound)
    (hp : target.Written) (hopen : ¬Blocked source target fs) :
    ∃ u, (replacePlace source target).run fs = (.ok (), u) := by
  unfold Blocked at hopen
  push Not at hopen
  obtain ⟨⟨found, hfound⟩, hreplace⟩ := hopen
  cases found with
  | some entry => exact h.run_replacePlace_found hs hp hfound
  | none =>
    by_cases hlink : ∃ text, fs.status .keep target = .ok (some (.link text))
    · obtain ⟨text, hlink⟩ := hlink
      obtain ⟨text', hsource⟩ := hreplace hfound ⟨text, hlink⟩
      exact h.run_replacePlace_link hs hp hfound hlink hsource
    · push Not at hlink
      exact h.run_replacePlace_free hs hp hfound hlink

/-! ## Packages along plain paths -/

/-- Along plain paths, and with neither of the two places inside the other, every package is deliverable for which the
parent of its place is a directory or can be made one, as long as the path of the place is not too long. -/
theorem deliverable_of_plain (hs : fs.Sound) (hsource : fs.Plain source) (hp : fs.Plain target)
    (hpackage : fs.isDirectory source = .ok true) (hsourceNamed : source.names ≠ []) (hnamed : target.names ≠ [])
    (hfault : PathFault.ofText? target.text = none) (hmade : (makeDirectories target.parent).run fs = (.ok (), t))
    (hl : t.locate .keep target = .ok place) (hin : ¬fs.endOf source <+: fs.endOf target)
    (hout : ¬fs.endOf target <+: fs.endOf source) :
    Deliverable source target fs t (fs.endOf source) (fs.endOf target) := by
  have hroot : fs.endOf target ≠ [] := endOf_ne_nil fs hnamed
  obtain ⟨-, directory, hfollow, hd⟩ := isDirectory_eq_true_iff.1 hpackage
  obtain ⟨package, hkeep, hsome⟩ := locate_keep hfollow (by simp [hd])
  obtain rfl : package = fs.endOf source := hsource.locate_keep hsourceNamed hkeep
  -- the way to the place is made of directories, and nothing else is new
  obtain ⟨hgrown, -⟩ := run_makeDirectories_ok hs hp.written.parent hmade
  have hts : t.Sound := hgrown.sound hs
  have hget (location : Location) : t.get? location =
      if location <+: (fs.endOf target).dropLast then some .directory else fs.get? location := by
    rw [run_makeDirectories_spelled_ok hs hp.proper_parent hp.linkFree hmade location, endOf_parent fs hnamed]
  obtain ⟨hplain, hend⟩ := hp.of_links (startOf_eq hgrown.working _) hgrown.link_iff.1
  obtain rfl : place = fs.endOf target := (hplain.locate_keep hnamed hl).trans hend
  have hremoved : Removed (fs.endOf target) t (t.without target) := hts.removed_without hl
  refine ⟨hpackage, isProperlyNamed_of_proper hsource.proper hsourceNamed, isProperlyNamed_of_proper hp.proper hnamed,
    hfault, hmade, hl, ?_, ?_, ?_, ?_, hin⟩
  · -- what stands there has a parent already
    by_cases hfree : fs.get? (fs.endOf target) = none
    · rw [hget, if_neg (not_isPrefix_dropLast hroot)]
      exact .inr hfree
    · refine .inl (run_makeDirectories_rooted hs hp.proper_parent ?_ hmade)
      rw [endOf_parent fs hnamed]
      exact hp.rooted_dropLast hs hnamed hfree
  · rw [← hend] at hl hremoved ⊢
    refine hplain.locate_of_rooted hts hnamed hl (startOf_eq_of_endOf hnamed hremoved.working) fun htop => ?_
    rw [hend] at htop hremoved
    rw [hremoved.kept fun hbelow => not_isPrefix_dropLast hroot (hbelow.trans htop), hget, if_pos htop]
  · have hstart := startOf_eq hgrown.working source
    have hsame : t.endOf source = fs.endOf source := congrArg (· ++ source.names) hstart
    refine hsource.locate_of_rooted hs hsourceNamed hkeep ?_ fun htop => ?_
    · rw [hremoved.startOf_eq (hsame ▸ hout), hstart]
    · rw [hremoved.kept fun hbelow => hout (hbelow.trans (htop.trans (List.dropLast_prefix _)))]
      exact hgrown.kept ((hs.arrival hsource.written hkeep).rooted_dropLast htop)
  · rw [hremoved.kept hout]
    obtain ⟨entry, hentry⟩ := Option.isSome_iff_exists.1 hsome
    simp [hgrown.kept hentry]

/-! ## Harvests of deliverable packages -/

/-- A harvest of a package that is there puts it in its place, or fails for the reason that this does. -/
theorem run_harvest_of_found (output : Path) {found : Entry}
    (hfound : host.files.status .follow (sourcePath directory name) = .ok (some found)) :
    (harvest directory output name .package).run host = (do
      orFault (.cannotMove (sourcePath directory name).text (output.child name).text)
        (replacePlace (sourcePath directory name) (output.child name))
      Host.note (.harvested name (output.child name).text)
      pure (output.child name) : HostAction Path).run host := by
  unfold harvest
  dsimp only
  rw [run_bind, run_hostLook, pathExists, hfound]
  rfl

/-- **A deliverable package is harvested unless its place is blocked.** It does not matter what stands at the place:
there may be nothing, a file, a directory with whatever is in it, or a link that leads to something. But a link that
leads to nothing is in the way of a package that is no link, and then the harvest fails because the package cannot be
moved, and changes nothing. -/
theorem run_harvest_ok_iff (hs : host.files.Sound) (hdirectory : directory.Written) (houtput : output.Written)
    (h : Deliverable (sourcePath directory name) (output.child name) host.files t src dst) :
    ((∃ host', (harvest directory output name .package).run host = (.ok (output.child name), host')) ↔
      ¬Blocked (sourcePath directory name) (output.child name) host.files) ∧
    ∀ {failure host'}, (harvest directory output name .package).run host = (.error failure, host') →
      host' = host ∧ ∃ reason, failure = .generation
        { cause := .harvest (.cannotMove (sourcePath directory name).text (output.child name).text reason) } := by
  have hp : (output.child name).Written := houtput.child name
  have hsource : (sourcePath directory name).Written := (((hdirectory.child _).child _).child _).child _
  have hrun := run_harvest_of_found output
    (status_eq_some_iff.2 (isDirectory_eq_true_iff.1 h.package))
  by_cases hblocked : Blocked (sourcePath directory name) (output.child name) host.files
  · obtain ⟨e, hreplace⟩ := h.run_replacePlace_blocked hs hsource hp hblocked
    have hfault : (orFault (.cannotMove (sourcePath directory name).text (output.child name).text)
        (replacePlace (sourcePath directory name) (output.child name))).run host = (.error (.generation
          { cause := .harvest (.cannotMove (sourcePath directory name).text (output.child name).text e) }), host) := by
      rw [run_orFault, hreplace]
      rfl
    rw [run_bind_of_error hfault] at hrun
    rw [hrun]
    refine ⟨iff_of_false ?_ fun hopen => hopen hblocked, fun herror => ?_⟩
    · rintro ⟨_, hok⟩
      cases hok
    · cases herror
      exact ⟨rfl, e, rfl⟩
  · obtain ⟨u, hreplace⟩ := h.run_replacePlace_ok hs hp hblocked
    have hmoved : (orFault (.cannotMove (sourcePath directory name).text (output.child name).text)
        (replacePlace (sourcePath directory name) (output.child name))).run host =
          (.ok (), { host with files := u }) := by
      rw [run_orFault, hreplace]
      rfl
    rw [run_bind_of_ok hmoved] at hrun
    rw [hrun]
    exact ⟨iff_of_true ⟨_, rfl⟩ hblocked, fun herror => by cases herror⟩

/-! ## A link that leads somewhere, and one that does not -/

/-- The host with a link at the place of a package, with any text as where the link leads. -/
def linkingHost (text : String) : Host :=
  { linkedHost with files := linkedHost.files.put ["w", "out", "a"] (.link text) }

/-- The package of that host is deliverable, whether or not the link leads somewhere. -/
theorem deliverable_linkingHost (text : String) (h : text = "../kept" ∨ text = "nowhere") :
    Deliverable (sourcePath (.fromRoot ["s"]) "a") ((Path.ofString "out").child "a") (linkingHost text).files
      (linkingHost text).files ((linkingHost text).files.endOf (sourcePath (.fromRoot ["s"]) "a"))
      ((linkingHost text).files.endOf ((Path.ofString "out").child "a")) := by
  have hs : (linkingHost text).files.Sound := by
    rcases h with rfl | rfl <;> exact sound_of_isSound (by decide +kernel)
  have hsource : (linkingHost text).files.Plain (sourcePath (.fromRoot ["s"]) "a") :=
    ⟨by decide, by decide +kernel, linkFree_of_isLinkFree (by rcases h with rfl | rfl <;> decide +kernel)⟩
  have htarget : (linkingHost text).files.Plain ((Path.ofString "out").child "a") :=
    ⟨by decide +kernel, by decide +kernel, linkFree_of_isLinkFree (by rcases h with rfl | rfl <;> decide +kernel)⟩
  have hl : (linkingHost text).files.locate .keep ((Path.ofString "out").child "a") = .ok ["w", "out", "a"] := by
    rcases h with rfl | rfl <;> decide +kernel
  have hmade := hs.run_makeDirectories_parent htarget.written (by decide +kernel) (by decide +kernel) hl
  refine deliverable_of_plain hs hsource htarget ?_ (by decide +kernel) (by decide +kernel) (by decide +kernel) hmade hl
    ?_ ?_
  all_goals rcases h with rfl | rfl <;> decide +kernel

/-- The harvest replaces a link to a directory, and fails on a link to nothing and leaves it there. -/
theorem run_harvest_ok_iff_linking :
    (∃ host', (harvest (.fromRoot ["s"]) (Path.ofString "out") "a" .package).run (linkingHost "../kept") =
      (.ok ((Path.ofString "out").child "a"), host')) ∧
    ∃ reason, (harvest (.fromRoot ["s"]) (Path.ofString "out") "a" .package).run (linkingHost "nowhere") =
      (.error (.generation { cause := .harvest (.cannotMove "/s/dist/python/src/a" "out/a" reason) }),
        linkingHost "nowhere") := by
  constructor
  · have hdeliverable := deliverable_linkingHost "../kept" (.inl rfl)
    refine (run_harvest_ok_iff (sound_of_isSound (by decide +kernel)) (by decide) (by decide) hdeliverable).1.2 ?_
    have hfound : (linkingHost "../kept").files.status .follow ((Path.ofString "out").child "a") =
        .ok (some .directory) := by decide +kernel
    rintro (hlost | ⟨hnothing, -⟩)
    · exact hlost _ hfound
    · rw [hfound] at hnothing
      cases hnothing
  · have hdeliverable := deliverable_linkingHost "nowhere" (.inr rfl)
    have hfails : ((harvest (.fromRoot ["s"]) (Path.ofString "out") "a" .package).run
        (linkingHost "nowhere")).1.toOption = none := by decide +kernel
    rcases hrun : (harvest (.fromRoot ["s"]) (Path.ofString "out") "a" .package).run
      (linkingHost "nowhere") with ⟨failure | path, host'⟩
    · obtain ⟨rfl, reason, rfl⟩ := (run_harvest_ok_iff (sound_of_isSound (by decide +kernel)) (by decide) (by decide)
        hdeliverable).2 hrun
      exact ⟨reason, rfl⟩
    · rw [hrun] at hfails
      cases hfails

/-- Not every package that is a directory is harvested to a place in a directory: a link to nothing is in its way. -/
theorem not_harvested_always :
    ¬∀ (directory output : Path) (name : String) (host : Host),
      host.files.Sound → host.files.held = none → directory.Written → output.Written →
      host.files.isDirectory (sourcePath directory name) = .ok true →
      (∃ t, (makeDirectories (output.child name).parent).run host.files = (.ok (), t)) →
      ∃ path host', (harvest directory output name .package).run host = (.ok path, host') := by
  intro hall
  have hmade : ((makeDirectories ((Path.ofString "out").child "a").parent).run (linkingHost "nowhere").files).1.isOk =
    true := by decide +kernel
  obtain ⟨⟨⟩, hmade⟩ := exists_of_isOk hmade
  have hfails : ((harvest (.fromRoot ["s"]) (Path.ofString "out") "a" .package).run
      (linkingHost "nowhere")).1.toOption = none := by decide +kernel
  obtain ⟨path, host', hrun⟩ := hall (.fromRoot ["s"]) (Path.ofString "out") "a" (linkingHost "nowhere")
    (sound_of_isSound (by decide +kernel)) rfl (by decide) (by decide) (by decide +kernel)
    ⟨_, Prod.ext hmade rfl⟩
  rw [hrun] at hfails
  cases hfails

end Harvester

end ProviderBindings
