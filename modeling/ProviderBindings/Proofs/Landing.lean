import ProviderBindings.Proofs.Enclosures

/-!
# Packages that land

What a harvest that succeeds comes to, wherever the staging root and the output directory are and whatever leads to
them. Nothing is assumed of the way to either, so a path may lead through the very place that is cleared; but then the
package is not found any more, and the harvest fails. So when it succeeds, the paths did not lead through that place,
and they lead where they did (`Bench.Landed.leads`).

From this follows what a turn for Python leaves that comes to its end. When its tools leave what their actions and
their directories tell (`Dispatch.Regular`), the package that arrives is told by the source and the code alone
(`Getter.package`, `Turn.settled`), and the next turn finds the paths as this one did.
-/

namespace ProviderBindings

open FileSystem

namespace FileSystem

variable {fs t u v base : FileSystem}

/-- What is removed takes no link with it where none was. -/
theorem Removed.sameLinks {top : Location} (h : Removed top fs t)
    (hlinks : ∀ {location target}, top <+: location → fs.get? location ≠ some (.link target)) : SameLinks fs t := by
  intro location target
  by_cases hin : top <+: location
  · refine ⟨fun hlink => ?_, fun hlink => absurd hlink (hlinks hin)⟩
    have hname : ¬isNameless location := not_isNameless_of_get?_ne (by rw [hlink]; simp)
    rw [h.gone hname hin] at hlink
    cases hlink
  · rw [h.kept hin]

/-- In trees with the same links, proper names lead from the root to one place. -/
theorem Leads.eq_of_root {ending : Ending} {links count : Nat} {place other : Location} {names : List String}
    (h : fs.Leads ending links [] names place) (ht : t.Leads ending count [] names other) (hp : Proper names)
    (hlinks : SameLinks fs t) : other = place := by
  have hproper : Proper other := ht.proper (by simp [Proper]) fun name hname => (hp name hname).1.2.2
  exact ht.eq_of_sameLinks h hlinks (.refl []) hproper.isGone_eq_false

/-- On the way to a directory without links below it, nothing leads through what is below it. -/
theorem Leads.not_isPrefix_of_below {count : Nat} {start top place : Location} {rest : List String}
    (h : fs.Leads .follow count start rest top) (hp : Proper rest) (hplace : Below top place)
    (hunlinked : ∀ {location target}, Below top location → fs.get? location ≠ some (.link target)) :
    ¬place <+: start := by
  intro hin
  obtain ⟨rfl, -, -⟩ := h.eq_append hp fun _ _ =>
    fun target hlink => hunlinked ((hplace.of_isPrefix hin).of_isPrefix (List.prefix_append _ _)) hlink
  exact hplace.2 (List.IsPrefix.eq_of_length_le (hin.trans (List.prefix_append _ _)) hplace.1.length_le)

/-- When something below a directory was removed, and directories are made along names that lead from that directory
beside it, exactly the directories that were missing there are made, and the path of the directory leads there. -/
theorem run_makeDirectories_below_ok {names top place more : Location} (hs : fs.Sound) (hp : Proper names)
    (htop : fs.locate .follow (.fromRoot names) = .ok top) (hd : fs.get? top = some .directory)
    (hunlinked : ∀ {location target}, Below top location → fs.get? location ≠ some (.link target))
    (hplace : Below top place) (hu : Removed place fs u) (hmore : Proper more)
    (hmake : (makeDirectories (.fromRoot (names ++ more))).run u = (.ok (), v)) :
    Grown u v ∧ v.locate .follow (.fromRoot names) = .ok top ∧
      ∀ location, v.get? location = if location <+: top ++ more then some .directory else u.get? location := by
  have hus : u.Sound := hu.sound hs
  have hall : Proper (names ++ more) := hp.append hmore
  obtain ⟨hgrown, hmade⟩ := run_makeDirectories_ok hus hall.written hmake
  have hlinks : SameLinks fs v :=
    (hu.sameLinks fun hl => hunlinked (hplace.of_isPrefix hl)).trans (hgrown.enclosed hus).links
  obtain ⟨hsize, links, hcount, hlead⟩ := locate_eq_ok_iff.1 htop
  have hlead : fs.Leads .follow links [] names top := hlead
  -- names put after the path of the directory are spelled out from there
  have hspell : ∀ {rest location count}, Proper rest → v.Leads .follow count [] (names ++ rest) location →
      location = top ++ rest ∧ ∃ first ≤ count, v.Leads .follow first [] names top := by
    intro rest location count hrest h
    obtain ⟨first, second, middle, hsum, hfirst, hsecond⟩ := h.split fun _ => rfl
    obtain rfl : middle = top := hlead.eq_of_root hfirst hp hlinks
    refine ⟨(hsecond.eq_append hrest fun _ hne target hlink => ?_).1, first, by omega, hfirst⟩
    exact hunlinked (below_append hne) ((hlinks _ _).1 hlink)
  obtain ⟨-, whole, hwhole, hdir⟩ := isDirectory_eq_true_iff.1 hmade
  obtain ⟨-, total, htotal, hlead'⟩ := locate_eq_ok_iff.1 hwhole
  obtain ⟨rfl, first, hle, hfirst⟩ := hspell hmore hlead'
  have hrooted : v.Rooted (top ++ more) := by
    refine (hgrown.sound hus).rooted hdir (hlead'.proper ?_ fun name hname => (hall name hname).1.2.2)
    simp [startOf, Path.isAbsolute, Path.fromRoot, Proper]
  refine ⟨hgrown, locate_eq_ok_iff.2 ⟨hsize, first, hle.trans htotal, hfirst⟩, fun location => ?_⟩
  split
  · next hway => exact hrooted hway
  · next hway =>
    cases hbefore : u.get? location with
    | some entry => exact hgrown.kept hbefore
    | none =>
      by_contra hnew
      -- what was made would be on the way to the directory, and so in the place that was cleared, or on the way from it
      obtain ⟨-, -, part, hpart, hthere⟩ := madeFor_of_run_ok hus hall.written hmake hbefore hnew
      obtain ⟨-, count, -, hreach⟩ := locate_eq_ok_iff.1 hthere
      have hreach : v.Leads .follow count [] part location := hreach
      rcases List.prefix_or_prefix_of_prefix hpart (List.prefix_append names more) with ⟨rest, rfl⟩ | ⟨rest, rfl⟩
      · have hfront : Proper part := hp.of_isPrefix (List.prefix_append part rest)
        obtain ⟨i, j, start, -, hi, hj⟩ := hlead.split fun _ => rfl
        obtain rfl : location = start := hi.eq_of_root hreach hfront hlinks
        obtain ⟨middle, hpoints, hmiddle⟩ := hs.points_of_isPrefix htop hd (List.prefix_append part rest)
        have hgone : isGone location = false :=
          (hi.proper (by simp [Proper]) fun name hname => (hfront name hname).1.2.2).isGone_eq_false
        obtain rfl : location = middle := hpoints fs i location (.refl fs) (.refl _) hi hgone
        rw [hu.kept (hj.not_isPrefix_of_below hp.of_append_right hplace hunlinked), hmiddle] at hbefore
        cases hbefore
      · obtain ⟨rfl, -⟩ := hspell (hmore.of_isPrefix ((List.prefix_append_right_inj _).1 hpart)) hreach
        exact hway ((List.prefix_append_right_inj _).2 ((List.prefix_append_right_inj _).1 hpart))

end FileSystem

/-! ## What was cleared -/

namespace FileSystem

variable {fs t : FileSystem}

/-- A file or a link that was removed stood where its path leads. -/
theorem run_unlink_ok {p : Path} (h : (unlink p).run fs = (.ok (), t)) :
    ∃ place, fs.locate .keep p = .ok place ∧ fs.get? place ≠ some .directory ∧ t = fs.remove place := by
  cases unlinks_of_run h with
  | removed _ hl hentry hplain =>
    refine ⟨_, hl, ?_, rfl⟩
    rw [hentry]
    exact fun hd => hplain (Option.some.inj hd)

/-- A directory that was removed with all that is below it stood where its path leads, before it was cleared and
after, and the path has a name. -/
theorem run_removeTree_ok {p : Path} (h : (removeTree p).run fs = (.ok (), t)) :
    p.names ≠ [] ∧ ∃ place other, fs.locate .keep p = .ok place ∧ (fs.clear place).locate .keep p = .ok other ∧
      t = (fs.clear place).remove other := by
  cases removesTree_of_run h with
  | cleared _ hl _ hremoves =>
    cases hremoves with
    | removed _ hlast _ hl' =>
      refine ⟨?_, _, _, hl, hl', rfl⟩
      rintro hnil
      rw [hnil] at hlast
      cases hlast

end FileSystem

namespace Harvester

variable {fs t : FileSystem} {p : Path}

/-- A place of a region that was cleared lost what was at and below it, if its path leads there whenever something
stands there. -/
theorem run_clearPlace_ok {base : FileSystem} {R : Region base} {place : Location}
    (hkeep : R.Fixed .keep p place) (hz : R.zone place)
    (hfault : PathFault.ofText? p.text = none) (hfs : R.Encloses fs)
    (hfind : (fs.get? place).isSome →
      fs.locate .follow p = .ok place ∨ fs.locate .follow p = .error .nameTooLong)
    (hrun : (clearPlace p).run fs = (.ok (), t)) : Removed place fs t := by
  cases clears_of_run hrun with
  | vacant hstatus =>
    refine hfs.sound.removed_of_none ?_
    rw [← Option.not_isSome_iff_eq_none]
    intro hsome
    unfold status at hstatus
    rw [hfault] at hstatus
    simp only [Option.isSome_none, Bool.false_eq_true, if_false] at hstatus
    rcases hfind hsome with hl | hl
    · rw [hl] at hstatus
      simp only [Except.ok.injEq] at hstatus
      rw [hstatus] at hsome
      cases hsome
    · rw [hl] at hstatus
      cases hstatus
  | tree _ _ hgone =>
    obtain ⟨-, place', other, hl, hl', rfl⟩ := run_removeTree_ok hgone
    obtain rfl : place' = place := hkeep _ _ hfs hl
    obtain rfl : other = place' := hkeep _ _ (hfs.clear hz) hl'
    exact removed_clear_remove fs other
  | file _ _ hgone =>
    obtain ⟨place', hl, -, rfl⟩ := run_unlink_ok hgone
    obtain rfl : place' = place := hkeep _ _ hfs hl
    exact removed_remove fs place'

end Harvester

/-! ## A harvest that succeeds -/

namespace Bench

open Region

variable {B : Bench} {fs t u v : FileSystem} {host host' : Host} {source : String}

/-- Whether the paths of a bench lead to its places, and the staging root is not in the output directory. -/
structure Steady (B : Bench) : Prop where
  /-- The path of the output directory starts at the root. -/
  absolute : B.output = .fromRoot B.output.names
  /-- It has proper names. -/
  proper : Proper B.output.names
  /-- The operating system takes it. -/
  faultless : PathFault.ofText? B.output.text = none
  /-- It leads to the place of the output directory. -/
  leads : B.base.locate .follow B.output = .ok B.top
  /-- The path of the staging root leads to its place. -/
  rootLeads : B.base.locate .follow B.path = .ok B.root
  /-- A directory stands there. -/
  rootThere : B.base.get? B.root = some .directory
  /-- The staging root is not in the output directory. -/
  apart : ¬B.top <+: B.root

/-- The staging directory is not in the output directory. -/
theorem Steady.not_isPrefix_place (h : B.Steady) : ¬B.top <+: B.place := by
  intro hin
  rcases List.prefix_concat_iff.1 hin with he | hin
  · have hthere := B.outlet.there
    rw [he, B.vacant] at hthere
    cases hthere
  · exact h.apart hin

/-- The path of the output directory leads there, whatever was changed inside the staging directory. -/
theorem Steady.leads_of_inside (hB : B.Steady) (h : B.inside.Encloses fs) :
    fs.locate .follow B.output = .ok B.top ∧ fs.get? B.top = some .directory := by
  have hcarries : Carries B.base fs := Carries.trans B.grown_made.carries (carries_of_inside h)
  refine ⟨?_, hcarries.directory B.outlet.there⟩
  refine locate_carried hB.leads hcarries (startOf_eq (working_of_inside h) _) fun hnone => ?_
  rw [B.outlet.there] at hnone
  cases hnone

/-- The package for a source and its place in the output directory are not inside one another. -/
theorem Steady.apart_source (hB : B.Steady) (source : String) :
    ¬B.place ++ Site.Desk.sourcePlace source <+: B.top ++ placeOf source ∧
      ¬B.top ++ placeOf source <+: B.place ++ Site.Desk.sourcePlace source :=
  ⟨B.not_isPrefix_harvest source (Nat.le_succ _), fun hp =>
    not_prefix_append hB.not_isPrefix_place B.not_isPrefix_top ((List.prefix_append _ _).trans hp)⟩

/-- What the tree of a bench has become when the package for a source was moved from the staging directory, in the
tree of which it stood, to its place. -/
structure Landed (B : Bench) (source : String) (fs t : FileSystem) : Prop where
  /-- Nothing was touched but what is below the output directory, and the staging directory. -/
  around : B.around.Encloses t
  /-- The package was moved from the staging directory to its place. -/
  harvested : Harvester.Harvested (B.place ++ Site.Desk.sourcePlace source) (B.top ++ placeOf source) fs t
  /-- The path of the package is not too long. -/
  fits : (⟨B.output.anchor, B.output.names ++ placeOf source⟩ : Path).text.utf8ByteSize ≤ maxPathSize
  /-- The paths of the output directory and of the staging root lead there as long as nothing but what is in the staging
  directory changes. -/
  leads : ∀ {w : FileSystem}, SameLinks t w → w.workingDirectory = t.workingDirectory →
    (∀ {l}, ¬B.place <+: l → t.get? l = some .directory → w.get? l = some .directory) →
    w.locate .follow B.output = .ok B.top ∧ w.locate .follow B.path = .ok B.root

/-- When the place for a source was cleared and directories were made that lead there, nothing is left of what was at
and below it, exactly the directories that were missing were made, and the path of the output directory leads there. -/
theorem Steady.run_makeRoom_ok (hB : B.Steady) (h : B.inside.Encloses fs) (hsource : Segmented source)
    (hclear : (Harvester.clearPlace ⟨B.output.anchor, B.output.names ++ placeOf source⟩).run fs = (.ok (), u))
    (hmake : (makeDirectories (⟨B.output.anchor, B.output.names ++ placeOf source⟩ : Path).parent).run u =
      (.ok (), v)) :
    Removed (B.top ++ placeOf source) fs u ∧ Grown u v ∧ B.around.Encloses v ∧
      v.locate .follow B.output = .ok B.top ∧
      ∀ location, v.get? location =
        if location <+: (B.top ++ placeOf source).dropLast then some .directory else u.get? location := by
  have haround : B.around.Encloses fs := around_of_inside h
  have hplace : Proper (placeOf source) := hsource.proper_placeOf
  have hne : placeOf source ≠ [] := hsource.placeOf_ne_nil
  have hmovable := B.movable hsource hplace hne (Nat.le_succ _)
  have hbelow : Below B.top (B.top ++ placeOf source) := below_append hne
  have hunlinked : ∀ {location target}, Below B.top location → fs.get? location ≠ some (.link target) :=
    fun hl => haround.unlinked (.inl hl)
  obtain ⟨hleads, hthere⟩ := hB.leads_of_inside h
  have hfault : PathFault.ofText? (⟨B.output.anchor, B.output.names ++ placeOf source⟩ : Path).text = none :=
    PathFault.ofText?_text_append hB.faultless fun _ hname => (hsource.startsPlain_of_mem_placeOf hname).2
  have hremoved : Removed (B.top ++ placeOf source) fs u := by
    refine Harvester.run_clearPlace_ok hmovable.leadsTo hmovable.targetZone hfault haround (fun hsome => ?_) hclear
    obtain ⟨entry, hentry⟩ := Option.isSome_iff_exists.1 hsome
    by_cases hsize : (⟨B.output.anchor, B.output.names ++ placeOf source⟩ : Path).text.utf8ByteSize ≤ maxPathSize
    · refine .inl (h.sound.locate_append hleads hthere B.outlet.proper hplace hne hentry ?_ hsize)
      rintro target rfl
      exact hunlinked hbelow hentry
    · refine .inr ?_
      unfold locate locateRoute
      rw [if_pos (Nat.lt_of_not_le hsize)]
  have hv : B.around.Encloses v :=
    (B.stays_makeParents hsource).of_run (haround.removed hmovable.targetZone hremoved) hmake
  have hmake' : (makeDirectories (.fromRoot (B.output.names ++ (placeOf source).dropLast))).run u = (.ok (), v) := by
    rw [← hmake, hB.absolute]
    simp only [Path.parent, Path.fromRoot, List.dropLast_append_of_ne_nil hne]
  obtain ⟨hgrown, hvleads, hmade⟩ := run_makeDirectories_below_ok h.sound hB.proper (hB.absolute ▸ hleads) hthere
    hunlinked hbelow hremoved (hplace.of_isPrefix (List.dropLast_prefix _)) hmake'
  rw [← hB.absolute] at hvleads
  rw [← List.dropLast_append_of_ne_nil hne] at hmade
  exact ⟨hremoved, hgrown, hv, hvleads, hmade⟩

/-- Where the package for a source is found by the path of the staging directory, the path of the staging root leads
there. -/
theorem Steady.rootLeads_of_found (hB : B.Steady) (hv : B.around.Encloses v) (hsource : Segmented source)
    (hfound : v.locate .keep ⟨B.directory.anchor, B.directory.names ++ Site.Desk.sourcePlace source⟩ =
      .ok (B.place ++ Site.Desk.sourcePlace source))
    {entry : Entry} (hentry : v.get? (B.place ++ Site.Desk.sourcePlace source) = some entry) :
    v.locate .follow B.path = .ok B.root ∧ v.get? B.root = some .directory := by
  have hwhole : v.locate .keep ⟨B.path.anchor, B.path.names ++ B.name :: Site.Desk.sourcePlace source⟩ =
      .ok (B.place ++ Site.Desk.sourcePlace source) := by
    simpa [directory] using hfound
  obtain ⟨first, -, hfirst, hlead, -⟩ := (hv.points B.points).split hwhole (by simp)
    (B.proper.append (Site.Desk.proper_sourcePlace hsource))
  refine ⟨locate_eq_ok_iff.2 ⟨(locate_eq_ok_iff.1 hB.rootLeads).1, first, hfirst, hlead⟩, ?_⟩
  have hsrc : Proper (B.place ++ Site.Desk.sourcePlace source) :=
    B.proper_place.append (Site.Desk.proper_sourcePlace hsource)
  refine hv.sound.directory_of_isPrefix (hsrc.not_isNameless (by simp [Site.Desk.sourcePlace])) (by simp [hentry]) ?_
    (by simp [place])
  exact (List.prefix_append _ _).trans (List.prefix_append _ _)

/-- A directory that was on the bench and was there before a package was moved is not in the staging directory, and is
there still. -/
theorem directory_of_harvested (h : B.inside.Encloses fs)
    (hharvested : Harvester.Harvested (B.place ++ Site.Desk.sourcePlace source) (B.top ++ placeOf source) fs t)
    (hv : v.Sound) (hfree : v.get? (B.top ++ placeOf source) = none) {location : Location}
    (hname : ¬isNameless location) (hbase : B.base.get? location = some .directory)
    (hnow : v.get? location = some .directory) : ¬B.place <+: location ∧ t.get? location = some .directory := by
  have hstage : ¬B.place <+: location := fun hin => by
    rw [B.outlet.sound.none_of_isPrefix B.vacant hin hname] at hbase
    cases hbase
  have hcleared : ¬B.top ++ placeOf source <+: location := fun hin => by
    rw [hv.none_of_isPrefix hfree hin hname] at hnow
    cases hnow
  refine ⟨hstage, ?_⟩
  by_cases hway : location <+: B.top ++ placeOf source
  · exact hharvested.above hway fun he => hcleared (he ▸ List.prefix_refl _)
  · rw [hharvested.kept hway hcleared fun hin => hstage ((List.prefix_append _ _).trans hin)]
    exact h.directory (fun hb => hstage hb.1) (B.grown_made.kept hbase)

/-- When a package is put in the place of what was there, it lands. -/
theorem Steady.run_replacePlace_ok (hB : B.Steady) (h : B.inside.Encloses fs) (hsource : Segmented source)
    {entry : Entry} (hentry : fs.get? (B.place ++ Site.Desk.sourcePlace source) = some entry)
    (hrun : (Harvester.replacePlace ⟨B.directory.anchor, B.directory.names ++ Site.Desk.sourcePlace source⟩
      ⟨B.output.anchor, B.output.names ++ placeOf source⟩).run fs = (.ok (), t)) : B.Landed source fs t := by
  have hstays := (B.stays_replacePlace hsource).of_run (around_of_inside h) hrun
  have hplace : Proper (placeOf source) := hsource.proper_placeOf
  have hne : placeOf source ≠ [] := hsource.placeOf_ne_nil
  have hmovable := B.movable hsource hplace hne (Nat.le_succ _)
  obtain ⟨hin, hout⟩ := hB.apart_source source
  have hdst : Proper (B.top ++ placeOf source) := B.outlet.proper.append hplace
  have hdstne : B.top ++ placeOf source ≠ [] := fun he => hne (List.append_eq_nil_iff.1 he).2
  have hsrc : Proper (B.place ++ Site.Desk.sourcePlace source) :=
    B.proper_place.append (Site.Desk.proper_sourcePlace hsource)
  have hsrcne : B.place ++ Site.Desk.sourcePlace source ≠ [] := by simp [Site.Desk.sourcePlace]
  unfold Harvester.replacePlace at hrun
  obtain ⟨⟨⟩, u, hclear, hrest⟩ := exists_of_run_bind_ok hrun
  obtain ⟨⟨⟩, v, hmake, hmove⟩ := exists_of_run_bind_ok hrest
  obtain ⟨hremoved, hgrown, hv, hvleads, hmade⟩ := hB.run_makeRoom_ok h hsource hclear hmake
  have hvfree : v.get? (B.top ++ placeOf source) = none := by
    rw [hmade, if_neg (not_isPrefix_dropLast hdstne),
      hremoved.gone (hdst.not_isNameless hdstne) (List.prefix_refl _)]
  have hfollow : B.around.Fixed .follow ⟨B.output.anchor, B.output.names ++ placeOf source⟩
      (B.top ++ placeOf source) :=
    fixed_append B.outlet.points hne hplace fun l _ hnil => .inl (below_append hnil)
  obtain ⟨hfound, htarget, rfl⟩ := hmovable.run_move_ok hfollow hv hvfree hmove
  obtain ⟨-, hshort, -⟩ := hv.sound.named_place hmovable.written htarget (hdst.not_isNameless hdstne)
  have hharvested := Harvester.harvested_transplant h.sound hsrc hsrcne hdst hdstne hin hout hremoved hgrown hmade
    hvfree hshort
  refine ⟨hstays, hharvested, (locate_eq_ok_iff.1 htarget).1, fun {w} hlinks hworking hdirs => ?_⟩
  -- the move found the package, so neither path led through the place that was cleared, and what they led through
  -- on the bench and before the move is there after it
  have hpackage : v.get? (B.place ++ Site.Desk.sourcePlace source) = some entry :=
    hgrown.kept (by rw [hremoved.kept hout, hentry])
  obtain ⟨hvroot, hvrootThere⟩ := hB.rootLeads_of_found hv hsource hfound hpackage
  have hvthere : v.get? B.top = some .directory := by
    rw [hmade, if_pos]
    rw [List.dropLast_append_of_ne_nil hne]
    exact List.prefix_append _ _
  have hworking' : w.workingDirectory = v.workingDirectory := by
    have hstanding := hv.sound.not_isPrefix_workingDirectory hvfree
    rw [hworking]
    show moved _ _ (v.remove _).workingDirectory = _
    rw [(removed_remove v _).working hstanding, moved_of_not_isPrefix (hv.not_isPrefix_working hmovable.vacant)]
  have hlinks' : SameLinks v w := fun location target =>
    ((hstays.links.trans hlinks) location target).trans (hv.links location target).symm
  have hkept : ∀ {l}, B.base.get? l = some .directory → v.get? l = some .directory →
      w.get? l = some .directory := by
    intro l hbase hnow
    by_cases hname : isNameless l
    · exact get?_of_isNameless hname
    · obtain ⟨hstage, hthere⟩ := directory_of_harvested h hharvested hv.sound hvfree hname hbase hnow
      exact hdirs hstage hthere
  exact ⟨locate_of_both hB.leads B.outlet.there hvleads hvthere hv.links hv.working hlinks' hworking' hkept,
    locate_of_both hB.rootLeads hB.rootThere hvroot hvrootThere hv.links hv.working hlinks' hworking' hkept⟩

/-- The log file is not in a package that landed. -/
theorem Landed.log (h : B.Landed source fs t) (hin : B.inside.Encloses fs) {location : Location}
    (hl : t.held = some location) : fs.held = some location ∧ ¬B.top ++ placeOf source <+: location := by
  rw [h.harvested.held] at hl
  obtain ⟨other, hother, hmoved⟩ := Option.map_eq_some_iff.1 hl
  obtain ⟨hheld, hout⟩ := Option.filter_eq_some_iff.1 hother
  have hoff : ¬B.place ++ Site.Desk.sourcePlace source <+: other := fun hp =>
    (around_of_inside hin).untouched.not_isPrefix_held B.outlet.sound B.vacant hheld
      ((List.prefix_append _ _).trans hp)
  rw [moved_of_not_isPrefix hoff] at hmoved
  obtain rfl : other = location := hmoved
  refine ⟨hheld, fun hp => ?_⟩
  rw [within_iff_isPrefix.2 hp] at hout
  cases hout

/-- When a harvest from a bench succeeds, the package has landed, and no more than a notice comes after that. -/
theorem Steady.run_harvest_ok (hB : B.Steady) (h : B.inside.Encloses host.files) (hsource : Segmented source)
    {path : Path} (hrun : (Harvester.harvest B.directory B.output (importName source) .package).run host =
      (.ok path, host')) :
    ∃ files line, B.Landed source host.files files ∧ host'.files = files.writeHeld line ∧
      host'.temporary = host.temporary := by
  cases Harvester.harvests_of_run hrun with | @moved entry files _ hstatus hreplace hnoted => ?_
  obtain ⟨line, hline⟩ := hnoted.files
  rw [Site.Desk.sourcePath_eq _ hsource] at hstatus hreplace
  rw [hsource.child_importName] at hreplace
  obtain ⟨-, place, hl, hentry⟩ := status_eq_some_iff.1 hstatus
  obtain rfl : place = B.place ++ Site.Desk.sourcePlace source :=
    B.fixed_directory (Site.Desk.proper_sourcePlace hsource) _ _ (around_of_inside h) hl
  exact ⟨files, line, hB.run_replacePlace_ok h hsource hentry hreplace, hline, hnoted.temporary⟩

/-- What the tree of a bench has become when the turn of a source is over that left a package for it. -/
structure Settled (B : Bench) (source : String) (package : View) (t : FileSystem) : Prop where
  /-- Nothing was touched but what is below the output directory, and the staging directory. -/
  around : B.around.Encloses t
  /-- The path of the output directory leads there. -/
  leads : t.locate .follow B.output = .ok B.top
  /-- The path of the staging root leads there. -/
  rootLeads : t.locate .follow B.path = .ok B.root
  /-- The path of the package is not too long. -/
  fits : (⟨B.output.anchor, B.output.names ++ placeOf source⟩ : Path).text.utf8ByteSize ≤ maxPathSize
  /-- The package stands in its place, and nothing else does. -/
  arrived : ∀ rest, t.get? (B.top ++ (placeOf source ++ rest)) = package rest
  /-- Directories lead to its place. -/
  above : ∀ {location}, location <+: B.top ++ placeOf source → location ≠ B.top ++ placeOf source →
    t.get? location = some .directory
  /-- Nothing else was touched in the output directory. -/
  beside : Untouched (fun l => B.top <+: l ∧ ¬B.top ++ placeOf source <+: l ∧ ¬l <+: B.top ++ placeOf source) B.base t
  /-- The log file is not in the package. -/
  log : ∀ {location}, t.held = some location → ¬B.top ++ placeOf source <+: location

/-- Nothing outside the staging directory is touched by what is changed inside it. -/
theorem untouched_of_inside (h : B.inside.Encloses fs) : Untouched (¬B.place <+: ·) B.base fs := by
  have hmade : Untouched (¬B.place <+: ·) B.base B.made := by
    refine untouched_of_get? (fun {location} hl => ?_) id
    rw [get?_made, if_neg]
    rintro rfl
    exact hl (List.prefix_refl _)
  exact hmade.trans (h.untouched.mono fun l hl hb => hl hb.1)

/-- When a package has landed and the staging directory is removed, the turn has settled. -/
theorem Steady.settled (hB : B.Steady) (hsource : Segmented source) (hin : B.inside.Encloses fs)
    (h : B.Landed source fs t) {line : String} (hline : host.files = t.writeHeld line) {package : View}
    (hpackage : ∀ rest, fs.get? (B.place ++ (Site.Desk.sourcePlace source ++ rest)) = package rest) :
    B.Settled source package (Staging.released B.directory host).files := by
  have haround : B.around.Encloses host.files := hline ▸ h.around.writeHeld line
  have hsame : Same t host.files := hline ▸ h.around.sound.same_of_writeHeld line
  have hend := enclosed_released haround
  -- what is in the output directory is not in the staging directory
  have hoff : ∀ {l}, B.top <+: l → ¬B.place <+: l := fun htop hplace =>
    (List.prefix_or_prefix_of_prefix htop hplace).elim hB.not_isPrefix_place B.not_isPrefix_top
  have hlast : ∀ {l}, B.top <+: l → t.held ≠ some l →
      (Staging.released B.directory host).files.get? l = t.get? l := fun htop hlog => by
    rw [hend.untouched.same (hoff htop) (by rwa [hsame.held]), hsame.kept hlog]
  have hdirs : ∀ {l}, ¬B.place <+: l → t.get? l = some .directory →
      (Staging.released B.directory host).files.get? l = some .directory := fun hl hd => by
    refine hend.directory hl ?_
    rw [← shapeAt_eq_directory, hsame.shape _ id, shapeAt_eq_directory, hd]
  have hworking : (Staging.released B.directory host).files.workingDirectory = t.workingDirectory := by
    rw [hend.standing (haround.not_isPrefix_working B.vacant), hsame.working]
  obtain ⟨hleads, hroot⟩ := h.leads (hsame.sameLinks.trans hend.links) hworking hdirs
  refine ⟨around_released haround, hleads, hroot, h.fits, fun rest => ?_, fun {l} hway hne => ?_, ?_, fun {l} hl => ?_⟩
  -- at and below its place is the package; only a location without a name has to be looked at apart
  · rw [hlast (List.prefix_append _ _) fun hl =>
      (h.log hin hl).2 ((List.prefix_append_right_inj _).2 (List.prefix_append _ _)), ← hpackage]
    have hplace : placeOf source ≠ [] := hsource.placeOf_ne_nil
    by_cases hname : isNameless (B.top ++ (placeOf source ++ rest))
    · rw [get?_of_isNameless hname, get?_of_isNameless]
      have hrest : rest ≠ [] := by
        rintro rfl
        rw [List.append_nil] at hname
        exact (B.outlet.proper.append hsource.proper_placeOf).not_isNameless (by simp [hplace]) hname
      rw [← List.append_assoc, isNameless_append hrest] at hname ⊢
      exact hname
    · rw [← List.append_assoc] at hname ⊢
      rw [h.harvested.arrived hname, List.append_assoc]
  · refine hdirs (fun hin' => ?_) (h.harvested.above hway hne)
    exact hoff (List.prefix_append _ _) (hin'.trans hway)
  · refine ((untouched_of_inside hin).mono fun l hl => hoff hl.1).trans ?_
    refine Untouched.trans (untouched_of_get? (fun {l} hl => ?_) fun hl => (h.log hin hl).1) ?_
    · exact h.harvested.kept hl.2.2 hl.2.1 fun hp => hoff hl.1 ((List.prefix_append _ _).trans hp)
    · exact hsame.untouched.trans (hend.untouched.mono fun l hl => hoff hl.1)
  · have hlog := hend.untouched.held hl
    rw [hsame.held] at hlog
    exact (h.log hin hlog).2

/-- The staging root is there when the turn is over. -/
theorem Steady.rootThere_settled (hB : B.Steady) {package : View} (h : B.Settled source package t) :
    t.get? B.root = some .directory := by
  refine h.around.directory ?_ hB.rootThere
  rintro (hbelow | hin)
  · exact hB.apart hbelow.1
  · exact absurd hin.length_le (by simp [place])

/-- What is staged on a bench is the code and the manifest. -/
theorem view_staged {code : Emitter} (hcode : ∀ file ∈ code.files, Segmented file.1) {paths : List Path}
    (hsave : (code.saveFiles (.fromRoot B.place)).run B.made = (.ok paths, t)) {m : Manifest}
    (hmanifest : (writeText (B.directory.child Manifest.fileName) (m.text ++ "\n")).run t = (.ok (), u)) :
    B.inside.Encloses u ∧ u.view B.place = stagedView code m := by
  have hs : B.made.Sound := B.inside.sound
  obtain ⟨-, hthere⟩ := B.locate_made
  have hempty : B.made.IsEmptyDirectory B.place := B.outlet.sound.isEmptyDirectory_put B.vacant
  obtain ⟨honly, hview⟩ := Emitter.run_saveFiles_below hs hthere (hempty.unlinked hs B.proper_place) B.proper_place
    hcode hsave
  have hsaved : B.inside.Encloses t := inside_saveFiles B.inside.encloses_base hcode hsave
  obtain ⟨-, hview'⟩ := run_writeText_below honly.sound B.written_directory (locate_directory hsaved).1
    honly.directory honly.unlinked B.proper_place Site.Desk.proper_manifest hmanifest
  refine ⟨inside_writeManifest hsaved hmanifest, ?_⟩
  rw [hview', hview, hempty.2]
  rfl

end Bench

/-! ## Tools that are told by what they find -/

/-- Whether what a tool left in its working directory is told by its action and by what was there. -/
def Dispatch.Follows (act : Action → View → View) (c : Dispatch) : Prop :=
  ∀ work, c.before.files.locate .follow (.ofString c.context.workingDirectory) = .ok work →
    c.after.files.view work = act c.context.action (c.before.files.view work)

/-- Whether a tool keeps to its working directory, makes no link, and leaves what its action and the directory
tell. -/
structure Dispatch.Regular (act : Action → View → View) (c : Dispatch) : Prop where
  /-- It changes nothing but what is below its working directory. -/
  contained : c.Contained
  /-- It makes no link. -/
  addsNoLink : c.AddsNoLink
  /-- What it leaves there is told by its action and by what was there. -/
  follows : c.Follows act

namespace Getter

variable {g : Getter} {code : Emitter} {name source : String} {start stop : Host} {ds : List Dispatch}
  {act : Action → View → View}

/-- The package for a source, as tools leave it where its code is staged. -/
def package (g : Getter) (act : Action → View → View) (code : Emitter) (source : String) : View := fun rest =>
  act (packageAction source .python) (act (compileAction (g.manifest source)) (stagedView code (g.manifest source)))
    (Site.Desk.sourcePlace source ++ rest)

/-- What is built of what was staged on a bench settles there. -/
theorem Built.settled {B : Bench} {path : Path}
    (h : Built g .python .package B.output name source start ds (.ok path) stop) (hB : B.Steady)
    (hsource : Segmented source) (hstart : B.inside.Encloses start.files)
    (hview : start.files.view B.place = stagedView code (g.manifest source))
    (hwhere : ∀ d ∈ ds, d.context.workingDirectory = B.directory.text) (hcs : ∀ c ∈ ds, c.Regular act) :
    B.Settled source (g.package act code source) (Staging.released B.directory stop).files ∧
      stop.temporary = start.temporary := by
  have hpath : ∀ d ∈ ds, Path.ofString d.context.workingDirectory = B.directory := fun d hd => by
    rw [hwhere d hd, Path.ofString_text B.written_directory]
  -- a tool finds the staging directory, and leaves there what it should
  have htool : ∀ d ∈ ds, B.inside.Encloses d.before.files → B.inside.Encloses d.after.files ∧
      d.after.temporary = d.before.temporary ∧
      d.after.files.view B.place = act d.context.action (d.before.files.view B.place) := by
    intro d hd hbefore
    have hlocate : d.before.files.locate .follow (.ofString d.context.workingDirectory) = .ok B.place := by
      rw [hpath d hd, (Bench.locate_directory hbefore).1]
    have hconfined := (hcs d hd).contained B.place hlocate
    exact ⟨Bench.inside_dispatch hbefore hconfined (hcs d hd).addsNoLink, hconfined.temporary,
      (hcs d hd).follows B.place hlocate⟩
  cases h with
  | @harvested d e path host hd hok he hok' hrun =>
    -- the compiler finds the staged code, the packager what the compiler left, and the harvest what the packager left
    obtain ⟨hmiddle, htemporary, hcompiled⟩ := htool d (by simp) hstart
    obtain ⟨hlast, htemporary', hpackaged⟩ := htool e (by simp) (he.before ▸ hmiddle)
    unfold harvestAfter at hrun
    rw [hpath e (by simp)] at hrun
    obtain ⟨files, line, hlanded, hline, htemporary''⟩ := hB.run_harvest_ok hlast hsource hrun
    refine ⟨hB.settled hsource hlast hlanded hline fun rest => ?_, ?_⟩
    · show e.after.files.view B.place _ = _
      rw [hpackaged, he.before, hcompiled, hview, he.action, show d.context.action = _ from hd]
      rfl
    · rw [htemporary'', htemporary', he.before, htemporary]

/-- Whether the turn of a name can start on a host: once the staging root has been made, the path of the output
directory leads to a directory without links below it, and that of the staging root not into it. -/
structure Ready (g : Getter) (output : Path) (top : Location) (host : Host) : Prop where
  /-- The tree is sound. -/
  sound : host.files.Sound
  /-- The path of the staging root is written. -/
  written : (g.stagingRoot.getD host.temporary).Written
  /-- The path of the output directory points to its place, and no link is below that. -/
  outlet : Outlet (Staging.rooted g.stagingRoot host.files) output top
  /-- The path of the output directory starts at the root. -/
  absolute : output = .fromRoot output.names
  /-- It has proper names. -/
  proper : Proper output.names
  /-- The operating system takes it. -/
  faultless : PathFault.ofText? output.text = none
  /-- It leads to its place. -/
  leads : (Staging.rooted g.stagingRoot host.files).locate .follow output = .ok top
  /-- The path of the staging root does not lead into the output directory. -/
  apart : ∀ {root}, (Staging.rooted g.stagingRoot host.files).locate .follow (g.stagingRoot.getD host.temporary) =
    .ok root → ¬top <+: root

/-- Whether the staging root is there on a host. -/
def RootThere (g : Getter) (host : Host) : Prop :=
  host.files.isDirectory (g.stagingRoot.getD host.temporary) = .ok true

/-- Where the staging root is there, nothing comes of making it. -/
theorem RootThere.rooted (h : g.RootThere start) (hp : (g.stagingRoot.getD start.temporary).Written) :
    Staging.rooted g.stagingRoot start.files = start.files :=
  Staging.rooted_of_directory hp h

/-- A turn that comes to its end settles on a bench, and the staging root is there then. -/
theorem Turn.settled {output : Path} {top : Location} {path : Path}
    (h : Turn g code .python .package output name source start ds (.ok path) stop)
    (hready : g.Ready output top start) (hsource : Segmented source)
    (hcode : ∀ file ∈ code.files, Segmented file.1) (hcs : ∀ c ∈ ds, c.Regular act) :
    ∃ B : Bench, B.base = Staging.rooted g.stagingRoot start.files ∧ B.output = output ∧ B.top = top ∧
      B.path = g.stagingRoot.getD start.temporary ∧ B.Steady ∧
      B.Settled source (g.package act code source) stop.files ∧ stop.temporary = start.temporary ∧
      g.RootThere stop := by
  cases h with
  | @staged directory made ds result stop hacquire hstaged =>
    obtain ⟨-, -, -, -, -, -, -, hrootFaultless⟩ :=
      Staging.exists_root_of_acquire hready.sound hready.written hacquire
    obtain ⟨B, hbase, rfl, rfl, rfl, hpath, rfl, hleads, hthere⟩ :=
      Staging.exists_bench hready.sound hready.written hready.outlet hacquire
    have hsteady : B.Steady :=
      ⟨hready.absolute, hready.proper, hready.faultless, hbase ▸ hready.leads, hleads, hthere,
        hready.apart (hbase ▸ hpath ▸ hleads)⟩
    cases hstaged with
    | built hresolve hsave hmanifest hwhere hbuilt =>
      obtain ⟨-, -, -, rfl, -⟩ := run_resolve_ok_iff.1 hresolve
      rw [show B.made.resolve B.directory = .fromRoot B.place from resolve_eq B.locate_made.1] at hsave
      obtain ⟨hinside, hview⟩ := Bench.view_staged hcode hsave hmanifest
      obtain ⟨hsettled, htemporary⟩ := hbuilt.settled hsteady hsource hinside hview hwhere hcs
      refine ⟨B, hbase, rfl, rfl, hpath, hsteady, hsettled, htemporary, ?_⟩
      have hroot := hsettled.rootLeads
      rw [hpath, ← htemporary] at hroot
      exact isDirectory_eq_true_iff.2 ⟨htemporary.symm ▸ hrootFaultless, _, hroot, hsteady.rootThere_settled hsettled⟩

end Getter

end ProviderBindings
