import ProviderBindings.Proofs.FileSystem.Grounding
import ProviderBindings.Proofs.FileSystem.Resolving
import ProviderBindings.Proofs.FileSystem.Untouched

/-!
# Trees with the same links

Where a path leads is told by the links of a tree, by its directories and by the working directory. Without the
directories on its way a walk only ends early, and it ends so as well where the working directory has been
removed. In trees with the same links a path therefore leads to one place, wherever it leads at all
(`Leads.eq_of_sameLinks`): it *points* to that place. Where some links were taken away and nothing was put in their
place, it still leads nowhere else (`Leads.eq_of_linksLeft`). Names without links that come after a path are spelled
out from there (`Points.eq_append`), and a path that leads to a directory points to directories all the way
(`Sound.points_of_isPrefix`).
-/

namespace ProviderBindings.FileSystem

variable {fs t u : FileSystem} {ending : Ending}

/-! ## Links and working directories -/

/-- Whether two trees have the same links. -/
def SameLinks (fs t : FileSystem) : Prop :=
  ∀ location target, t.get? location = some (.link target) ↔ fs.get? location = some (.link target)

/-- A tree has the links that it has. -/
theorem SameLinks.refl (fs : FileSystem) : SameLinks fs fs :=
  fun _ _ => Iff.rfl

/-- Trees with the links of a third have the same links. -/
theorem SameLinks.trans (h : SameLinks fs t) (ht : SameLinks t u) : SameLinks fs u :=
  fun location target => (ht location target).trans (h location target)

/-- Links stay when nothing but the log file is touched. -/
theorem Same.sameLinks (h : Same fs t) : SameLinks fs t := by
  intro location target
  rw [← shapeAt_eq_link, h.shape location id, shapeAt_eq_link]

/-- Whether a tree has no links but those of another, and nothing stands in place of those that it lacks. -/
structure LinksLeft (fs t : FileSystem) : Prop where
  /-- A link of the one stands in the other as well. -/
  old : ∀ {location target}, t.get? location = some (.link target) → fs.get? location = some (.link target)
  /-- Where a link of the other is missing, nothing stands. -/
  left : ∀ {location target}, fs.get? location = some (.link target) →
    t.get? location = some (.link target) ∨ t.get? location = none

/-- A tree has the links that it has. -/
theorem LinksLeft.refl (fs : FileSystem) : LinksLeft fs fs :=
  ⟨id, .inl⟩

/-- In a tree with the same links all of them are left. -/
theorem SameLinks.linksLeft (h : SameLinks fs t) : LinksLeft fs t :=
  ⟨(h _ _).1, fun hlink => .inl ((h _ _).2 hlink)⟩

/-- Whether a location is another, or what is left of it when its last names are gone. -/
def Detached (a b : Location) : Prop :=
  ∃ kept lost : Location, a = kept ++ lost ∧ b = kept ++ List.replicate lost.length ""

/-- A location of which nothing is gone is left. -/
theorem Detached.refl (a : Location) : Detached a a :=
  ⟨a, [], by simp, by simp⟩

/-- What is detached from a location is left of it. -/
theorem detached_detach {kept a : Location} (h : kept <+: a) : Detached a (detach kept a) := by
  obtain ⟨lost, rfl⟩ := h
  exact ⟨kept, lost, rfl, by simp [detach]⟩

/-- What is left of what is left of a location is left of that location. -/
theorem Detached.trans {a b c : Location} (h : Detached a b) (hb : Detached b c) : Detached a c := by
  obtain ⟨kept, lost, rfl, rfl⟩ := h
  obtain ⟨kept', lost', hsplit, rfl⟩ := hb
  have hlength := congrArg List.length hsplit
  simp only [List.length_append, List.length_replicate] at hlength
  -- whichever of the two losses reaches further up is the loss of both
  rcases List.prefix_or_prefix_of_prefix (List.prefix_append kept' lost')
    (hsplit ▸ List.prefix_append kept _) with ⟨more, rfl⟩ | ⟨more, rfl⟩
  · refine ⟨kept', more ++ lost, List.append_assoc _ _ _, ?_⟩
    rw [List.length_append] at hlength ⊢
    rw [show lost'.length = more.length + lost.length by omega]
  · rw [List.append_assoc, List.append_cancel_left_eq] at hsplit
    obtain ⟨hsum, hmore, -⟩ := List.append_eq_replicate_iff.1 hsplit.symm
    refine ⟨kept, lost, rfl, ?_⟩
    rw [hmore, List.append_assoc, List.replicate_append_replicate, hsum]

/-- A location that is not gone has lost nothing. -/
theorem Detached.eq_of_not_gone {a b : Location} (h : Detached a b) (hb : isGone b = false) : b = a := by
  obtain ⟨kept, lost, rfl, rfl⟩ := h
  rcases List.eq_nil_or_concat lost with rfl | ⟨init, name, rfl⟩
  · simp
  · refine absurd hb ?_
    rw [List.concat_eq_append, List.length_append, List.length_singleton, List.replicate_succ',
      ← List.append_assoc]
    simp [isGone, isNameless]

/-- What is left of a location is left of the one above it, one name up. -/
theorem Detached.dropLast {a b : Location} (h : Detached a b) : Detached a.dropLast b.dropLast := by
  obtain ⟨kept, lost, rfl, rfl⟩ := h
  rcases List.eq_nil_or_concat lost with rfl | ⟨init, name, rfl⟩
  · simpa using Detached.refl kept.dropLast
  · refine ⟨kept, init, ?_, ?_⟩
    · rw [List.concat_eq_append, ← List.append_assoc, List.dropLast_concat]
    · rw [List.concat_eq_append, List.length_append, List.length_singleton, List.replicate_succ',
        ← List.append_assoc, List.dropLast_concat]

/-- Where a path starts is left when the working directory is. -/
theorem Detached.startOf (h : Detached fs.workingDirectory t.workingDirectory) (p : Path) :
    Detached (fs.startOf p) (t.startOf p) := by
  unfold FileSystem.startOf
  split
  · exact .refl []
  · exact h

/-- Names lead from a location to one place, and from what is left of the location, among the links that are left, to
the same place or to one that is gone, or to one at which a link is missing. -/
theorem Leads.eq_of_linksLeft {links count : Nat} {a b place other : Location} {names : List String}
    (ht : t.Leads ending count b names other) (h : fs.Leads ending links a names place) (hlinks : LinksLeft fs t)
    (hab : Detached a b) (hend : ∀ target, fs.get? other = some (.link target) → t.get? other ≠ none)
    (hgone : isGone other = false) : other = place := by
  -- on the walk among the links that are left; the other walk does not part from it before a link that is missing,
  -- and past such a link there is no directory to enter
  induction ht generalizing a links with
  | done =>
    cases h
    exact hab.eq_of_not_gone hgone
  | idle hidle _ ih => exact ih (h.of_idle hidle) hab hend hgone
  | up _ ih => exact ih h.of_up hab.dropLast hend hgone
  | enter hpass hdir hother ih =>
    obtain rfl := hab.eq_of_not_gone hpass.notGone
    rcases (h.named_cases hpass.notIdle hpass.notUp).2 with
      ⟨-, hrest⟩ | ⟨rfl, -, rfl, -⟩ | ⟨_, _, -, hlink, -⟩
    · exact ih hrest (.refl _) hend hgone
    · cases hother
      rfl
    · rcases hlinks.left hlink with hleft | hleft <;> rw [hleft] at hdir <;> cases hdir
  | last hpass _ hlink =>
    obtain rfl := hab.eq_of_not_gone hpass.notGone
    rcases (h.named_cases hpass.notIdle hpass.notUp).2 with
      ⟨-, hrest⟩ | ⟨-, -, rfl, -⟩ | ⟨_, _, -, hother, hkeep, -⟩
    · cases hrest
      rfl
    · rfl
    · rcases hlinks.left hother with hleft | hleft
      · exact absurd (hlink _ hleft) (hkeep rfl)
      · exact absurd hleft (hend _ hother)
  | link hpass hlink hkeep _ ih =>
    obtain rfl := hab.eq_of_not_gone hpass.notGone
    have hthere := hlinks.old hlink
    rcases (h.named_cases hpass.notIdle hpass.notUp).2 with
      ⟨hdir, -⟩ | ⟨hnil, -, -, -, hlast⟩ | ⟨_, _, -, hother, -, hrest⟩
    · rw [hthere] at hdir
      cases hdir
    · exact absurd (hlast _ hthere) (hkeep hnil)
    · rw [hthere] at hother
      cases hother
      exact ih hrest (.refl _) hend hgone

/-- In trees with the same links, names lead from a location to one place, and from what is left of the location
to the same place or to one that is gone. -/
theorem Leads.eq_of_sameLinks {links count : Nat} {a b place other : Location} {names : List String}
    (ht : t.Leads ending count b names other) (h : fs.Leads ending links a names place)
    (hlinks : SameLinks fs t) (hab : Detached a b) (hgone : isGone other = false) : other = place := by
  refine ht.eq_of_linksLeft h hlinks.linksLeft hab (fun target hlink hnone => ?_) hgone
  rw [(hlinks _ _).2 hlink] at hnone
  cases hnone

/-- Names that lead to a directory in two trees with the same links lead there in a third with these links, in which
there are the directories that are in both of the two. -/
theorem Leads.of_both {links count : Nat} {a b place other : Location} {names : List String}
    (ht : t.Leads .follow links b names place) (hthere : t.get? place = some .directory)
    (h : fs.Leads .follow count a names other) (hd : fs.get? other = some .directory) (hab : Detached a b)
    (hlinks : SameLinks fs t) (hlinks' : SameLinks t u)
    (hdirs : ∀ {l}, fs.get? l = some .directory → t.get? l = some .directory → u.get? l = some .directory) :
    u.Leads .follow links b names place := by
  -- on the walk in the second tree; that in the first is at the same place whenever a name is looked up
  induction ht generalizing a count with
  | done => exact .done
  | idle hidle _ ih => exact .idle hidle (ih hthere (h.of_idle hidle) hab)
  | up _ ih => exact .up (ih hthere h.of_up hab.dropLast)
  | enter hpass hdir _ ih =>
    obtain rfl := hab.eq_of_not_gone hpass.notGone
    rcases (h.named_cases hpass.notIdle hpass.notUp).2 with
      ⟨hfirst, hrest⟩ | ⟨-, -, rfl, hno, -⟩ | ⟨_, _, -, hlink, -⟩
    · exact .enter hpass (hdirs hfirst hdir) (ih hthere hrest (.refl _))
    · exact absurd hd hno
    · rw [(hlinks _ _).2 hlink] at hdir
      cases hdir
  | last _ hno => exact absurd hthere hno
  | link hpass hlink hkeep _ ih =>
    obtain rfl := hab.eq_of_not_gone hpass.notGone
    have hfirst := (hlinks _ _).1 hlink
    rcases (h.named_cases hpass.notIdle hpass.notUp).2 with
      ⟨hdir, -⟩ | ⟨hnil, -, -, -, hend⟩ | ⟨_, _, -, hother, -, hrest⟩
    · rw [hfirst] at hdir
      cases hdir
    · exact absurd (hend _ hfirst) (hkeep hnil)
    · rw [hfirst] at hother
      cases hother
      exact .link hpass ((hlinks' _ _).2 hlink) hkeep (ih hthere hrest (.refl _))

/-- A path that leads to a directory in both of two trees leads there in a third that has the directories of both. -/
theorem locate_of_both {p : Path} {place : Location} (h : fs.locate .follow p = .ok place)
    (hd : fs.get? place = some .directory) (ht : t.locate .follow p = .ok place)
    (hthere : t.get? place = some .directory) (hlinks : SameLinks fs t)
    (hworking : Detached fs.workingDirectory t.workingDirectory) (hlinks' : SameLinks t u)
    (hworking' : u.workingDirectory = t.workingDirectory)
    (hdirs : ∀ {l}, fs.get? l = some .directory → t.get? l = some .directory → u.get? l = some .directory) :
    u.locate .follow p = .ok place := by
  obtain ⟨-, count, -, hlead⟩ := locate_eq_ok_iff.1 h
  obtain ⟨hsize, links, hle, hlead'⟩ := locate_eq_ok_iff.1 ht
  refine locate_eq_ok_iff.2 ⟨hsize, links, hle, ?_⟩
  rw [startOf_eq hworking']
  exact hlead'.of_both hthere hlead hd (hworking.startOf p) hlinks hlinks' hdirs

/-! ## Paths that point -/

/-- Whether a path leads to a place in every tree with the links of this one, wherever it leads to one that is not
gone. -/
def Points (fs : FileSystem) (p : Path) (place : Location) : Prop :=
  ∀ (t : FileSystem) (links : Nat) (other : Location), SameLinks fs t →
    Detached fs.workingDirectory t.workingDirectory →
    t.Leads .follow links (t.startOf p) p.names other → isGone other = false → other = place

/-- A path points to where it leads. -/
theorem points_of_leads {p : Path} {place : Location} {links : Nat}
    (h : fs.Leads .follow links (fs.startOf p) p.names place) : fs.Points p place :=
  fun _ _ _ hlinks hworking hother hgone => hother.eq_of_sameLinks h hlinks (hworking.startOf p) hgone

/-- A path points to where it is found to lead. -/
theorem points_of_locate {p : Path} {place : Location} (h : fs.locate .follow p = .ok place) :
    fs.Points p place := by
  obtain ⟨-, links, -, hlead⟩ := locate_eq_ok_iff.1 h
  exact points_of_leads hlead

/-- A path points to the same place in every tree with the same links. -/
theorem Points.of_sameLinks {p : Path} {place : Location} (h : fs.Points p place)
    (hlinks : SameLinks fs t) (hworking : Detached fs.workingDirectory t.workingDirectory) :
    t.Points p place :=
  fun u count other hlinks' hworking' =>
    h u count other (hlinks.trans hlinks') (hworking.trans hworking')

/-- Where a path that points leads with proper names after it, it leads to where it points, and the names lead on from
there. -/
theorem Points.split {p : Path} {middle place : Location} (h : fs.Points p middle) {more : List String}
    (hm : fs.locate ending ⟨p.anchor, p.names ++ more⟩ = .ok place) (hne : more ≠ []) (hp : Proper more) :
    ∃ first second, first ≤ maxLinks ∧ fs.Leads .follow first (fs.startOf p) p.names middle ∧
      fs.Leads ending second middle more place := by
  obtain ⟨-, links, hlinks, hlead⟩ := locate_eq_ok_iff.1 hm
  obtain ⟨first, second, here, hsum, hfirst, hsecond⟩ := hlead.split fun hnil => absurd hnil hne
  have hgone : isGone here = false := hsecond.not_gone hp hne
  obtain rfl : here = middle := h fs _ _ (.refl fs) (.refl _) hfirst hgone
  exact ⟨first, second, by omega, hfirst, hsecond⟩

/-- Names on which no link stands are spelled out after a path that points. -/
theorem Points.eq_append {p : Path} {middle place : Location} (h : fs.Points p middle)
    {more : List String} (hm : fs.locate ending ⟨p.anchor, p.names ++ more⟩ = .ok place) (hne : more ≠ [])
    (hp : Proper more) (hl : fs.LinkFree middle more) : place = middle ++ more := by
  obtain ⟨-, second, -, -, hsecond⟩ := h.split hm hne hp
  exact (hsecond.eq_append hp hl).1

/-- A path that leads to where nothing stands leads to where it points. -/
theorem Points.eq_of_free {p : Path} {middle place : Location} (h : fs.Points p middle)
    (hl : fs.locate .keep p = .ok place) (hfree : fs.get? place = none) : place = middle := by
  obtain ⟨-, links, -, hlead⟩ := locate_eq_ok_iff.1 hl
  have hfollow : fs.Leads .follow links (fs.startOf p) p.names place :=
    hlead.follow fun target htarget => by simp [hfree] at htarget
  refine h fs _ _ (.refl fs) (.refl _) hfollow ?_
  simp [isGone, not_isNameless_of_get?_none hfree]

/-- Directories lead to wherever names lead that others come after. -/
theorem Leads.exists_rooted {links : Nat} {here place : Location} {names more : List String}
    (h : fs.Leads ending links here (names ++ more) place) (hmore : more ≠ []) (hr : fs.Rooted here) :
    ∃ count middle, fs.Leads .follow count here names middle ∧ fs.Rooted middle := by
  generalize hall : names ++ more = all at h
  -- on the walk; the names that are split off may be at their end before every step
  induction h generalizing names with
  | done => exact absurd (List.append_eq_nil_iff.1 hall).2 hmore
  | idle hidle _ ih =>
    cases names with
    | nil => exact ⟨0, _, .done, hr⟩
    | cons name names =>
      cases hall
      obtain ⟨count, middle, hlead, hrooted⟩ := ih hr rfl
      exact ⟨count, middle, .idle hidle hlead, hrooted⟩
  | up _ ih =>
    cases names with
    | nil => exact ⟨0, _, .done, hr⟩
    | cons name names =>
      cases hall
      obtain ⟨count, middle, hlead, hrooted⟩ := ih (hr.of_isPrefix (List.dropLast_prefix _)) rfl
      exact ⟨count, middle, .up hlead, hrooted⟩
  | enter hpass hdir _ ih =>
    cases names with
    | nil => exact ⟨0, _, .done, hr⟩
    | cons first names =>
      cases hall
      obtain ⟨count, middle, hlead, hrooted⟩ := ih (hr.concat hdir) rfl
      exact ⟨count, middle, .enter (hpass.of_ending (by simp)) hdir hlead, hrooted⟩
  | last _ _ _ =>
    cases names with
    | nil => exact ⟨0, _, .done, hr⟩
    | cons name names =>
      exact absurd (List.append_eq_nil_iff.1 (List.cons.inj hall).2).2 hmore
  | @link _ here _ _ target _ hpass hlink _ _ ih =>
    cases names with
    | nil => exact ⟨0, _, .done, hr⟩
    | cons name names =>
      cases hall
      obtain ⟨count, middle, hlead, hrooted⟩ := ih (hr.linkStart target) (List.append_assoc _ _ _)
      exact ⟨count + 1, middle, .link (hpass.of_ending (by simp)) hlink (by simp) hlead, hrooted⟩

/-- A path that leads to a directory points to one with all its first names. -/
theorem Sound.points_of_isPrefix (hs : fs.Sound) {p : Path} {place : Location}
    (h : fs.locate .follow p = .ok place) (hd : fs.get? place = some .directory) {names : List String}
    (hn : names <+: p.names) :
    ∃ middle, fs.Points ⟨p.anchor, names⟩ middle ∧ fs.get? middle = some .directory := by
  obtain ⟨-, links, -, hlead⟩ := locate_eq_ok_iff.1 h
  obtain ⟨more, hmore⟩ := hn
  by_cases hnil : more = []
  · subst hnil
    rw [List.append_nil] at hmore
    refine ⟨place, ?_, hd⟩
    rw [hmore]
    exact points_of_leads hlead
  · rw [← hmore] at hlead
    obtain ⟨count, middle, hmiddle, hrooted⟩ := hlead.exists_rooted hnil (hs.rooted_startOf p)
    exact ⟨middle, points_of_leads hmiddle, hrooted (List.prefix_refl _)⟩

/-! ## What paths resolve to -/

/-- Whether there are no more than a number of links besides those that are being followed. -/
def LinkRoom (fs : FileSystem) (depth : Nat) (following : List Location) : Prop :=
  ∀ more : List Location, more.Nodup →
    (∀ location ∈ more, location ∉ following ∧ ∃ target, fs.get? location = some (.link target)) →
    more.length ≤ depth

/-- There are no more links than entries. -/
theorem linkRoom_nil (fs : FileSystem) : fs.LinkRoom fs.entries.length [] := by
  intro more hnodup hmore
  have hkeys : more ⊆ fs.entries.map (·.1) := by
    intro location hl
    obtain ⟨-, target, hlink⟩ := hmore location hl
    have hname : ¬isNameless location := not_isNameless_of_get?_ne (by rw [hlink]; simp)
    rw [get?_of_not_isNameless hname] at hlink
    exact (Assoc.isSome_get? _ _).1 (by simp [hlink])
  simpa using (List.subperm_of_subset hnodup hkeys).length_le

/-- A link that is to be followed takes one of those that there may be. -/
theorem LinkRoom.cons {depth : Nat} {following : List Location} (h : fs.LinkRoom (depth + 1) following)
    {next : Location} {target : String} (hnext : next ∉ following) (hlink : fs.get? next = some (.link target)) :
    fs.LinkRoom depth (next :: following) := by
  intro more hnodup hmore
  have hnew : next ∉ more := fun hmem => (hmore next hmem).1 List.mem_cons_self
  have hlength := h (next :: more) (List.nodup_cons.2 ⟨hnew, hnodup⟩) fun location hl => by
    rcases List.mem_cons.1 hl with rfl | hl
    · exact ⟨hnext, target, hlink⟩
    · obtain ⟨hnot, hthere⟩ := hmore location hl
      exact ⟨fun hmem => hnot (List.mem_cons_of_mem _ hmem), hthere⟩
  exact Nat.le_of_succ_le_succ hlength

/-- Where there may be no more links, every one is being followed. -/
theorem LinkRoom.mem {following : List Location} (h : fs.LinkRoom 0 following) {next : Location}
    {target : String} (hlink : fs.get? next = some (.link target)) : next ∈ following := by
  by_contra hnot
  have hlength := h [next] (by simp) fun location hl => by
    rw [List.mem_singleton.1 hl]
    exact ⟨hnot, target, hlink⟩
  exact absurd hlength (by simp)

/-- In trees with the same links, names lead from a location to the same when links do. -/
theorem resolveAlong_of_sameLinks (hlinks : SameLinks fs t) {follow follow' : Location → String → Location × Bool}
    (hfollow : ∀ next target, fs.get? next = some (.link target) → follow' next target = follow next target)
    (here : Location) (names : List String) :
    t.resolveAlong follow' here names = fs.resolveAlong follow here names := by
  induction names generalizing here with
  | nil => rfl
  | cons name rest ih =>
    rw [resolveAlong.eq_2, resolveAlong.eq_2]
    split
    · exact ih here
    · split
      · exact ih here.dropLast
      · -- a name is that of a link in both trees or in neither
        dsimp only
        split
        · next target hlink =>
          have hthere : fs.get? (here ++ [name]) = some (.link target) := (hlinks _ _).1 hlink
          rw [hfollow _ _ hthere]
          simp only [hthere, ih]
        · next hplain =>
          split
          · next target hlink => exact absurd ((hlinks _ _).2 hlink) (hplain target)
          · exact ih (here ++ [name])

/-- In trees with the same links, names resolve to the same with any two bounds on the links that may be followed,
as long as both leave room for all of them. -/
theorem resolveFrom_of_sameLinks (hlinks : SameLinks fs t) {depth depth' : Nat} {following : List Location}
    (hroom : fs.LinkRoom depth following) (hroom' : fs.LinkRoom depth' following) (here : Location)
    (names : List String) :
    t.resolveFrom depth' following here names = fs.resolveFrom depth following here names := by
  induction depth generalizing depth' following here names with
  | zero =>
    cases depth' with
    | zero => exact resolveAlong_of_sameLinks hlinks (fun _ _ _ => rfl) here names
    | succ depth' =>
      exact resolveAlong_of_sameLinks hlinks (fun next target hlink => if_pos (hroom.mem hlink)) here names
  | succ depth ih =>
    cases depth' with
    | zero =>
      exact resolveAlong_of_sameLinks hlinks (fun next target hlink => (if_pos (hroom'.mem hlink)).symm) here names
    | succ depth' =>
      refine resolveAlong_of_sameLinks hlinks (fun next target hlink => ?_) here names
      by_cases hmem : next ∈ following
      · rw [if_pos hmem, if_pos hmem]
      · rw [if_neg hmem, if_neg hmem]
        exact ih (hroom.cons hmem hlink) (hroom'.cons hmem hlink) _ _

/-- In trees with the same links, a path resolves to the same from the same start. -/
theorem resolve_of_sameLinks (hlinks : SameLinks fs t) {p : Path} (hstart : t.startOf p = fs.startOf p) :
    t.resolve p = fs.resolve p := by
  have hroom : fs.LinkRoom t.entries.length [] := fun more hnodup hmore =>
    linkRoom_nil t more hnodup fun location hl =>
      ⟨(hmore location hl).1, (hmore location hl).2.imp fun target hlink => (hlinks _ _).2 hlink⟩
  show Path.fromRoot (t.resolveFrom t.entries.length [] (t.startOf p) p.names).1 =
    Path.fromRoot (fs.resolveFrom fs.entries.length [] (fs.startOf p) p.names).1
  rw [hstart, resolveFrom_of_sameLinks hlinks (linkRoom_nil fs) hroom]

end ProviderBindings.FileSystem
