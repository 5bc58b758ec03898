import ProviderBindings.Proofs.FileSystem.Resolving
import ProviderBindings.Proofs.FileSystem.Untouched
import ProviderBindings.Proofs.Harvesting
import ProviderBindings.Proofs.Staging
import ProviderBindings.Proofs.Viewing

/-!
# Where names are worked on

A request works in two places, the output directory and the staging root, which lie apart. `Site` is what
is known of them in a tree with nothing in the output directory, and `Site.Kept` says of a later tree that
it has the shape of that one but for what is below the output directory and some other places. Then the
staging root is where it was, a new directory can be made in it (`Site.Desk`), and that directory is found
again, whatever is harvested meanwhile, until it is removed.
-/

namespace ProviderBindings

open FileSystem

/-- Names lead from a location below another, where nothing stands, as they lead from one that it was shifted
to, when they lead away from there. -/
theorem FileSystem.Leads.shifted {fs t : FileSystem} {ending : Ending} {links : Nat}
    {top a b place : Location} {names : List String} (h : fs.Leads ending links a names place)
    (hs : Shifted top a b) (hc : Carries fs t)
    (hn : fs.get? place = none → ∀ target, t.get? place ≠ some (.link target))
    (hempty : ∀ {location}, Below top location → ¬isNameless location → fs.get? location = none)
    (hout : ¬top <+: place) : t.Leads ending links b names place := by
  rcases hs with rfl | ⟨l, l', ha, rfl, hlength⟩
  · exact h.carried hc hn
  have hnone : ∀ {here : Location} {name : String} {rest : List String} {deep : Location},
      Passes ending here name rest → here = top ++ deep → fs.get? (here ++ [name]) = none := by
    rintro _ name rest deep hpass rfl
    refine hempty ⟨?_, ?_⟩ ?_
    · rw [List.append_assoc]
      exact List.prefix_append _ _
    · rw [List.append_assoc]
      intro he
      simp at he
    · have hidle := hpass.notIdle
      rw [isNameless_append (by simp)]
      intro hname
      have hempty : name = "" := by simpa [isNameless] using hname
      rw [hempty] at hidle
      cases hidle
  -- only double dots lead away from below a location where nothing stands
  induction h generalizing l l' with
  | done => exact absurd (ha ▸ List.prefix_append _ _) hout
  | idle hidle _ ih => exact .idle hidle (ih hn hout _ _ ha hlength)
  | up hrest ih =>
    subst ha
    by_cases hl : l = []
    · have hl' : l' = [] := List.length_eq_zero_iff.1 (by rw [← hlength, hl]; rfl)
      subst hl hl'
      exact (Leads.up hrest).carried hc hn
    · have hl' : l' ≠ [] := fun he => hl (List.length_eq_zero_iff.1 (by rw [hlength, he]; rfl))
      refine .up ?_
      rw [List.dropLast_append_of_ne_nil hl']
      refine ih hn hout l.dropLast _ (List.dropLast_append_of_ne_nil hl) ?_
      rw [List.length_dropLast, List.length_dropLast, hlength]
  | enter hpass hdir _ _ =>
    rw [hnone hpass ha] at hdir
    cases hdir
  | last hpass _ _ =>
    refine absurd ?_ hout
    rw [ha, List.append_assoc]
    exact List.prefix_append _ _
  | link hpass hlink _ _ _ =>
    rw [hnone hpass ha] at hlink
    cases hlink

/-- The places that a request works in, as they are in a tree with nothing in the output directory. -/
structure Site where
  base : FileSystem
  /-- Where the output directory is. -/
  output : Location
  /-- The path of the staging root. -/
  path : Path
  /-- Where the staging root is. -/
  root : Location
  sound : base.Sound
  outputProper : Proper output
  outputFaultless : PathFault.ofText? (Path.fromRoot output).text = none
  outputThere : base.get? output = some .directory
  cleared : ∀ {location}, Below output location → ¬isNameless location → base.get? location = none
  unlinked : base.Unlinked output
  written : path.Written
  faultless : PathFault.ofText? path.text = none
  leads : base.locate .follow path = .ok root
  rootThere : base.get? root = some .directory
  rootProper : Proper root
  apart : ¬output <+: root ∧ ¬root <+: output

namespace Site

variable {S : Site} {free : Location → Prop} {fs t : FileSystem}

/-- Whether a tree has the shape of a site but for what is below the output directory and for places that
are free, no link is below the output directory, and the path of the staging root starts where it did, or
equally deep below the output directory. -/
structure Kept (S : Site) (free : Location → Prop) (fs : FileSystem) : Prop where
  /-- The tree is sound. -/
  sound : fs.Sound
  /-- It has the shape of the site but for what is below the output directory and for places that are free. -/
  same : SameOutside (fun l => Below S.output l ∨ free l) S.base fs
  /-- No link stands at the output directory, below it or on the way to it. -/
  unlinked : fs.Unlinked S.output
  /-- The path of the staging root starts where it did, or equally deep below the output directory. -/
  working : S.path.isAbsolute ∨ Shifted S.output S.base.workingDirectory fs.workingDirectory

/-- Places at which nothing is to be lost: nothing stands there on the site, and they are apart from the
output directory. -/
structure Idle (S : Site) (free : Location → Prop) : Prop where
  /-- Nothing stands at such a place. -/
  empty : ∀ {location}, free location → ¬isNameless location → S.base.get? location = none
  /-- No such place is in the output directory or on the way to it. -/
  apart : ∀ {location}, location <+: S.output ∨ S.output <+: location → ¬free location

/-- No places are idle. -/
theorem idle_none (S : Site) : S.Idle fun _ => False :=
  ⟨fun h => h.elim, fun _ => id⟩

/-- The output directory is neither the root nor one of the directories that lead to the staging root. -/
theorem output_ne_nil (S : Site) : S.output ≠ [] := by
  intro h
  exact S.apart.1 (h ▸ List.nil_prefix)

/-- A tree that was kept carries the site. -/
theorem Kept.carries (h : S.Kept free fs) (hf : S.Idle free) : Carries S.base fs := by
  refine h.same.carries fun location hl => ?_
  by_cases hname : isNameless location
  · exact .inr hname
  · exact .inl (hl.elim (fun hb => S.cleared hb hname) fun hl => hf.empty hl hname)

/-- The path of the staging root leads to it in a tree that carries the site. -/
theorem locate_path (S : Site) (hc : Carries S.base fs)
    (hw : S.path.isAbsolute ∨ Shifted S.output S.base.workingDirectory fs.workingDirectory) :
    fs.locate .follow S.path = .ok S.root ∧ fs.get? S.root = some .directory := by
  obtain ⟨hsize, links, hlinks, hlead⟩ := locate_eq_ok_iff.1 S.leads
  refine ⟨locate_eq_ok_iff.2 ⟨hsize, links, hlinks, ?_⟩, Carries.directory hc S.rootThere⟩
  have hstart : Shifted S.output (S.base.startOf S.path) (fs.startOf S.path) := by
    unfold startOf
    by_cases hroot : S.path.isAbsolute
    · rw [if_pos hroot, if_pos hroot]
      exact .refl _ _
    · rw [if_neg hroot, if_neg hroot]
      exact hw.resolve_left hroot
  refine hlead.shifted hstart hc (fun hn => ?_) S.cleared S.apart.1
  rw [S.rootThere] at hn
  cases hn

/-- The staging root is where it was. -/
theorem Kept.locate_path (h : S.Kept free fs) (hf : S.Idle free) :
    fs.locate .follow S.path = .ok S.root ∧ fs.get? S.root = some .directory :=
  S.locate_path (h.carries hf) h.working

/-- Unless it was below the output directory, the working directory from which the staging root is reached is the
same. -/
theorem Kept.working_eq (h : S.Kept free fs) (hbelow : ¬Below S.output S.base.workingDirectory) :
    S.path.isAbsolute ∨ fs.workingDirectory = S.base.workingDirectory := by
  refine h.working.imp_right fun hshifted => ?_
  rcases hshifted with hsame | ⟨l, l', hbase, hfs, hlength⟩
  · exact hsame.symm
  · have hl : l = [] := by
      by_contra hne
      exact hbelow (hbase ▸ below_append hne)
    have hl' : l' = [] := List.length_eq_zero_iff.1 (by rw [← hlength, hl]; rfl)
    rw [hfs, hbase, hl, hl']

/-- What was kept is kept with more free places. -/
theorem Kept.mono {more : Location → Prop} (h : S.Kept free fs) (hm : ∀ l, free l → more l) :
    S.Kept more fs :=
  ⟨h.sound, h.same.mono fun l hl => hl.imp_right (hm l), h.unlinked, h.working⟩

/-- A tree of the same shape outside the free places is kept as well. -/
theorem Kept.of_same (h : S.Kept free fs) (hf : S.Idle free) (ht : t.Sound)
    (hsame : SameOutside free fs t)
    (hw : S.path.isAbsolute ∨ t.workingDirectory = fs.workingDirectory) : S.Kept free t := by
  refine ⟨ht, h.same.trans (hsame.mono fun _ hl => .inr hl), ?_, ?_⟩
  · intro location hl target htarget
    have hshape := hsame location (hf.apart hl)
    rw [shapeAt_eq_link.2 htarget] at hshape
    exact h.unlinked location hl target (shapeAt_eq_link.1 hshape.symm)
  · rcases hw with hroot | hw
    · exact .inl hroot
    · rw [hw]
      exact h.working

/-- A tree in which the log file was added to is kept as well. -/
theorem Kept.writeHeld (h : S.Kept free fs) (hf : S.Idle free) (line : String) :
    S.Kept free (fs.writeHeld line) :=
  h.of_same hf (h.sound.writeHeld line) (h.sound.same_writeHeld _ line)
    (.inr (writeHeld_frame fs line).1)

/-- The path of the staging root with a name after it leads to that name. -/
theorem Kept.locate_concat (h : S.Kept free fs) (hf : S.Idle free) {name : String}
    (hp : Proper [name]) (hshort : name.utf8ByteSize ≤ maxNameSize)
    (hfits : (⟨S.path.anchor, S.path.names ++ [name]⟩ : Path).text.utf8ByteSize ≤ maxPathSize)
    {ending : Ending}
    (hl : ∀ target, fs.get? (S.root ++ [name]) = some (.link target) → ending = .keep) :
    fs.locate ending ⟨S.path.anchor, S.path.names ++ [name]⟩ = .ok (S.root ++ [name]) := by
  obtain ⟨hlead, hroot⟩ := h.locate_path hf
  exact FileSystem.locate_concat hlead hroot hfits S.rootProper hp hshort hl

/-! ## Making the staging root -/

/-- Whether the staging root can be made in a tree, or is there, and what comes of that was kept. -/
structure Ready (S : Site) (parent : Option Path) (fs root : FileSystem) : Prop where
  /-- The tree is sound. -/
  sound : fs.Sound
  /-- The staging root was made in it, as far as it was missing. -/
  made : Staging.RootMade parent fs root
  /-- The tree with the staging root was kept. -/
  kept : S.Kept (fun _ => False) root

/-- In a tree that was kept the staging root is there. -/
theorem Kept.ready (h : S.Kept (fun _ => False) fs) {parent : Option Path} {temporary : Path}
    (hp : S.path = parent.getD temporary) : S.Ready parent fs fs := by
  refine ⟨h.sound, ?_, h⟩
  cases parent with
  | none => rfl
  | some path =>
    obtain rfl : S.path = path := hp
    obtain ⟨hlead, hdir⟩ := h.locate_path S.idle_none
    exact run_makeDirectories_of_directory S.written
      (isDirectory_eq_true_iff.2 ⟨S.faultless, S.root, hlead, hdir⟩)

end Site

/-- The staging root can be made as well after the log file was added to, and nothing else differs then. -/
theorem Staging.RootMade.writeHeld {parent : Option Path} {fs root : FileSystem}
    (h : RootMade parent fs root) (hp : ∀ p, parent = some p → p.Written) (hs : fs.Sound)
    (line : String) : ∃ root', RootMade parent (fs.writeHeld line) root' ∧ Same root root' := by
  have hsame : Same fs (fs.writeHeld line) := hs.same_of_writeHeld line
  cases parent with
  | none =>
    obtain rfl : root = fs := h
    exact ⟨_, rfl, hsame⟩
  | some path =>
    have hmake : (makeDirectories path).run fs = (.ok (), root) := h
    obtain ⟨hresult, hafter⟩ := makeDirectories_same (hp path rfl) _ _ hsame
    rw [hmake] at hresult hafter
    refine ⟨((makeDirectories path).run (fs.writeHeld line)).2, ?_, hafter⟩
    exact Prod.ext hresult rfl

namespace Site

variable {S : Site} {free : Location → Prop} {fs t : FileSystem}

/-- The staging root can be made as well after the log file was added to, and nothing else differs then. -/
theorem Ready.writeHeld {parent : Option Path} {temporary : Path} {root : FileSystem}
    (h : S.Ready parent fs root) (hp : S.path = parent.getD temporary) (line : String) :
    ∃ root', S.Ready parent (fs.writeHeld line) root' ∧ Same root root' := by
  have hwritten : ∀ p, parent = some p → p.Written := by
    rintro p rfl
    have hpath : S.path = p := hp
    rw [← hpath]
    exact S.written
  obtain ⟨root', hroot, hsame⟩ := h.made.writeHeld hwritten h.sound line
  have hsound : root'.Sound := by
    cases parent with
    | none =>
      obtain rfl : root' = fs.writeHeld line := hroot
      exact h.sound.writeHeld line
    | some path =>
      exact (grown_makeDirectories (h.sound.writeHeld line) (hwritten path rfl) hroot).sound
        (h.sound.writeHeld line)
  exact ⟨root', ⟨h.sound.writeHeld line, hroot,
    h.kept.of_same S.idle_none hsound hsame.shape (.inr hsame.working)⟩, hsame⟩

/-! ## Staging directories -/

/-- A new directory in the staging root. -/
structure Desk (S : Site) where
  name : String
  proper : Proper [name]
  short : name.utf8ByteSize ≤ maxNameSize
  faultless : PathFault.ofText? name = none
  /-- The path to it is not too long. -/
  fits : (⟨S.path.anchor, S.path.names ++ [name]⟩ : Path).text.utf8ByteSize ≤ maxPathSize
  /-- Nothing stood there. -/
  vacant : S.base.get? (S.root ++ [name]) = none

namespace Desk

variable (d : S.Desk)

/-- The location of the directory. -/
def place : Location := S.root ++ [d.name]

/-- The path of the directory. -/
def path : Path := ⟨S.path.anchor, S.path.names ++ [d.name]⟩

variable {d}

/-- The path of the directory is written. -/
theorem written_path (d : S.Desk) : d.path.Written := by
  intro name hname
  rcases List.mem_append.1 hname with hname | hname
  · exact S.written name hname
  · exact (d.proper name hname).1

/-- The path of the directory has no fault. -/
theorem faultless_path (d : S.Desk) : PathFault.ofText? d.path.text = none := by
  refine PathFault.ofText?_text_append S.faultless fun name hname => ?_
  rw [List.mem_singleton.1 hname]
  exact d.faultless

/-- The location of the directory is proper. -/
theorem proper_place (d : S.Desk) : Proper d.place :=
  S.rootProper.append d.proper

/-- The directory is not the root. -/
theorem place_ne_nil (d : S.Desk) : d.place ≠ [] := by
  simp [place]

/-- The directory is apart from the output directory. -/
theorem apart (d : S.Desk) : ¬S.output <+: d.place ∧ ¬d.place <+: S.output := by
  refine ⟨not_prefix_append S.apart.1 S.apart.2, fun h => ?_⟩
  exact S.apart.2 ((List.prefix_append _ _).trans h)

/-- The directory and what is below it are idle places. -/
theorem idle (d : S.Desk) : S.Idle (d.place <+: ·) := by
  refine ⟨fun hl hname => S.sound.none_of_isPrefix d.vacant hl hname, fun hout hin => ?_⟩
  rcases hout with h | h
  · exact d.apart.2 (hin.trans h)
  · rcases List.prefix_or_prefix_of_prefix h hin with h' | h'
    · exact d.apart.1 h'
    · exact d.apart.2 h'

/-- Whether a tree was kept but for the directory, which is there, and the log file is not in it. -/
structure Busy (d : S.Desk) (fs : FileSystem) : Prop where
  /-- The tree was kept but for the directory. -/
  kept : S.Kept (d.place <+: ·) fs
  /-- The directory is there. -/
  there : fs.get? d.place = some .directory
  /-- The log file is not in it. -/
  log : ∀ {location}, fs.held = some location → ¬d.place <+: location

/-- In a tree in which the directory is in use its path leads to it. -/
theorem Busy.locate (h : d.Busy fs) {ending : Ending} : fs.locate ending d.path = .ok d.place := by
  refine h.kept.locate_concat d.idle d.proper d.short d.fits fun target htarget => ?_
  have hlink : fs.get? d.place = some (.link target) := htarget
  rw [h.there] at hlink
  cases hlink

/-- What changes at and below the directory alone leaves it in use, as long as it is there. -/
theorem Busy.of_same (h : d.Busy fs) (ht : t.Sound) (hsame : SameOutside (d.place <+: ·) fs t)
    (hw : S.path.isAbsolute ∨ t.workingDirectory = fs.workingDirectory)
    (hd : t.get? d.place = some .directory)
    (hlog : ∀ {location}, t.held = some location → fs.held = some location) : d.Busy t :=
  ⟨h.kept.of_same d.idle ht hsame hw, hd, fun hl => h.log (hlog hl)⟩

/-- What is written below the directory leaves it in use. -/
theorem Busy.onlyBelow (h : d.Busy fs) (ht : OnlyBelow d.place fs t) : d.Busy t := by
  refine h.of_same ht.sound (fun location hl => ?_) (.inr ht.working) ht.directory fun hl => ?_
  · unfold shapeAt
    rw [ht.elsewhere hl]
  · rwa [ht.held] at hl

/-- When the log file was added to, the directory is still in use. -/
theorem Busy.writeHeld (h : d.Busy fs) (line : String) : d.Busy (fs.writeHeld line) := by
  refine ⟨h.kept.writeHeld d.idle line, ?_, fun hl => h.log ?_⟩
  · exact Carries.directory (h.kept.sound.carries_writeHeld line) h.there
  · rwa [(writeHeld_frame fs line).2] at hl

/-- The path of the directory resolves to the path from the root to it, as long as the working directory has not
been removed. -/
theorem Busy.run_resolve {host : Host} (h : d.Busy host.files)
    (hstart : S.path.isAbsolute ∨ isGone host.files.workingDirectory = false) :
    (Host.resolve d.path).run host = (.ok (.fromRoot d.place), host) := by
  have hresolve : host.files.resolve d.path = .fromRoot d.place := resolve_eq h.locate
  refine run_resolve_ok_iff.2 ⟨rfl, nameFault?_of_text d.faultless_path, hstart, hresolve.symm, ?_⟩
  unfold isEndless
  have hlead : host.files.locate .follow (.fromRoot d.place) = .ok d.place ∨
      host.files.locate .follow (.fromRoot d.place) = .error .nameTooLong := by
    refine h.kept.sound.locate_of_isSome d.proper_place d.place_ne_nil (by simp [h.there]) ?_
    intro target htarget
    rw [h.there] at htarget
    cases htarget
  rcases hlead with hok | herr
  · rw [hok]
  · rw [herr]

/-- The working directory is not in the directory when the staging root is reached from it. -/
theorem Busy.not_prefix_working (h : d.Busy fs) (hroot : ¬S.path.isAbsolute) :
    ¬d.place <+: fs.workingDirectory := by
  intro hp
  rcases h.kept.working.resolve_left hroot with he | ⟨l, l', -, hl, -⟩
  · rw [← he] at hp
    have hthere := S.sound.working hp
    rw [show S.base.get? d.place = none from d.vacant] at hthere
    cases hthere
  · rw [hl] at hp
    rcases List.prefix_or_prefix_of_prefix hp (List.prefix_append _ _) with h' | h'
    · exact d.apart.2 h'
    · exact d.apart.1 h'

/-- The directory is removed with all that is in it, and the tree was kept then. -/
theorem Busy.run_removeTree (h : d.Busy fs) :
    ∃ t, (removeTree d.path).run fs = (.ok (), t) ∧ Removed d.place fs t ∧
      S.Kept (fun _ => False) t := by
  -- the path is followed again for the directory itself once what is in it is gone
  have hcleared : d.Busy (fs.clear d.place) := by
    refine h.of_same (h.kept.sound.clear _) (fun location hl => ?_) ?_ ?_ fun hl => ?_
    · unfold shapeAt
      rw [get?_clear_of_not_below fun hp => absurd hp hl]
    · by_cases hroot : S.path.isAbsolute
      · exact .inl hroot
      · refine .inr ?_
        unfold clear
        rw [if_neg (by rw [within_iff_isPrefix]; exact h.not_prefix_working hroot)]
    · rw [get?_clear_of_not_below fun _ => rfl, h.there]
    · exact (Option.filter_eq_some_iff.1 hl).1
  have hlast : d.path.names.getLast? = some d.name := List.getLast?_concat
  have hremoved := removed_clear_remove fs d.place
  refine ⟨_, FileSystem.run_removeTree d.faultless_path h.locate h.there hcleared.locate hlast
    (d.proper d.name (by simp)).2, hremoved, hremoved.sound h.kept.sound, ?_, ?_, ?_⟩
  · intro location hl
    by_cases hin : d.place <+: location
    · by_cases hname : isNameless location
      · unfold shapeAt
        rw [get?_of_isNameless hname, get?_of_isNameless hname]
      · unfold shapeAt
        rw [hremoved.gone hname hin, d.idle.empty hin hname]
    · unfold shapeAt
      rw [hremoved.kept hin]
      exact h.kept.same location fun hz => hz.elim (fun hb => hl (.inl hb)) hin
  · intro location hl target htarget
    rw [hremoved.kept (d.idle.apart hl)] at htarget
    exact h.kept.unlinked location hl target htarget
  · by_cases hroot : S.path.isAbsolute
    · exact .inl hroot
    · rw [hremoved.working (h.not_prefix_working hroot)]
      exact h.kept.working

end Desk

/-! ## Making staging directories -/

/-- The label of the staging directories of requests. -/
abbrev label : String := "get"

/-- The name of a staging directory is proper. -/
theorem proper_scratchName (n : Nat) : Proper [scratchName label n] := by
  intro name hname
  rw [List.mem_singleton.1 hname]
  exact isName_scratchName (by decide) n

/-- The same stands at a name in the staging root as on the site, as far as walks can tell. -/
theorem Kept.shapeAt_root (h : S.Kept (fun _ => False) fs) (name : String) :
    fs.shapeAt (S.root ++ [name]) = S.base.shapeAt (S.root ++ [name]) := by
  refine h.same _ fun hz => hz.elim (fun hb => ?_) id
  exact not_prefix_append S.apart.1 S.apart.2 hb.1

/-- Whether a directory was made in a tree: nothing stood there, and it is in use and empty. -/
structure Desk.Laid (d : S.Desk) (fs t : FileSystem) : Prop where
  /-- Nothing stood there. -/
  free : fs.get? d.place = none
  /-- The directory is in use. -/
  busy : d.Busy t
  /-- The directory is empty. -/
  empty : t.IsEmptyDirectory d.place
  /-- Nothing beside it was touched. The log file may have been added to. -/
  beside : Untouched (¬d.place <+: ·) fs t

/-- A directory that was made in the staging root is a new one, which is in use and empty. -/
theorem Kept.desk_of_makeDirectoryAt (h : S.Kept (fun _ => False) fs) {n : Nat}
    (hmake : (makeDirectoryAt (scratchText label S.path.text n)).run fs = (.ok (), t)) :
    ∃ d : S.Desk, d.name = scratchName label n ∧
      Path.ofString (scratchText label S.path.text n) = d.path ∧ d.Laid fs t := by
  have hname : Path.IsName (scratchName label n) := (proper_scratchName n _ (by simp)).1
  obtain ⟨-, place, htext, hfree, rfl⟩ := run_makeDirectoryAt_ok_iff.1 hmake
  have hlocate := locate_of_joinText S.written hname htext
  have hgrown := h.sound.grown_put (S.written.child _) hlocate hfree
  rw [Path.child_of_isName _ hname] at hlocate
  obtain ⟨rfl, hshort⟩ := locate_keep_concat (h.locate_path S.idle_none).1 hlocate
    (proper_scratchName n)
  -- the site shows the same below its root as the tree, so the name is free on it as well
  have hvacant : S.base.get? (S.root ++ [scratchName label n]) = none := by
    rw [← shapeAt_eq_none, ← h.shapeAt_root, shapeAt_eq_none, hfree]
  have hput : ∀ location, (fs.put (S.root ++ [scratchName label n]) .directory).get? location =
      if S.root ++ [scratchName label n] = location then some .directory else fs.get? location :=
    fun location => get?_put _ location (not_isNameless_of_get?_none hfree)
  let d : S.Desk :=
    { name := scratchName label n
      proper := proper_scratchName n
      short := hshort
      faultless := faultless_scratchName (by decide) n
      fits := (locate_eq_ok_iff.1 hlocate).1
      vacant := hvacant }
  have hbeside : Untouched (¬d.place <+: ·) fs (fs.put (S.root ++ [scratchName label n]) .directory) := by
    refine untouched_of_get? (fun {location} hl => ?_) id
    rw [hput, if_neg]
    rintro rfl
    exact hl (List.prefix_refl _)
  have hempty := h.sound.isEmptyDirectory_put hfree
  refine ⟨d, rfl, ?_, hfree, ⟨?_, hempty.1, fun {location} hl => ?_⟩, hempty, hbeside⟩
  · exact (Path.ofString_joinText S.written hname).trans (Path.child_of_isName _ hname)
  · exact (h.mono fun _ hl => hl.elim).of_same d.idle (hgrown.sound h.sound)
      (fun l hl => hbeside.shape hl) (.inr rfl)
  · exact hbeside.not_isPrefix_held h.sound hfree hl

/-- A directory can be made in the staging root, with one of the numbers from the first one on of which
there are one more than entries on the site. -/
theorem Kept.exists_makeDirectoryAt (h : S.Kept (fun _ => False) fs) {first : Nat}
    (hfits : ∀ k ≤ S.base.entries.length, (scratchName label (first + k)).utf8ByteSize ≤ maxNameSize ∧
      (⟨S.path.anchor, S.path.names ++ [scratchName label (first + k)]⟩ : Path).text.utf8ByteSize ≤
        maxPathSize) :
    fs.scratchOffset label S.path.text first ≤ S.base.entries.length ∧
      ∃ t, (makeDirectoryAt (scratchText label S.path.text
        (first + fs.scratchOffset label S.path.text first))).run fs = (.ok (), t) := by
  -- a number is taken only when something stands under its name
  have huntaken : ∀ n, fs.get? (S.root ++ [scratchName label n]) = none →
      fs.scratchTaken label S.path.text n = false := by
    intro n hn
    have hname : Path.IsName (scratchName label n) := (proper_scratchName n _ (by simp)).1
    unfold scratchTaken
    cases htext : fs.locateText .keep (scratchText label S.path.text n) with
    | error e => rfl
    | ok place =>
      have hlocate := locate_of_joinText S.written hname htext
      rw [Path.child_of_isName _ hname] at hlocate
      obtain ⟨rfl, -⟩ := locate_keep_concat (h.locate_path S.idle_none).1 hlocate
        (proper_scratchName n)
      simp [Except.toOption, hn]
  have hlabel : '/' ∉ label.toList := by decide
  obtain ⟨k, hk, hfree⟩ := exists_free_scratch fs hlabel S.root first
  obtain ⟨j, hj, hvacant⟩ := exists_free_scratch S.base hlabel S.root first
  rw [← shapeAt_eq_none, ← h.shapeAt_root, shapeAt_eq_none] at hvacant
  obtain ⟨hnext, hleast⟩ := scratchOffset_spec hk (huntaken _ hfree)
  have hoffset := Nat.le_trans (hleast j (huntaken _ hvacant)) hj
  refine ⟨hoffset, ?_⟩
  generalize fs.scratchOffset label S.path.text first = offset at hnext hoffset
  obtain ⟨hshort, hsize⟩ := hfits offset hoffset
  have hname : Path.IsName (scratchName label (first + offset)) :=
    (proper_scratchName (first + offset) _ (by simp)).1
  have hlocate : fs.locate .keep
      ⟨S.path.anchor, S.path.names ++ [scratchName label (first + offset)]⟩ =
        .ok (S.root ++ [scratchName label (first + offset)]) :=
    h.locate_concat S.idle_none (proper_scratchName (first + offset)) hshort hsize fun _ _ => rfl
  rw [← Path.child_of_isName _ hname] at hlocate
  have htext := locateText_joinText S.written hname hshort hlocate
  refine ⟨_, run_makeDirectoryAt_ok_iff.2 ⟨?_, _, htext, ?_, rfl⟩⟩
  · rcases Path.joinText_text S.written hname with he | ⟨-, he⟩
    · rw [scratchText, he, Path.child_of_isName _ hname]
      refine PathFault.ofText?_text_append S.faultless fun other hother => ?_
      rw [List.mem_singleton.1 hother]
      exact faultless_scratchName (by decide) _
    · rw [scratchText, he, PathFault.ofText?_append]
      exact ⟨by decide, faultless_scratchName (by decide) _⟩
  · unfold scratchTaken at hnext
    rw [show fs.locateText .keep (scratchText label S.path.text (first + offset)) = _ from htext]
      at hnext
    simpa [Except.toOption] using hnext

/-- On a site that is ready a staging directory is made, which is in use and empty, or else no more than the
staging root is. -/
theorem Ready.acquire_cases {parent : Option Path} {host host' : Host} {root : FileSystem}
    {result : Except Failure Path} (h : S.Ready parent host.files root)
    (hp : S.path = parent.getD host.temporary)
    (hacquire : (Staging.acquire label parent).run host = (result, host')) :
    (∃ failure, result = .error failure ∧ host' = { host with files := root }) ∨
      ∃ (d : S.Desk) (made : FileSystem), result = .ok d.path ∧ d.Laid root made ∧
        host' = { host with files := made, staged := host.staged + 1 } := by
  rw [Staging.run_acquire h.made] at hacquire
  unfold Staging.nextText at hacquire
  rw [← hp] at hacquire
  rcases hmake : (makeDirectoryAt (scratchText label S.path.text (host.staged + 1 +
    root.scratchOffset label S.path.text (host.staged + 1)))).run root with ⟨failure | ⟨⟩, made⟩
  · obtain rfl := run_makeDirectoryAt_error hmake
    rw [hmake] at hacquire
    cases hacquire
    exact .inl ⟨_, rfl, rfl⟩
  · obtain ⟨d, -, hdirectory, hlaid⟩ := h.kept.desk_of_makeDirectoryAt hmake
    rw [hmake] at hacquire
    cases hacquire
    exact .inr ⟨d, made, congrArg _ hdirectory, hlaid, rfl⟩

/-- On a site that is ready a staging directory can be made. -/
theorem Ready.exists_acquire {parent : Option Path} {host : Host} {root : FileSystem}
    (h : S.Ready parent host.files root) (hp : S.path = parent.getD host.temporary)
    (hfits : ∀ k ≤ S.base.entries.length,
      (scratchName label (host.staged + 1 + k)).utf8ByteSize ≤ maxNameSize ∧
        (⟨S.path.anchor, S.path.names ++ [scratchName label (host.staged + 1 + k)]⟩ :
          Path).text.utf8ByteSize ≤ maxPathSize) :
    ∃ (d : S.Desk) (made : FileSystem) (k : Nat), k ≤ S.base.entries.length ∧
      d.name = scratchName label (host.staged + 1 + k) ∧ d.Laid root made ∧
      (Staging.acquire label parent).run host =
        (.ok d.path, { host with files := made, staged := host.staged + 1 }) := by
  obtain ⟨hoffset, made, hmake⟩ := h.kept.exists_makeDirectoryAt hfits
  obtain ⟨d, hname, hdirectory, hlaid⟩ := h.kept.desk_of_makeDirectoryAt hmake
  refine ⟨d, made, _, hoffset, hname, hlaid, ?_⟩
  rw [Staging.run_acquire h.made, ← hdirectory]
  unfold Staging.nextText
  rw [← hp, hmake]

end Site

end ProviderBindings
