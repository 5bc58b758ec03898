import ProviderBindings.Proofs.FileSystem.Enclosing

/-!
# Paths that are spelled out

A path is *plain* when it has no double dots and no link stands at its parent or on the way there. Wherever such a path
leads, it leads where its names spell (`Plain.locate_keep`), and what is made on its way are the directories that were
missing there and nothing else (`run_makeDirectories_spelled_ok`). The last of its names may be that of a link, and the
path may start at the working directory.

A name that is too long for a file is an error, also where nothing stands (`Sound.status_of_long`).

Other paths may lead through links, of which a change to the tree may take some away without putting anything in their
place. Then a path leads nowhere any more, or to where it led before (`LinksLeft.locate_append`).
-/

namespace ProviderBindings.FileSystem

variable {fs t u v : FileSystem} {p : Path} {ending : Ending}

/-! ## Plain paths -/

/-- The location that the names of a path spell from where it starts. -/
def endOf (fs : FileSystem) (p : Path) : Location :=
  fs.startOf p ++ p.names

/-- Whether a path has no double dots, and no link stands at its parent or on the way there. -/
structure Plain (fs : FileSystem) (p : Path) : Prop where
  /-- The path can be written. -/
  written : p.Written
  /-- None of its names is double dots. -/
  noUp : ".." ∉ p.names
  /-- No link stands at its parent or on the way there. -/
  linkFree : fs.LinkFree (fs.startOf p) p.parent.names

/-- The names of a plain path are proper. -/
theorem Plain.proper (h : fs.Plain p) : Proper p.names :=
  fun name hname => ⟨h.written name hname, fun he => h.noUp (he ▸ hname)⟩

/-- The names of the parent of a plain path are proper. -/
theorem Plain.proper_parent (h : fs.Plain p) : Proper p.parent.names :=
  h.proper.of_isPrefix (List.dropLast_prefix _)

/-- A path with names does not spell the root. -/
theorem endOf_ne_nil (fs : FileSystem) (hne : p.names ≠ []) : fs.endOf p ≠ [] :=
  fun hnil => hne (List.append_eq_nil_iff.1 hnil).2

/-- A plain path leads where it spells, when a link at its end is kept. -/
theorem Plain.locate_keep (h : fs.Plain p) (hne : p.names ≠ []) {place : Location}
    (hl : fs.locate .keep p = .ok place) : place = fs.endOf p := by
  obtain ⟨anchor, names⟩ := p
  obtain ⟨first, name, rfl⟩ : ∃ first name, names = first ++ [name] :=
    ⟨_, _, (List.dropLast_append_getLast hne).symm⟩
  have hproper : Proper (first ++ [name]) := h.proper
  have hfree : fs.LinkFree (fs.startOf ⟨anchor, first⟩) first := by
    have hparent : fs.LinkFree (fs.startOf ⟨anchor, first⟩) (first ++ [name]).dropLast := h.linkFree
    rwa [List.dropLast_concat] at hparent
  obtain ⟨middle, hmiddle, rfl⟩ := exists_locate_of_concat hl hproper.of_append_right
  obtain ⟨-, links, -, hlead⟩ := locate_eq_ok_iff.1 hmiddle
  obtain ⟨rfl, -⟩ := hlead.eq_append (hproper.of_isPrefix (List.prefix_append _ _)) hfree
  exact List.append_assoc _ _ _

/-- A plain path leads where it spells, also through links, unless a link stands there. -/
theorem Plain.locate_of_not_link (h : fs.Plain p) (hlink : ∀ target, fs.get? (fs.endOf p) ≠ some (.link target))
    {place : Location} (hl : fs.locate ending p = .ok place) : place = fs.endOf p := by
  obtain ⟨-, links, -, hlead⟩ := locate_eq_ok_iff.1 hl
  refine (hlead.eq_append h.proper fun {top} ht hne target hthere => ?_).1
  by_cases he : top = p.names
  · subst he
    exact hlink target hthere
  · exact h.linkFree (isPrefix_dropLast ht he) hne target hthere

/-- In a sound tree, a path without double dots leads to what stands where it spells, unless that is a link or the path
is too long. -/
theorem Sound.locate_spelled (hs : fs.Sound) (hp : Proper p.names) (hne : p.names ≠ []) {entry : Entry}
    (hentry : fs.get? (fs.endOf p) = some entry) (hlink : ∀ target, entry ≠ .link target)
    (hsize : p.text.utf8ByteSize ≤ maxPathSize) : fs.locate ending p = .ok (fs.endOf p) := by
  have hname : ¬isNameless (fs.endOf p) := by
    rw [endOf, isNameless_append hne]
    exact hp.not_isNameless hne
  have hproper : Proper (fs.endOf p) := hs.proper hname (by simp [hentry])
  have hstart : fs.locate .follow ⟨p.anchor, []⟩ = .ok (fs.startOf p) :=
    locate_eq_ok_iff.2 ⟨by cases p.anchor <;> decide, 0, Nat.zero_le _, .done⟩
  exact hs.locate_append hstart (hs.rooted_startOf p (List.prefix_refl _))
    (hproper.of_isPrefix (List.prefix_append _ _)) hp hne hentry hlink hsize

/-- Nothing stands where a plain path spells that leads to nothing, unless a link does. -/
theorem Sound.none_of_plain (hs : fs.Sound) (h : fs.Plain p) (hne : p.names ≠ [])
    (hlink : ∀ target, fs.get? (fs.endOf p) ≠ some (.link target)) (hfault : PathFault.ofText? p.text = none)
    (hstatus : fs.status .follow p = .ok none) : fs.get? (fs.endOf p) = none := by
  unfold status at hstatus
  rw [hfault] at hstatus
  simp only [Option.isSome_none, Bool.false_eq_true, if_false] at hstatus
  cases hentry : fs.get? (fs.endOf p) with
  | none => rfl
  | some entry =>
    by_cases hsize : p.text.utf8ByteSize ≤ maxPathSize
    · have hl : fs.locate .follow p = .ok (fs.endOf p) :=
        hs.locate_spelled h.proper hne hentry (fun target he => hlink target (he ▸ hentry)) hsize
      rw [hl] at hstatus
      rw [← hentry]
      exact Except.ok.inj hstatus
    · have hl : fs.locate .follow p = .error .nameTooLong := by
        unfold locate locateRoute
        rw [if_pos (Nat.lt_of_not_le hsize)]
      rw [hl] at hstatus
      cases hstatus

/-! ## Names that are too long -/

/-- A walk through directories fails at a name that is too long for a file. -/
theorem walk_of_long {here : Location} {names : List String} {name : String} (hgone : isGone here = false)
    (hp : Proper (names ++ [name])) (hshort : Short names) (hlong : maxNameSize < name.utf8ByteSize)
    (hway : ∀ {top}, top <+: names → top ≠ [] → fs.get? (here ++ top) = some .directory) :
    fs.walk ending here (names ++ [name]) = .failed .nameTooLong := by
  induction names generalizing here with
  | nil =>
    have hup : name ≠ ".." := (hp name (by simp)).2
    rw [List.nil_append, walk, if_neg (by simp [hp.isIdle_eq_false]), if_neg hup, if_neg (by simp), if_pos hlong]
  | cons first rest ih =>
    have hpass : Passes ending here first (rest ++ [name]) := passes_of_proper hp (hshort first (by simp)) hgone
    rw [List.cons_append, walk_of_passes hpass, hway (List.prefix_append [first] rest) (by simp)]
    dsimp only
    refine ih (isGone_concat hp) (fun n hn => hp n (List.mem_cons_of_mem _ hn))
      (fun n hn => hshort n (List.mem_cons_of_mem _ hn)) fun {top} ht _ => ?_
    rw [List.append_assoc]
    exact hway (List.cons_prefix_cons.2 ⟨rfl, ht⟩) (by simp)

/-- What a directory has under a name that is too long for a file cannot be looked up. -/
theorem Sound.status_of_long (hs : fs.Sound) {place : Location} {name : String} (hd : fs.get? place = some .directory)
    (hp : Proper (place ++ [name])) (hlong : maxNameSize < name.utf8ByteSize)
    (hfault : PathFault.ofText? (Path.fromRoot (place ++ [name])).text = none) :
    fs.status .follow (.fromRoot (place ++ [name])) = .error (.on .nameTooLong (.fromRoot (place ++ [name]))) := by
  have hplace : Proper place := hp.of_isPrefix (List.prefix_append _ _)
  have hshort : Short place := by
    intro n hn
    exact hs.short (hplace.not_isNameless (List.ne_nil_of_mem hn)) (by simp [hd]) n hn
  have hway {top : Location} (ht : top <+: place) (hne : top ≠ []) : fs.get? ([] ++ top) = some .directory := by
    rw [List.nil_append]
    exact hs.rooted hd hplace ht
  have hl : fs.locate .follow (.fromRoot (place ++ [name])) = .error .nameTooLong := by
    show fs.locateRoute .follow _ ⟨true, place ++ [name]⟩ = _
    unfold locateRoute
    split
    · rfl
    · rw [if_pos rfl, locateFrom, walk_of_long rfl hp hshort hlong hway]
  unfold status
  rw [hfault, hl]
  rfl

/-- A walk that ends at a link to a single name fails where that name is too long for a file. -/
theorem locateFrom_of_long_link {links : Nat} {here base : Location} {names : List String} {target : String}
    (hwalk : fs.walk .follow here names = .link base target []) (hsplit : Text.split '/' target = [target])
    (hname : target ≠ "" ∧ target ≠ "." ∧ target ≠ "..") (hlong : maxNameSize < target.utf8ByteSize) :
    fs.locateFrom .follow (links + 1) here names = .error .nameTooLong := by
  have hroute : (Route.ofString target).names = [target] := by
    unfold Route.ofString
    simp [hsplit, hname.1]
  have hidle : isIdle target = false := by simp [isIdle, hname.1, hname.2.1]
  have hstop : ∀ base, fs.walk .follow base [target] = .failed .nameTooLong := by
    intro base
    rw [walk, if_neg (by simp [hidle]), if_neg hname.2.2, if_neg (by simp), if_pos hlong]
  rw [locateFrom, hwalk]
  dsimp only
  rw [hroute, List.append_nil, locateFrom, hstop]

/-! ## Plain paths in other trees -/

/-- The names of a plain path do not spell a location without a name. -/
theorem Plain.not_isNameless (h : fs.Plain p) (hne : p.names ≠ []) : ¬isNameless (fs.endOf p) := by
  rw [endOf, isNameless_append hne]
  exact h.proper.not_isNameless hne

/-- The parent of a path spells the location above that of the path. -/
theorem endOf_parent (fs : FileSystem) (hne : p.names ≠ []) : fs.endOf p.parent = (fs.endOf p).dropLast :=
  (List.dropLast_append_of_ne_nil hne).symm

/-- Directories lead to what is above something that stands where a plain path spells. -/
theorem Plain.rooted_dropLast (hp : fs.Plain p) (hs : fs.Sound) (hne : p.names ≠ [])
    (hthere : fs.get? (fs.endOf p) ≠ none) : fs.Rooted (fs.endOf p).dropLast := by
  intro top htop
  refine hs.directory_of_isPrefix (hp.not_isNameless hne) (Option.isSome_iff_ne_none.2 hthere)
    (htop.trans (List.dropLast_prefix _)) ?_
  rintro rfl
  exact not_isPrefix_dropLast (endOf_ne_nil fs hne) htop

/-- A path starts where it did, when the working directory is left alone unless it is at or below the end of the path. -/
theorem startOf_eq_of_endOf (hne : p.names ≠ [])
    (h : ¬fs.endOf p <+: fs.workingDirectory → t.workingDirectory = fs.workingDirectory) :
    t.startOf p = fs.startOf p := by
  unfold endOf FileSystem.startOf at *
  split
  · rfl
  · next hrelative =>
    refine h ?_
    rw [if_neg hrelative]
    exact not_append_isPrefix hne

/-- A plain path is plain where it starts at the same location and there are no other links. -/
theorem Plain.of_links (h : fs.Plain p) (hstart : t.startOf p = fs.startOf p)
    (hlinks : ∀ {location target}, t.get? location = some (.link target) → fs.get? location = some (.link target)) :
    t.Plain p ∧ t.endOf p = fs.endOf p := by
  refine ⟨⟨h.written, h.noUp, ?_⟩, by rw [endOf, endOf, hstart]⟩
  rw [hstart]
  exact fun ht hne target hlink => h.linkFree ht hne target (hlinks hlink)

/-- To clear a place makes no links. -/
theorem link_of_clear {top location : Location} {target : String}
    (h : (fs.clear top).get? location = some (.link target)) : fs.get? location = some (.link target) := by
  rw [get?_clear] at h
  split at h
  · cases h
  · exact h

/-- What a path leads to is not at a link nor below it. -/
theorem not_isPrefix_of_link (hs : fs.Sound) (hp : p.Written) {place link : Location} {text : String}
    (hl : fs.locate .follow p = .ok place) (hlink : fs.get? link = some (.link text)) : ¬link <+: place := by
  intro hbelow
  by_cases he : link = place
  · rw [he] at hlink
    exact hs.not_link hl (by simp) text hlink
  · have hroot : fs.Rooted place.dropLast := (hs.arrival hp hl).rooted_dropLast
    rw [hroot (isPrefix_dropLast hbelow he)] at hlink
    cases hlink

/-! ## Directories on a plain way -/

/-- Directories lead to where names lead to a directory without links on the way. -/
theorem Leads.rooted_append {links : Nat} {here place : Location} {names : List String}
    (h : fs.Leads ending links here names place) (hp : Proper names) (hl : fs.LinkFree here names)
    (hhere : fs.Rooted here) (hd : fs.get? place = some .directory) : fs.Rooted (here ++ names) := by
  obtain ⟨rfl, -, habove⟩ := h.eq_append hp hl
  intro top htop
  rcases List.prefix_or_prefix_of_prefix htop (List.prefix_append here names) with hup | ⟨rest, rfl⟩
  · exact hhere hup
  · have hrest : rest <+: names := (List.prefix_append_right_inj _).1 htop
    by_cases hnil : rest = []
    · subst hnil
      exact hhere (by simp)
    · by_cases he : rest = names
      · rw [he, hd]
      · exact habove rest hrest he hnil

/-- When directories are made along names without links, exactly those that were missing are made. -/
theorem run_makeDirectories_spelled_ok (hs : fs.Sound) (hp : Proper p.names)
    (hl : fs.LinkFree (fs.startOf p) p.names) (h : (makeDirectories p).run fs = (.ok (), t)) (location : Location) :
    t.get? location = if location <+: fs.endOf p then some .directory else fs.get? location := by
  have hwritten : p.Written := fun name hname => (hp name hname).1
  obtain ⟨hgrown, hd⟩ := run_makeDirectories_ok hs hwritten h
  have hstart : t.startOf p = fs.startOf p := startOf_eq hgrown.working p
  have hfree : t.LinkFree (fs.startOf p) p.names := hgrown.linkFree hl
  split
  · next hway =>
    obtain ⟨-, place, hplace, hdir⟩ := isDirectory_eq_true_iff.1 hd
    obtain ⟨-, links, -, hlead⟩ := locate_eq_ok_iff.1 hplace
    have hroot : t.Rooted (t.startOf p) := (hgrown.sound hs).rooted_startOf p
    rw [hstart] at hlead hroot
    exact hlead.rooted_append hp hfree hroot hdir hway
  · next hnot =>
    cases hbefore : fs.get? location with
    | some entry => exact hgrown.kept hbefore
    | none =>
      by_contra hnew
      -- what is new was made for the path, so that it is where first names of the path lead
      obtain ⟨-, -, part, hpart, hthere⟩ := madeFor_of_run_ok hs hwritten h hbefore hnew
      obtain ⟨-, count, -, hreach⟩ := locate_eq_ok_iff.1 hthere
      have hreach : t.Leads .follow count (fs.startOf p) part location := hstart ▸ hreach
      obtain ⟨rfl, -⟩ := hreach.eq_append (hp.of_isPrefix hpart) fun htop => hfree (htop.trans hpart)
      exact hnot ((List.prefix_append_right_inj _).2 hpart)

/-- Nothing is made along names on which only directories stand. -/
theorem run_makeDirectories_rooted (hs : fs.Sound) (hp : Proper p.names) (hroot : fs.Rooted (fs.endOf p))
    (h : (makeDirectories p).run fs = (.ok (), t)) : t = fs := by
  have hwritten : p.Written := fun name hname => (hp name hname).1
  obtain ⟨-, hd⟩ := run_makeDirectories_ok hs hwritten h
  obtain ⟨hfault, place, hplace, -⟩ := isDirectory_eq_true_iff.1 hd
  have hthere : fs.get? (fs.endOf p) = some .directory := hroot (List.prefix_refl _)
  have hl : fs.locate .follow p = .ok (fs.endOf p) := by
    have hsize := (locate_eq_ok_iff.1 hplace).1
    by_cases hne : p.names = []
    · refine locate_eq_ok_iff.2 ⟨hsize, 0, Nat.zero_le _, ?_⟩
      rw [endOf, hne, List.append_nil]
      exact .done
    · exact hs.locate_spelled hp hne hthere (by simp) hsize
  have hsame := run_makeDirectories_of_directory hwritten (isDirectory_eq_true_iff.2 ⟨hfault, _, hl, hthere⟩)
  rw [h] at hsame
  exact congrArg Prod.snd hsame

/-! ## Paths along the links that are left -/

/-- Where no link stood on the way, none stands there among those that are left. -/
theorem LinksLeft.linkFree (h : LinksLeft fs t) {here : Location} {names : List String}
    (hl : fs.LinkFree here names) : t.LinkFree here names :=
  fun ht hne target hlink => hl ht hne target (h.old hlink)

/-- When a place was removed and stays free while directories are made, the links outside of it are left. -/
theorem Removed.linksLeft {top : Location} (h : Removed top fs u) (hg : Grown u v) (hv : v.Sound)
    (hfree : v.get? top = none) : LinksLeft fs v := by
  refine ⟨fun hlink => h.link (hg.link_iff.1 hlink), fun {location target} hlink => ?_⟩
  by_cases hin : top <+: location
  · exact .inr (hv.none_of_isPrefix hfree hin (not_isNameless_of_get?_ne (by rw [hlink]; simp)))
  · rw [← h.kept hin] at hlink
    exact .inl (hg.kept hlink)

/-- Names after the path of a directory are spelled out from there among the links that are left, when there are at
least two of them and no link was on their way. -/
theorem LinksLeft.locate_append (h : LinksLeft fs t) (ht : t.Sound)
    (hworking : Detached fs.workingDirectory t.workingDirectory) {middle place : Location} {first next : String}
    {rest : List String} (hl : fs.locate .follow p = .ok middle)
    (hm : t.locate ending ⟨p.anchor, p.names ++ first :: next :: rest⟩ = .ok place)
    (hp : Proper (first :: next :: rest)) (hfree : fs.LinkFree middle (first :: next :: rest)) :
    place = middle ++ first :: next :: rest := by
  obtain ⟨-, before, -, hbefore⟩ := locate_eq_ok_iff.1 hl
  obtain ⟨-, links, -, hlead⟩ := locate_eq_ok_iff.1 hm
  obtain ⟨i, j, here, -, hi, hj⟩ := hlead.split fun hnil => by cases hnil
  have hgone : isGone here = false := hj.not_gone hp (by simp)
  -- a name follows the first, so that something stands there, in a directory
  have hsome : (t.get? (here ++ [first])).isSome := by
    rcases (hj.named_cases hp.isIdle_eq_false (hp first (by simp)).2).2 with ⟨hdir, -⟩ | ⟨hnil, -⟩ | ⟨_, _, -, hlink, -⟩
    · simp [hdir]
    · cases hnil
    · simp [hlink]
  have hname : ¬isNameless (here ++ [first]) := by
    rw [isNameless_append (by simp)]
    exact (hp.of_isPrefix (by simp) : Proper [first]).not_isNameless (by simp)
  have hd : t.get? here = some .directory := by
    have hparent := ht.parent hname hsome
    rwa [List.dropLast_concat] at hparent
  obtain rfl : here = middle :=
    hi.eq_of_linksLeft hbefore h (hworking.startOf p) (fun _ _ hnone => by simp [hd] at hnone) hgone
  exact (hj.eq_append hp (h.linkFree hfree)).1

end ProviderBindings.FileSystem
