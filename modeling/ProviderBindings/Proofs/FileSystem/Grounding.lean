import ProviderBindings.Proofs.FileSystem.Removing
import ProviderBindings.Proofs.Placing

/-!
# Errors of the operating system alone

A file operation on a path without fault fails with an error of the operating system and with nothing
else, as long as no link and not the working directory spell what no path can hold. `Grounded` says this
of a tree, and that directories lead to the working directory; `Orderly` says of an operation that it
keeps a tree so, however it ends, and fails in that way alone. Every operation of the library is orderly,
from making a directory to moving one by copying it, and so is what is put together from such operations.
-/

namespace ProviderBindings

/-- Whether a path is written, and none of its names has a fault. -/
structure Path.Sayable (p : Path) : Prop where
  /-- The path can be written. -/
  written : p.Written
  /-- The operating system takes each of its names. -/
  faultless : ∀ name ∈ p.names, PathFault.ofText? name = none

namespace Path.Sayable

variable {p : Path}

/-- The text of such a path has no fault. -/
theorem text (h : p.Sayable) : PathFault.ofText? p.text = none :=
  PathFault.ofText?_text.2 h.faultless

/-- No name of such a path has a fault that would be found. -/
theorem nameFault? (h : p.Sayable) : FileSystem.nameFault? p = none :=
  FileSystem.nameFault?_of_text h.text

/-- The parent of such a path is one. -/
theorem parent (h : p.Sayable) : p.parent.Sayable :=
  ⟨h.written.parent, fun name hname => h.faultless name (List.mem_of_mem_dropLast hname)⟩

/-- The last name of a path that can be said has no fault. -/
theorem faultless_name (h : p.Sayable) : PathFault.ofText? p.name = none := by
  unfold Path.name
  cases hlast : p.names.getLast? with
  | none =>
    rw [List.getLastD_eq_getLast?, hlast]
    decide
  | some name =>
    rw [List.getLastD_eq_getLast?, hlast]
    exact h.faultless name (List.mem_of_getLast? hlast)

end Path.Sayable

/-- The pieces of a text between slashes have no fault when the text has none. -/
theorem PathFault.ofText?_of_mem_split {s name : String} (h : ofText? s = none)
    (hname : name ∈ Text.split '/' s) : ofText? name = none := by
  rw [← Text.intercalate_split s] at h
  exact PathFault.ofText?_intercalate.1 h name hname

/-- The path that a text without fault denotes can be said. -/
theorem Path.sayable_ofString {s : String} (h : PathFault.ofText? s = none) :
    (Path.ofString s).Sayable :=
  ⟨Path.written_ofString s, fun _ hname =>
    PathFault.ofText?_of_mem_split h (List.mem_filter.1 hname).1⟩

/-- A path can be said together with a text without fault after it. -/
theorem Path.Sayable.child {p : Path} (h : p.Sayable) {s : String} (hs : PathFault.ofText? s = none) :
    (p.child s).Sayable := by
  refine ⟨h.written.child s, fun name hname => ?_⟩
  have hlater := (Path.sayable_ofString hs).faultless
  unfold Path.child Path.join at hname
  split at hname
  · exact hlater name hname
  · rcases List.mem_append.1 hname with hname | hname
    · exact h.faultless name hname
    · exact hlater name hname

namespace FileSystem

variable {fs t : FileSystem} {ending : Ending}

/-! ## Trees with a ground -/

/-- Whether a location is that of a directory which was found once: proper names without fault, after which
some may be gone. -/
def Worn (location : Location) : Prop :=
  ∃ kept count, location = kept ++ List.replicate count "" ∧ Proper kept ∧
    ∀ name ∈ kept, PathFault.ofText? name = none

/-- The names of such a location have no fault. -/
theorem Worn.faultless {location : Location} (h : Worn location) :
    ∀ name ∈ location, PathFault.ofText? name = none := by
  obtain ⟨kept, count, rfl, -, hkept⟩ := h
  intro name hname
  rcases List.mem_append.1 hname with hname | hname
  · exact hkept name hname
  · rw [List.eq_of_mem_replicate hname]
    decide

/-- Such a location that is not gone is proper. -/
theorem Worn.proper {location : Location} (h : Worn location) (hgone : isGone location = false) :
    Proper location := by
  obtain ⟨kept, count, rfl, hproper, -⟩ := h
  cases count with
  | zero => simpa using hproper
  | succ count =>
    rw [List.replicate_succ', ← List.append_assoc] at hgone
    simp [isGone, isNameless] at hgone

/-- A proper location without fault is one that was found. -/
theorem Proper.worn {location : Location} (h : Proper location)
    (hf : ∀ name ∈ location, PathFault.ofText? name = none) : Worn location :=
  ⟨location, 0, by simp, h, hf⟩

/-- What is left of such a location when its last names are gone is one as well. -/
theorem Worn.detach {kept : Location} (h : Worn kept) (location : Location) :
    Worn (FileSystem.detach kept location) := by
  obtain ⟨front, count, rfl, hproper, hf⟩ := h
  refine ⟨front, count + (location.length - (front ++ List.replicate count "").length), ?_, hproper, hf⟩
  unfold FileSystem.detach
  rw [List.append_assoc, List.replicate_add]

/-- The first names of such a location are one as well. -/
theorem Worn.of_isPrefix {top location : Location} (h : Worn location) (ht : top <+: location) :
    Worn top := by
  obtain ⟨kept, count, rfl, hproper, hf⟩ := h
  rcases List.prefix_or_prefix_of_prefix ht (List.prefix_append kept _) with hin | ⟨rest, rfl⟩
  · exact (hproper.of_isPrefix hin).worn fun name hname => hf name (hin.subset hname)
  · have hrest : rest <+: List.replicate count "" := (List.prefix_append_right_inj kept).1 ht
    refine ⟨kept, rest.length, ?_, hproper, hf⟩
    rw [← List.eq_replicate_of_mem fun name hname => List.eq_of_mem_replicate (hrest.subset hname)]

/-- Such a location is one still when its first names, which do not end in one that is gone, are replaced by
proper ones without fault. -/
theorem Worn.graft {src dst rest : Location} (h : Worn (src ++ rest)) (hs : ¬isNameless src)
    (hp : Proper dst) (hf : ∀ name ∈ dst, PathFault.ofText? name = none) : Worn (dst ++ rest) := by
  obtain ⟨kept, count, he, hproper, hkept⟩ := h
  have hsrc : src <+: kept := by
    have hle : src <+: kept ++ List.replicate count "" := he ▸ List.prefix_append _ _
    exact isPrefix_of_not_isNameless hle hs
  obtain ⟨more, rfl⟩ := hsrc
  rw [List.append_assoc, List.append_cancel_left_eq] at he
  subst he
  refine ⟨dst ++ more, count, by rw [List.append_assoc], hp.append hproper.of_append_right, ?_⟩
  intro name hname
  rcases List.mem_append.1 hname with hname | hname
  · exact hf name hname
  · exact hkept name (List.mem_append_right _ hname)

/-- Whether directories lead to the working directory of a tree, which was found once, and no link of the tree
has a fault. -/
structure Grounded (fs : FileSystem) : Prop where
  /-- Directories lead to the working directory. -/
  rooted : fs.Rooted fs.workingDirectory
  /-- The working directory was found once, though some of it may be gone. -/
  working : Worn fs.workingDirectory
  /-- The operating system takes the targets of links. -/
  links : ∀ {location target}, (location, Entry.link target) ∈ fs.entries →
    PathFault.ofText? target = none

/-- A tree is grounded when directories lead to a working directory whose names have no fault, and no listed link
has one. -/
theorem grounded_of_entries
    (hw : ∀ location ∈ fs.workingDirectory.inits, fs.get? location = some .directory)
    (hp : Proper fs.workingDirectory)
    (hf : ∀ name ∈ fs.workingDirectory, PathFault.ofText? name = none)
    (hl : ∀ location target, (location, Entry.link target) ∈ fs.entries →
      PathFault.ofText? target = none) : fs.Grounded :=
  ⟨fun ht => hw _ ((List.mem_inits _ _).2 ht), hp.worn hf, fun h => hl _ _ h⟩

/-- A link that stands in a grounded tree has no fault. -/
theorem Grounded.faultless_link (h : fs.Grounded) {location : Location} {target : String}
    (hl : fs.get? location = some (.link target)) : PathFault.ofText? target = none := by
  have hname : ¬isNameless location := not_isNameless_of_get?_ne (by rw [hl]; simp)
  rw [get?_of_not_isNameless hname] at hl
  exact h.links (Assoc.mem_of_get?_eq_some hl)

/-- Directories lead to where a path starts. -/
theorem Grounded.rooted_startOf (h : fs.Grounded) (p : Path) : fs.Rooted (fs.startOf p) :=
  Rooted.startOf h.rooted p

/-- The names of the route of a link without fault have none. -/
theorem faultless_route {target name : String} (h : PathFault.ofText? target = none)
    (hname : name ∈ (Route.ofString target).names) : PathFault.ofText? name = none := by
  have hpiece : ∀ n ∈ (Text.split '/' target).filter (· != ""), PathFault.ofText? n = none :=
    fun n hn => PathFault.ofText?_of_mem_split h (List.mem_filter.1 hn).1
  unfold Route.ofString at hname
  dsimp only at hname
  split at hname
  · rcases List.mem_append.1 hname with hname | hname
    · exact hpiece name hname
    · rw [List.mem_singleton.1 hname]
      decide
  · exact hpiece name hname

/-- What holds of where names start holds of where they lead, as far as it holds of the root, goes from a location to
the one above, and to the one that a name of a kind leads to, and all names are of that kind, those of links as well. -/
theorem Leads.preserves {motive : Location → Prop} {kind : String → Prop} {links : Nat} {here place : Location}
    {names : List String} (h : fs.Leads ending links here names place) (hroot : motive [])
    (hup : ∀ {base}, motive base → motive base.dropLast)
    (hinto : ∀ {base name rest}, motive base → Passes ending base name rest → kind name → motive (base ++ [name]))
    (hlinks : ∀ {location target name}, fs.get? location = some (.link target) →
      name ∈ (Route.ofString target).names → kind name)
    (hhere : motive here) (hnames : ∀ name ∈ names, kind name) : motive place := by
  induction h with
  | done => exact hhere
  | idle _ _ ih => exact ih hhere fun n hn => hnames n (List.mem_cons_of_mem _ hn)
  | up _ ih => exact ih (hup hhere) fun n hn => hnames n (List.mem_cons_of_mem _ hn)
  | enter hpass _ _ ih =>
    exact ih (hinto hhere hpass (hnames _ (by simp))) fun n hn => hnames n (List.mem_cons_of_mem _ hn)
  | last hpass _ _ => exact hinto hhere hpass (hnames _ (by simp))
  | link _ hlink _ _ ih =>
    refine ih ?_ fun n hn => ?_
    · unfold linkStart
      split
      · exact hroot
      · exact hhere
    · rcases List.mem_append.1 hn with hn | hn
      · exact hlinks hlink hn
      · exact hnames n (List.mem_cons_of_mem _ hn)

/-- Names without fault lead to a location without, as far as links have none. -/
theorem Leads.faultless {links : Nat} {here place : Location} {names : List String}
    (h : fs.Leads ending links here names place)
    (hlinks : ∀ {location target}, fs.get? location = some (.link target) →
      PathFault.ofText? target = none)
    (hhere : ∀ name ∈ here, PathFault.ofText? name = none)
    (hnames : ∀ name ∈ names, PathFault.ofText? name = none) :
    ∀ name ∈ place, PathFault.ofText? name = none := by
  refine h.preserves (motive := fun l => ∀ name ∈ l, PathFault.ofText? name = none) (by simp)
    (fun hbase n hn => hbase n (List.mem_of_mem_dropLast hn)) (fun hbase _ hname n hn => ?_)
    (fun hlink hn => faultless_route (hlinks hlink) hn) hhere hnames
  rcases List.mem_append.1 hn with hn | hn
  · exact hbase n hn
  · rwa [List.mem_singleton.1 hn]

/-- Names without slashes lead from a proper location to another. -/
theorem Leads.proper {links : Nat} {here place : Location} {names : List String}
    (h : fs.Leads ending links here names place) (hhere : Proper here)
    (hnames : ∀ name ∈ names, '/' ∉ name.toList) : Proper place := by
  refine h.preserves (by simp [Proper]) (fun hbase => hbase.of_isPrefix (List.dropLast_prefix _))
    (fun hbase hpass hslash => ?_) (fun _ hn => Route.not_mem_names hn) hhere hnames
  have hidle := hpass.notIdle
  simp only [isIdle, Bool.or_eq_false_iff, beq_eq_false_iff_ne, ne_eq] at hidle
  refine hbase.append fun n hn => ?_
  rw [List.mem_singleton.1 hn]
  exact ⟨⟨hidle.1, hidle.2, hslash⟩, hpass.notUp⟩

/-- In a grounded tree a path that starts where it should leads to a proper location. -/
theorem Grounded.proper_locate (h : fs.Grounded) {p : Path} (hp : p.Written)
    (hstart : p.isAbsolute ∨ isGone fs.workingDirectory = false) {place : Location}
    (hl : fs.locate ending p = .ok place) : Proper place := by
  obtain ⟨-, links, -, hlead⟩ := locate_eq_ok_iff.1 hl
  refine hlead.proper (startOf_of (by simp [Proper]) fun hrelative => ?_) fun name hname => (hp name hname).2.2
  exact h.working.proper (hstart.resolve_left hrelative)

/-- In a grounded tree a path that can be said leads to a location without fault, to which directories lead
but for its last name. -/
theorem Grounded.locate (h : fs.Grounded) {p : Path} (hp : p.Sayable) {place : Location}
    (hl : fs.locate ending p = .ok place) :
    fs.Rooted place.dropLast ∧ ∀ name ∈ place, PathFault.ofText? name = none := by
  obtain ⟨-, links, -, hlead⟩ := locate_eq_ok_iff.1 hl
  constructor
  · exact (hlead.arrival (h.rooted_startOf p) fun name hname => (hp.written name hname).2.2).rooted_dropLast
  · refine hlead.faultless h.faultless_link ?_ hp.faultless
    exact startOf_of (motive := fun l => ∀ name ∈ l, PathFault.ofText? name = none) (by simp)
      fun _ => h.working.faultless

/-- A tree stays grounded when something is put at a place that is not on the way to the working
directory. -/
theorem Grounded.put (h : fs.Grounded) {place : Location} {entry : Entry}
    (hout : ¬place <+: fs.workingDirectory)
    (hlink : ∀ target, entry = .link target → PathFault.ofText? target = none) :
    (fs.put place entry).Grounded := by
  refine ⟨fun {top} ht => ?_, h.working, fun {location target} hl => ?_⟩
  · have hdir : fs.get? top = some .directory := h.rooted ht
    by_cases hname : isNameless top
    · exact get?_of_isNameless hname
    · have hne : place ≠ top := by
        rintro rfl
        exact hout ht
      rw [get?_of_not_isNameless hname] at hdir ⊢
      rw [FileSystem.put, Assoc.get?_set, if_neg (by simpa using hne)]
      exact hdir
  · rcases Assoc.mem_set hl with hnew | hold
    · exact hlink target (congrArg Prod.snd hnew).symm
    · exact h.links hold

/-- A place where no directory stands is not on the way to the working directory. -/
theorem Grounded.not_isPrefix (h : fs.Grounded) {place : Location}
    (hfree : fs.get? place ≠ some .directory) : ¬place <+: fs.workingDirectory :=
  fun hp => hfree (h.rooted hp)

/-- A tree stays grounded when the log file is added to. -/
theorem Grounded.writeHeld (h : fs.Grounded) (line : String) : (fs.writeHeld line).Grounded := by
  unfold FileSystem.writeHeld
  split
  · exact h
  · next place _ =>
    split
    · next content executable hfile =>
      refine h.put (h.not_isPrefix ?_) fun target he => ?_
      · rw [hfile]
        simp
      · cases he
    · exact h

/-- A tree stays grounded when something is removed. -/
theorem Grounded.remove (h : fs.Grounded) (top : Location) : (fs.remove top).Grounded := by
  have hkept : ∀ {location}, ¬top <+: location → (fs.remove top).get? location = fs.get? location :=
    get?_remove_of_not_isPrefix
  refine ⟨fun {location} hl => ?_, ?_, fun {location target} hl => ?_⟩
  · by_cases hin : within top fs.workingDirectory = true
    · have hl' : location <+: detach top.dropLast fs.workingDirectory := by
        simpa [FileSystem.remove, hin] using hl
      refine directory_of_prefix_detach (fun m hm => ?_) hl'
      by_cases hroot : top = []
      · subst hroot
        rw [List.prefix_nil.1 hm]
        rfl
      · rw [hkept fun hle => not_isPrefix_dropLast hroot (hle.trans hm)]
        exact h.rooted ((hm.trans (List.dropLast_prefix top)).trans (within_iff_isPrefix.1 hin))
    · have hl' : location <+: fs.workingDirectory := by simpa [FileSystem.remove, hin] using hl
      rw [hkept fun hle => hin (within_iff_isPrefix.2 (hle.trans hl'))]
      exact h.rooted hl'
  · show Worn (if within top fs.workingDirectory then _ else _)
    split
    · next hin =>
      have htop : Worn top := h.working.of_isPrefix (within_iff_isPrefix.1 hin)
      exact (htop.of_isPrefix (List.dropLast_prefix top)).detach _
    · exact h.working
  · exact h.links (List.mem_of_mem_filter hl)

/-- A tree stays grounded when a directory is cleared. -/
theorem Grounded.clear (h : fs.Grounded) (top : Location) : (fs.clear top).Grounded := by
  have hkept : ∀ {location}, (top <+: location → location = top) →
      (fs.clear top).get? location = fs.get? location := get?_clear_of_not_below
  refine ⟨fun {location} hl => ?_, ?_, fun {location target} hl => ?_⟩
  · by_cases hin : within top fs.workingDirectory = true
    · have hl' : location <+: detach top fs.workingDirectory := by
        simpa [FileSystem.clear, hin] using hl
      refine directory_of_prefix_detach (fun m hm => ?_) hl'
      rw [hkept fun hle => hm.eq_of_length_le hle.length_le]
      exact h.rooted (hm.trans (within_iff_isPrefix.1 hin))
    · have hl' : location <+: fs.workingDirectory := by simpa [FileSystem.clear, hin] using hl
      rw [hkept fun hle => absurd (within_iff_isPrefix.2 (hle.trans hl')) hin]
      exact h.rooted hl'
  · show Worn (if within top fs.workingDirectory then _ else _)
    split
    · next hin => exact (h.working.of_isPrefix (within_iff_isPrefix.1 hin)).detach _
    · exact h.working
  · exact h.links (List.mem_of_mem_filter hl)

/-- A tree stays grounded when something is moved to a free place that directories lead to. -/
theorem Grounded.transplant (h : fs.Grounded) {src dst : Location} (hs : ¬isNameless src)
    (hfree : ∀ l, dst <+: l → ¬isNameless l → fs.get? l = none) (hroot : fs.Rooted dst.dropLast)
    (hp : Proper dst) (hf : ∀ name ∈ dst, PathFault.ofText? name = none) (hin : ¬src <+: dst) :
    (fs.transplant src dst).Grounded := by
  refine ⟨fun {location} hl => ?_, ?_, fun {location target} hl => ?_⟩
  · exact directory_of_prefix_moved hs hfree hin (fun hup hne => hroot (isPrefix_dropLast hup hne)) h.rooted hl
  · show Worn (moved src dst fs.workingDirectory)
    by_cases hcwd : src <+: fs.workingDirectory
    · obtain ⟨rest, hrest⟩ := hcwd
      have hworn : Worn (src ++ rest) := hrest ▸ h.working
      rw [← hrest, moved_append]
      exact hworn.graft hs hp hf
    · rw [moved_of_not_isPrefix hcwd]
      exact h.working
  · obtain ⟨⟨place, entry⟩, hmem, he⟩ := List.mem_map.1 hl
    obtain rfl : entry = .link target := congrArg Prod.snd he
    exact h.links hmem

end FileSystem

end ProviderBindings
