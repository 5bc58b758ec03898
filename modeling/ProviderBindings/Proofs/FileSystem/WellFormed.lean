import Mathlib.Data.List.Nodup
import ProviderBindings.Proofs.FileSystem.Orderly
import ProviderBindings.Proofs.Saving

/-!
# Trees that stay trees

A file system is a tree: it is sound, and its listing has every entry once. `Keeps` says of an operation that it leaves
a tree whenever it is done in one, however it ends. Unlike a grounded tree nothing is asked of what links spell, and
unlike what is enclosed nothing of where they lead, so that this is there to hold on to for every request. All operations
keep trees. The one with an argument of its own is to copy a directory (`wellFormed_copyEntries`), which may even go on
below the directory that is copied.
-/

namespace ProviderBindings.FileSystem

variable {fs t : FileSystem} {α β : Type}

/-- Whether entries form a tree, and are listed once and under names. -/
structure WellFormed (fs : FileSystem) : Prop where
  /-- What stands somewhere stands in a directory. -/
  sound : fs.Sound
  /-- No location is listed twice. -/
  once : (fs.entries.map (·.1)).Nodup
  /-- Every location that is listed has a name. -/
  named : ∀ entry ∈ fs.entries, ¬isNameless entry.1

/-! ## Changes -/

/-- What is listed is what stands there. -/
theorem WellFormed.get?_of_mem (h : fs.WellFormed) {entry : Location × Entry} (he : entry ∈ fs.entries) :
    fs.get? entry.1 = some entry.2 := by
  rw [get?_of_not_isNameless (h.named _ he)]
  exact Assoc.get?_of_mem h.once he

/-- An entry that is put where a tree stays sound leaves a tree. -/
theorem WellFormed.put (h : fs.WellFormed) {place : Location} {entry : Entry} (hname : ¬isNameless place)
    (hs : (fs.put place entry).Sound) : (fs.put place entry).WellFormed := by
  refine ⟨hs, Assoc.nodup_keys_set _ _ h.once, fun other hother => ?_⟩
  rcases Assoc.mem_set hother with rfl | hother
  · exact hname
  · exact h.named other hother

/-- What is removed leaves a tree. -/
theorem WellFormed.remove (h : fs.WellFormed) (top : Location) : (fs.remove top).WellFormed :=
  ⟨h.sound.remove top, h.once.sublist (List.filter_sublist.map _),
    fun entry hentry => h.named entry (List.mem_of_mem_filter hentry)⟩

/-- What is cleared leaves a tree. -/
theorem WellFormed.clear (h : fs.WellFormed) (top : Location) : (fs.clear top).WellFormed :=
  ⟨h.sound.clear top, h.once.sublist (List.filter_sublist.map _),
    fun entry hentry => h.named entry (List.mem_of_mem_filter hentry)⟩

/-- What is added to the file that is held open leaves a tree. -/
theorem WellFormed.writeHeld (h : fs.WellFormed) (line : String) : (fs.writeHeld line).WellFormed := by
  have hsound := h.sound.writeHeld line
  unfold FileSystem.writeHeld at hsound ⊢
  split at hsound
  · exact h
  · next place hheld =>
    obtain ⟨c, x, hfile⟩ := h.sound.held hheld
    rw [hfile] at hsound ⊢
    exact h.put (not_isNameless_of_get?_ne (by rw [hfile]; simp)) hsound

/-- What is moved to a free place, but not into itself, leaves a tree. -/
theorem WellFormed.transplant (h : fs.WellFormed) {source target : Location} (hs : ¬isNameless source)
    (ht : Proper target) (hne : target ≠ []) (hfree : fs.get? target = none) (hshort : Short target)
    (hp : fs.get? target.dropLast = some .directory) (hst : ¬source <+: target) :
    (fs.transplant source target).WellFormed := by
  have hnone : ∀ entry ∈ fs.entries, ¬target <+: entry.1 := by
    intro entry hentry hpre
    have hsome := h.get?_of_mem hentry
    rw [h.sound.none_of_isPrefix hfree hpre (h.named entry hentry)] at hsome
    cases hsome
  refine ⟨h.sound.transplant hs ht hne hfree hshort hp hst, ?_, fun moved hmoved => ?_⟩
  · have hmap : (fs.transplant source target).entries.map (·.1) = (fs.entries.map (·.1)).map (moved source target) := by
      unfold FileSystem.transplant
      rw [List.map_map, List.map_map]
      rfl
    rw [hmap]
    refine List.Nodup.map_on (fun a ha b hb he => ?_) h.once
    obtain ⟨entry, hentry, rfl⟩ := List.mem_map.1 ha
    obtain ⟨other, hother, rfl⟩ := List.mem_map.1 hb
    -- both were moved, or none was: what was moved is below the target, where nothing was before
    by_cases hsa : source <+: entry.1
    · obtain ⟨rest, hrest⟩ := hsa
      by_cases hsb : source <+: other.1
      · obtain ⟨more, hmore⟩ := hsb
        rw [← hrest, ← hmore, moved_append, moved_append, List.append_cancel_left_eq] at he
        rw [← hrest, ← hmore, he]
      · rw [← hrest, moved_append, moved_of_not_isPrefix hsb] at he
        exact absurd (he ▸ List.prefix_append target rest) (hnone other hother)
    · by_cases hsb : source <+: other.1
      · obtain ⟨more, hmore⟩ := hsb
        rw [← hmore, moved_append, moved_of_not_isPrefix hsa] at he
        exact absurd (he ▸ List.prefix_append target more) (hnone entry hentry)
      · rwa [moved_of_not_isPrefix hsa, moved_of_not_isPrefix hsb] at he
  · obtain ⟨entry, hentry, rfl⟩ := List.mem_map.1 hmoved
    show ¬isNameless (FileSystem.moved source target entry.1)
    by_cases hpre : source <+: entry.1
    · obtain ⟨rest, hrest⟩ := hpre
      rw [← hrest, moved_append]
      exact not_isNameless_append (ht.not_isNameless hne) (hrest ▸ h.named entry hentry)
    · rw [moved_of_not_isPrefix hpre]
      exact h.named entry hentry

/-! ## Operations that keep trees -/

/-- Whether an operation that is done in a tree leaves one, however it ends. -/
def Keeps (work : FileAction α) : Prop :=
  ∀ fs : FileSystem, fs.WellFormed → (work.run fs).2.WellFormed

/-- What an operation that keeps trees leaves in one is a tree. -/
theorem Keeps.of_run {work : FileAction α} (hw : Keeps work) {result : Except FileFailure α} (h : fs.WellFormed)
    (hrun : work.run fs = (result, t)) : t.WellFormed :=
  Preserves.of_run hw h hrun

/-- To give a value changes nothing. -/
theorem keeps_pure (a : α) : Keeps (pure a : FileAction α) :=
  preserves_pure a

/-- A sequence keeps trees when its parts do. -/
theorem Keeps.bind {x : FileAction α} {f : α → FileAction β} (hx : Keeps x) (hf : ∀ a, Keeps (f a)) :
    Keeps (x >>= f) :=
  Preserves.bind hx hf

/-- What is done for each member of a list keeps trees when each of it does. -/
theorem Keeps.mapM {f : α → FileAction β} {as : List α} (h : ∀ a ∈ as, Keeps (f a)) : Keeps (as.mapM f) := by
  induction as with
  | nil => exact keeps_pure []
  | cons a rest ih =>
    rw [List.mapM_cons]
    refine (h a (by simp)).bind fun b => ?_
    exact (ih fun c hc => h c (List.mem_cons_of_mem _ hc)).bind fun bs => keeps_pure (b :: bs)

/-! ### Making and writing -/

/-- A directory that is made where a written path leads leaves a tree. -/
theorem keeps_makeDirectoryAt {s : String}
    (hs : ∀ {fs : FileSystem} {place : Location}, fs.locateText .keep s = .ok place →
      ∃ p : Path, p.Written ∧ fs.locate .keep p = .ok place) : Keeps (makeDirectoryAt s) := by
  intro fs h
  rcases hrun : (makeDirectoryAt s).run fs with ⟨failure | ⟨⟩, t⟩
  · rw [run_makeDirectoryAt_error hrun]
    exact h
  · obtain ⟨-, place, hl, hfree, rfl⟩ := run_makeDirectoryAt_ok_iff.1 hrun
    obtain ⟨p, hp, hplace⟩ := hs hl
    exact h.put (not_isNameless_of_get?_none hfree) ((h.sound.grown_put hp hplace hfree).sound h.sound)

/-- To make a directory keeps trees. -/
theorem keeps_makeDirectory {p : Path} (hp : p.Written) : Keeps (makeDirectory p) :=
  keeps_makeDirectoryAt fun hl => ⟨p, hp, by rwa [locateText_text _ _ hp] at hl⟩

/-- To make a directory with those on the way to it keeps trees. -/
theorem keeps_makeDirectories {p : Path} (hp : p.Written) : Keeps (makeDirectories p) :=
  Preserves.makeDirectories fun _ hn => keeps_makeDirectory fun name hname => hp name (hn.subset hname)

/-- To write a file keeps trees. -/
theorem keeps_writeText {p : Path} (hp : p.Written) (s : String) : Keeps (writeText p s) := by
  intro fs h
  rcases hrun : (writeText p s).run fs with ⟨failure | ⟨⟩, t⟩
  · rw [run_writeText_error hrun]
    exact h
  · obtain ⟨-, place, hl, hd, rfl⟩ := run_writeText_ok_iff.1 hrun
    exact h.put (not_isNameless_of_get?_ne hd) (h.sound.filled_put hp hl hd _ _).sound

/-! ### Removing -/

/-- To remove a file or a link keeps trees. -/
theorem keeps_unlink (p : Path) : Keeps (unlink p) := by
  intro fs h
  rcases hrun : (unlink p).run fs with ⟨result, t⟩
  cases unlinks_of_run hrun with
  | failed => exact h
  | removed => exact h.remove _

/-- Removing a directory with what is below it leaves a tree, also where it ends half-way. -/
theorem RemovesTree.wellFormed {p : Path} {result : Except FileFailure Unit} (h : RemovesTree p fs result t)
    (hw : fs.WellFormed) : t.WellFormed := by
  cases h with
  | failed => exact hw
  | cleared _ _ _ hremoves =>
    cases hremoves with
    | failed => exact hw.clear _
    | removed => exact (hw.clear _).remove _

/-- To remove a directory with what is below it keeps trees. -/
theorem keeps_removeTree (p : Path) : Keeps (removeTree p) := by
  intro fs h
  rcases hrun : (removeTree p).run fs with ⟨result, t⟩
  exact (removesTree_of_run hrun).wellFormed h

/-! ### Moving -/

/-- Renaming leaves a tree: what is moved goes to a free place, and not into itself. -/
theorem Renames.wellFormed {source target : Path} (hs : source.Written) (ht : target.Written)
    {result : Except FileFailure Unit} (h : Renames source target fs result t) (hw : fs.WellFormed) :
    t.WellFormed := by
  cases h with
  | failed => exact hw
  | same => exact hw
  | @moved src dst entry _ _ hsrc hdst hname hname' _ _ hin =>
    have hdstName := not_isNameless_of_locate_keep ht hname' hdst
    obtain ⟨hproper, hshort, hne, hparent⟩ := hw.sound.named_place ht hdst hdstName
    -- what stands at the target is removed first, and then the place is free
    refine (hw.remove dst).transplant (not_isNameless_of_locate_keep hs hname hsrc) hproper hne
      (get?_remove_of_isPrefix hdstName (List.prefix_refl dst)) hshort ?_ hin
    rwa [get?_remove_of_not_isPrefix (not_isPrefix_dropLast hne)]

/-- Whether entries are right below a place, and can be copied to right below another where nothing has their
names. -/
structure Copyable (fs : FileSystem) (source target : Location) (below : List (Location × Entry)) : Prop where
  /-- No entry is listed twice. -/
  once : (below.map (·.1)).Nodup
  /-- The entries stand in the tree. -/
  there : ∀ entry ∈ below, fs.get? entry.1 = some entry.2
  /-- They are right below the one place, under proper names. -/
  right : ∀ entry ∈ below, ∃ name, entry.1 = source ++ [name] ∧ Proper [name] ∧ Short [name]
  /-- Nothing below the other place has one of these names. -/
  free : ∀ name, source ++ [name] ∈ below.map (·.1) → fs.get? (target ++ [name]) = none
  /-- The other place is a directory, if there is an entry. -/
  into : below ≠ [] → fs.get? target = some .directory

/-- What is right below a location is told with what stands there, and under proper names. -/
theorem WellFormed.of_mem_children (h : fs.WellFormed) {source : Location} {entry : Location × Entry}
    (he : entry ∈ fs.children source) :
    fs.get? entry.1 = some entry.2 ∧ ∃ name, entry.1 = source ++ [name] ∧ Proper [name] ∧ Short [name] := by
  obtain ⟨hin, hkeep⟩ := List.mem_filter.1 he
  obtain ⟨⟨rest, hrest⟩, hlength⟩ : source <+: entry.1 ∧ entry.1.length = source.length + 1 := by
    simpa [within_iff_isPrefix] using hkeep
  have hget := h.get?_of_mem hin
  have hsome : (fs.get? entry.1).isSome := by rw [hget]; rfl
  have hproper := h.sound.proper (h.named entry hin) hsome
  have hshort := h.sound.short (h.named entry hin) hsome
  rw [← hrest, List.length_append] at hlength
  obtain ⟨name, rfl⟩ := List.length_eq_one_iff.1 (by omega : rest.length = 1)
  rw [← hrest] at hproper hshort
  exact ⟨hget, name, hrest.symm, hproper.of_append_right, fun n hn => hshort n (List.mem_append_right _ hn)⟩

/-- What is right below a location can be copied to right below what was put at a free place, which has to be a
directory if there is anything to copy. -/
theorem WellFormed.copyable_put (h : fs.WellFormed) {source place : Location} {entry : Entry}
    (hfree : fs.get? place = none) (hd : fs.children source ≠ [] → entry = .directory) :
    Copyable (fs.put place entry) source place (fs.children source) := by
  have hname := not_isNameless_of_get?_none hfree
  refine ⟨h.once.sublist (List.filter_sublist.map _), fun child hchild => ?_,
    fun child hchild => (h.of_mem_children hchild).2, fun name hin => ?_, fun hne => ?_⟩
  · have hget := (h.of_mem_children hchild).1
    rw [get?_put _ _ hname, if_neg, hget]
    rintro rfl
    rw [hfree] at hget
    cases hget
  · obtain ⟨child, hchild, he⟩ := List.mem_map.1 hin
    obtain ⟨-, other, hother, hproper, -⟩ := h.of_mem_children hchild
    obtain rfl : name = other := by simpa using he.symm.trans hother
    have hnamed : ¬isNameless (place ++ [name]) := by
      rw [isNameless_append (by simp)]
      exact hproper.not_isNameless (by simp)
    rw [get?_put _ _ hname, if_neg (by simp), h.sound.none_of_isPrefix hfree (List.prefix_append _ _) hnamed]
  · rw [get?_put _ _ hname, if_pos rfl, hd hne]

/-- Where something is right below stands a directory. -/
theorem WellFormed.eq_directory_of_children (h : fs.WellFormed) {source : Location} {entry : Entry}
    (hthere : fs.get? source = some entry) (hne : fs.children source ≠ []) : entry = .directory := by
  obtain ⟨child, more, hchildren⟩ := List.exists_cons_of_ne_nil hne
  obtain ⟨hget, name, hname, hproper, -⟩ := h.of_mem_children (hchildren ▸ List.mem_cons_self : child ∈ _)
  have hnamed : ¬isNameless child.1 := by
    rw [hname, isNameless_append (by simp)]
    exact hproper.not_isNameless (by simp)
  have hparent := h.sound.parent hnamed (by rw [hget]; rfl)
  rw [hname, List.dropLast_concat, hthere] at hparent
  exact Option.some.inj hparent

/-- What is copied stands where a tree is without the copy. -/
theorem Copyable.wellFormed_put {source target : Location} {name : String} {entry : Entry}
    {rest : List (Location × Entry)} (hc : Copyable fs source target ((source ++ [name], entry) :: rest))
    (h : fs.WellFormed) (ht : Proper (target ++ [name])) (hshort : Short (target ++ [name])) :
    (fs.put (target ++ [name]) entry).WellFormed := by
  have hfree : fs.get? (target ++ [name]) = none := hc.free name (by simp)
  have hdirectory : fs.get? target = some .directory := hc.into (by simp)
  refine h.put (not_isNameless_of_get?_none hfree) (h.sound.put ht hshort (by simp)
    (by rwa [List.dropLast_concat]) (fun hd => ?_) fun hheld => ?_)
  · rw [hfree] at hd
    cases hd
  · obtain ⟨c, x, hfile⟩ := h.sound.held hheld
    rw [hfree] at hfile
    cases hfile

/-- One entry is copied with what is below it, and then the others are. -/
theorem run_copyEntries_cons (depth : Nat) (source target : Location) (name : String) (entry : Entry)
    (rest : List (Location × Entry)) (fs : FileSystem) :
    (copyEntries (depth + 1) source target ((source ++ [name], entry) :: rest)).run fs =
      (copyEntries (depth + 1) source target rest).run
        ((copyEntries depth (source ++ [name]) (target ++ [name]) (fs.children (source ++ [name]))).run
          (fs.put (target ++ [name]) entry)).2 := by
  have hstep (location : Location) : (copyEntries (depth + 1) source target ((location, entry) :: rest)).run fs =
      (copyEntries (depth + 1) source target rest).run
        ((copyEntries depth location (target ++ location.drop source.length) (fs.children location)).run
          (fs.put (target ++ location.drop source.length) entry)).2 := rfl
  rw [hstep, List.drop_left]

/-- Entries that can be copied are copied to a tree, and nothing changes but at the copies. -/
theorem wellFormed_copyEntries (depth : Nat) {source target : Location} {below : List (Location × Entry)}
    (h : fs.WellFormed) (ht : Proper target) (hshort : Short target) (hout : ¬target <+: source)
    (hc : Copyable fs source target below) :
    ((copyEntries depth source target below).run fs).2.WellFormed ∧
      ∀ location, (∀ name, source ++ [name] ∈ below.map (·.1) → ¬target ++ [name] <+: location) →
        ((copyEntries depth source target below).run fs).2.get? location = fs.get? location := by
  -- on the depth, and for each depth on the entries; a copy never is on the way to what is copied
  induction depth generalizing source target below fs with
  | zero => exact ⟨h, fun _ _ => rfl⟩
  | succ depth ihd =>
    induction below generalizing fs with
    | nil => exact ⟨h, fun _ _ => rfl⟩
    | cons first rest ih =>
      obtain ⟨location, entry⟩ := first
      obtain ⟨name, rfl, hname, hbrief⟩ := hc.right (location, entry) (by simp)
      have hthere : fs.get? (source ++ [name]) = some entry := hc.there (_, entry) (by simp)
      have hfree : fs.get? (target ++ [name]) = none := hc.free name (by simp)
      have hdirectory : fs.get? target = some .directory := hc.into (by simp)
      have hcopyName := not_isNameless_of_get?_none hfree
      have hcopy : Proper (target ++ [name]) := ht.append hname
      have hcopyShort : Short (target ++ [name]) := by
        intro n hn
        exact (List.mem_append.1 hn).elim (hshort n) (hbrief n)
      have haway (other : String) : ¬target ++ [name] <+: source ++ [other] := by
        intro hpre
        rcases List.prefix_concat_iff.1 hpre with he | hin
        · exact hout (List.append_inj_left' he rfl ▸ List.prefix_refl source)
        · exact hout ((List.prefix_append _ _).trans hin)
      have hput : (fs.put (target ++ [name]) entry).WellFormed := hc.wellFormed_put h hcopy hcopyShort
      have hinside : fs.children (source ++ [name]) ≠ [] → entry = .directory := h.eq_directory_of_children hthere
      obtain ⟨hdeep, hkept⟩ := ihd hput hcopy hcopyShort (haway name) (h.copyable_put hfree hinside)
      -- what is not at the copy is as it was before
      have hsame : ∀ l, ¬target ++ [name] <+: l →
          ((copyEntries depth (source ++ [name]) (target ++ [name]) (fs.children (source ++ [name]))).run
            (fs.put (target ++ [name]) entry)).2.get? l = fs.get? l := by
        intro l hl
        rw [hkept l fun n _ hpre => hl ((List.prefix_append _ _).trans hpre), get?_put _ _ hcopyName, if_neg]
        rintro rfl
        exact hl (List.prefix_refl _)
      have hother {n : String} (hn : source ++ [n] ∈ rest.map (·.1)) : ¬target ++ [name] <+: target ++ [n] := by
        intro hpre
        have he : name = n := by simpa [List.prefix_append_right_inj] using hpre
        have honce := hc.once
        rw [List.map_cons, List.nodup_cons, he] at honce
        exact honce.1 hn
      -- and so the entries that are left can still be copied
      have hrest := ih hdeep
        ⟨(List.nodup_cons.1 hc.once).2, fun child hchild => ?_, fun child hchild => hc.right child (by simp [hchild]),
          fun n hn => ?_, fun _ => ?_⟩
      · rw [run_copyEntries_cons]
        refine ⟨hrest.1, fun l hl => ?_⟩
        rw [hrest.2 l fun n hn => hl n (List.mem_cons_of_mem _ hn), hsame l (hl name (by simp))]
      · obtain ⟨n, hn, -⟩ := hc.right child (by simp [hchild])
        rw [hsame _ (hn ▸ haway n)]
        exact hc.there child (by simp [hchild])
      · rw [hsame _ (hother hn)]
        exact hc.free n (List.mem_cons_of_mem _ hn)
      · rw [hsame _ (not_append_isPrefix (by simp)), hdirectory]

/-- Moving a directory by copying it leaves a tree. -/
theorem MovesByCopy.wellFormed {source target : Path} (ht : target.Written) {result : Except FileFailure Unit}
    (h : MovesByCopy source target fs result t) (hw : fs.WellFormed) : t.WellFormed := by
  cases h with
  | failed => exact hw
  | @copied src dst _ _ _ _ _ hdst hfree hremoves =>
    obtain ⟨hproper, hshort, -, -⟩ := hw.sound.free_place ht hdst (by simp [hfree])
    have hput : (fs.put dst .directory).WellFormed :=
      hw.put (not_isNameless_of_get?_none hfree) ((hw.sound.grown_put ht hdst hfree).sound hw.sound)
    refine hremoves.wellFormed ?_
    by_cases hnone : fs.children src = []
    · rw [hnone]
      exact hput
    · obtain ⟨child, more, hchildren⟩ := List.exists_cons_of_ne_nil hnone
      obtain ⟨hget, name, hname, hchild, -⟩ := hw.of_mem_children (hchildren ▸ List.mem_cons_self : child ∈ _)
      refine (wellFormed_copyEntries _ hput hproper hshort (fun hpre => ?_) (hw.copyable_put hfree fun _ => rfl)).1
      have hnamed : ¬isNameless child.1 := by
        rw [hname, isNameless_append (by simp)]
        exact hchild.not_isNameless (by simp)
      rw [hw.sound.none_of_isPrefix hfree (hname ▸ hpre.trans (List.prefix_append _ _)) hnamed] at hget
      cases hget

/-- Moving to a path leaves a tree, by whichever way it is done. -/
theorem MovesTo.wellFormed {source target : Path} (hs : source.Written) (ht : target.Written)
    {result : Except FileFailure Unit} (h : MovesTo source target fs result t) (hw : fs.WellFormed) :
    t.WellFormed := by
  cases h with
  | renamed hrenames => exact hrenames.wellFormed hs ht hw
  | failed => exact hw
  | copied _ _ hcopies => exact hcopies.wellFormed ht hw

/-- To move keeps trees. -/
theorem keeps_move {source target : Path} (hs : source.Written) (ht : target.Written) :
    Keeps (move source target) := by
  intro fs h
  rcases hrun : (move source target).run fs with ⟨result, t⟩
  cases moves_of_run ht hrun with
  | there _ hto => exact hto.wellFormed hs ht h
  | same _ hrenames => exact hrenames.wellFormed hs ht h
  | taken => exact h
  | into _ hto => exact hto.wellFormed hs (ht.child source.name) h

end ProviderBindings.FileSystem
