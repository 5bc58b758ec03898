import Mathlib.Data.List.Perm.Subperm
import ProviderBindings.Proofs.FileSystem.Walking

/-!
# Resolved paths

`resolve` walks on its own and follows each link to its end before it goes on, while `locate` puts the
names of a link before those that are left. Where a path leads somewhere the two agree: `resolve_eq` says
that the resolved path is the path from the root to where it leads. The links that are being followed cost
at least as many links as the walk inside them, so that none of them comes up again and there are never
more of them than entries. Wherever a path leads, what it resolves to is of the kind that steps along its
names and those of links stay within (`StepsWithin`).
-/

namespace ProviderBindings.FileSystem

variable {fs : FileSystem}

/-- Names that stay where they are do not change what names resolve to, if they resolve to their end. -/
theorem resolveAlong_filter_iff {follow : Location → String → Location × Bool} {here place : Location}
    {names : List String} :
    fs.resolveAlong follow here (names.filter fun name => !isIdle name) = (place, true) ↔
      fs.resolveAlong follow here names = (place, true) := by
  induction names generalizing here with
  | nil => rfl
  | cons name rest ih =>
    by_cases hidle : isIdle name = true
    · rw [List.filter_cons_of_neg (by simp [hidle]), ih, resolveAlong.eq_2, if_pos hidle]
    · rw [List.filter_cons_of_pos (by simpa using hidle), resolveAlong.eq_2, resolveAlong.eq_2,
        if_neg hidle, if_neg hidle]
      by_cases hup : name = ".."
      · rw [if_pos hup, if_pos hup, ih]
      · rw [if_neg hup, if_neg hup]
        dsimp only
        split
        · next target _ =>
          rcases follow (here ++ [name]) target with ⟨reached, ended⟩
          cases ended with
          | true => exact ih
          | false => simp
        · exact ih

/-- The pieces of a link's target and the names of its route differ only in names that stay where they
are. -/
theorem filter_split_eq_filter_route (target : String) :
    (Text.split '/' target).filter (fun name => !isIdle name) =
      (Route.ofString target).names.filter fun name => !isIdle name := by
  have hpieces : ((Text.split '/' target).filter (· != "")).filter (fun name => !isIdle name) =
      (Text.split '/' target).filter fun name => !isIdle name := by
    rw [List.filter_filter]
    refine List.filter_congr fun name _ => ?_
    by_cases hempty : name = "" <;> simp [isIdle, hempty]
  rw [← hpieces]
  unfold Route.ofString
  dsimp only
  split
  · rw [List.filter_append]
    simp [isIdle]
  · rfl

/-- A link whose target leads somewhere with a number of links followed. -/
def LinkCost (fs : FileSystem) (location : Location) (count : Nat) : Prop :=
  ∃ target place, fs.get? location = some (.link target) ∧
    fs.Leads .follow count (linkStart location.dropLast target) (Route.ofString target).names place

/-- A link has one cost. -/
theorem LinkCost.unique {location : Location} {count other : Nat} (h : fs.LinkCost location count)
    (ho : fs.LinkCost location other) : count = other := by
  obtain ⟨target, place, hl, hlead⟩ := h
  obtain ⟨target', place', hl', hlead'⟩ := ho
  rw [hl] at hl'
  cases hl'
  exact (hlead.unique hlead').1

/-- A link is listed among the entries. -/
theorem LinkCost.mem_keys {location : Location} {count : Nat} (h : fs.LinkCost location count) :
    location ∈ fs.entries.map (·.1) := by
  obtain ⟨target, -, hl, -⟩ := h
  have hname : ¬isNameless location := not_isNameless_of_get?_ne (by rw [hl]; simp)
  rw [get?_of_not_isNameless hname] at hl
  exact (Assoc.isSome_get? _ _).1 (by simp [hl])

/-- Whether links are being followed, each once, that all cost at least as much as what is left to follow. -/
structure Followed (fs : FileSystem) (links : Nat) (following : List Location) : Prop where
  cost : ∀ l ∈ following, ∃ count, links ≤ count ∧ fs.LinkCost l count
  once : following.Nodup

namespace Followed

variable {links fewer : Nat} {following : List Location} {location : Location}

/-- Links that cost enough cost enough for less that is left. -/
theorem mono (h : fs.Followed links following) (hle : fewer ≤ links) : fs.Followed fewer following := by
  refine ⟨fun l hl => ?_, h.once⟩
  obtain ⟨count, hcount, hc⟩ := h.cost l hl
  exact ⟨count, hle.trans hcount, hc⟩

/-- A link that costs less than what is left is not being followed. -/
theorem notMem (h : fs.Followed links following) (hown : fs.LinkCost location fewer) (hlt : fewer < links) :
    location ∉ following := by
  intro hmem
  obtain ⟨count, hle, hc⟩ := h.cost _ hmem
  have heq := hown.unique hc
  omega

/-- It can be followed as well. -/
theorem cons (h : fs.Followed links following) (hown : fs.LinkCost location fewer) (hlt : fewer < links) :
    fs.Followed fewer (location :: following) := by
  refine ⟨fun l hl => ?_, List.nodup_cons.2 ⟨h.notMem hown hlt, h.once⟩⟩
  rcases List.mem_cons.1 hl with rfl | hl
  · exact ⟨fewer, Nat.le_refl _, hown⟩
  · exact (h.mono (Nat.le_of_lt hlt)).cost l hl

/-- The links being followed are different entries, so there are no more of them than entries. -/
theorem length_le (h : fs.Followed links following) : following.length ≤ fs.entries.length := by
  have hkeys : following ⊆ fs.entries.map (·.1) := by
    intro l hl
    obtain ⟨count, -, hc⟩ := h.cost l hl
    exact hc.mem_keys
  simpa using (List.subperm_of_subset h.once hkeys).length_le

end Followed

/-- At every depth, names are resolved along with some way to follow links. -/
theorem exists_resolveAlong (fs : FileSystem) (depth : Nat) (following : List Location) :
    ∃ follow, fs.resolveFrom depth following = fs.resolveAlong follow := by
  cases depth <;> exact ⟨_, rfl⟩

/-- The target of a link is cut at its slashes, where a route has no empty names; it resolves alike. -/
theorem resolveFrom_split {depth : Nat} {following : List Location} {here place : Location} {target : String}
    (h : fs.resolveFrom depth following here (Route.ofString target).names = (place, true)) :
    fs.resolveFrom depth following here (Text.split '/' target) = (place, true) := by
  obtain ⟨follow, hfollow⟩ := fs.exists_resolveAlong depth following
  rw [hfollow, ← resolveAlong_filter_iff] at h ⊢
  rwa [filter_split_eq_filter_route]

/-- Names resolve to where they lead, as long as the links being followed all cost at least as much as the
names do. -/
theorem resolveFrom_of_leads {links depth : Nat} {following : List Location} {here place : Location}
    {names : List String} (h : fs.Leads .follow links here names place) (hf : fs.Followed links following)
    (hdepth : fs.entries.length ≤ depth + following.length) :
    fs.resolveFrom depth following here names = (place, true) := by
  -- on the number of links, and for each number on the names
  induction links using Nat.strongRecOn generalizing depth following here names place with
  | ind links ihk =>
    obtain ⟨follow, hfollow⟩ := fs.exists_resolveAlong depth following
    induction names generalizing here with
    | nil =>
      cases h
      rw [hfollow, resolveAlong]
    | cons name rest ih =>
      cases h with
      | idle hidle hrest =>
        rw [← ih hrest, hfollow, resolveAlong.eq_2, if_pos hidle]
      | up hrest =>
        rw [← ih hrest, hfollow, resolveAlong.eq_2, if_neg (by decide), if_pos rfl]
      | enter hpass hdir hrest =>
        rw [← ih hrest, hfollow, resolveAlong.eq_2, if_neg (by simp [hpass.notIdle]),
          if_neg hpass.notUp]
        simp only [hdir]
      | last hpass hdir hlink =>
        rw [hfollow, resolveAlong.eq_2, if_neg (by simp [hpass.notIdle]), if_neg hpass.notUp]
        dsimp only
        split
        · next target ht => cases hlink target ht
        · rw [resolveAlong]
      | @link links _ _ _ target _ hpass hlink _ hrest =>
        obtain ⟨first, second, middle, hsum, hfirst, hsecond⟩ := hrest.split fun _ => rfl
        have hdrop : (here ++ [name]).dropLast = here := List.dropLast_concat
        have hown : fs.LinkCost (here ++ [name]) first := ⟨target, middle, hlink, by rwa [hdrop]⟩
        -- a link that is being followed costs at least what is left, and this one costs less
        have hnew : here ++ [name] ∉ following := hf.notMem hown (by omega)
        have hinside : fs.Followed first ((here ++ [name]) :: following) := hf.cons hown (by omega)
        have hlength := hinside.length_le
        rw [List.length_cons] at hlength
        obtain ⟨depth, rfl⟩ : ∃ n, depth = n + 1 := ⟨depth - 1, by omega⟩
        have hinner : fs.resolveFrom depth ((here ++ [name]) :: following) (linkStart here target)
            (Route.ofString target).names = (middle, true) := by
          refine ihk first (by omega) hfirst hinside ?_
          rw [List.length_cons]
          omega
        have houter : fs.resolveFrom (depth + 1) following middle rest = (place, true) :=
          ihk second (by omega) hsecond (hf.mono (by omega)) hdepth
        have hstart : (if target.startsWith "/" then [] else (here ++ [name]).dropLast) =
            linkStart here target := by
          rw [hdrop]
          rfl
        rw [resolveFrom, resolveAlong.eq_2, if_neg (by simp [hpass.notIdle]), if_neg hpass.notUp]
        simp only [hlink, if_neg hnew, hstart, resolveFrom_split hinner, if_true]
        exact houter

/-- Where a path leads somewhere, it resolves to the path from the root to there. -/
theorem resolve_eq {p : Path} {place : Location} (h : fs.locate .follow p = .ok place) :
    fs.resolve p = .fromRoot place := by
  obtain ⟨-, links, -, hlead⟩ := locate_eq_ok_iff.1 h
  have hall : fs.resolveFrom fs.entries.length [] (fs.startOf p) p.names = (place, true) :=
    resolveFrom_of_leads hlead ⟨by simp, List.nodup_nil⟩ (by simp)
  show Path.fromRoot (fs.resolveFrom fs.entries.length [] (fs.startOf p) p.names).1 = _
  rw [hall]

/-! ## What resolved paths look like -/

/-- What is left of names after double dots is proper, as far as the names hold no slash. -/
theorem proper_collapse {names : List String} (h : ∀ name ∈ names, '/' ∉ name.toList) :
    Proper (Path.collapse names) := by
  have hfold : ∀ (rest : List String) (acc : Location), (∀ name ∈ rest, '/' ∉ name.toList) →
      Proper acc → Proper (rest.foldl (fun acc name => if name = ".." then acc.dropLast
        else if name = "" || name = "." then acc else acc ++ [name]) acc) := by
    intro rest
    induction rest with
    | nil => exact fun acc _ hacc => hacc
    | cons name rest ih =>
      intro acc hrest hacc
      refine ih _ (fun n hn => hrest n (List.mem_cons_of_mem _ hn)) ?_
      dsimp only
      split
      · exact hacc.of_isPrefix (List.dropLast_prefix acc)
      · next hup =>
        split
        · exact hacc
        · next hidle =>
          simp only [Bool.or_eq_true, decide_eq_true_eq, not_or] at hidle
          refine hacc.append fun n hn => ?_
          rw [List.mem_singleton.1 hn]
          exact ⟨⟨hidle.1, hidle.2, hrest name (by simp)⟩, hup⟩
  exact hfold names [] h (by intro n hn; cases hn)

/-- What names spell from a proper location is proper, as far as the names hold no slash. -/
theorem proper_spellFrom {base : Location} {names : List String} (hb : Proper base)
    (h : ∀ name ∈ names, '/' ∉ name.toList) : Proper (spellFrom base names) := by
  unfold spellFrom
  split
  · next name rest => exact proper_collapse fun n hn => h n (List.mem_cons_of_mem _ hn)
  · refine proper_collapse fun n hn => ?_
    rcases List.mem_append.1 hn with hn | hn
    · exact (hb n hn).1.2.2
    · exact h n hn

/-- Whether steps along names of one kind stay among locations of one kind. -/
structure StepsWithin (L : Location → Prop) (N : String → Prop) : Prop where
  root : L []
  up : ∀ {here}, L here → L here.dropLast
  down : ∀ {here name}, L here → N name → isIdle name = false → name ≠ ".." → L (here ++ [name])
  /-- So does what is spelled where links lead on without end. -/
  spelled : ∀ {here names}, L here → (∀ name ∈ names, N name) → L (spellFrom here names)

namespace StepsWithin

variable {L : Location → Prop} {N : String → Prop}

/-- Names resolve to a location of the kind, as far as links lead to such. -/
theorem resolveAlong (hL : StepsWithin L N) {follow : Location → String → Location × Bool} {here : Location}
    {names : List String} (hh : L here) (h : ∀ name ∈ names, N name)
    (hf : ∀ next target, fs.get? next = some (.link target) → L next → L (follow next target).1) :
    L (fs.resolveAlong follow here names).1 := by
  induction names generalizing here with
  | nil => exact hh
  | cons name rest ih =>
    have hrest : ∀ n ∈ rest, N n := fun n hn => h n (List.mem_cons_of_mem _ hn)
    rw [resolveAlong.eq_2]
    split
    · exact ih hh hrest
    · next hidle =>
      split
      · exact ih (hL.up hh) hrest
      · next hup =>
        have hnext : L (here ++ [name]) := hL.down hh (h name (by simp)) (by simpa using hidle) hup
        dsimp only
        split
        · next target hlink =>
          have hreached : L (follow (here ++ [name]) target).1 := hf _ target hlink hnext
          revert hreached
          rcases follow (here ++ [name]) target with ⟨reached, ended⟩
          intro hreached
          cases ended with
          | true => exact ih hreached hrest
          | false => exact hL.spelled hreached hrest
        · exact ih hnext hrest

/-- Names resolve to a location of the kind, as far as the names in links are of their kind. -/
theorem resolveFrom (hL : StepsWithin L N) {depth : Nat} {following : List Location} {here : Location}
    {names : List String} (hh : L here) (h : ∀ name ∈ names, N name)
    (hlinks : ∀ {location target}, fs.get? location = some (.link target) →
      ∀ name ∈ Text.split '/' target, N name) :
    L (fs.resolveFrom depth following here names).1 := by
  induction depth generalizing following here names with
  | zero => exact hL.resolveAlong hh h fun next _ _ hn => hn
  | succ depth ih =>
    refine hL.resolveAlong hh h fun next target hlink hn => ?_
    split
    · exact hn
    · refine ih ?_ (hlinks hlink)
      split
      · exact hL.root
      · exact hL.up hn

end StepsWithin

/-- Steps along names without slashes stay among proper locations. -/
theorem stepsWithin_proper : StepsWithin Proper fun name => '/' ∉ name.toList where
  root name hname := by cases hname
  up hh := hh.of_isPrefix (List.dropLast_prefix _)
  down {here name} hh hslash hidle hup := by
    simp only [isIdle, Bool.or_eq_false_iff, beq_eq_false_iff_ne] at hidle
    refine hh.append fun n hn => ?_
    rw [List.mem_singleton.1 hn]
    exact ⟨⟨hidle.1, hidle.2, hslash⟩, hup⟩
  spelled := proper_spellFrom

/-- Names resolve to a proper location, as far as they hold no slash. -/
theorem proper_resolveFrom {depth : Nat} {following : List Location} {here : Location}
    {names : List String} (hh : Proper here) (h : ∀ name ∈ names, '/' ∉ name.toList) :
    Proper (fs.resolveFrom depth following here names).1 :=
  stepsWithin_proper.resolveFrom hh h fun _ _ hn => Text.not_mem_of_mem_split hn

/-- A written path resolves to a path from the root along proper names, unless it starts at a working
directory that is gone. -/
theorem Sound.proper_resolve (hs : fs.Sound) {p : Path} (hp : p.Written)
    (hw : p.isAbsolute ∨ isGone fs.workingDirectory = false) :
    ∃ place, fs.resolve p = .fromRoot place ∧ Proper place := by
  refine ⟨_, rfl, proper_resolveFrom ?_ fun n hn => (hp n hn).2.2⟩
  by_cases ha : p.isAbsolute = true
  · rw [if_pos ha]
    intro n hn
    cases hn
  · rw [if_neg ha]
    have hroot : fs.Rooted fs.workingDirectory := fun ht => hs.working ht
    exact (hroot.proper hs (hw.resolve_left ha)).1

/-- What is left of names after double dots are names that were there. -/
theorem mem_of_mem_collapse {names : List String} {name : String} (h : name ∈ Path.collapse names) :
    name ∈ names := by
  have hfold : ∀ (rest : List String) (acc : Location),
      name ∈ rest.foldl (fun acc name => if name = ".." then acc.dropLast
        else if name = "" || name = "." then acc else acc ++ [name]) acc → name ∈ acc ∨ name ∈ rest := by
    intro rest
    induction rest with
    | nil => exact fun acc hacc => .inl hacc
    | cons first rest ih =>
      intro acc hacc
      rcases ih _ hacc with hacc | hrest
      · dsimp only at hacc
        split at hacc
        · exact .inl (List.mem_of_mem_dropLast hacc)
        · split at hacc
          · exact .inl hacc
          · rcases List.mem_append.1 hacc with hacc | hfirst
            · exact .inl hacc
            · exact .inr (List.mem_singleton.1 hfirst ▸ List.mem_cons_self)
      · exact .inr (List.mem_cons_of_mem _ hrest)
  exact (hfold names [] h).resolve_left (by simp)

/-- What names spell from a location is made of names of both. -/
theorem mem_of_mem_spellFrom {base : Location} {names : List String} {name : String}
    (h : name ∈ spellFrom base names) : name ∈ base ∨ name ∈ names := by
  unfold spellFrom at h
  split at h
  · exact .inr (List.mem_cons_of_mem _ (mem_of_mem_collapse h))
  · exact List.mem_append.1 (mem_of_mem_collapse h)

/-- Steps along names for which something holds stay among locations all of whose names it holds for. -/
theorem stepsWithin_names (Q : String → Prop) : StepsWithin (fun here => ∀ name ∈ here, Q name) Q where
  root name hname := by cases hname
  up hh name hname := hh name (List.mem_of_mem_dropLast hname)
  down hh hname _ _ := List.forall_mem_append.2 ⟨hh, by simpa using hname⟩
  spelled hh h name hname := (mem_of_mem_spellFrom hname).elim (hh name) (h name)

/-- What holds of names, of where they start, and of the names in links holds of what they resolve to. -/
theorem forall_mem_resolveFrom {Q : String → Prop} {depth : Nat} {following : List Location} {here : Location}
    {names : List String} (hh : ∀ name ∈ here, Q name) (h : ∀ name ∈ names, Q name)
    (hlinks : ∀ {location target}, fs.get? location = some (.link target) →
      ∀ name ∈ Text.split '/' target, Q name) :
    ∀ name ∈ (fs.resolveFrom depth following here names).1, Q name :=
  (stepsWithin_names Q).resolveFrom hh h hlinks

end ProviderBindings.FileSystem
