import ProviderBindings.Proofs.FileSystem.Soundness

/-!
# Where paths lead

`Leads` says where names lead to from a location and how many links are followed on the way, one case for
each kind of step; `locate_eq_ok_iff` is its agreement with `locate`. All that is known about paths is proved
by induction on it: a tree that carries the entries of another leads the same ways (`Leads.carried`), a
path that is taken further goes on from where it leads (`Leads.append`), and names on which no link stands
are spelled out by where they lead (`Leads.eq_append`).
-/

namespace ProviderBindings.FileSystem

variable {fs t : FileSystem} {ending : Ending}

/-- Whether a walk looks up a name where it is: the name is no dot and not too long, the place is still
there, and nothing that is to be written to has a slash after it. -/
structure Passes (ending : Ending) (here : Location) (name : String) (rest : List String) : Prop where
  /-- The name is neither empty nor a dot. -/
  notIdle : isIdle name = false
  /-- The name is not double dots. -/
  notUp : name ≠ ".."
  /-- Nothing that is to be written to has a slash after it. -/
  notSlashed : ending = .write → rest ≠ [""]
  /-- The name is not too long. -/
  short : name.utf8ByteSize ≤ maxNameSize
  /-- The place is still there. -/
  notGone : isGone here = false

/-- Where a link with a target leads to from the directory it is in. -/
def linkStart (base : Location) (target : String) : Location :=
  if (Route.ofString target).fromRoot then [] else base

/-- Names lead from one location to another, with a number of links followed on the way. -/
inductive Leads (fs : FileSystem) (ending : Ending) : Nat → Location → List String → Location → Prop
  /-- The names are at their end. -/
  | done {here} : Leads fs ending 0 here [] here
  /-- A name stays where it is. -/
  | idle {links here name rest place} (hidle : isIdle name = true)
      (hrest : Leads fs ending links here rest place) : Leads fs ending links here (name :: rest) place
  /-- A double dot leads up. -/
  | up {links here rest place} (hrest : Leads fs ending links here.dropLast rest place) :
      Leads fs ending links here (".." :: rest) place
  /-- A name leads into a directory. -/
  | enter {links here name rest place} (hpass : Passes ending here name rest)
      (hdir : fs.get? (here ++ [name]) = some .directory)
      (hrest : Leads fs ending links (here ++ [name]) rest place) :
      Leads fs ending links here (name :: rest) place
  /-- The last name leads to what is no directory, or to a place where nothing stands. -/
  | last {here name} (hpass : Passes ending here name [])
      (hdir : fs.get? (here ++ [name]) ≠ some .directory)
      (hlink : ∀ target, fs.get? (here ++ [name]) = some (.link target) → ending = .keep) :
      Leads fs ending 0 here [name] (here ++ [name])
  /-- A name is that of a link, which is followed. -/
  | link {links here name rest target place} (hpass : Passes ending here name rest)
      (hlink : fs.get? (here ++ [name]) = some (.link target)) (hkeep : rest = [] → ending ≠ .keep)
      (hrest : Leads fs ending links (linkStart here target) ((Route.ofString target).names ++ rest)
        place) :
      Leads fs ending (links + 1) here (name :: rest) place

/-! ## Agreement with the walk -/

/-- A step of a walk that does not fail. -/
theorem walk_of_passes {here : Location} {name : String} {rest : List String}
    (h : Passes ending here name rest) :
    fs.walk ending here (name :: rest) =
      match fs.get? (here ++ [name]) with
      | some .directory => fs.walk ending (here ++ [name]) rest
      | some (.link target) =>
        if rest.isEmpty && ending = .keep then .arrived (here ++ [name]) else .link here target rest
      | some (.file _ _) =>
        if rest.isEmpty then .arrived (here ++ [name]) else .failed .notADirectory
      | none => if rest.isEmpty then .arrived (here ++ [name]) else .failed .notFound := by
  have hslashed : (decide (ending = .write) && rest == [""]) = false := by
    have hs := h.notSlashed
    cases ending <;> simp_all
  rw [walk, if_neg (by simp [h.notIdle]), if_neg h.notUp, if_neg (by simp [hslashed]),
    if_neg (Nat.not_lt.2 h.short)]
  exact if_neg (by simp [h.notGone])

/-- Names lead where a walk along them comes to. -/
theorem locateFrom_of_leads {links budget : Nat} {here place : Location} {names : List String}
    (h : fs.Leads ending links here names place) (hb : links ≤ budget) :
    fs.locateFrom ending budget here names = .ok place := by
  -- on the way that the names lead; a budget of links is spent at the links alone
  induction h generalizing budget with
  | done => rw [locateFrom, walk]
  | idle hidle _ ih =>
    rw [← ih hb, locateFrom, locateFrom, walk, if_pos hidle]
  | up _ ih =>
    rw [← ih hb, locateFrom, locateFrom, walk, if_neg (by decide), if_pos rfl]
  | enter hpass hdir _ ih =>
    rw [← ih hb, locateFrom, locateFrom, walk_of_passes hpass, hdir]
  | last hpass hdir hlink =>
    rw [locateFrom, walk_of_passes hpass]
    cases hentry : fs.get? (_ ++ [_]) with
    | none => rfl
    | some entry =>
      cases entry with
      | file content executable => rfl
      | directory => exact absurd hentry hdir
      | link target => simp [hlink target hentry]
  | @link links here name rest target place hpass hlink hkeep _ ih =>
    obtain ⟨budget, rfl⟩ : ∃ n, budget = n + 1 := ⟨budget - 1, by omega⟩
    have hgo : (rest.isEmpty && decide (ending = .keep)) = false := by
      cases rest <;> simp_all
    rw [← ih (Nat.le_of_succ_le_succ hb), locateFrom, walk_of_passes hpass, hlink]
    dsimp only
    rw [hgo]
    rfl

/-- What can be passed by a walk that does not fail there. -/
theorem passes_of_walk {here : Location} {name : String} {rest : List String}
    (hidle : isIdle name = false) (hup : name ≠ "..")
    (h : ∀ e, fs.walk ending here (name :: rest) ≠ .failed e) : Passes ending here name rest := by
  rw [walk, if_neg (by simp [hidle]), if_neg hup] at h
  split at h
  · exact absurd rfl (h _)
  · next hslashed =>
    split at h
    · exact absurd rfl (h _)
    · next hshort =>
      split at h
      · exact absurd rfl (h _)
      · next hgone =>
        refine ⟨hidle, hup, ?_, Nat.le_of_not_lt hshort, by simpa using hgone⟩
        rintro hw rfl
        exact hslashed (by simp [hw])

/-- Where a walk comes to, names lead. -/
theorem exists_leads_of_locateFrom {budget : Nat} {here place : Location} {names : List String}
    (h : fs.locateFrom ending budget here names = .ok place) :
    ∃ links ≤ budget, fs.Leads ending links here names place := by
  -- on the number of links that may still be followed, and for each number on the names
  induction budget using Nat.strongRecOn generalizing here names with
  | ind budget ihb =>
    induction names generalizing here with
    | nil =>
      rw [locateFrom, walk] at h
      cases h
      exact ⟨0, Nat.zero_le _, .done⟩
    | cons name rest ih =>
      by_cases hidle : isIdle name = true
      · rw [locateFrom, walk, if_pos hidle, ← locateFrom] at h
        obtain ⟨links, hl, hrest⟩ := ih h
        exact ⟨links, hl, .idle hidle hrest⟩
      by_cases hup : name = ".."
      · subst hup
        rw [locateFrom, walk, if_neg (by decide), if_pos rfl, ← locateFrom] at h
        obtain ⟨links, hl, hrest⟩ := ih h
        exact ⟨links, hl, .up hrest⟩
      have hgoes : ∀ e, fs.walk ending here (name :: rest) ≠ .failed e := by
        intro e he
        rw [locateFrom, he] at h
        cases h
      have hpass : Passes ending here name rest := passes_of_walk (by simpa using hidle) hup hgoes
      rw [locateFrom, walk_of_passes hpass] at h
      cases hentry : fs.get? (here ++ [name]) with
      | none =>
        rw [hentry] at h
        cases rest with
        | nil =>
          cases h
          exact ⟨0, Nat.zero_le _, .last hpass (by simp [hentry]) (by simp [hentry])⟩
        | cons next rest => cases h
      | some entry =>
        rw [hentry] at h
        cases entry with
        | file content executable =>
          cases rest with
          | nil =>
            cases h
            exact ⟨0, Nat.zero_le _, .last hpass (by simp [hentry]) (by simp [hentry])⟩
          | cons next rest => cases h
        | directory =>
          dsimp only at h
          rw [← locateFrom] at h
          obtain ⟨links, hl, hrest⟩ := ih h
          exact ⟨links, hl, .enter hpass hentry hrest⟩
        | link target =>
          dsimp only at h
          by_cases hkeep : rest = [] ∧ ending = .keep
          · obtain ⟨rfl, rfl⟩ := hkeep
            cases h
            exact ⟨0, Nat.zero_le _, .last hpass (by simp [hentry]) fun _ _ => rfl⟩
          · have hgo : (rest.isEmpty && decide (ending = .keep)) = false := by
              cases rest <;> simp_all
            rw [hgo] at h
            cases budget with
            | zero => cases h
            | succ budget =>
              obtain ⟨links, hl, hrest⟩ := ihb budget (Nat.lt_succ_self _) h
              refine ⟨links + 1, Nat.succ_le_succ hl, .link hpass hentry ?_ hrest⟩
              exact fun hr he => hkeep ⟨hr, he⟩

/-- Where a path starts. -/
def startOf (fs : FileSystem) (p : Path) : Location :=
  if p.isAbsolute then [] else fs.workingDirectory

/-- What holds of the root, and of the working directory if the path starts there, holds of where a path starts. -/
theorem startOf_of {motive : Location → Prop} {p : Path} (hroot : motive [])
    (hworking : ¬p.isAbsolute → motive fs.workingDirectory) : motive (fs.startOf p) := by
  unfold startOf
  split
  · exact hroot
  · next hrelative => exact hworking hrelative

/-- A path starts in one place in all trees with one working directory. -/
theorem startOf_eq (h : t.workingDirectory = fs.workingDirectory) (p : Path) : t.startOf p = fs.startOf p := by
  unfold startOf
  rw [h]

/-- A path leads to a location exactly when its text is not too long and its names lead there with no
more links than a walk follows. -/
theorem locate_eq_ok_iff {p : Path} {place : Location} :
    fs.locate ending p = .ok place ↔
      p.text.utf8ByteSize ≤ maxPathSize ∧
        ∃ links ≤ maxLinks, fs.Leads ending links (fs.startOf p) p.names place := by
  unfold locate locateRoute
  constructor
  · intro h
    split at h
    · cases h
    · next hsize => exact ⟨Nat.le_of_not_lt hsize, exists_leads_of_locateFrom h⟩
  · rintro ⟨hsize, links, hl, h⟩
    rw [if_neg (Nat.not_lt.2 hsize)]
    exact locateFrom_of_leads h hl

/-! ## The way back from where names lead -/

/-- What passes passes for any other ending, as long as it is not to be written to with a slash. -/
theorem Passes.of_ending {other : Ending} {here : Location} {name : String} {rest more : List String}
    (h : Passes ending here name rest) (hm : other = .write → more ≠ [""]) :
    Passes other here name more :=
  ⟨h.notIdle, h.notUp, hm, h.short, h.notGone⟩

/-- Names that begin with one that stays lead where the others do. -/
theorem Leads.of_idle {links : Nat} {here place : Location} {name : String} {rest : List String}
    (h : fs.Leads ending links here (name :: rest) place) (hidle : isIdle name = true) :
    fs.Leads ending links here rest place := by
  cases h with
  | idle _ hrest => exact hrest
  | up _ => exact absurd hidle (by decide)
  | enter hpass | last hpass | link hpass => exact absurd hidle (by simp [hpass.notIdle])

/-- Names that begin with a double dot lead where the others do from above. -/
theorem Leads.of_up {links : Nat} {here place : Location} {rest : List String}
    (h : fs.Leads ending links here (".." :: rest) place) :
    fs.Leads ending links here.dropLast rest place := by
  cases h with
  | idle hidle _ => exact absurd hidle (by decide)
  | up hrest => exact hrest
  | enter hpass | last hpass | link hpass => exact absurd rfl hpass.notUp

/-- Any other name is passed. What stands under it is a directory, from which the others lead on; or the name
is the last, and what stands under it is where it leads; or a link, which is followed. -/
theorem Leads.named_cases {links : Nat} {here place : Location} {name : String} {rest : List String}
    (h : fs.Leads ending links here (name :: rest) place) (hidle : isIdle name = false) (hup : name ≠ "..") :
    Passes ending here name rest ∧
      ((fs.get? (here ++ [name]) = some .directory ∧ fs.Leads ending links (here ++ [name]) rest place) ∨
        (rest = [] ∧ links = 0 ∧ place = here ++ [name] ∧ fs.get? (here ++ [name]) ≠ some .directory ∧
          ∀ target, fs.get? (here ++ [name]) = some (.link target) → ending = .keep) ∨
        ∃ target count, links = count + 1 ∧ fs.get? (here ++ [name]) = some (.link target) ∧
          (rest = [] → ending ≠ .keep) ∧
          fs.Leads ending count (linkStart here target) ((Route.ofString target).names ++ rest) place) := by
  cases h with
  | idle hidle' _ => exact absurd hidle' (by simp [hidle])
  | up _ => exact absurd rfl hup
  | enter hpass hdir hrest => exact ⟨hpass, .inl ⟨hdir, hrest⟩⟩
  | last hpass hdir hlink => exact ⟨hpass, .inr (.inl ⟨rfl, rfl, rfl, hdir, hlink⟩)⟩
  | link hpass hlink hkeep hrest => exact ⟨hpass, .inr (.inr ⟨_, _, rfl, hlink, hkeep, hrest⟩)⟩

/-- Names lead to one place, along one number of links. -/
theorem Leads.unique {links count : Nat} {here place other : Location} {names : List String}
    (h : fs.Leads ending links here names place) (ho : fs.Leads ending count here names other) :
    links = count ∧ place = other := by
  -- the first name, and what stands under it, leave one way to go on
  induction h generalizing count other with
  | done => cases ho; exact ⟨rfl, rfl⟩
  | idle hidle _ ih => exact ih (ho.of_idle hidle)
  | up _ ih => exact ih ho.of_up
  | enter hpass hdir _ ih =>
    rcases (ho.named_cases hpass.notIdle hpass.notUp).2 with
      ⟨-, hrest⟩ | ⟨-, -, -, hno, -⟩ | ⟨_, _, -, hlink, -⟩
    · exact ih hrest
    · exact absurd hdir hno
    · rw [hdir] at hlink
      cases hlink
  | last hpass hdir hlink =>
    rcases (ho.named_cases hpass.notIdle hpass.notUp).2 with
      ⟨hd, -⟩ | ⟨-, rfl, rfl, -⟩ | ⟨_, _, -, hl, hkeep, -⟩
    · exact absurd hd hdir
    · exact ⟨rfl, rfl⟩
    · exact absurd (hlink _ hl) (hkeep rfl)
  | link hpass hlink hkeep _ ih =>
    rcases (ho.named_cases hpass.notIdle hpass.notUp).2 with
      ⟨hd, -⟩ | ⟨hnil, -, -, -, hl⟩ | ⟨_, _, rfl, hl, -, hrest⟩
    · rw [hlink] at hd
      cases hd
    · exact absurd (hl _ hlink) (hkeep hnil)
    · rw [hlink] at hl
      cases hl
      obtain ⟨hcount, hplace⟩ := ih hrest
      exact ⟨congrArg (· + 1) hcount, hplace⟩

/-- A last name leads to what stands under it when a link there is kept. -/
theorem Leads.eq_concat_of_keep {links : Nat} {here place : Location} {name : String}
    (h : fs.Leads .keep links here [name] place) (hidle : isIdle name = false) (hup : name ≠ "..") :
    place = here ++ [name] := by
  rcases (h.named_cases hidle hup).2 with ⟨-, hrest⟩ | ⟨-, -, hplace, -⟩ | ⟨_, _, -, -, hkeep, -⟩
  · cases hrest
    rfl
  · exact hplace
  · exact absurd rfl (hkeep rfl)

/-- Names taken further lead on from the directory they lead to. -/
theorem Leads.append {links count : Nat} {here middle place : Location} {names more : List String}
    (h : fs.Leads .follow links here names middle) (hd : fs.get? middle = some .directory)
    (hm : fs.Leads ending count middle more place) (hne : more ≠ []) (hslash : more ≠ [""]) :
    fs.Leads ending (links + count) here (names ++ more) place := by
  -- only a single empty name stands for a slash at the end, and there is more than that
  have hlong : ∀ rest : List String, rest ++ more ≠ [""] := by
    intro rest he
    cases rest with
    | nil => exact hslash he
    | cons first rest => simp_all
  induction h with
  | done => simpa using hm
  | idle hidle _ ih => exact .idle hidle (ih hd hm)
  | up _ ih => exact .up (ih hd hm)
  | enter hpass hdir _ ih => exact .enter (hpass.of_ending fun _ => hlong _) hdir (ih hd hm)
  | last _ hno => exact absurd hd hno
  | @link links here name rest target place hpass hlink _ _ ih =>
    have hrest := ih hd hm
    rw [List.append_assoc] at hrest
    rw [Nat.add_right_comm]
    exact .link (hpass.of_ending fun _ => hlong _) hlink (by simp [hne]) hrest

/-- Where names lead that go on, their first part leads somewhere, and the others lead on from there. -/
theorem Leads.split {links : Nat} {here place : Location} {names more : List String}
    (h : fs.Leads ending links here (names ++ more) place) (hm : more = [] → ending = .follow) :
    ∃ first second middle, first + second = links ∧ fs.Leads .follow first here names middle ∧
      fs.Leads ending second middle more place := by
  -- a link puts names before those that are left, so the split must be free to move
  generalize hall : names ++ more = all at h
  induction h generalizing names with
  | done =>
    obtain ⟨rfl, rfl⟩ := List.append_eq_nil_iff.1 hall
    exact ⟨0, 0, _, rfl, .done, .done⟩
  | idle hidle hrest ih =>
    cases names with
    | nil =>
      subst hall
      exact ⟨0, _, _, Nat.zero_add _, .done, .idle hidle hrest⟩
    | cons name names =>
      cases hall
      obtain ⟨i, j, middle, hij, hi, hj⟩ := ih rfl
      exact ⟨i, j, middle, hij, .idle hidle hi, hj⟩
  | up hrest ih =>
    cases names with
    | nil =>
      subst hall
      exact ⟨0, _, _, Nat.zero_add _, .done, .up hrest⟩
    | cons name names =>
      cases hall
      obtain ⟨i, j, middle, hij, hi, hj⟩ := ih rfl
      exact ⟨i, j, middle, hij, .up hi, hj⟩
  | enter hpass hdir hrest ih =>
    cases names with
    | nil =>
      subst hall
      exact ⟨0, _, _, Nat.zero_add _, .done, .enter hpass hdir hrest⟩
    | cons name names =>
      cases hall
      obtain ⟨i, j, middle, hij, hi, hj⟩ := ih rfl
      exact ⟨i, j, middle, hij, .enter (hpass.of_ending (by simp)) hdir hi, hj⟩
  | last hpass hdir hlink =>
    cases names with
    | nil =>
      subst hall
      exact ⟨0, _, _, rfl, .done, .last hpass hdir hlink⟩
    | cons name names =>
      obtain ⟨rfl, hnil⟩ := List.cons.inj hall
      obtain ⟨rfl, rfl⟩ := List.append_eq_nil_iff.1 hnil
      obtain rfl := hm rfl
      exact ⟨0, 0, _, rfl, .last hpass hdir hlink, .done⟩
  | link hpass hlink hkeep hrest ih =>
    cases names with
    | nil =>
      subst hall
      exact ⟨0, _, _, Nat.zero_add _, .done, .link hpass hlink hkeep hrest⟩
    | cons name names =>
      cases hall
      obtain ⟨i, j, middle, hij, hi, hj⟩ := ih (List.append_assoc _ _ _)
      exact ⟨i + 1, j, middle, by omega, .link (hpass.of_ending (by simp)) hlink (by simp) hi, hj⟩

/-! ## Names without links -/

/-- The name of a proper location is neither idle nor a double dot. -/
theorem Proper.isIdle_eq_false {name : String} {rest : Location} (h : Proper (name :: rest)) :
    isIdle name = false := by
  obtain ⟨⟨hne, hdot, -⟩, -⟩ := h name (by simp)
  simp [isIdle, hne, hdot]

/-- Names that lead on from a location do not start from a directory that is gone. -/
theorem Leads.not_gone {links : Nat} {here place : Location} {names : List String}
    (h : fs.Leads ending links here names place) (hp : Proper names) (hne : names ≠ []) : isGone here = false := by
  obtain ⟨name, rest, rfl⟩ := List.exists_cons_of_ne_nil hne
  have hup : name ≠ ".." := (hp name (by simp)).2
  exact (h.named_cases hp.isIdle_eq_false hup).1.notGone

/-- Whether no link stands on names from a location on. -/
def LinkFree (fs : FileSystem) (here : Location) (names : List String) : Prop :=
  ∀ {top}, top <+: names → top ≠ [] → ∀ target, fs.get? (here ++ top) ≠ some (.link target)

/-- Where names lead on which no link stands, they are spelled out, and directories stand on the way. -/
theorem Leads.eq_append {links : Nat} {here place : Location} {names : List String}
    (h : fs.Leads ending links here names place) (hp : Proper names) (hl : fs.LinkFree here names) :
    place = here ++ names ∧ links = 0 ∧
      ∀ top, top <+: names → top ≠ names → top ≠ [] → fs.get? (here ++ top) = some .directory := by
  -- on the names; the entry of the first one can be nothing but a directory, unless it is the last
  induction names generalizing here links with
  | nil =>
    cases h
    refine ⟨by simp, rfl, fun top ht hne _ => ?_⟩
    exact absurd (List.prefix_nil.1 ht) hne
  | cons name rest ih =>
    have hfirst : ∀ target, fs.get? (here ++ [name]) ≠ some (.link target) :=
      hl (by simp) (by simp)
    rcases (h.named_cases hp.isIdle_eq_false (hp name (by simp)).2).2 with
      ⟨hdir, hrest⟩ | ⟨rfl, rfl, rfl, -⟩ | ⟨_, _, -, hlink, -⟩
    · have hbelow : fs.LinkFree (here ++ [name]) rest := by
        intro top ht _
        rw [List.append_assoc]
        exact hl (List.cons_prefix_cons.2 ⟨rfl, ht⟩) (by simp)
      obtain ⟨hplace, hlinks, hdirs⟩ := ih hrest (fun n hn => hp n (List.mem_cons_of_mem _ hn)) hbelow
      refine ⟨by rw [hplace, List.append_assoc]; rfl, hlinks, fun top ht hne hnil => ?_⟩
      rcases List.prefix_cons_iff.1 ht with rfl | ⟨top, rfl, htop⟩
      · exact absurd rfl hnil
      · by_cases htn : top = []
        · rw [htn]
          exact hdir
        · have hd := hdirs top htop (fun he => hne (he ▸ rfl)) htn
          rwa [List.append_assoc] at hd
    · refine ⟨rfl, rfl, fun top ht hne hnil => ?_⟩
      rcases List.prefix_cons_iff.1 ht with rfl | ⟨top, rfl, htop⟩
      · exact absurd rfl hnil
      · rw [List.prefix_nil.1 htop] at hne
        exact absurd rfl hne
    · exact absurd hlink (hfirst _)

/-- A walk passes a proper name that other ones come after, from a place that is still there. -/
theorem passes_of_proper {here : Location} {name : String} {rest : List String} (hp : Proper (name :: rest))
    (hshort : name.utf8ByteSize ≤ maxNameSize) (hgone : isGone here = false) : Passes ending here name rest := by
  refine ⟨hp.isIdle_eq_false, (hp name (by simp)).2, ?_, hshort, hgone⟩
  rintro - rfl
  exact (hp "" (by simp)).1.1 rfl

/-- A place under a proper name is not gone. -/
theorem isGone_concat {here : Location} {name : String} {rest : List String} (hp : Proper (name :: rest)) :
    isGone (here ++ [name]) = false := by
  simp [isGone, isNameless, (hp name (by simp)).1.1]

/-- Proper names with directories on the way lead where they spell, unless a link at the end is
followed. -/
theorem leads_of_directories {here : Location} {names : List String} (hp : Proper names)
    (hshort : ∀ name ∈ names, name.utf8ByteSize ≤ maxNameSize) (hgone : isGone here = false)
    (hd : ∀ top, top <+: names → top ≠ names → top ≠ [] → fs.get? (here ++ top) = some .directory)
    (hl : names ≠ [] → ∀ target, fs.get? (here ++ names) = some (.link target) → ending = .keep) :
    fs.Leads ending 0 here names (here ++ names) := by
  induction names generalizing here with
  | nil => simpa using Leads.done
  | cons name rest ih =>
    have hpass : Passes ending here name rest := passes_of_proper hp (hshort name (by simp)) hgone
    by_cases hrest : rest = []
    · subst hrest
      by_cases hdir : fs.get? (here ++ [name]) = some .directory
      · exact .enter hpass hdir .done
      · exact .last hpass hdir (hl (by simp))
    · have hdir : fs.get? (here ++ [name]) = some .directory := by
        refine hd [name] (by simp) ?_ (by simp)
        intro he
        cases he
        exact hrest rfl
      rw [List.append_cons]
      refine .enter hpass hdir (ih (fun n hn => hp n (List.mem_cons_of_mem _ hn))
        (fun n hn => hshort n (List.mem_cons_of_mem _ hn)) (isGone_concat hp) ?_ ?_)
      · intro top ht hne _
        rw [List.append_assoc]
        exact hd (name :: top) (List.cons_prefix_cons.2 ⟨rfl, ht⟩) (by simpa using hne) (by simp)
      · intro _ target htarget
        rw [List.append_assoc] at htarget
        exact hl (by simp) target htarget

/-- Names on which no link stands lead the same way whatever the ending. -/
theorem Leads.of_linkFree {other : Ending} {links : Nat} {here place : Location} {names : List String}
    (h : fs.Leads ending links here names place) (hp : Proper names) (hl : fs.LinkFree here names) :
    fs.Leads other 0 here names place := by
  have hslash : ∀ {rest}, Proper rest → other = .write → rest ≠ [""] := by
    rintro rest hrest - rfl
    exact (hrest "" (by simp)).1.1 rfl
  induction names generalizing here links with
  | nil =>
    cases h
    exact .done
  | cons name rest ih =>
    have hrest : Proper rest := fun n hn => hp n (List.mem_cons_of_mem _ hn)
    have hfirst : ∀ target, fs.get? (here ++ [name]) ≠ some (.link target) :=
      hl (by simp) (by simp)
    obtain ⟨hpass, hcases⟩ := h.named_cases hp.isIdle_eq_false (hp name (by simp)).2
    rcases hcases with ⟨hdir, hlead⟩ | ⟨rfl, -, rfl, hdir, -⟩ | ⟨_, _, -, hlink, -⟩
    · refine .enter (hpass.of_ending (hslash hrest)) hdir (ih hlead hrest fun ht _ => ?_)
      rw [List.append_assoc]
      exact hl (List.cons_prefix_cons.2 ⟨rfl, ht⟩) (by simp)
    · exact .last (hpass.of_ending (hslash hrest)) hdir fun target ht => absurd ht (hfirst target)
    · exact absurd hlink (hfirst _)

/-- Names on which no link stands are not too long where they lead somewhere. -/
theorem Leads.short {links : Nat} {here place : Location} {names : List String}
    (h : fs.Leads ending links here names place) (hp : Proper names) (hl : fs.LinkFree here names) :
    Short names := by
  induction names generalizing here links with
  | nil => simp [Short]
  | cons name rest ih =>
    have hrest : Proper rest := fun n hn => hp n (List.mem_cons_of_mem _ hn)
    obtain ⟨hpass, hcases⟩ := h.named_cases hp.isIdle_eq_false (hp name (by simp)).2
    rcases hcases with ⟨-, hlead⟩ | ⟨rfl, -⟩ | ⟨target, _, -, hlink, -⟩
    · have hshort : Short rest := by
        refine ih hlead hrest fun ht _ => ?_
        rw [List.append_assoc]
        exact hl (List.cons_prefix_cons.2 ⟨rfl, ht⟩) (by simp)
      intro n hn
      rcases List.mem_cons.1 hn with rfl | hn
      · exact hpass.short
      · exact hshort n hn
    · simpa [Short] using hpass.short
    · have hno : fs.get? (here ++ [name]) ≠ some (.link target) := hl (by simp) (by simp) target
      exact absurd hlink hno

/-- Where a path with names put after it leads, the names lead from where the path does. -/
theorem exists_leads_of_locate_append {p : Path} {middle place : Location} {more : List String}
    (h : fs.locate .follow p = .ok middle)
    (hm : fs.locate ending ⟨p.anchor, p.names ++ more⟩ = .ok place) (hne : more ≠ []) :
    ∃ links, fs.Leads ending links middle more place := by
  obtain ⟨-, links, -, hlead⟩ := locate_eq_ok_iff.1 h
  obtain ⟨-, all, -, hall⟩ := locate_eq_ok_iff.1 hm
  obtain ⟨first, second, between, -, hfirst, hsecond⟩ := hall.split fun he => absurd he hne
  obtain ⟨-, rfl⟩ := hlead.unique hfirst
  exact ⟨second, hsecond⟩

/-- A path with names put after it on which no link stands leads on by these names. -/
theorem locate_append_inv {p : Path} {middle place : Location} {more : List String}
    (h : fs.locate .follow p = .ok middle)
    (hm : fs.locate ending ⟨p.anchor, p.names ++ more⟩ = .ok place) (hne : more ≠ [])
    (hp : Proper more) (hl : fs.LinkFree middle more) :
    place = middle ++ more ∧
      ∀ top, top <+: more → top ≠ more → top ≠ [] → fs.get? (middle ++ top) = some .directory := by
  obtain ⟨links, hlead⟩ := exists_leads_of_locate_append h hm hne
  obtain ⟨hplace, -, hdirs⟩ := hlead.eq_append hp hl
  exact ⟨hplace, hdirs⟩

/-- A path with a name put after it leads to that name when a link there is kept, whatever stands
there. -/
theorem locate_keep_concat {p : Path} {middle place : Location} {name : String}
    (h : fs.locate .follow p = .ok middle)
    (hm : fs.locate .keep ⟨p.anchor, p.names ++ [name]⟩ = .ok place) (hp : Proper [name]) :
    place = middle ++ [name] ∧ name.utf8ByteSize ≤ maxNameSize := by
  obtain ⟨links, hlead⟩ := exists_leads_of_locate_append h hm (by simp)
  have hidle : isIdle name = false := hp.isIdle_eq_false
  have hup : name ≠ ".." := (hp name (by simp)).2
  exact ⟨hlead.eq_concat_of_keep hidle hup, (hlead.named_cases hidle hup).1.short⟩

/-- Where a path with a name put after it leads somewhere, the path leads somewhere. -/
theorem exists_locate_of_concat {anchor : Anchor} {names : List String} {name : String} {place : Location}
    (h : fs.locate .keep ⟨anchor, names ++ [name]⟩ = .ok place) (hp : Proper [name]) :
    ∃ middle, fs.locate .follow ⟨anchor, names⟩ = .ok middle ∧ place = middle ++ [name] := by
  obtain ⟨hsize, links, hlinks, hlead⟩ := locate_eq_ok_iff.1 h
  obtain ⟨first, second, middle, hsum, hfirst, -⟩ := hlead.split fun he => absurd he (by simp)
  have hshort : (⟨anchor, names⟩ : Path).text.utf8ByteSize ≤ maxPathSize := by
    by_cases hnil : names = []
    · subst hnil
      cases anchor <;> decide
    · exact (Path.text_le_text_concat hnil name).trans hsize
  have hmiddle : fs.locate .follow ⟨anchor, names⟩ = .ok middle :=
    locate_eq_ok_iff.2 ⟨hshort, first, by omega, hfirst⟩
  exact ⟨middle, hmiddle, (locate_keep_concat hmiddle h hp).1⟩

/-- A path to a directory leads on along names with directories on the way, unless its text gets too
long. -/
theorem locate_append {p : Path} {middle : Location} {more : List String}
    (h : fs.locate .follow p = .ok middle) (hd : fs.get? middle = some .directory)
    (hsize : (⟨p.anchor, p.names ++ more⟩ : Path).text.utf8ByteSize ≤ maxPathSize)
    (hgone : isGone middle = false) (hp : Proper more) (hne : more ≠ [])
    (hshort : ∀ name ∈ more, name.utf8ByteSize ≤ maxNameSize)
    (hdirs : ∀ top, top <+: more → top ≠ more → top ≠ [] → fs.get? (middle ++ top) = some .directory)
    (hl : ∀ target, fs.get? (middle ++ more) = some (.link target) → ending = .keep) :
    fs.locate ending ⟨p.anchor, p.names ++ more⟩ = .ok (middle ++ more) := by
  obtain ⟨-, links, hlinks, hlead⟩ := locate_eq_ok_iff.1 h
  have hmore : fs.Leads ending 0 middle more (middle ++ more) :=
    leads_of_directories hp hshort hgone hdirs fun _ => hl
  have hslash : more ≠ [""] := by
    rintro rfl
    exact (hp "" (by simp)).1.1 rfl
  exact locate_eq_ok_iff.2 ⟨hsize, links, hlinks, hlead.append hd hmore hne hslash⟩

/-- In a sound tree, names put after the path of a directory lead from there to what stands there, if that is no link
and the path is not too long. -/
theorem Sound.locate_append (hs : fs.Sound) {ending : Ending} {p : Path} {top more : Location}
    (hl : fs.locate .follow p = .ok top) (hd : fs.get? top = some .directory) (htop : Proper top) (hp : Proper more)
    (hne : more ≠ []) {entry : Entry} (hentry : fs.get? (top ++ more) = some entry)
    (hlink : ∀ target, entry ≠ .link target)
    (hsize : (⟨p.anchor, p.names ++ more⟩ : Path).text.utf8ByteSize ≤ maxPathSize) :
    fs.locate ending ⟨p.anchor, p.names ++ more⟩ = .ok (top ++ more) := by
  have hname : ¬isNameless (top ++ more) :=
    (htop.append hp).not_isNameless fun he => hne (List.append_eq_nil_iff.1 he).2
  have hsome : (fs.get? (top ++ more)).isSome := by simp [hentry]
  refine FileSystem.locate_append hl hd hsize htop.isGone_eq_false hp hne
    (fun name hname' => hs.short hname hsome name (List.mem_append_right _ hname')) (fun l hle hl' _ => ?_)
    fun target htarget => ?_
  · exact hs.directory_of_isPrefix hname hsome ((List.prefix_append_right_inj _).2 hle)
      fun he => hl' (List.append_cancel_left he)
  · rw [hentry] at htarget
    exact absurd (Option.some.inj htarget) (hlink target)

/-- A path to a directory with a name put after it leads to that name, unless its text or the name is too
long. -/
theorem locate_concat {p : Path} {middle : Location} {name : String}
    (h : fs.locate .follow p = .ok middle) (hd : fs.get? middle = some .directory)
    (hsize : (⟨p.anchor, p.names ++ [name]⟩ : Path).text.utf8ByteSize ≤ maxPathSize)
    (hmiddle : Proper middle) (hp : Proper [name]) (hshort : name.utf8ByteSize ≤ maxNameSize)
    (hl : ∀ target, fs.get? (middle ++ [name]) = some (.link target) → ending = .keep) :
    fs.locate ending ⟨p.anchor, p.names ++ [name]⟩ = .ok (middle ++ [name]) := by
  refine locate_append h hd hsize hmiddle.isGone_eq_false hp (by simp) ?_ ?_ hl
  · intro other hother
    rw [List.mem_singleton.1 hother]
    exact hshort
  · intro top ht hne hnil
    rcases List.prefix_cons_iff.1 ht with rfl | ⟨rest, rfl, hrest⟩
    · exact absurd rfl hnil
    · rw [List.prefix_nil.1 hrest] at hne
      exact absurd rfl hne

/-- A path from the root along proper names without links leads where it spells. -/
theorem locate_fromRoot_inv {names : List String} {place : Location}
    (h : fs.locate ending (.fromRoot names) = .ok place) (hp : Proper names)
    (hl : fs.LinkFree [] names) :
    place = names ∧ ∀ top, top <+: names → top ≠ names → fs.get? top = some .directory := by
  obtain ⟨-, links, -, hlead⟩ := locate_eq_ok_iff.1 h
  obtain ⟨hplace, -, hdirs⟩ := hlead.eq_append hp hl
  refine ⟨hplace, fun top ht hne => ?_⟩
  by_cases hnil : top = []
  · rw [hnil]
    rfl
  · exact hdirs top ht hne hnil

/-- A path from the root along proper names without links leads the same way whatever the ending. -/
theorem locate_of_linkFree {other : Ending} {names : List String} {place : Location}
    (h : fs.locate ending (.fromRoot names) = .ok place) (hp : Proper names)
    (hl : fs.LinkFree [] names) : fs.locate other (.fromRoot names) = .ok place := by
  obtain ⟨hsize, links, -, hlead⟩ := locate_eq_ok_iff.1 h
  exact locate_eq_ok_iff.2 ⟨hsize, 0, Nat.zero_le _, hlead.of_linkFree hp hl⟩

/-- A path from the root along proper names with directories on the way leads where it spells, unless it
is too long. -/
theorem locate_fromRoot {names : List String}
    (hsize : (Path.fromRoot names).text.utf8ByteSize ≤ maxPathSize) (hp : Proper names)
    (hshort : ∀ name ∈ names, name.utf8ByteSize ≤ maxNameSize)
    (hdirs : ∀ top, top <+: names → top ≠ names → fs.get? top = some .directory)
    (hl : ∀ target, fs.get? names = some (.link target) → ending = .keep) :
    fs.locate ending (.fromRoot names) = .ok names :=
  locate_eq_ok_iff.2 ⟨hsize, 0, Nat.zero_le _,
    leads_of_directories hp hshort rfl (fun top ht hne _ => hdirs top ht hne) fun _ => hl⟩

/-- Whether no link stands on the way to a location, at it or below it. -/
def Unlinked (fs : FileSystem) (top : Location) : Prop :=
  ∀ location, location <+: top ∨ top <+: location → ∀ target,
    fs.get? location ≠ some (.link target)

/-- No link stands on the way to what lies at or below a location without links. -/
theorem Unlinked.linkFree {top : Location} (h : fs.Unlinked top) (rest : List String) :
    fs.LinkFree [] (top ++ rest) := by
  intro location hl _ target
  exact h location (List.prefix_or_prefix_of_prefix hl (List.prefix_append top rest)) target

/-- A walk along proper names sees what stands on the way, and nothing else. -/
theorem walk_eq_of_proper {here : Location} {names : List String} (hp : Proper names)
    (h : ∀ top, top <+: names → t.get? (here ++ top) = fs.get? (here ++ top)) :
    t.walk ending here names = fs.walk ending here names := by
  induction names generalizing here with
  | nil => rfl
  | cons name rest ih =>
    have hrest : t.walk ending (here ++ [name]) rest = fs.walk ending (here ++ [name]) rest := by
      refine ih (fun n hn => hp n (List.mem_cons_of_mem _ hn)) fun top ht => ?_
      rw [List.append_assoc]
      exact h (name :: top) (List.cons_prefix_cons.2 ⟨rfl, ht⟩)
    have hname := h [name] (by simp)
    have hidle : ¬isIdle name = true := by simp [hp.isIdle_eq_false]
    have hup : ¬name = ".." := (hp name (by simp)).2
    simp only [walk, if_neg hidle, if_neg hup, hname, hrest]

/-- A walk along proper names comes to a link only where one stands on the way. -/
theorem exists_link_of_walk {here base : Location} {names rest : List String} {target : String}
    (hp : Proper names) (h : fs.walk ending here names = .link base target rest) :
    ∃ top, top <+: names ∧ top ≠ [] ∧ fs.get? (here ++ top) = some (.link target) := by
  induction names generalizing here with
  | nil => cases h
  | cons name more ih =>
    rw [walk, if_neg (by simp [hp.isIdle_eq_false]), if_neg (hp name (by simp)).2] at h
    dsimp only at h
    split at h
    · cases h
    · split at h
      · cases h
      · split at h
        · cases h
        · split at h
          · obtain ⟨top, ht, -, hlink⟩ := ih (fun n hn => hp n (List.mem_cons_of_mem _ hn)) h
            refine ⟨name :: top, List.cons_prefix_cons.2 ⟨rfl, ht⟩, by simp, ?_⟩
            rwa [List.append_assoc] at hlink
          · next other hentry =>
            split at h
            · cases h
            · cases h
              exact ⟨[name], by simp, by simp, hentry⟩
          · split at h <;> cases h
          · split at h <;> cases h

/-- A path from the root along proper names without links leads the same way, or fails the same way, in
trees in which the same stands on the way. -/
theorem locate_fromRoot_eq {names : List String} (hp : Proper names) (hl : fs.LinkFree [] names)
    (h : ∀ top, top <+: names → t.get? top = fs.get? top) :
    t.locate ending (.fromRoot names) = fs.locate ending (.fromRoot names) := by
  have hwalk : t.walk ending [] names = fs.walk ending [] names := walk_eq_of_proper hp h
  show t.locateRoute ending _ ⟨true, names⟩ = fs.locateRoute ending _ ⟨true, names⟩
  unfold locateRoute
  split
  · rfl
  · rw [if_pos rfl, if_pos rfl, locateFrom, locateFrom, hwalk]
    cases hstop : fs.walk ending [] names with
    | arrived location => rfl
    | failed e => rfl
    | link base target rest =>
      obtain ⟨top, ht, hne, hlink⟩ := exists_link_of_walk hp hstop
      exact absurd hlink (hl ht hne target)

/-- A walk alone never takes too many links. -/
theorem walk_ne_tooManyLinks (here : Location) (names : List String) :
    fs.walk ending here names ≠ .failed .tooManyLinks := by
  induction names generalizing here with
  | nil => simp [walk]
  | cons name rest ih =>
    unfold walk
    split
    · exact ih here
    · split
      · exact ih here.dropLast
      · split
        · simp
        · split
          · simp
          · split
            · simp
            · dsimp only
              split
              · exact ih _
              · split <;> simp
              · split <;> simp
              · split <;> simp

/-- A path from the root along proper names without links does not take too many links. -/
theorem isEndless_of_linkFree {place : Location} (hp : Proper place) (hl : fs.LinkFree [] place) :
    fs.isEndless (.fromRoot place) = false := by
  have hlocate : fs.locate .follow (.fromRoot place) ≠ .error .tooManyLinks := by
    unfold locate locateRoute
    split
    · simp
    · show fs.locateFrom .follow maxLinks [] place ≠ _
      rw [locateFrom]
      cases hwalk : fs.walk .follow [] place with
      | arrived location => simp
      | failed e =>
        dsimp only
        intro he
        rw [Except.error.inj he] at hwalk
        exact walk_ne_tooManyLinks _ _ hwalk
      | link base target rest =>
        obtain ⟨top, htop, hne, hlink⟩ := exists_link_of_walk hp hwalk
        exact absurd hlink (hl htop hne target)
  unfold isEndless
  split
  · next he => exact absurd he hlocate
  · rfl

/-! ## Other endings -/

/-- Where names lead to something, they lead to something when a link at the end is kept. -/
theorem Leads.keep {links : Nat} {here place : Location} {names : List String}
    (h : fs.Leads .follow links here names place) (hs : (fs.get? place).isSome) :
    ∃ count ≤ links, ∃ other, fs.Leads .keep count here names other ∧ (fs.get? other).isSome := by
  induction h with
  | done => exact ⟨0, Nat.le_refl 0, _, .done, hs⟩
  | idle hidle _ ih =>
    obtain ⟨count, hc, other, ho, hos⟩ := ih hs
    exact ⟨count, hc, other, .idle hidle ho, hos⟩
  | up _ ih =>
    obtain ⟨count, hc, other, ho, hos⟩ := ih hs
    exact ⟨count, hc, other, .up ho, hos⟩
  | enter hpass hdir _ ih =>
    obtain ⟨count, hc, other, ho, hos⟩ := ih hs
    exact ⟨count, hc, other, .enter (hpass.of_ending (by simp)) hdir ho, hos⟩
  | last hpass hdir hlink =>
    exact ⟨0, Nat.le_refl 0, _, .last (hpass.of_ending (by simp)) hdir fun _ _ => rfl, hs⟩
  | @link links here name rest target place hpass hlink _ _ ih =>
    -- a link at the very end is where they lead when it is kept, and others are followed as before
    by_cases hrest : rest = []
    · subst hrest
      refine ⟨0, Nat.zero_le _, here ++ [name], ?_, by simp [hlink]⟩
      exact .last (hpass.of_ending (by simp)) (by simp [hlink]) fun _ _ => rfl
    · obtain ⟨count, hc, other, ho, hos⟩ := ih hs
      exact ⟨count + 1, Nat.succ_le_succ hc, other,
        .link (hpass.of_ending (by simp)) hlink (fun he => absurd he hrest) ho, hos⟩

/-- Where a path leads to something, it leads to something when a link at its end is kept. -/
theorem locate_keep {p : Path} {place : Location} (h : fs.locate .follow p = .ok place)
    (hs : (fs.get? place).isSome) :
    ∃ other, fs.locate .keep p = .ok other ∧ (fs.get? other).isSome := by
  obtain ⟨hsize, links, hlinks, hlead⟩ := locate_eq_ok_iff.1 h
  obtain ⟨count, hcount, other, hother, hsome⟩ := hlead.keep hs
  exact ⟨other, locate_eq_ok_iff.2 ⟨hsize, count, Nat.le_trans hcount hlinks, hother⟩, hsome⟩

/-- Where names lead to what is no link, they lead when links are followed. -/
theorem Leads.follow {links : Nat} {here place : Location} {names : List String}
    (h : fs.Leads ending links here names place)
    (hl : ∀ target, fs.get? place ≠ some (.link target)) : fs.Leads .follow links here names place := by
  induction h with
  | done => exact .done
  | idle hidle _ ih => exact .idle hidle (ih hl)
  | up _ ih => exact .up (ih hl)
  | enter hpass hdir _ ih => exact .enter (hpass.of_ending (by simp)) hdir (ih hl)
  | last hpass hdir _ =>
    exact .last (hpass.of_ending (by simp)) hdir fun target ht => absurd ht (hl target)
  | link hpass hlink _ _ ih => exact .link (hpass.of_ending (by simp)) hlink (by simp) (ih hl)

/-! ## Trees that lead the same ways -/

/-- Whether two entries are the same as far as walks can tell: two files, two directories, or links with
one target. -/
def Alike : Entry → Entry → Prop
  | .file _ _, .file _ _ => True
  | .directory, .directory => True
  | .link target, .link other => target = other
  | _, _ => False

/-- Whether what stands in one tree stands in another, as far as walks can tell. -/
def Carries (fs t : FileSystem) : Prop :=
  ∀ {location entry}, fs.get? location = some entry →
    ∃ other, t.get? location = some other ∧ Alike entry other

/-- Directories are carried as directories. -/
theorem Carries.directory (h : Carries fs t) {location : Location}
    (hd : fs.get? location = some .directory) : t.get? location = some .directory := by
  obtain ⟨other, ho, ha⟩ := h hd
  cases other <;> first | exact ho | exact ha.elim

/-- Links are carried with their targets. -/
theorem Carries.link (h : Carries fs t) {location : Location} {target : String}
    (hl : fs.get? location = some (.link target)) : t.get? location = some (.link target) := by
  obtain ⟨other, ho, ha⟩ := h hl
  cases other with
  | file _ _ => exact ha.elim
  | directory => exact ha.elim
  | link other =>
    have he : target = other := ha
    rw [ho, he]

/-- A tree carries itself. -/
theorem Carries.refl (fs : FileSystem) : Carries fs fs := by
  intro location entry h
  refine ⟨entry, h, ?_⟩
  cases entry <;> trivial

/-- What is carried on is carried. -/
theorem Carries.trans {u : FileSystem} (h : Carries fs t) (ht : Carries t u) : Carries fs u := by
  intro location entry he
  obtain ⟨other, ho, ha⟩ := h he
  obtain ⟨third, hthird, ha'⟩ := ht ho
  refine ⟨third, hthird, ?_⟩
  cases entry <;> cases other <;> cases third <;> simp_all [Alike]

/-- A tree in which the log file was added to carries the tree. -/
theorem Sound.carries_writeHeld (h : fs.Sound) (s : String) : Carries fs (fs.writeHeld s) := by
  intro location entry he
  rw [get?_writeHeld h, he]
  cases entry with
  | file c x => exact ⟨_, rfl, trivial⟩
  | directory => exact ⟨_, rfl, trivial⟩
  | link target => exact ⟨_, rfl, rfl⟩

/-- Adding to the log file changes neither the working directory nor which file it is. -/
theorem writeHeld_frame (fs : FileSystem) (s : String) :
    (fs.writeHeld s).workingDirectory = fs.workingDirectory ∧ (fs.writeHeld s).held = fs.held := by
  unfold writeHeld
  split
  · exact ⟨rfl, rfl⟩
  · split <;> exact ⟨rfl, rfl⟩

/-- Names lead the same way in a tree that carries this one, unless a link stands where they led to
nothing. -/
theorem Leads.carried {links : Nat} {here place : Location} {names : List String}
    (h : fs.Leads ending links here names place) (hc : Carries fs t)
    (hn : fs.get? place = none → ∀ target, t.get? place ≠ some (.link target)) :
    t.Leads ending links here names place := by
  induction h with
  | done => exact .done
  | idle hidle _ ih => exact .idle hidle (ih hn)
  | up _ ih => exact .up (ih hn)
  | enter hpass hdir _ ih => exact .enter hpass (hc.directory hdir) (ih hn)
  | link hpass hlink hkeep _ ih => exact .link hpass (hc.link hlink) hkeep (ih hn)
  -- where they stopped at nothing, there may be a directory now
  | @last here name hpass hdir hlink =>
    by_cases hd : t.get? (here ++ [name]) = some .directory
    · exact .enter hpass hd .done
    · refine .last hpass hd fun target ht => ?_
      cases hentry : fs.get? (here ++ [name]) with
      | none => exact absurd ht (hn hentry target)
      | some entry =>
        obtain ⟨other, ho, ha⟩ := hc hentry
        rw [ht] at ho
        cases ho
        cases entry with
        | file _ _ => exact ha.elim
        | directory => exact ha.elim
        | link other => exact hlink other hentry

/-- A path leads the same way in a tree that carries this one. -/
theorem locate_carried {p : Path} {place : Location} (h : fs.locate ending p = .ok place)
    (hc : Carries fs t) (hw : t.startOf p = fs.startOf p)
    (hn : fs.get? place = none → ∀ target, t.get? place ≠ some (.link target)) :
    t.locate ending p = .ok place := by
  rw [locate_eq_ok_iff] at h ⊢
  obtain ⟨hsize, links, hl, h⟩ := h
  rw [hw]
  exact ⟨hsize, links, hl, h.carried hc hn⟩

/-! ## Where a walk can come to -/

/-- Whether directories lead to a location from the root. -/
def Rooted (fs : FileSystem) (location : Location) : Prop :=
  ∀ {top}, top <+: location → fs.get? top = some .directory

/-- In a sound tree, directories lead to every directory that is there. -/
theorem Sound.rooted (h : fs.Sound) {location : Location} (hd : fs.get? location = some .directory)
    (hl : Proper location) : fs.Rooted location := by
  intro top ht
  by_cases hne : top = location
  · rw [hne, hd]
  · refine h.directory_of_isPrefix (hl.not_isNameless ?_) (by simp [hd]) ht hne
    rintro rfl
    exact hne (List.prefix_nil.1 ht)

/-- Directories lead to the root. -/
theorem rooted_nil (fs : FileSystem) : fs.Rooted [] := by
  intro top ht
  rw [List.prefix_nil.1 ht]
  rfl

/-- The first names on the way to a location with directories lead through directories. -/
theorem Rooted.of_isPrefix {top location : Location} (h : fs.Rooted location) (ht : top <+: location) :
    fs.Rooted top :=
  fun hl => h (hl.trans ht)

/-- A path from the root along directories does not take too many links. -/
theorem Rooted.isEndless_eq_false {place : Location} (h : fs.Rooted place) (hp : Proper place) :
    fs.isEndless (.fromRoot place) = false := by
  refine isEndless_of_linkFree hp fun {top} ht _ target htarget => ?_
  rw [List.nil_append, h ht] at htarget
  cases htarget

/-- Directories lead to a directory in a location that directories lead to. -/
theorem Rooted.concat {base : Location} {name : String} (h : fs.Rooted base)
    (hd : fs.get? (base ++ [name]) = some .directory) : fs.Rooted (base ++ [name]) := by
  intro top ht
  rcases List.prefix_concat_iff.1 ht with rfl | ht
  · exact hd
  · exact h ht

/-- Directories lead to where a link leads from, if they lead to the directory that it is in. -/
theorem Rooted.linkStart {base : Location} (h : fs.Rooted base) (target : String) :
    fs.Rooted (linkStart base target) := by
  unfold FileSystem.linkStart
  split
  · exact rooted_nil fs
  · exact h

/-- Directories lead to where a path starts, if they lead to the working directory. -/
theorem Rooted.startOf (h : fs.Rooted fs.workingDirectory) (p : Path) : fs.Rooted (fs.startOf p) := by
  unfold FileSystem.startOf
  split
  · exact rooted_nil fs
  · exact h

/-- A location that directories lead to is proper and short, unless it is gone. -/
theorem Rooted.proper {location : Location} (h : fs.Rooted location) (hs : fs.Sound)
    (hg : isGone location = false) : Proper location ∧ Short location := by
  by_cases hnil : location = []
  · subst hnil
    exact ⟨by simp [Proper], by simp [Short]⟩
  · have hname : ¬isNameless location := by
      unfold isGone at hg
      simpa [hnil] using hg
    have hsome : (fs.get? location).isSome := by simp [h (List.prefix_refl location)]
    exact ⟨hs.proper hname hsome, hs.short hname hsome⟩

/-- A walk comes to a place that directories lead to, or to a name in such a place. -/
inductive Arrival (fs : FileSystem) : Location → Prop
  | rooted {location} (h : fs.Rooted location) : Arrival fs location
  | named {base name} (h : fs.Rooted base) (hgone : isGone base = false) (hname : Path.IsName name)
      (hup : name ≠ "..") (hshort : name.utf8ByteSize ≤ maxNameSize) : Arrival fs (base ++ [name])

/-- Directories lead to the location above where a walk comes to. -/
theorem Arrival.rooted_dropLast {place : Location} (h : fs.Arrival place) : fs.Rooted place.dropLast := by
  cases h with
  | rooted hroot => exact hroot.of_isPrefix (List.dropLast_prefix _)
  | named hroot =>
    rw [List.dropLast_concat]
    exact hroot

/-- The names of a route hold no slash. -/
theorem Route.not_mem_names {s name : String} (h : name ∈ (Route.ofString s).names) :
    '/' ∉ name.toList := by
  have hpiece : ∀ n ∈ (Text.split '/' s).filter (· != ""), '/' ∉ n.toList :=
    fun n hn => Text.not_mem_of_mem_split (List.mem_filter.1 hn).1
  unfold Route.ofString at h
  dsimp only at h
  split at h
  · rcases List.mem_append.1 h with h | h
    · exact hpiece name h
    · rw [List.mem_singleton.1 h]
      simp
  · exact hpiece name h

/-- Names without slashes lead from a place that directories lead to to one that a walk can come to. -/
theorem Leads.arrival {links : Nat} {here place : Location} {names : List String}
    (h : fs.Leads ending links here names place) (hr : fs.Rooted here)
    (hn : ∀ name ∈ names, '/' ∉ name.toList) : fs.Arrival place := by
  -- what carries the induction is that directories lead to the place reached so far
  induction h with
  | done => exact .rooted hr
  | idle _ _ ih => exact ih hr fun n hm => hn n (List.mem_cons_of_mem _ hm)
  | up _ ih =>
    exact ih (hr.of_isPrefix (List.dropLast_prefix _)) fun n hm => hn n (List.mem_cons_of_mem _ hm)
  | enter _ hdir _ ih => exact ih (hr.concat hdir) fun n hm => hn n (List.mem_cons_of_mem _ hm)
  | last hpass _ _ =>
    have hidle := hpass.notIdle
    unfold isIdle at hidle
    simp only [Bool.or_eq_false_iff, beq_eq_false_iff_ne, ne_eq] at hidle
    exact .named hr hpass.notGone ⟨hidle.1, hidle.2, hn _ (by simp)⟩ hpass.notUp hpass.short
  | link _ _ _ _ ih =>
    refine ih (hr.linkStart _) fun n hm => ?_
    rcases List.mem_append.1 hm with hm | hm
    · exact Route.not_mem_names hm
    · exact hn n (List.mem_cons_of_mem _ hm)

/-- In a sound tree directories lead to where a path starts. -/
theorem Sound.rooted_startOf (h : fs.Sound) (p : Path) : fs.Rooted (fs.startOf p) :=
  Rooted.startOf (fun ht => h.working ht) p

/-- A written path leads to a place that a walk can come to. -/
theorem Sound.arrival (h : fs.Sound) {p : Path} (hp : p.Written) {place : Location}
    (hl : fs.locate ending p = .ok place) : fs.Arrival place := by
  obtain ⟨-, links, -, hleads⟩ := locate_eq_ok_iff.1 hl
  exact hleads.arrival (h.rooted_startOf p) fun name hname => (hp name hname).2.2

/-- Names lead from a place that directories lead to to a link only when a link at the end is kept. -/
theorem Leads.not_link {links : Nat} {here place : Location} {names : List String}
    (h : fs.Leads ending links here names place) (hr : fs.Rooted here) (hk : ending ≠ .keep) :
    ∀ target, fs.get? place ≠ some (.link target) := by
  induction h with
  | done =>
    intro target ht
    rw [hr (List.prefix_refl _)] at ht
    cases ht
  | idle _ _ ih => exact ih hr
  | up _ ih => exact ih (hr.of_isPrefix (List.dropLast_prefix _))
  | enter _ hdir _ ih => exact ih (hr.concat hdir)
  | last _ _ hlink => exact fun target ht => hk (hlink target ht)
  | link _ _ _ _ ih => exact ih (hr.linkStart _)

/-- A path leads to a link only when a link at the end is kept. -/
theorem Sound.not_link (h : fs.Sound) {p : Path} {place : Location}
    (hl : fs.locate ending p = .ok place) (hk : ending ≠ .keep) (target : String) :
    fs.get? place ≠ some (.link target) := by
  obtain ⟨-, links, -, hlead⟩ := locate_eq_ok_iff.1 hl
  exact hlead.not_link (h.rooted_startOf p) hk target

end ProviderBindings.FileSystem
