import Mathlib.Data.List.Nodup
import Mathlib.Data.List.Perm.Subperm
import ProviderBindings.Generation
import ProviderBindings.Proofs.FileSystem.Removing

/-!
# Staging directories

Work in a staging directory comes to what the work comes to (`run_within_of_acquire`): the directory is made
before and removed afterwards, and nothing of that can fail but the making. A directory that was made is
a free name in the staging root with a number of its own (`run_acquire_ok`).
-/

namespace ProviderBindings

open FileSystem

namespace FileSystem

variable {fs t : FileSystem}

/-- The name of a numbered scratch directory. -/
def scratchName (label : String) (n : Nat) : String :=
  s!"{label}-#{n}"

/-- The text of the path of a numbered scratch directory. -/
def scratchText (label : String) (parent : String) (n : Nat) : String :=
  Path.joinText parent (scratchName label n)

/-- Whether something stands at the path of a numbered scratch directory. -/
def scratchTaken (fs : FileSystem) (label parent : String) (n : Nat) : Bool :=
  ((fs.locateText .keep (scratchText label parent n)).toOption.bind fs.get?).isSome

/-- How far the number of a scratch directory is from the first one that is tried. -/
def scratchOffset (fs : FileSystem) (label parent : String) (first : Nat) : Nat :=
  ((List.range (fs.entries.length + 1)).find? fun k =>
    !fs.scratchTaken label parent (first + k)).getD 0

/-- A scratch directory gets the first number that is free, if one is among those that are tried. -/
theorem scratchOffset_spec {fs : FileSystem} {label parent : String} {first k : Nat}
    (hk : k ≤ fs.entries.length) (hfree : fs.scratchTaken label parent (first + k) = false) :
    fs.scratchTaken label parent (first + fs.scratchOffset label parent first) = false ∧
      ∀ j, fs.scratchTaken label parent (first + j) = false →
        fs.scratchOffset label parent first ≤ j := by
  unfold scratchOffset
  cases hfind : (List.range (fs.entries.length + 1)).find? fun k =>
      !fs.scratchTaken label parent (first + k) with
  | none =>
    have htaken := List.find?_eq_none.1 hfind k (List.mem_range.2 (Nat.lt_succ_of_le hk))
    simp [hfree] at htaken
  | some i =>
    obtain ⟨hi, -, hbefore⟩ := List.find?_range_eq_some.1 hfind
    refine ⟨by simpa using hi, fun j hj => Nat.le_of_not_lt fun hlt => ?_⟩
    have htaken := hbefore j hlt
    simp [hj] at htaken

/-- A scratch directory is made at a number of its own. -/
theorem run_makeScratch (label : String) (first : Nat) (parent : String) (fs : FileSystem) :
    (makeScratch label first parent).run fs =
      match (makeDirectoryAt (scratchText label parent
        (first + fs.scratchOffset label parent first))).run fs with
      | (.ok (), t) => (.ok (.ofString (scratchText label parent
          (first + fs.scratchOffset label parent first))), t)
      | (.error failure, t) => (.error failure, t) := by
  rw [makeScratch, run_bind, run_get]
  dsimp only
  rcases hmade : (makeDirectoryAt (scratchText label parent
    (first + fs.scratchOffset label parent first))).run fs with ⟨failure | ⟨⟩, t⟩
  · exact run_bind_of_error hmade _
  · exact run_bind_of_ok hmade _

/-- The name of a scratch directory is its label, a dash, a number sign and its number. -/
theorem toList_scratchName (label : String) (n : Nat) :
    (scratchName label n).toList = label.toList ++ '-' :: '#' :: Nat.toDigits 10 n := by
  unfold scratchName
  simp [String.toList_append, Nat.toList_repr, toString]

/-- The name of a scratch directory is one, and no dots. -/
theorem isName_scratchName {label : String} (h : '/' ∉ label.toList) (n : Nat) :
    Path.IsName (scratchName label n) ∧ scratchName label n ≠ ".." := by
  have hsign : '#' ∈ (scratchName label n).toList := by
    rw [toList_scratchName]
    simp
  refine ⟨⟨?_, ?_, ?_⟩, ?_⟩
  · intro he
    rw [he] at hsign
    exact absurd hsign (by decide)
  · intro he
    rw [he] at hsign
    exact absurd hsign (by decide)
  · rw [toList_scratchName]
    intro hslash
    rcases List.mem_append.1 hslash with hslash | hslash
    · exact h hslash
    · simp only [List.mem_cons, Char.reduceEq, false_or] at hslash
      exact absurd (Nat.isDigit_of_mem_toDigits (by decide) (by decide) hslash) (by decide)
  · intro he
    rw [he] at hsign
    exact absurd hsign (by decide)

/-- A decimal digit may stand in a path. -/
theorem isHalf_of_isDigit {c : Char} (h : c.isDigit = true) :
    PathFault.isHalf c = false ∧ c ≠ '\x00' := by
  obtain ⟨hlow, hhigh⟩ := Char.isDigit_iff_toNat.1 h
  have hk : c.toNat ∈ List.range' 48 10 := by
    rw [List.mem_range'_1]
    exact ⟨hlow, Nat.lt_succ_of_le hhigh⟩
  have hall : ∀ k ∈ List.range' 48 10,
      PathFault.isHalf (Char.ofNat k) = false ∧ Char.ofNat k ≠ '\x00' := by decide
  have hc := hall _ hk
  rwa [Char.ofNat_toNat] at hc

/-- The name of a scratch directory has no fault that its label has not. -/
theorem faultless_scratchName {label : String} (h : PathFault.ofText? label = none) (n : Nat) :
    PathFault.ofText? (scratchName label n) = none := by
  rw [PathFault.ofText?_eq_none_iff, toList_scratchName]
  intro c hc
  simp only [List.mem_append, List.mem_cons] at hc
  rcases hc with hc | rfl | rfl | hc
  · exact PathFault.ofText?_eq_none_iff.1 h c hc
  · decide
  · decide
  · exact isHalf_of_isDigit (Nat.isDigit_of_mem_toDigits (by decide) (by decide) hc)

/-- Scratch directories with different numbers have different names. -/
theorem scratchName_inj {label : String} {n m : Nat} (h : scratchName label n = scratchName label m) :
    n = m := by
  have hlist := congrArg String.toList h
  rw [toList_scratchName, toList_scratchName, List.append_cancel_left_eq] at hlist
  have hdigits : Nat.toDigits 10 n = Nat.toDigits 10 m := by simpa using hlist
  rw [← Nat.ofDigitChars_toDigits (b := 10) (n := n) (by decide) (by decide), hdigits,
    Nat.ofDigitChars_toDigits (by decide) (by decide)]

/-- Among one more scratch directories than there are entries, one is free. -/
theorem exists_free_scratch (fs : FileSystem) {label : String} (h : '/' ∉ label.toList)
    (parent : Location) (first : Nat) :
    ∃ k ≤ fs.entries.length, fs.get? (parent ++ [scratchName label (first + k)]) = none := by
  by_contra hno
  have htaken : ∀ k ≤ fs.entries.length,
      fs.get? (parent ++ [scratchName label (first + k)]) ≠ none :=
    fun k hk hn => hno ⟨k, hk, hn⟩
  -- else these would be more places that are taken than there are entries
  let places := (List.range (fs.entries.length + 1)).map fun k =>
    parent ++ [scratchName label (first + k)]
  have hnodup : places.Nodup := by
    refine List.Nodup.map ?_ List.nodup_range
    intro k l he
    have hname := List.append_cancel_left he
    exact Nat.add_left_cancel (scratchName_inj (List.singleton_inj.1 hname))
  have hkeys : places ⊆ fs.entries.map (·.1) := by
    intro place hplace
    obtain ⟨k, hk, rfl⟩ := List.mem_map.1 hplace
    have hthere := htaken k (Nat.le_of_lt_succ (List.mem_range.1 hk))
    have hname : ¬isNameless (parent ++ [scratchName label (first + k)]) := by
      simp [isNameless, (isName_scratchName h (first + k)).1.1]
    rw [get?_of_not_isNameless hname] at hthere
    rw [← Assoc.isSome_get?]
    exact Option.isSome_iff_ne_none.2 hthere
  have hlen := (List.subperm_of_subset hnodup hkeys).length_le
  simp only [places, List.length_map, List.length_range] at hlen
  omega

end FileSystem

namespace Staging

/-- Whether a tree is another after the staging root was made in it, if one is given. -/
def RootMade (parent : Option Path) (fs root : FileSystem) : Prop :=
  match parent with
  | some p => (makeDirectories p).run fs = (.ok (), root)
  | none => root = fs

/-- The text of the path of the staging directory that is made next. -/
def nextText (label : String) (parent : Option Path) (host : Host) (root : FileSystem) : String :=
  scratchText label (parent.getD host.temporary).text (host.staged + 1 +
    root.scratchOffset label (parent.getD host.temporary).text (host.staged + 1))

/-- Once its root was made, a staging directory is made as far as the directory with the next text can. -/
theorem run_acquire {label : String} {parent : Option Path} {host : Host} {root : FileSystem}
    (h : RootMade parent host.files root) :
    (acquire label parent).run host =
      match (makeDirectoryAt (nextText label parent host root)).run root with
      | (.ok (), fs) =>
        (.ok (.ofString (nextText label parent host root)),
          { host with files := fs, staged := host.staged + 1 })
      | (.error failure, fs) => (.error (Host.failureOf failure), { host with files := fs }) := by
  -- what both roots have in common: the directory is made once its root is there
  have hlast :
      ((do
        let host ← get
        let path ← Host.withFiles
          (makeScratch label (host.staged + 1) (parent.getD host.temporary).text)
        modify fun host => { host with staged := host.staged + 1 }
        pure path : HostAction Path).run { host with files := root } =
        match (makeDirectoryAt (nextText label parent host root)).run root with
        | (.ok (), fs) =>
          (.ok (.ofString (nextText label parent host root)),
            { host with files := fs, staged := host.staged + 1 })
        | (.error failure, fs) => (.error (Host.failureOf failure), { host with files := fs })) := by
    rw [run_bind, run_get]
    dsimp only
    rw [run_bind, run_withFiles, run_makeScratch]
    unfold nextText
    dsimp only
    rcases (makeDirectoryAt _).run root with ⟨failure | ⟨⟩, fs⟩ <;> rfl
  unfold acquire
  cases parent with
  | none =>
    obtain rfl : root = host.files := h
    exact hlast
  | some parent =>
    have hmade : (Host.withFiles (makeDirectories parent)).run host =
        (.ok (), { host with files := root }) := run_withFiles_ok_iff.2 ⟨root, h, rfl⟩
    dsimp only
    rw [run_bind_of_ok hmade]
    exact hlast

/-- What making a staging directory comes to, step by step: first its root is made, if one is given, and then the
directory with the next text. -/
inductive Acquires (label : String) (parent : Option Path) (host : Host) : Except Failure Path → Host → Prop
  /-- The root could not be made. -/
  | rootless {p : Path} {failure : FileFailure} {root : FileSystem} (hparent : parent = some p)
      (hroot : (makeDirectories p).run host.files = (.error failure, root)) :
      Acquires label parent host (.error (Host.failureOf failure)) { host with files := root }
  /-- The directory could not be made there. -/
  | unmade {root fs : FileSystem} {failure : FileFailure} (hroot : RootMade parent host.files root)
      (hmake : (makeDirectoryAt (nextText label parent host root)).run root = (.error failure, fs)) :
      Acquires label parent host (.error (Host.failureOf failure)) { host with files := fs }
  /-- The directory was made. -/
  | made {root fs : FileSystem} (hroot : RootMade parent host.files root)
      (hmake : (makeDirectoryAt (nextText label parent host root)).run root = (.ok (), fs)) :
      Acquires label parent host (.ok (.ofString (nextText label parent host root)))
        { host with files := fs, staged := host.staged + 1 }

/-- Making a staging directory ends in one of these ways. -/
theorem acquires_of_run {label : String} {parent : Option Path} {host host' : Host}
    {result : Except Failure Path} (h : (acquire label parent).run host = (result, host')) :
    Acquires label parent host result host' := by
  have hmade : ∀ {root}, RootMade parent host.files root → Acquires label parent host result host' := by
    intro root hroot
    rw [run_acquire hroot] at h
    rcases hmake : (makeDirectoryAt (nextText label parent host root)).run root with ⟨failure | ⟨⟩, fs⟩
    · rw [hmake] at h
      cases h
      exact .unmade hroot hmake
    · rw [hmake] at h
      cases h
      exact .made hroot hmake
  cases parent with
  | none => exact hmade rfl
  | some p =>
    rcases hroot : (makeDirectories p).run host.files with ⟨failure | ⟨⟩, root⟩
    · have hwork : (Host.withFiles (makeDirectories p)).run host =
          (.error (Host.failureOf failure), { host with files := root }) := by
        rw [run_withFiles, hroot]
        rfl
      unfold acquire at h
      dsimp only at h
      rw [run_bind_of_error hwork] at h
      cases h
      exact .rootless rfl hroot
    · exact hmade hroot

/-- A staging directory that was made stands in the staging root, which was made before. -/
theorem run_acquire_ok {label : String} {parent : Option Path} {directory : Path} {host host' : Host}
    (h : (acquire label parent).run host = (.ok directory, host')) :
    ∃ root fs, RootMade parent host.files root ∧
      (makeDirectoryAt (nextText label parent host root)).run root = (.ok (), fs) ∧
      directory = .ofString (nextText label parent host root) ∧
      host' = { host with files := fs, staged := host.staged + 1 } := by
  cases acquires_of_run h with
  | made hroot hmake => exact ⟨_, _, hroot, hmake, rfl, rfl⟩

/-- A staging directory has a written path. -/
theorem written_of_acquire {label : String} {parent : Option Path} {directory : Path}
    {host host' : Host} (h : (acquire label parent).run host = (.ok directory, host')) :
    directory.Written := by
  obtain ⟨root, fs, -, -, rfl, -⟩ := run_acquire_ok h
  exact Path.written_ofString _

/-- A staging directory is removed as far as it can be, whatever stands in the way. -/
theorem run_release (path : Path) (host : Host) :
    (release path).run host =
      (.ok (), { host with files := ((removeTree path).run host.files).2 }) := by
  have hquietly : (removeTreeQuietly path).run host.files =
      (.ok (), ((removeTree path).run host.files).2) := by
    rw [removeTreeQuietly, run_tryCatch]
    rcases (removeTree path).run host.files with ⟨failure | ⟨⟩, files⟩ <;> rfl
  rw [release, run_withFiles, hquietly]
  rfl

/-- Work in a staging directory comes to what the work comes to, and the directory is removed then. -/
theorem run_within_of_acquire {α : Type} {label : String} {parent : Option Path}
    {work : Path → Run α} {s u : Session} {directory : Path} {result : Except Failure α} {host : Host}
    (hacquire : (acquire label parent).run s.host = (.ok directory, host))
    (hwork : (work directory).run { s with host } = (result, u)) :
    (within label parent work).run s =
      (result, { u with host :=
        { u.host with files := ((removeTree directory).run u.host.files).2 } }) := by
  have hfirst : (Run.onHost (acquire label parent)).run s = (.ok directory, { s with host }) :=
    run_onHost_ok_iff.2 ⟨host, hacquire, rfl⟩
  rw [within, run_bind_of_ok hfirst, run_bind, run_attempt]
  dsimp only
  rw [run_bind, run_onHost, hwork, run_release]
  cases result <;> rfl

/-- Work in a staging directory that succeeds had one made for it. -/
theorem run_within_ok {α : Type} {label : String} {parent : Option Path}
    {work : Path → Run α} {s t : Session} {a : α}
    (h : (within label parent work).run s = (.ok a, t)) :
    ∃ directory host u, (acquire label parent).run s.host = (.ok directory, host) ∧
      (work directory).run { s with host } = (.ok a, u) ∧
      t = { u with host := { u.host with files := ((removeTree directory).run u.host.files).2 } } := by
  obtain ⟨directory, v, hacquire, -⟩ := exists_of_run_bind_ok h
  obtain ⟨host, hhost, rfl⟩ := run_onHost_ok_iff.1 hacquire
  rcases hwork : (work directory).run { s with host } with ⟨result, u⟩
  rw [run_within_of_acquire hhost hwork] at h
  cases h
  exact ⟨directory, host, u, hhost, hwork, rfl⟩

end Staging

end ProviderBindings
