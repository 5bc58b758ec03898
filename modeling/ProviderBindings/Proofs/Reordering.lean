import ProviderBindings.Proofs.Documents
import ProviderBindings.Proofs.Sources

/-!
# The order of names

The files that are emitted are put down one after another, in the order of the names, and so are the versions. The
order does not matter all the same: names that pass the check for collisions have sources, and with them paths and
qualified names, that are different, so that nothing that is put down replaces something (`resolved_perm`,
`Assoc.get?_foldl_set_perm`), and the index of versions is sorted. `emitBindings_perm` says that the same names in
another order give the same files, and that the index, when it is read, has a version for every name: the one that is
asked for, unless a pair is split in it.
-/

namespace ProviderBindings

/-! ## Tables whose keys are all different -/

namespace Assoc

variable {α : Type} {key value : α → String} {entries others : List α} {a : α}

/-- In a table that lists every key once, the value of a key is the one it is listed with. -/
theorem get?_eq_some_iff {table : List (String × String)} (h : (table.map (·.1)).Nodup) {k v : String} :
    get? k table = some v ↔ (k, v) ∈ table :=
  ⟨mem_of_get?_eq_some, get?_of_mem h⟩

/-- Two tables that list every key once and have the same values are the same but for their order. -/
theorem perm_of_get?_eq {table other : List (String × String)} (h : (table.map (·.1)).Nodup)
    (ho : (other.map (·.1)).Nodup) (hget : ∀ k, get? k table = get? k other) : table.Perm other := by
  refine (List.perm_ext_iff_of_nodup h.of_map ho.of_map).2 fun entry => ?_
  rw [← get?_eq_some_iff h, ← get?_eq_some_iff ho, hget]

/-- Of entries with different keys that are set one after another each has its value in the end. -/
theorem get?_foldl_set_of_mem (hnodup : (entries.map key).Nodup) (ha : a ∈ entries)
    (table : List (String × String)) :
    get? (key a) (entries.foldl (fun table a => set (key a) (value a) table) table) = some (value a) := by
  obtain ⟨earlier, later, rfl⟩ := List.append_of_mem ha
  rw [List.map_append, List.map_cons, List.nodup_append, List.nodup_cons] at hnodup
  have hlater : ∀ b ∈ later, key b ≠ key a := fun b hb he => hnodup.2.1.1 (he ▸ List.mem_map_of_mem hb)
  rw [List.foldl_append, List.foldl_cons, get?_foldl_set key value hlater, get?_set, if_pos BEq.rfl]

/-- The order in which entries with different keys are set does not matter. -/
theorem get?_foldl_set_perm (hnodup : (entries.map key).Nodup) (hperm : entries.Perm others)
    (table : List (String × String)) (k : String) :
    get? k (entries.foldl (fun table a => set (key a) (value a) table) table) =
      get? k (others.foldl (fun table a => set (key a) (value a) table) table) := by
  by_cases hk : ∃ a ∈ entries, key a = k
  · obtain ⟨a, ha, rfl⟩ := hk
    rw [get?_foldl_set_of_mem hnodup ha,
      get?_foldl_set_of_mem ((hperm.map key).nodup_iff.1 hnodup) (hperm.mem_iff.1 ha)]
  · have hother : ∀ a ∈ entries, key a ≠ k := fun a ha he => hk ⟨a, ha, he⟩
    rw [get?_foldl_set key value hother, get?_foldl_set key value fun a ha => hother a (hperm.mem_iff.2 ha)]

/-- A table that lists every key once still does after others were set. -/
theorem nodup_keys_foldl_set (entries : List α) {table : List (String × String)} (h : (table.map (·.1)).Nodup) :
    ((entries.foldl (fun table a => set (key a) (value a) table) table).map (·.1)).Nodup := by
  induction entries generalizing table with
  | nil => exact h
  | cons a rest ih => exact ih (nodup_keys_set _ _ h)

end Assoc

/-! ## Names in another order -/

variable {language : Language} {kind : TargetKind} {names others : List String} {cs ds : List Constraint}

/-- The same names in another order resolve to the same constraints in another order. -/
theorem resolved_perm (hperm : names.Perm others) (h : names.map Constraint.resolve = cs.map .ok) :
    ∃ ds, others.map Constraint.resolve = ds.map .ok ∧ cs.Perm ds := by
  induction hperm generalizing cs with
  | nil => exact ⟨cs, h, .refl cs⟩
  | @cons name names others _ ih =>
    cases cs with
    | nil => simp at h
    | cons c cs =>
      obtain ⟨hc, hcs⟩ := List.cons.inj h
      obtain ⟨ds, hds, hsame⟩ := ih hcs
      exact ⟨c :: ds, by rw [List.map_cons, List.map_cons, hc, hds], hsame.cons c⟩
  | swap name other rest =>
    match cs with
    | [] | [_] => simp at h
    | c :: d :: cs =>
      simp only [List.map_cons, List.cons.injEq] at h
      obtain ⟨hc, hd, hcs⟩ := h
      exact ⟨d :: c :: cs, by simp only [List.map_cons, hc, hd, hcs], .swap ..⟩
  | trans _ _ ih ih' =>
    obtain ⟨ds, hds, hsame⟩ := ih h
    obtain ⟨es, hes, hsame'⟩ := ih' hds
    exact ⟨es, hes, hsame.trans hsame'⟩

/-- The same names in another order pass the check for collisions as well. -/
theorem checkCollisions_perm (hperm : names.Perm others) (h : checkCollisions names language kind = .ok ()) :
    checkCollisions others language kind = .ok () := by
  obtain ⟨cs, hcs, hkeys⟩ := checkCollisions_ok_iff.1 h
  obtain ⟨ds, hds, hsame⟩ := resolved_perm hperm hcs
  exact checkCollisions_ok_iff.2 ⟨ds, hds, (hsame.map _).nodup_iff.1 hkeys⟩

/-- The last segment of a qualified name is the name. -/
theorem Constraint.getLast?_split_of_resolve {name : String} {c : Constraint} (h : resolve name = .ok c) :
    (Text.split '/' c.qualifiedName).getLast? = some c.name := by
  obtain ⟨pieces, version, hpieces, -, rfl⟩ := resolve_ok_iff.1 h
  rw [ofPieces, Text.split, String.toList_ofList, Text.splitChars_intercalate hpieces.ne_nil
    fun piece hpiece => hpieces.not_mem (by decide) hpiece, List.getLast?_map]
  simp [List.getLast?_eq_some_getLast hpieces.ne_nil]

/-- Names that resolve to different sources have different qualified names. -/
theorem nodup_qualifiedNames (hcs : names.map Constraint.resolve = cs.map .ok)
    (hsources : (cs.map fun c => c.source kind).Nodup) : (cs.map (·.qualifiedName)).Nodup := by
  have hresolved : ∀ c ∈ cs, ∃ name, Constraint.resolve name = .ok c := by
    intro c hc
    have hok : Except.ok c ∈ names.map Constraint.resolve := hcs ▸ List.mem_map_of_mem hc
    obtain ⟨name, -, hname⟩ := List.mem_map.1 hok
    exact ⟨name, hname⟩
  refine List.Nodup.map_on (fun c hc d hd he => List.inj_on_of_nodup_map hsources hc hd ?_) hsources.of_map
  cases kind with
  | module => exact he
  | provider =>
    -- the source is the last segment of the qualified name
    obtain ⟨_, hc⟩ := hresolved c hc
    obtain ⟨_, hd⟩ := hresolved d hd
    have hlast := Constraint.getLast?_split_of_resolve hc
    rw [he, Constraint.getLast?_split_of_resolve hd] at hlast
    exact (Option.some.inj hlast).symm

/-! ## The index of versions -/

/-- The table of versions of constraints with different qualified names has an entry for each. -/
theorem versionTable_eq (h : (cs.map (·.qualifiedName)).Nodup) :
    versionTable cs = cs.map fun c => (c.qualifiedName, c.versionOrAny) := by
  unfold versionTable
  rw [Assoc.foldl_set (·.qualifiedName) (·.versionOrAny) cs h (by simp), List.nil_append]

/-- A table of versions in the order of its keys, as the index has it. -/
def VersionIndex.sorted (versions : List (String × String)) : List (String × String) :=
  versions.mergeSort fun a b => decide (a.1 ≤ b.1)

namespace VersionIndex

variable {versions : List (String × String)}

/-- The entries of an index are those of its table. -/
theorem sorted_perm (versions : List (String × String)) : (sorted versions).Perm versions :=
  List.mergeSort_perm ..

/-- Different keys come in ascending order. -/
theorem pairwise_sorted (h : (versions.map (·.1)).Nodup) : ((sorted versions).map (·.1)).Pairwise (· < ·) := by
  have hle : (sorted versions).Pairwise fun a b => decide (a.1 ≤ b.1) = true := by
    refine List.pairwise_mergeSort (fun a b c hab hbc => ?_) (fun a b => ?_) versions
    · simp only [decide_eq_true_eq] at hab hbc ⊢
      exact String.le_trans hab hbc
    · simpa using String.le_total a.1 b.1
  have hne : ((sorted versions).map (·.1)).Nodup := (((sorted_perm versions).map (·.1)).nodup_iff).2 h
  rw [List.pairwise_map]
  refine hle.imp₂ (fun a b hab hne => ?_) (List.pairwise_map.1 hne)
  by_contra hlt
  exact hne (String.le_antisymm (by simpa using hab) (String.not_lt.1 hlt))

/-- The order in which a table lists its different keys does not matter to the index. -/
theorem text_perm {others : List (String × String)} (h : (versions.map (·.1)).Nodup)
    (hperm : versions.Perm others) : text versions = text others := by
  have hsame : sorted versions = sorted others := by
    have hboth := (sorted_perm versions).trans (hperm.trans (sorted_perm others).symm)
    have hsorted := List.pairwise_map.1 (pairwise_sorted h)
    have hothers := List.pairwise_map.1 (pairwise_sorted ((hperm.map (·.1)).nodup_iff.1 h))
    -- two lists with the same entries are one when both ascend
    refine hboth.eq_of_pairwise (fun a b _ _ hab hba => ?_) hsorted hothers
    exact absurd hba (String.lt_asymm hab)
  show (Json.obj ((sorted versions).map _)).render ++ "\n" = (Json.obj ((sorted others).map _)).render ++ "\n"
  rw [hsame]

/-- An index is read as the sorted table. -/
theorem read_text (versions : List (String × String)) :
    Json.read (text versions) =
      some (.obj ((sorted versions).map fun entry => (Text.joined entry.1, .str (Text.joined entry.2)))) := by
  have hmembers (entries : List (String × String)) :
      Json.joinedMembers (entries.map fun entry => (entry.1, Json.str entry.2)) =
        entries.map fun entry => (Text.joined entry.1, .str (Text.joined entry.2)) := by
    induction entries with
    | nil => rfl
    | cons entry rest ih => rw [List.map_cons, List.map_cons, Json.joinedMembers, Json.joined, ih]
  show Json.read (Json.render (.obj ((sorted versions).map fun entry => (entry.1, .str entry.2))) ++ "\n") = _
  rw [Json.read_render _ (List.all_eq_true.1 rfl), Json.joined, hmembers]

/-- Whether a text is an index of the versions of constraints, with these members when it is read. -/
structure IsIndexOf (index : String) (cs : List Constraint) (members : List (String × Json)) : Prop where
  /-- The text is a document, which is an object with these members. -/
  read : Json.read index = some (.obj members)
  /-- The members stand in the order of their names, which are all different. -/
  ascending : (members.map (·.1)).Pairwise (· < ·)
  /-- There is one member for each constraint, by its qualified name. It has the version that is asked for, as the
  units of this version are read. -/
  spelled : members.Perm (cs.map fun c => (c.qualifiedName, .str (Text.joined c.versionOrAny)))

/-- The members of an index are the versions of the constraints exactly when no pair is split in any of them. -/
theorem IsIndexOf.perm_iff {index : String} {cs : List Constraint} {members : List (String × Json)}
    (h : IsIndexOf index cs members) (hnodup : (cs.map (·.qualifiedName)).Nodup) :
    members.Perm (cs.map fun c => (c.qualifiedName, .str c.versionOrAny)) ↔
      ∀ c ∈ cs, Text.Unsplit c.versionOrAny.toList := by
  constructor
  · intro hperm c hc
    have hmem : (c.qualifiedName, Json.str c.versionOrAny) ∈
        cs.map fun c => (c.qualifiedName, Json.str (Text.joined c.versionOrAny)) :=
      h.spelled.mem_iff.1 (hperm.mem_iff.2 (List.mem_map_of_mem hc))
    obtain ⟨d, hd, he⟩ := List.mem_map.1 hmem
    obtain ⟨hname, hversion⟩ := Prod.ext_iff.1 he
    obtain rfl : d = c := List.inj_on_of_nodup_map hnodup hd hc hname
    exact Text.joined_eq_iff.1 (Json.str.inj hversion)
  · exact fun hunsplit => h.spelled.trans
      (.of_eq (List.map_congr_left fun c hc => by rw [Text.joined_eq_iff.2 (hunsplit c hc)]))

end VersionIndex

/-- The index for constraints that names resolve to tells of each. -/
theorem exists_isIndexOf (hcs : names.map Constraint.resolve = cs.map .ok)
    (hnodup : (cs.map (·.qualifiedName)).Nodup) :
    ∃ members, VersionIndex.IsIndexOf (VersionIndex.text (versionTable cs)) cs members := by
  -- no halves can stand in a qualified name, but they can in a version
  have hname : ∀ c ∈ cs, Text.joined c.qualifiedName = c.qualifiedName := fun c hc =>
    Text.joined_eq_iff.2 (Text.unsplit_of_faultless (Constraint.segmented_of_mem hcs hc .module).faultless)
  have htable := versionTable_eq hnodup
  have hkeys : ((versionTable cs).map (·.1)).Nodup := by
    rwa [htable, List.map_map]
  have hsorted := VersionIndex.sorted_perm (versionTable cs)
  have hjoined : ∀ entry ∈ VersionIndex.sorted (versionTable cs), Text.joined entry.1 = entry.1 := by
    intro entry hentry
    rw [hsorted.mem_iff, htable] at hentry
    obtain ⟨c, hc, rfl⟩ := List.mem_map.1 hentry
    exact hname c hc
  have hspelled : ((VersionIndex.sorted (versionTable cs)).map fun entry =>
      (Text.joined entry.1, Json.str (Text.joined entry.2))).Perm
        (cs.map fun c => (c.qualifiedName, .str (Text.joined c.versionOrAny))) := by
    refine (hsorted.map _).trans (.of_eq ?_)
    rw [htable, List.map_map]
    exact List.map_congr_left fun c hc => by rw [Function.comp_apply, hname c hc]
  refine ⟨_, VersionIndex.read_text _, ?_, hspelled⟩
  have hsame : (VersionIndex.sorted (versionTable cs)).map (fun entry => Text.joined entry.1) =
      (VersionIndex.sorted (versionTable cs)).map (·.1) := List.map_congr_left hjoined
  have hascending := VersionIndex.pairwise_sorted hkeys
  rw [← hsame] at hascending
  rwa [List.map_map]

/-! ## What is emitted in another order -/

/-- **The order of names does not matter.** Names that pass the check for collisions pass it in every order. What is
emitted for them are the same files with the same texts, whatever the layout is and whatever was in the emitter before,
and one of the files is the index, with the same text. When the index is read, it is an object with exactly one member
for each name, in the order of the qualified names, so none is lost. The members have the versions that the names ask
for, exactly when no pair is split in any of these. -/
theorem emitBindings_perm (layout : Layout) (hperm : names.Perm others)
    (hcheck : checkCollisions names language kind = .ok ()) {e : Emitter} (he : e.current = none)
    (hfiles : (e.files.map (·.1)).Nodup) :
    checkCollisions others language kind = .ok () ∧
      ∃ cs code code' index members, names.map Constraint.resolve = cs.map .ok ∧
        (emitBindings layout names kind).run e = (.ok (), code) ∧
        (emitBindings layout others kind).run e = (.ok (), code') ∧
        (code.files.map (·.1)).Nodup ∧ code.files.Perm code'.files ∧
        (VersionIndex.fileName, index) ∈ code.files ∧ (VersionIndex.fileName, index) ∈ code'.files ∧
        VersionIndex.IsIndexOf index cs members ∧ members.length = names.length ∧
        (members.Perm (cs.map fun c => (c.qualifiedName, .str c.versionOrAny)) ↔
          ∀ c ∈ cs, Text.Unsplit c.versionOrAny.toList) := by
  obtain ⟨cs, hcs, hkeys⟩ := checkCollisions_ok_iff.1 hcheck
  obtain ⟨ds, hds, hsame⟩ := resolved_perm hperm hcs
  have hsources := nodup_sources hkeys
  have hqualified := nodup_qualifiedNames hcs hsources
  obtain ⟨members, hindex⟩ := exists_isIndexOf hcs hqualified
  obtain ⟨code, hrun, hcode⟩ : ∃ code, (emitBindings layout names kind).run e = (.ok (), code) ∧ _ :=
    run_emitBindings_files layout hcs he
  obtain ⟨code', hrun', hcode'⟩ : ∃ code', (emitBindings layout others kind).run e = (.ok (), code') ∧ _ :=
    run_emitBindings_files layout hds he
  have htext : VersionIndex.text (versionTable cs) = VersionIndex.text (versionTable ds) := by
    rw [versionTable_eq hqualified, versionTable_eq ((hsame.map _).nodup_iff.1 hqualified)]
    refine VersionIndex.text_perm ?_ (hsame.map _)
    rwa [List.map_map]
  have hpaths := nodup_filePaths layout hsources
  have hnodup : (code.files.map (·.1)).Nodup := by
    rw [hcode]
    exact Assoc.nodup_keys_set _ _ (Assoc.nodup_keys_foldl_set cs hfiles)
  have hnodup' : (code'.files.map (·.1)).Nodup := by
    rw [hcode']
    exact Assoc.nodup_keys_set _ _ (Assoc.nodup_keys_foldl_set ds hfiles)
  -- no file is put in the place of another, and the index is put down last
  have hget : ∀ k, Assoc.get? k code.files = Assoc.get? k code'.files := by
    intro k
    rw [hcode, hcode', htext, Assoc.get?_set, Assoc.get?_set, Assoc.get?_foldl_set_perm hpaths hsame]
  have hthere : Assoc.get? VersionIndex.fileName code.files = some (VersionIndex.text (versionTable cs)) := by
    rw [hcode, Assoc.get?_set, if_pos BEq.rfl]
  have hlength : members.length = names.length := by
    have hcount := congrArg List.length hcs
    rw [List.length_map, List.length_map] at hcount
    rw [hindex.spelled.length_eq, List.length_map, hcount]
  refine ⟨checkCollisions_perm hperm hcheck, cs, code, code', _, members, hcs, hrun, hrun', hnodup,
    Assoc.perm_of_get?_eq hnodup hnodup' hget, (Assoc.get?_eq_some_iff hnodup).1 hthere,
    (Assoc.get?_eq_some_iff hnodup').1 (hget _ ▸ hthere), hindex, hlength, hindex.perm_iff hqualified⟩

/-- Three modules in another order give the same files, and the index has their versions. -/
theorem emitBindings_perm_three :
    let names := ["org/mod@~> 1.0", "aws", "a/mod"]
    let others := ["aws", "a/mod", "org/mod@~> 1.0"]
    checkCollisions others .python .module = .ok () ∧
      ∃ code code' index members,
        (emitBindings (.ofKind .module) names .module).run {} = (.ok (), code) ∧
        (emitBindings (.ofKind .module) others .module).run {} = (.ok (), code') ∧
        (code.files.map (·.1)).Nodup ∧ code.files.Perm code'.files ∧
        (VersionIndex.fileName, index) ∈ code.files ∧ (VersionIndex.fileName, index) ∈ code'.files ∧
        Json.read index = some (.obj members) ∧ (members.map (·.1)).Pairwise (· < ·) ∧
        members.Perm [("org/mod", .str "~> 1.0"), ("aws", .str "*"), ("a/mod", .str "*")] := by
  intro names others
  have hresolved : names.map Constraint.resolve =
      [⟨"org/mod@~> 1.0", "org/mod", "mod", some "org", some "~> 1.0"⟩, ⟨"aws", "aws", "aws", none, none⟩,
        ⟨"a/mod", "a/mod", "mod", some "a", none⟩].map .ok := by rfl
  obtain ⟨hcheck, cs, code, code', index, members, hcs, hrun, hrun', hnodup, hperm, hthere, hthere', hindex, -, hiff⟩ :=
    emitBindings_perm (.ofKind .module) (by decide : names.Perm others)
      (isOk_iff.1 (by decide +kernel) : checkCollisions names .python .module = .ok ()) (e := {}) rfl List.nodup_nil
  obtain rfl := List.map_injective_iff.2 (fun _ _ => Except.ok.inj) (hcs.symm.trans hresolved)
  exact ⟨hcheck, code, code', index, members, hrun, hrun', hnodup, hperm, hthere, hthere', hindex.read,
    hindex.ascending, hiff.2 (by decide)⟩

/-- Not every index is read as the versions that were asked for: where a pair is split in one of them, its halves are
read as one character. -/
theorem not_perm_members_always :
    ¬∀ (layout : Layout) (language : Language) (kind : TargetKind) (names : List String) (cs : List Constraint)
        (code : Emitter) (index : String), checkCollisions names language kind = .ok () →
      names.map Constraint.resolve = cs.map .ok → (emitBindings layout names kind).run {} = (.ok (), code) →
      (VersionIndex.fileName, index) ∈ code.files →
        ∃ members, Json.read index = some (.obj members) ∧
          members.Perm (cs.map fun c => (c.qualifiedName, .str c.versionOrAny)) := by
  intro hclaim
  have hcs : [splitName].map Constraint.resolve = [splitConstraint].map .ok := congrArg ([·]) resolve_splitName
  have hnodup : ([splitConstraint].map (·.qualifiedName)).Nodup := List.nodup_singleton _
  obtain ⟨code, hrun, hfiles⟩ :
      ∃ code, (emitBindings (.ofKind .provider) [splitName] .provider).run {} = (.ok (), code) ∧ _ :=
    run_emitBindings_files (.ofKind .provider) hcs rfl
  have hindex : Assoc.get? VersionIndex.fileName code.files =
      some (VersionIndex.text (versionTable [splitConstraint])) := by
    rw [hfiles, Assoc.get?_set, if_pos BEq.rfl]
  obtain ⟨members, hread, hperm⟩ := hclaim (.ofKind .provider) .typescript .provider [splitName] _ code _
    (isOk_iff.1 (by decide +kernel)) hcs hrun (Assoc.mem_of_get?_eq_some hindex)
  obtain ⟨members', hmembers⟩ := exists_isIndexOf hcs hnodup
  obtain rfl : members = members' := Json.obj.inj (Option.some.inj (hread.symm.trans hmembers.read))
  exact absurd ((hmembers.perm_iff hnodup).1 hperm _ (List.mem_singleton_self _)) (by decide)

end ProviderBindings
