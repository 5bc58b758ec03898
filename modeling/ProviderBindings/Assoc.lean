/-!
# Ordered tables

A table is a list of keys with their values in the order in which the keys first came. Setting a key
that is there keeps its place, so a listing shows every key once, by first appearance. What `get?` gives
after a change is told by `get?_set` and `get?_erase`, and the listing of keys by `keys_set`.
-/

namespace ProviderBindings.Assoc

variable {α β : Type} [BEq α]

/-- The value under a key. -/
def get? (key : α) : List (α × β) → Option β
  | [] => none
  | (k, v) :: rest => if k == key then some v else get? key rest

/-- Put a value under a key: in the key's place, or at the end when the key is new. -/
def set (key : α) (value : β) : List (α × β) → List (α × β)
  | [] => [(key, value)]
  | (k, v) :: rest => if k == key then (k, value) :: rest else (k, v) :: set key value rest

/-- The table without a key. -/
def erase (key : α) (table : List (α × β)) : List (α × β) :=
  table.filter fun entry => !(entry.1 == key)

/-- Every entry of `updates` set in the table, in order. -/
def update (table updates : List (α × β)) : List (α × β) :=
  updates.foldl (fun t entry => set entry.1 entry.2 t) table

section Lemmas

variable [LawfulBEq α]

/-- A key that was set has its new value, and every other key the one it had. -/
theorem get?_set (key other : α) (value : β) (table : List (α × β)) :
    get? other (set key value table) = if key == other then some value else get? other table := by
  induction table with
  | nil => rfl
  | cons entry rest ih =>
    obtain ⟨k, v⟩ := entry
    by_cases hk : k = key
    · subst hk
      by_cases ho : k = other <;> simp [set, get?, ho]
    · by_cases ho : k = other
      · subst ho
        have hko : (key == k) = false := by simpa using fun h => hk h.symm
        simp [set, get?, hk, hko]
      · simp [set, get?, hk, ho, ih]

/-- Keeping the entries whose keys satisfy a test keeps the values of those keys and no others. -/
theorem get?_filter (keep : α → Bool) (key : α) (table : List (α × β)) :
    get? key (table.filter fun entry => keep entry.1) = if keep key then get? key table else none := by
  induction table with
  | nil => simp [get?]
  | cons entry rest ih =>
    obtain ⟨k, v⟩ := entry
    by_cases hk : k = key
    · subst hk
      by_cases hp : keep k
      · simp [get?, hp]
      · simpa [get?, hp] using ih
    · by_cases hp : keep k <;> simpa [get?, hp, hk] using ih

/-- An erased key is not there, and every other key has the value it had. -/
theorem get?_erase (key other : α) (table : List (α × β)) :
    get? other (erase key table) = if key == other then none else get? other table := by
  rw [erase, get?_filter (fun k => !(k == key))]
  by_cases h : key = other
  · simp [h]
  · have h' : ¬other = key := fun e => h e.symm
    simp [h, h']

/-- A key has a value exactly when it is listed. -/
theorem isSome_get? (key : α) (table : List (α × β)) :
    (get? key table).isSome ↔ key ∈ table.map (·.1) := by
  induction table with
  | nil => simp [get?]
  | cons entry rest ih =>
    obtain ⟨k, v⟩ := entry
    by_cases hk : k = key
    · simp [get?, hk]
    · have hk' : ¬key = k := fun h => hk h.symm
      simpa [get?, hk, hk'] using ih

/-- When keys are renamed, a new key has the value of the one key that becomes it. -/
theorem get?_map_keys {f : α → α} {key old : α} {table : List (α × β)}
    (h : ∀ k ∈ table.map (·.1), f k = key ↔ k = old) :
    get? key (table.map fun entry => (f entry.1, entry.2)) = get? old table := by
  induction table with
  | nil => rfl
  | cons entry rest ih =>
    obtain ⟨k, v⟩ := entry
    have hk : f k = key ↔ k = old := h k (by simp)
    have hrest := ih fun k' hk' => h k' (List.mem_cons_of_mem _ hk')
    by_cases he : k = old
    · have hfk : f k = key := hk.2 he
      subst he
      simp [get?, hfk]
    · have hfk : ¬f k = key := fun e => he (hk.1 e)
      simpa [get?, he, hfk] using hrest

/-- Setting a key leaves the listing of keys as it is, or puts a new key at its end. -/
theorem keys_set (key : α) (value : β) (table : List (α × β)) :
    (set key value table).map (·.1) =
      if (get? key table).isSome then table.map (·.1) else table.map (·.1) ++ [key] := by
  induction table with
  | nil => rfl
  | cons entry rest ih =>
    obtain ⟨k, v⟩ := entry
    by_cases hk : k = key
    · simp [set, get?, hk]
    · by_cases hr : (get? key rest).isSome <;> simp [set, get?, hk, hr, ih]

/-- A new key comes at the end. -/
theorem set_of_get?_none {key : α} {table : List (α × β)} (h : get? key table = none) (value : β) :
    set key value table = table ++ [(key, value)] := by
  induction table with
  | nil => rfl
  | cons entry rest ih =>
    obtain ⟨k, v⟩ := entry
    by_cases hk : k = key
    · simp [get?, hk] at h
    · have hrest : get? key rest = none := by simpa [get?, hk] using h
      simp [set, hk, ih hrest]

/-- Setting a key to the value it has changes nothing. -/
theorem set_of_get?_some {key : α} {value : β} {table : List (α × β)} (h : get? key table = some value) :
    set key value table = table := by
  induction table with
  | nil => cases h
  | cons entry rest ih =>
    obtain ⟨k, v⟩ := entry
    by_cases hk : k = key
    · have hv : v = value := by simpa [get?, hk] using h
      simp [set, hk, hv]
    · have hrest : get? key rest = some value := by simpa [get?, hk] using h
      simp [set, hk, ih hrest]

/-- The value of a key is listed under it. -/
theorem mem_of_get?_eq_some {key : α} {value : β} {table : List (α × β)}
    (h : get? key table = some value) : (key, value) ∈ table := by
  induction table with
  | nil => cases h
  | cons entry rest ih =>
    obtain ⟨k, v⟩ := entry
    by_cases hk : k = key
    · subst hk
      simp only [get?, BEq.rfl, if_true, Option.some.injEq] at h
      simp [h]
    · simp only [get?, beq_iff_eq, hk, if_false] at h
      exact List.mem_cons_of_mem _ (ih h)

/-- In a table that lists every key once, a key has the value it is listed with. -/
theorem get?_of_mem {key : α} {value : β} {table : List (α × β)} (h : (table.map (·.1)).Nodup)
    (hmem : (key, value) ∈ table) : get? key table = some value := by
  induction table with
  | nil => cases hmem
  | cons entry rest ih =>
    obtain ⟨k, v⟩ := entry
    rw [List.map_cons, List.nodup_cons] at h
    rcases List.mem_cons.1 hmem with he | hrest
    · cases he
      simp [get?]
    · have hne : k ≠ key := fun he => h.1 (he ▸ List.mem_map.2 ⟨_, hrest, rfl⟩)
      simpa [get?, hne] using ih h.2 hrest

/-- An entry of a table after a key was set is the new one, or was there before. -/
theorem mem_set {key : α} {value : β} {table : List (α × β)} {entry : α × β}
    (h : entry ∈ set key value table) : entry = (key, value) ∨ entry ∈ table := by
  induction table with
  | nil => exact .inl (by simpa [set] using h)
  | cons first rest ih =>
    obtain ⟨k, v⟩ := first
    by_cases hk : k = key
    · rw [set, if_pos (by simpa using hk), hk] at h
      rcases List.mem_cons.1 h with rfl | h
      · exact .inl rfl
      · exact .inr (List.mem_cons_of_mem _ h)
    · rw [set, if_neg (by simpa using hk)] at h
      rcases List.mem_cons.1 h with rfl | h
      · exact .inr List.mem_cons_self
      · exact (ih h).imp_right (List.mem_cons_of_mem _)

/-- A table that lists every key once still does after a key is set. -/
theorem nodup_keys_set (key : α) (value : β) {table : List (α × β)}
    (h : (table.map (·.1)).Nodup) : ((set key value table).map (·.1)).Nodup := by
  rw [keys_set]
  split
  · exact h
  · next hnew =>
    rw [isSome_get?] at hnew
    refine List.nodup_append.2 ⟨h, by simp, ?_⟩
    intro a ha b hb
    obtain rfl := List.mem_singleton.1 hb
    exact fun hab => hnew (hab ▸ ha)

end Lemmas

end ProviderBindings.Assoc
