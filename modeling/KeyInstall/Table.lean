/-!
# Ordered tables

Keys with values, in the order in which they came. A key is looked up at its
first place, and setting a key that is present keeps its place, so the order
that a person chose is never disturbed.
-/

namespace KeyInstall

/-- Keys with values, in order. -/
abbrev Table (κ α : Type) := List (κ × α)

namespace Table

variable {κ α : Type} [DecidableEq κ]

/-- The value at the first place of `key`. -/
def get? (key : κ) : Table κ α → Option α
  | [] => none
  | (name, value) :: rest => if name = key then some value else get? key rest

/-- Gives `key` a value: at its first place when it has one, else at the end. -/
def set (key : κ) (value : α) : Table κ α → Table κ α
  | [] => [(key, value)]
  | (name, old) :: rest =>
    if name = key then (name, value) :: rest else (name, old) :: set key value rest

omit [DecidableEq κ] in
/-- The keys in order. -/
def keys (table : Table κ α) : List κ := table.map (·.1)

/-- The table that a sequence of settings leaves: each key stands where it was
set first and has the value that it was given last. -/
def ofSettings (settings : List (κ × α)) : Table κ α :=
  settings.foldl (fun table setting => set setting.1 setting.2 table) []

/-! ## Looking up -/

@[simp]
theorem get?_nil (key : κ) : get? key ([] : Table κ α) = none := rfl

/-- Of the entries that are kept by their keys, each has the value that it had. -/
theorem get?_filter (keep : κ → Bool) (key : κ) (table : Table κ α) :
    get? key (table.filter fun entry => keep entry.1) =
      if keep key then get? key table else none := by
  induction table with
  | nil => simp
  | cons entry rest ih =>
    obtain ⟨name, value⟩ := entry
    by_cases equal : name = key
    · subst equal
      by_cases kept : keep name = true
      · simp [get?, kept]
      · simpa [kept] using ih
    · by_cases kept : keep name = true
      · simpa [get?, equal, kept] using ih
      · simpa [get?, equal, kept] using ih

/-! ## Setting -/

@[simp]
theorem set_nil (key : κ) (value : α) : set key value [] = [(key, value)] := rfl

/-- What was set is found. -/
@[simp]
theorem get?_set_self (key : κ) (value : α) (table : Table κ α) :
    get? key (set key value table) = some value := by
  induction table with
  | nil => simp [get?]
  | cons entry rest ih =>
    obtain ⟨name, old⟩ := entry
    by_cases equal : name = key
    · simp [set, get?, equal]
    · simpa [set, get?, equal] using ih

/-- Other keys keep their values. -/
theorem get?_set_of_ne {key other : κ} (different : other ≠ key) (value : α)
    (table : Table κ α) : get? other (set key value table) = get? other table := by
  induction table with
  | nil => simp [get?, Ne.symm different]
  | cons entry rest ih =>
    obtain ⟨name, old⟩ := entry
    by_cases equal : name = key
    · simp [set, get?, equal, Ne.symm different]
    · by_cases same : name = other
      · simp [set, get?, same, different]
      · simpa only [set, equal, if_false, get?, same] using ih

/-- A key that is present keeps its place, a new one goes to the end. -/
theorem keys_set (key : κ) (value : α) (table : Table κ α) :
    keys (set key value table) =
      if key ∈ keys table then keys table else keys table ++ [key] := by
  induction table with
  | nil => simp [keys]
  | cons entry rest ih =>
    obtain ⟨name, old⟩ := entry
    by_cases equal : name = key
    · simp [set, keys, equal]
    · simp only [keys] at ih
      by_cases present : key ∈ rest.map (·.1) <;>
        simp [set, keys, equal, Ne.symm equal, ih, present]

/-- Of two settings of one key the last one counts. -/
@[simp]
theorem set_set (key : κ) (first second : α) (table : Table κ α) :
    set key second (set key first table) = set key second table := by
  induction table with
  | nil => simp [set]
  | cons entry rest ih =>
    obtain ⟨name, old⟩ := entry
    by_cases equal : name = key
    · simp [set, equal]
    · simpa [set, equal] using ih

/-- Setting the value that is there changes nothing. -/
theorem set_eq_self {key : κ} {value : α} {table : Table κ α}
    (found : get? key table = some value) : set key value table = table := by
  induction table with
  | nil => simp at found
  | cons entry rest ih =>
    obtain ⟨name, old⟩ := entry
    by_cases equal : name = key
    · simp_all [set, get?]
    · simp only [get?, equal, if_false] at found
      simp [set, equal, ih found]

/-- No key comes twice in a table that was made by settings. -/
theorem nodup_keys_set {key : κ} {value : α} {table : Table κ α}
    (nodup : (keys table).Nodup) : (keys (set key value table)).Nodup := by
  rw [keys_set]
  split
  · exact nodup
  · rename_i absent
    rw [List.nodup_append]
    refine ⟨nodup, by simp, ?_⟩
    intro a inside b only
    rw [List.mem_singleton] at only
    intro equal
    exact absent (only ▸ equal ▸ inside)

end Table

end KeyInstall
