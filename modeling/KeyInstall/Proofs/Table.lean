import Mathlib.Data.List.Basic
import Mathlib.Data.List.Induction
import KeyInstall.Table

/-!
# What a setting leaves alone

Two views of a change to an ordered table:

* `Table.Framed changed before after` says that only the keys in `changed` were
  given values: old keys keep their places, the new ones follow in the order of
  `changed`, and every other field is untouched (`Framed.set`, `Framed.trans`).
* `set_comm_of_mem` lets two settings change places when the one that is to come
  later has its place already, which is what makes a second round of the same
  settings wipe out the first.

The last section is about tables that are built field by field: distinct keys
are stored as they come (`ofSettings_eq_self`), and the first key stays first.
Keys that are not distinct stand where they came first, with the value that they
were given last (`ofSettings_eq_lastValues`).
-/

namespace KeyInstall.Table

variable {κ α : Type} [DecidableEq κ]

/-! ## Frames -/

/-- From `before` to `after` only the keys in `changed` were given values. The
keys that were there keep their places, those that were not stand at the end in
the order of `changed`, and the other fields are the same in the same order. -/
structure Framed (changed : List κ) (before after : Table κ α) : Prop where
  order : keys after = keys before ++ changed.filter (· ∉ keys before)
  others : after.filter (·.1 ∉ changed) = before.filter (·.1 ∉ changed)

/-- The keys outside a frame have the values that they had. -/
theorem Framed.get? {changed : List κ} {before after : Table κ α}
    (framed : Framed changed before after) {key : κ} (kept : key ∉ changed) :
    get? key after = get? key before := by
  have same : ∀ table : Table κ α,
      Table.get? key (table.filter (·.1 ∉ changed)) = Table.get? key table := by
    intro table
    have found := get?_filter (fun name => decide (name ∉ changed)) key table
    rwa [if_pos (decide_eq_true kept)] at found
  rw [← same after, framed.others, same before]

/-- One setting changes one key. -/
theorem Framed.set (key : κ) (value : α) (table : Table κ α) :
    Framed [key] table (set key value table) := by
  refine ⟨?_, ?_⟩
  · rw [keys_set]
    by_cases present : key ∈ keys table <;> simp [present]
  · induction table with
    | nil => simp
    | cons field rest ih =>
      obtain ⟨name, old⟩ := field
      by_cases equal : name = key
      · simp [Table.set, equal]
      · simpa [Table.set, equal] using ih

/-- Frames follow one another: the keys of the second one come after those of
the first one. -/
theorem Framed.trans {first second : List κ} {before middle after : Table κ α}
    (apart : ∀ key ∈ second, key ∉ first) (one : Framed first before middle)
    (two : Framed second middle after) : Framed (first ++ second) before after := by
  refine ⟨?_, ?_⟩
  · -- What the first frame added is not asked for by the second one.
    have absent : second.filter (· ∉ keys middle) = second.filter (· ∉ keys before) := by
      apply List.filter_congr
      intro key member
      simp [one.order, apart key member]
    rw [two.order, absent, one.order, List.append_assoc, List.filter_append]
  · have split : ∀ table : Table κ α, table.filter (·.1 ∉ first ++ second) =
        (table.filter (·.1 ∉ second)).filter (·.1 ∉ first) := by
      intro table
      rw [List.filter_filter]
      apply List.filter_congr
      simp
    -- Each frame speaks of one filter, and the other one has to get out of its way.
    have swap : ∀ table : Table κ α, (table.filter (·.1 ∉ second)).filter (·.1 ∉ first) =
        (table.filter (·.1 ∉ first)).filter (·.1 ∉ second) := by
      intro table
      rw [List.filter_filter, List.filter_filter]
      apply List.filter_congr
      intro field _
      exact Bool.and_comm _ _
    rw [split after, two.others, swap middle, one.others, ← swap before, split before]

/-! ## Settings that change places -/

/-- Two settings change places if the key of the first one is there already. -/
theorem set_comm_of_mem {first second : κ} (different : first ≠ second) (one two : α)
    {table : Table κ α} (present : first ∈ keys table) :
    set second two (set first one table) = set first one (set second two table) := by
  induction table with
  | nil => simp [keys] at present
  | cons field rest ih =>
    obtain ⟨name, old⟩ := field
    by_cases here : name = first
    · subst here
      simp [set, different]
    · by_cases there : name = second
      · subst there
        simp [set, here]
      · have later : first ∈ keys rest := by
          simpa [keys, Ne.symm here] using present
        simpa [set, here, there] using ih later

/-- A key that was set is there. -/
theorem mem_keys_set_self (key : κ) (value : α) (table : Table κ α) :
    key ∈ keys (set key value table) := by
  rw [keys_set]
  split <;> simp [*]

/-- Setting a key takes no other one away. -/
theorem mem_keys_set_of_mem {key : κ} {table : Table κ α} (present : key ∈ keys table)
    (other : κ) (value : α) : key ∈ keys (set other value table) := by
  rw [keys_set]
  split <;> simp [present]

/-! ## Tables built field by field -/

theorem mem_of_get? {key : κ} {value : α} {table : Table κ α}
    (found : get? key table = some value) : (key, value) ∈ table := by
  induction table with
  | nil => simp at found
  | cons field rest ih =>
    obtain ⟨name, old⟩ := field
    by_cases equal : name = key
    · simp only [Table.get?, equal, if_true, Option.some.injEq] at found
      rw [equal, found]
      exact List.mem_cons_self
    · simp only [Table.get?, equal, if_false] at found
      exact List.mem_cons_of_mem _ (ih found)

/-- Where no key comes twice, every field is found under its key. -/
theorem get?_of_mem {table : Table κ α} (distinct : (keys table).Nodup) {field : κ × α}
    (member : field ∈ table) : get? field.1 table = some field.2 := by
  induction table with
  | nil => simp at member
  | cons head rest ih =>
    obtain ⟨name, old⟩ := head
    rw [keys, List.map_cons, List.nodup_cons] at distinct
    rcases List.mem_cons.mp member with rfl | later
    · simp [Table.get?]
    · have other : name ≠ field.1 :=
        fun same => distinct.1 (List.mem_map.mpr ⟨field, later, same.symm⟩)
      simp only [Table.get?, other, if_false]
      exact ih distinct.2 later

/-- A field after a setting is the new one or was there. -/
theorem mem_set {key : κ} {value : α} {table : Table κ α} {field : κ × α}
    (member : field ∈ set key value table) : field = (key, value) ∨ field ∈ table := by
  induction table with
  | nil => exact .inl (List.mem_singleton.mp member)
  | cons head rest ih =>
    obtain ⟨name, old⟩ := head
    by_cases equal : name = key
    · simp only [set, equal, if_true, List.mem_cons] at member
      rcases member with rfl | member
      · exact .inl rfl
      · exact .inr (List.mem_cons_of_mem _ member)
    · simp only [set, equal, if_false, List.mem_cons] at member
      rcases member with rfl | member
      · exact .inr List.mem_cons_self
      · exact (ih member).imp_right (List.mem_cons_of_mem _)

/-- A new key goes to the end. -/
theorem set_of_not_mem {key : κ} {table : Table κ α} (absent : key ∉ keys table) (value : α) :
    set key value table = table ++ [(key, value)] := by
  induction table with
  | nil => rfl
  | cons field rest ih =>
    obtain ⟨name, old⟩ := field
    simp only [keys, List.map_cons, List.mem_cons, not_or] at absent
    simp [set, Ne.symm absent.1, ih absent.2]

/-- The first key stays first. -/
theorem head?_keys_set (key : κ) (value : α) (table : Table κ α) :
    (keys (set key value table)).head? = some ((keys table).head?.getD key) := by
  rw [keys_set]
  cases table with
  | nil => simp [keys]
  | cons field rest => split <;> simp [keys]

/-- The settings one after the other, on top of a table. -/
theorem ofSettings_append_singleton (settings : List (κ × α)) (last : κ × α) :
    ofSettings (settings ++ [last]) = set last.1 last.2 (ofSettings settings) := by
  simp [ofSettings]

/-- What a table is built from with distinct keys, it is. -/
theorem ofSettings_eq_self {settings : List (κ × α)} (distinct : (keys settings).Nodup) :
    ofSettings settings = settings := by
  -- Settings are added at the end, so that is where the induction takes them away.
  induction settings using List.reverseRecOn with
  | nil => rfl
  | append_singleton settings last ih =>
    rw [keys, List.map_append, List.nodup_append] at distinct
    have absent : last.1 ∉ keys settings :=
      fun present => distinct.2.2 _ present last.1 (by simp) rfl
    rw [ofSettings_append_singleton, ih distinct.1, set_of_not_mem absent]

/-- Every field comes from a setting. -/
theorem mem_of_mem_ofSettings {settings : List (κ × α)} {field : κ × α}
    (member : field ∈ ofSettings settings) : field ∈ settings := by
  induction settings using List.reverseRecOn with
  | nil => exact member
  | append_singleton settings last ih =>
    rw [ofSettings_append_singleton] at member
    rcases mem_set member with rfl | earlier
    · exact List.mem_append_right _ List.mem_cons_self
    · exact List.mem_append_left _ (ih earlier)

/-- No key comes twice. -/
theorem nodup_keys_ofSettings (settings : List (κ × α)) :
    (keys (ofSettings settings)).Nodup := by
  induction settings using List.reverseRecOn with
  | nil => exact List.nodup_nil
  | append_singleton settings last ih =>
    rw [ofSettings_append_singleton]
    exact nodup_keys_set ih

/-- The first key is that of the first setting. -/
theorem head?_keys_ofSettings (first : κ × α) (settings : List (κ × α)) :
    (keys (ofSettings (first :: settings))).head? = some first.1 := by
  induction settings using List.reverseRecOn with
  | nil => rfl
  | append_singleton settings last ih =>
    rw [← List.cons_append, ofSettings_append_singleton, head?_keys_set, ih]
    rfl

/-! ## Repeated keys -/

/-- Each key where it comes first, with the value that it is given last. -/
def lastValues (settings : List (κ × α)) : Table κ α :=
  (keys settings).eraseDups.filterMap fun key => (get? key settings.reverse).map (key, ·)

theorem keys_ofSettings (settings : List (κ × α)) :
    keys (ofSettings settings) = (keys settings).eraseDups := by
  induction settings using List.reverseRecOn with
  | nil => rfl
  | append_singleton settings last ih =>
    have appended : keys (settings ++ [last]) = keys settings ++ [last.1] := by simp [keys]
    rw [ofSettings_append_singleton, keys_set, ih, appended, List.eraseDups_append]
    by_cases present : last.1 ∈ keys settings <;>
      simp [List.removeAll, List.eraseDups_cons, present]

theorem get?_ofSettings (settings : List (κ × α)) (key : κ) :
    get? key (ofSettings settings) = get? key settings.reverse := by
  induction settings using List.reverseRecOn with
  | nil => rfl
  | append_singleton settings last ih =>
    obtain ⟨name, value⟩ := last
    rw [ofSettings_append_singleton, List.reverse_append, List.reverse_singleton,
      List.singleton_append, get?]
    by_cases same : name = key
    · subst same
      rw [get?_set_self, if_pos rfl]
    · rw [get?_set_of_ne (Ne.symm same), ih, if_neg same]

/-- With distinct keys, a table is what is found under its keys. -/
theorem filterMap_get?_keys {table : Table κ α} (distinct : (keys table).Nodup) :
    (keys table).filterMap (fun key => (get? key table).map (key, ·)) = table := by
  induction table with
  | nil => rfl
  | cons field rest ih =>
    obtain ⟨name, value⟩ := field
    have split : keys ((name, value) :: rest) = name :: keys rest := rfl
    rw [split, List.nodup_cons] at distinct
    have later : ∀ key ∈ keys rest, (get? key ((name, value) :: rest)).map (key, ·) =
        (get? key rest).map (key, ·) := by
      intro key member
      have other : name ≠ key := by
        rintro rfl
        exact distinct.1 member
      rw [get?, if_neg other]
    rw [split, List.filterMap_cons, get?, if_pos rfl, List.filterMap_congr later, ih distinct.2]
    rfl

theorem ofSettings_eq_lastValues (settings : List (κ × α)) :
    ofSettings settings = lastValues settings := by
  have whole := filterMap_get?_keys (nodup_keys_ofSettings settings)
  simp only [get?_ofSettings, keys_ofSettings] at whole
  exact whole.symm

end KeyInstall.Table
