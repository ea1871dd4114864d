import KeyInstall.Proofs.Path

/-!
# What a backup path means

A backup path is made from a text, and its meaning follows from the meaning of
that text alone (`backup_lexical`): the last component gets the suffix if it is a
name, and otherwise the suffix is one more name below the path. So two backup
paths are the same exactly if the two paths are, and none is the same as its
path.

The pieces are what the two sides have in common: `backupTrail` tells those of
the backup, and `meaning_append` which components come from them.
-/

namespace KeyInstall.Path

/-! ## Components of pieces -/

/-- The components of a path with the given pieces. -/
def meaning : List (List Char) → List Component
  | [] => []
  | first :: others => (firstComponent? first others).toList ++ others.filterMap laterComponent?

theorem components_eq (path : Path) : path.components = meaning path.trail := rfl

theorem filterMap_of_isIdle {pieces : List (List Char)}
    (idle : ∀ piece ∈ pieces, isIdle piece = true) : pieces.filterMap laterComponent? = [] := by
  rw [List.filterMap_eq_nil_iff]
  intro piece member
  exact if_pos (idle piece member)

theorem laterComponent?_of_isName {piece : List Char} (named : isName piece = true) :
    laterComponent? piece = some (.normal (String.ofList piece)) := by
  obtain ⟨-, -, up⟩ := isName_iff.mp named
  rw [laterComponent?, isIdle_of_isName named, if_neg Bool.false_ne_true, if_neg up]

/-- A name is the same component in front as it is later. -/
theorem firstComponent?_of_isName {piece : List Char} (named : isName piece = true)
    (others : List (List Char)) :
    firstComponent? piece others = some (.normal (String.ofList piece)) := by
  obtain ⟨nonempty, here, -⟩ := isName_iff.mp named
  rw [firstComponent?, if_neg nonempty, if_neg here, laterComponent?_of_isName named]

/-- Pieces after the first ones add their own components. Of the first piece only
whether something follows it counts. -/
theorem meaning_append {first : List Char} {front later : List (List Char)}
    (nonempty : front ++ later ≠ []) :
    meaning (first :: (front ++ later)) =
      (firstComponent? first [[]]).toList ++ front.filterMap laterComponent? ++
        later.filterMap laterComponent? := by
  have same : firstComponent? first (front ++ later) = firstComponent? first [[]] := by
    simp only [firstComponent?, nonempty, List.cons_ne_nil]
  rw [meaning, same, List.filterMap_append, List.append_assoc]

/-- Only a piece that is a name becomes a name, the one that it is. -/
theorem isName_of_laterComponent? {piece : List Char} {name : String}
    (found : laterComponent? piece = some (.normal name)) :
    isName piece = true ∧ name.toList = piece := by
  rw [laterComponent?] at found
  split at found
  · cases found
  · rename_i moves
    split at found
    · cases found
    · rename_i down
      cases found
      simpa [isName, down] using moves

theorem isName_of_firstComponent? {piece : List Char} {others : List (List Char)} {name : String}
    (found : firstComponent? piece others = some (.normal name)) :
    isName piece = true ∧ name.toList = piece := by
  rw [firstComponent?] at found
  split at found
  · split at found <;> cases found
  · split at found
    · cases found
    · exact isName_of_laterComponent? found

theorem isName_of_mem_components {path : Path} {name : String}
    (member : .normal name ∈ path.components) : isName name.toList = true := by
  rw [components, List.mem_append, Option.mem_toList, List.mem_filterMap] at member
  rcases member with first | ⟨piece, -, found⟩
  · obtain ⟨named, same⟩ := isName_of_firstComponent? first
    rwa [same]
  · obtain ⟨named, same⟩ := isName_of_laterComponent? found
    rwa [same]

/-! ## A name below a path -/

/-- A name below a path is one more component. -/
theorem components_join (path : Path) {name : String} (named : isName name.toList = true)
    (plain : '/' ∉ name.toList) :
    (path.join name).components = path.components ++ [.normal name] := by
  have added : [name.toList].filterMap laterComponent? = [.normal name] := by
    simp [laterComponent?_of_isName named]
  by_cases empty : path.text.toList = []
  · -- Below the empty path, the name stands alone.
    have alone : (path.join name).trail = [name.toList] := by
      rw [join, empty]
      exact allPieces_of_plain plain
    have nothing : path.components = [] := by
      rw [components, empty]
      rfl
    rw [components_eq, alone, nothing, meaning, firstComponent?_of_isName named]
    simp
  · obtain ⟨front, tail, nonempty, order, idle, joined⟩ := trail_join empty plain
    cases front with
    | nil => exact absurd rfl nonempty
    | cons first front =>
      rw [components_eq, components_eq, joined, order, List.cons_append, List.cons_append,
        meaning_append (by simp), added]
      by_cases single : front ++ tail = []
      · -- A single piece is the whole text, so it is not empty and nothing has to follow it.
        have whole := text_of_trail (order.trans (congrArg (first :: ·) single))
        rw [joinPieces, List.flatMap_nil, List.append_nil] at whole
        have named : first ≠ [] := whole ▸ empty
        rw [(List.append_eq_nil_iff.mp single).1, (List.append_eq_nil_iff.mp single).2]
        simp [meaning, firstComponent?, named]
      · rw [meaning_append single, filterMap_of_isIdle idle, List.append_nil]

/-! ## The components of a backup -/

/-- Components with a suffix: after the last one if it is a name, and else as a
name of its own. -/
def withSuffix (suffix : String) (components : List Component) : List Component :=
  match components.getLast? with
  | some (.normal name) => components.dropLast ++ [.normal (name ++ suffix)]
  | _ => components ++ [.normal suffix]

theorem withSuffix_concat_normal (suffix : String) (outer : List Component) (name : String) :
    withSuffix suffix (outer ++ [.normal name]) = outer ++ [.normal (name ++ suffix)] := by
  simp [withSuffix]

theorem withSuffix_of_nameless {components : List Component}
    (nameless : ∀ name, components.getLast? ≠ some (.normal name)) (suffix : String) :
    withSuffix suffix components = components ++ [.normal suffix] := by
  rw [withSuffix]
  split
  · rename_i name last
    exact absurd last (nameless name)
  · rfl

/-- A name that only idle pieces surround is the last component, with the suffix
after it as without. -/
theorem meaning_of_named {front idle tail : List (List Char)} {name : List Char}
    (alone : front = [] → idle = []) (idleBefore : ∀ piece ∈ idle, isIdle piece = true)
    (named : isName name = true) (idleAfter : ∀ piece ∈ tail, isIdle piece = true) :
    meaning (front ++ [name ++ backupSuffix.toList]) =
      withSuffix backupSuffix (meaning (front ++ (idle ++ name :: tail))) := by
  have suffixed := isName_append_suffix name
  have text : String.ofList (name ++ backupSuffix.toList) =
      String.ofList name ++ backupSuffix := by simp
  cases front with
  | nil =>
    rw [alone rfl, List.nil_append, List.nil_append, List.nil_append, meaning, meaning,
      firstComponent?_of_isName named, firstComponent?_of_isName suffixed,
      filterMap_of_isIdle idleAfter, text]
    exact (withSuffix_concat_normal backupSuffix [] _).symm
  | cons first front =>
    have before : (idle ++ name :: tail).filterMap laterComponent? =
        [.normal (String.ofList name)] := by
      rw [List.filterMap_append, filterMap_of_isIdle idleBefore,
        List.filterMap_cons_some (laterComponent?_of_isName named), filterMap_of_isIdle idleAfter]
      rfl
    have after : [name ++ backupSuffix.toList].filterMap laterComponent? =
        [.normal (String.ofList name ++ backupSuffix)] := by
      rw [List.filterMap_cons_some (laterComponent?_of_isName suffixed), text]
      rfl
    rw [List.cons_append, List.cons_append, meaning_append (by simp), meaning_append (by simp),
      before, after, withSuffix_concat_normal]

/-- Pieces that end with one that is no name have no name for their last component. -/
theorem getLast?_meaning_ne {front tail : List (List Char)} {last : List Char}
    (nameless : isName last = false) (onlyIdle : isIdle last = true → front = [])
    (idleAfter : ∀ piece ∈ tail, isIdle piece = true) (name : String) :
    (meaning (front ++ last :: tail)).getLast? ≠ some (.normal name) := by
  cases front with
  | nil =>
    rw [List.nil_append, meaning, filterMap_of_isIdle idleAfter, List.append_nil]
    cases found : firstComponent? last tail with
    | none => simp
    | some component =>
      simp only [Option.toList_some, List.getLast?_singleton, ne_eq, Option.some.injEq]
      rintro rfl
      simp [(isName_of_firstComponent? found).1] at nameless
  | cons first front =>
    -- A later piece that is neither idle nor a name leads up.
    have moves : isIdle last = false :=
      eq_false_of_ne_true fun idle => absurd (onlyIdle idle) (List.cons_ne_nil _ _)
    have up : last = ['.', '.'] := by simpa [isName, moves] using nameless
    have found : laterComponent? last = some .parent := by
      rw [up]
      rfl
    rw [List.cons_append, meaning_append (by simp), List.filterMap_cons_some found,
      filterMap_of_isIdle idleAfter, List.getLast?_concat]
    simp

/-- The components of a backup are those of its path with the suffix. -/
theorem components_backup (path : Path) :
    path.backup.components = withSuffix backupSuffix path.components := by
  have plainSuffix : '/' ∉ backupSuffix.toList := by decide
  cases backupTrail path with
  | named front idle tail name order alone idleBefore named idleAfter backup =>
    rw [components_eq, components_eq, order, backup]
    exact meaning_of_named alone idleBefore named idleAfter
  | nameless front tail last order nameless onlyIdle idleAfter backup =>
    have ends : ∀ name, path.components.getLast? ≠ some (.normal name) := by
      intro name
      rw [components_eq, order]
      exact getLast?_meaning_ne nameless onlyIdle idleAfter name
    rw [backup, components_join path (isName_append_suffix []) plainSuffix,
      withSuffix_of_nameless ends]

/-! ## Paths that are the same -/

/-- Components end with a name or they do not. -/
theorem exists_name_or_nameless (components : List Component) :
    (∃ outer name, components = outer ++ [.normal name]) ∨
      ∀ name, components.getLast? ≠ some (.normal name) := by
  by_cases named : ∃ name, components.getLast? = some (.normal name)
  · obtain ⟨name, last⟩ := named
    obtain ⟨outer, rfl⟩ := List.getLast?_eq_some_iff.mp last
    exact .inl ⟨outer, name, rfl⟩
  · exact .inr fun name last => named ⟨name, last⟩

/-- No components become themselves with a suffix. -/
theorem withSuffix_ne_self {suffix : String} (filled : suffix ≠ "") (components : List Component) :
    withSuffix suffix components ≠ components := by
  rcases exists_name_or_nameless components with ⟨outer, name, rfl⟩ | nameless
  · rw [withSuffix_concat_normal]
    intro same
    have last := (List.append_singleton_inj.mp same).2
    simp [filled] at last
  · rw [withSuffix_of_nameless nameless]
    simp

/-- Components with a suffix tell what they were without it, for a name that is
nothing but the suffix was none before. -/
theorem withSuffix_injective {suffix : String} {one two : List Component}
    (namedOne : ∀ name, .normal name ∈ one → name ≠ "")
    (namedTwo : ∀ name, .normal name ∈ two → name ≠ "")
    (same : withSuffix suffix one = withSuffix suffix two) : one = two := by
  rcases exists_name_or_nameless one with ⟨outer, name, rfl⟩ | nameless <;>
    rcases exists_name_or_nameless two with ⟨outer', name', rfl⟩ | nameless'
  · rw [withSuffix_concat_normal, withSuffix_concat_normal] at same
    obtain ⟨rfl, last⟩ := List.append_singleton_inj.mp same
    simp only [Component.normal.injEq, String.append_left_inj] at last
    rw [last]
  · rw [withSuffix_concat_normal, withSuffix_of_nameless nameless'] at same
    have last := (List.append_singleton_inj.mp same).2
    simp [namedOne name] at last
  · rw [withSuffix_concat_normal, withSuffix_of_nameless nameless] at same
    have last := (List.append_singleton_inj.mp same).2.symm
    simp [namedTwo name'] at last
  · rw [withSuffix_of_nameless nameless, withSuffix_of_nameless nameless'] at same
    exact (List.append_singleton_inj.mp same).1

theorem ne_empty_of_mem_components {path : Path} {name : String}
    (member : .normal name ∈ path.components) : name ≠ "" := by
  rintro rfl
  exact absurd (isName_of_mem_components member) (by decide)

/-- Backups are to be found among paths as their components say: with the suffix
on the last name, or below a path that has none. They are the same as paths
exactly if the paths are, and never the same as their own path. -/
theorem backup_lexical :
    (∀ path : Path, path.backup.components = withSuffix ".bak" path.components) ∧
      (∀ path other : Path, path.backup.components = other.backup.components ↔
        path.components = other.components) ∧
      ∀ path : Path, path.backup.components ≠ path.components := by
  refine ⟨components_backup, ?_, ?_⟩
  · intro path other
    rw [components_backup, components_backup]
    constructor
    · intro same
      exact withSuffix_injective (fun _ => ne_empty_of_mem_components)
        (fun _ => ne_empty_of_mem_components) same
    · intro same
      rw [same]
  · intro path
    rw [components_backup]
    exact withSuffix_ne_self (by decide) _

/-- What follows a name is dropped, and a path that leads up gets a name below it. -/
example : (backup ⟨"./a//./"⟩).components = [.current, .normal "a.bak"] ∧
    (backup ⟨"/a/.."⟩).components = [.root, .normal "a", .parent, .normal ".bak"] := by decide

end KeyInstall.Path
