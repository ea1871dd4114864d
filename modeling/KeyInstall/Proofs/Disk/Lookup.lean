import KeyInstall.Disk
import KeyInstall.Json.Fault
import KeyInstall.Proofs.Path
import KeyInstall.Proofs.Table

/-!
# Looking up after writing

Where a path leads depends on the directories of a disk only
(`SameDirectories.locate_eq_ok_iff`), and a write changes none of them
(`sameDirectories_write`). So a file that can be read can be written after any
other write (`exists_write_after_write`): the one that is written first cannot
stand in the way of the one that is written second.
-/

namespace KeyInstall.Disk

open Json (bind_eq_ok_iff)

/-! ## Entries -/

/-- Entries make a disk if each of them lies in a directory. -/
theorem inside_of_nodes {nodes : Table Location Node}
    (each : nodes.all (fun entry => nodeAt nodes entry.1.dropLast == some .directory) = true)
    (location : Location) (node : Node) (here : nodeAt nodes location = some node) :
    nodeAt nodes location.dropLast = some .directory := by
  by_cases root : location = []
  · rw [root]
    rfl
  · rw [nodeAt, if_neg root] at here
    exact beq_iff_eq.mp (List.all_eq_true.mp each _ (Table.mem_of_get? here))

/-! ## Steps and walks -/

theorem step_of_directory {disk : Disk} {here : Location}
    (inside : disk.node? here = some .directory) (piece : List Char) :
    disk.step here piece = follow here piece := by
  simp only [step, inside]

theorem step_eq_ok_iff {disk : Disk} {here next : Location} {piece : List Char} :
    disk.step here piece = .ok next ↔
      disk.node? here = some .directory ∧ follow here piece = .ok next := by
  unfold step
  cases found : disk.node? here with
  | none => simp
  | some node =>
    cases node with
    | file content => simp
    | directory => simp

/-- A path that the operating system looks up at all. -/
structure Followable (path : Path) : Prop where
  nonempty : path.text.toList ≠ []
  noNul : '\x00' ∉ path.text.toList
  short : Text.byteSize path.text.toList ≤ pathLimit

theorem locate_eq_ok_iff {disk : Disk} {path : Path} {location : Location} :
    disk.locate path = .ok location ↔
      Followable path ∧ disk.walk path.trail = .ok location := by
  simp only [locate]
  split
  · rename_i unusable
    refine ⟨fun located => by simp at located, ?_⟩
    rintro ⟨followable, -⟩
    exact (unusable.elim followable.nonempty followable.noNul).elim
  · rename_i usable
    split
    · rename_i long
      refine ⟨fun located => by simp at located, ?_⟩
      rintro ⟨followable, -⟩
      exact absurd followable.short (Nat.not_le.mpr long)
    · rename_i short
      rw [not_or] at usable
      exact ⟨fun located => ⟨⟨usable.1, usable.2, Nat.not_lt.mp short⟩, located⟩, And.right⟩

theorem find?_eq_some_iff {disk : Disk} {path : Path} {node : Node} :
    disk.find? path = some node ↔
      ∃ location, disk.locate path = .ok location ∧ disk.node? location = some node := by
  unfold find?
  cases disk.locate path <;> simp

/-! ## Room for files -/

/-- A step leads to a directory, or to a place in one. -/
theorem inside_of_step {disk : Disk} {here next : Location} {piece : List Char}
    (stepped : disk.step here piece = .ok next) :
    disk.node? next = some .directory ∨ disk.node? next.dropLast = some .directory := by
  obtain ⟨inside, followed⟩ := step_eq_ok_iff.mp stepped
  unfold follow at followed
  split at followed
  · cases followed
    exact .inl inside
  · split at followed
    · cases followed
      exact .inl (disk.inside here .directory inside)
    · split at followed
      · cases followed
      · cases followed
        rw [List.dropLast_concat]
        exact .inr inside

/-- Where a path leads there is a directory, or there is room for a file. -/
theorem free_of_locate {disk : Disk} {path : Path} {location : Location}
    (located : disk.locate path = .ok location)
    (other : disk.node? location ≠ some .directory) : disk.Free location := by
  obtain ⟨-, walked⟩ := locate_eq_ok_iff.mp located
  -- A path has at least one piece, so its last step is there to be looked at.
  have pieces : path.trail.dropLast ++ [path.trail.getLast (List.cons_ne_nil _ _)] = path.trail :=
    List.dropLast_append_getLast _
  rw [walk, ← pieces, List.foldlM_append] at walked
  obtain ⟨before, -, walked⟩ := bind_eq_ok_iff.mp walked
  obtain ⟨next, stepped, last⟩ := bind_eq_ok_iff.mp walked
  cases Except.ok.inj last
  exact ⟨(inside_of_step stepped).resolve_left other, other⟩

/-! ## Writing -/

theorem write_eq_ok_iff {disk after : Disk} {path : Path} {text : String} :
    disk.write path text = .ok after ↔ ∃ location, disk.locate path = .ok location ∧
      ∃ free : disk.Free location, after = disk.set location (.ofText text) free := by
  unfold write
  rw [bind_eq_ok_iff]
  apply exists_congr
  intro location
  refine and_congr_right fun located => ?_
  constructor
  · intro wrote
    split at wrote
    · rename_i free
      exact ⟨free, (Except.ok.inj wrote).symm⟩
    · cases wrote
  · rintro ⟨free, rfl⟩
    rw [dif_pos free]
    rfl

/-! ## Disks with the same directories -/

/-- The same directories, whatever the files. -/
structure SameDirectories (before after : Disk) : Prop where
  current : after.current = before.current
  directory : ∀ location,
    after.node? location = some .directory ↔ before.node? location = some .directory

theorem SameDirectories.refl (disk : Disk) : SameDirectories disk disk :=
  ⟨rfl, fun _ => Iff.rfl⟩

theorem SameDirectories.trans {before middle after : Disk}
    (one : SameDirectories before middle) (two : SameDirectories middle after) :
    SameDirectories before after :=
  ⟨two.current.trans one.current, fun location =>
    (two.directory location).trans (one.directory location)⟩

theorem SameDirectories.foldlM_eq_ok_iff {before after : Disk}
    (same : SameDirectories before after) (pieces : List (List Char)) (here there : Location) :
    pieces.foldlM after.step here = .ok there ↔ pieces.foldlM before.step here = .ok there := by
  -- A step asks of the disk only whether it starts from a directory.
  induction pieces generalizing here with
  | nil => exact Iff.rfl
  | cons piece pieces ih =>
    rw [List.foldlM_cons, List.foldlM_cons, bind_eq_ok_iff, bind_eq_ok_iff]
    apply exists_congr
    intro next
    rw [step_eq_ok_iff, step_eq_ok_iff, same.directory, ih]

/-- A path leads to the same location on both disks. -/
theorem SameDirectories.locate_eq_ok_iff {before after : Disk}
    (same : SameDirectories before after) (path : Path) (location : Location) :
    after.locate path = .ok location ↔ before.locate path = .ok location := by
  rw [Disk.locate_eq_ok_iff, Disk.locate_eq_ok_iff, walk, walk, same.foldlM_eq_ok_iff, start,
    start, same.current]

/-- A file in the place of a file, or of nothing, leaves the directories. -/
theorem sameDirectories_set {disk : Disk} {location : Location} (free : disk.Free location)
    (text : String) : SameDirectories disk (disk.set location (.ofText text) free) := by
  refine ⟨rfl, fun place => ?_⟩
  -- Neither what was there nor what is put there is a directory.
  rw [node?_set]
  by_cases here : place = location
  · subst here
    simp [free.2, Node.ofText]
  · rw [if_neg here]

theorem sameDirectories_write {disk after : Disk} {path : Path} {text : String}
    (wrote : disk.write path text = .ok after) : SameDirectories disk after := by
  obtain ⟨location, -, free, rfl⟩ := write_eq_ok_iff.mp wrote
  exact sameDirectories_set free text

/-- What is not a directory can be written where its path leads. -/
theorem write_of_locate {disk : Disk} {path : Path} {location : Location} (text : String)
    (located : disk.locate path = .ok location)
    (other : disk.node? location ≠ some .directory) :
    disk.write path text =
      .ok (disk.set location (.ofText text) (free_of_locate located other)) :=
  write_eq_ok_iff.mpr ⟨location, located, _, rfl⟩

/-- After one write, a file that could be read before it can be written. -/
theorem exists_write_after_write {disk kept : Disk} {first second : Path}
    {content : ByteArray} {text : String} (read : disk.find? second = some (.file content))
    (wrote : disk.write first text = .ok kept) (next : String) :
    ∃ written, kept.write second next = .ok written := by
  obtain ⟨location, located, here⟩ := find?_eq_some_iff.mp read
  have same := sameDirectories_write wrote
  have other : kept.node? location ≠ some .directory := by
    rw [Ne, same.directory, here]
    simp
  exact ⟨_, write_of_locate next ((same.locate_eq_ok_iff second location).mpr located) other⟩

end KeyInstall.Disk
