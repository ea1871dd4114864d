import KeyInstall.Proofs.Disk.Lookup

/-!
# The place of a backup

The backup of a file lies beside it: a path that leads to a file has a last
name, that name is looked up in a directory, and the backup path names the same
with the suffix in that directory (`names_backup_or_below`). So a backup never
takes the place of its own file (`locate_backup`), however the path is spelled,
and a file that is replaced and its backup are the only two that change
(`replaced_of_write`).
-/

namespace KeyInstall.Disk

open Json (bind_eq_ok_iff)

/-! ## Idle pieces -/

theorem follow_of_isIdle {piece : List Char} (idle : Path.isIdle piece = true)
    (here : Location) : follow here piece = .ok here := by
  simp [follow, idle]

/-- Idle pieces lead nowhere else. -/
theorem eq_of_foldlM_isIdle {disk : Disk} {pieces : List (List Char)}
    (idle : ∀ piece ∈ pieces, Path.isIdle piece = true) {here there : Location}
    (walked : pieces.foldlM disk.step here = .ok there) : there = here := by
  induction pieces generalizing here with
  | nil => exact (Except.ok.inj walked).symm
  | cons piece pieces ih =>
    obtain ⟨next, stepped, walked⟩ := bind_eq_ok_iff.mp walked
    have followed := (step_eq_ok_iff.mp stepped).2
    rw [follow_of_isIdle (idle piece List.mem_cons_self)] at followed
    cases followed
    exact ih (fun piece member => idle piece (List.mem_cons_of_mem _ member)) walked

/-! ## Names -/

/-- A name leads to what has the name, unless it is too long. -/
theorem follow_of_isName {piece : List Char} (named : Path.isName piece = true)
    (here : Location) :
    follow here piece =
      if nameLimit < Text.byteSize piece then .error .nameTooLong
      else .ok (here ++ [String.ofList piece]) := by
  obtain ⟨-, -, up⟩ := Path.isName_iff.mp named
  rw [follow, Path.isIdle_of_isName named, if_neg Bool.false_ne_true, if_neg up]

theorem eq_of_follow_of_isName {piece : List Char} (named : Path.isName piece = true)
    {here next : Location} (followed : follow here piece = .ok next) :
    next = here ++ [String.ofList piece] := by
  rw [follow_of_isName named] at followed
  split at followed
  · cases followed
  · exact (Except.ok.inj followed).symm

/-- A piece that is no name leads to where it starts from or to what is around it. -/
theorem follow_of_not_isName {piece : List Char} (nameless : Path.isName piece = false)
    {here next : Location} (followed : follow here piece = .ok next) :
    next = here ∨ next = here.dropLast := by
  unfold follow at followed
  split at followed
  · exact .inl (Except.ok.inj followed).symm
  · rename_i moves
    split at followed
    · exact .inr (Except.ok.inj followed).symm
    · rename_i down
      simp [Path.isName, moves, down] at nameless

/-- A name is looked up from the current directory if nothing is before it. -/
theorem start_of_isName (disk : Disk) {piece : List Char} (named : Path.isName piece = true) :
    disk.start piece = disk.current := by
  exact if_neg (Path.isName_iff.mp named).1

/-! ## Names below paths -/

/-- The part of a path before a slash can be looked up if the path can. -/
theorem Followable.of_append {path outer : Path} {rest : List Char} (followable : Followable path)
    (begins : path.text.toList = outer.text.toList ++ rest)
    (nonempty : outer.text.toList ≠ []) : Followable outer := by
  refine ⟨nonempty, ?_, ?_⟩
  · intro nul
    exact followable.noNul (begins ▸ List.mem_append_left _ nul)
  · have short := followable.short
    rw [begins, Text.byteSize_append] at short
    exact Nat.le_trans (Nat.le_add_right _ _) short

/-- A name below a path is looked up where the path leads. -/
theorem walk_join {disk : Disk} {path : Path} {place : Location} {name : String}
    (nonempty : path.text.toList ≠ []) (plain : '/' ∉ name.toList)
    (walked : disk.walk path.trail = .ok place) :
    disk.walk (path.join name).trail = disk.step place name.toList := by
  obtain ⟨front, tail, notEmpty, order, idle, trail⟩ := Path.trail_join nonempty plain
  have starts : disk.start ((front ++ [name.toList]).headD []) =
      disk.start ((front ++ tail).headD []) := by
    cases front with
    | nil => exact absurd rfl notEmpty
    | cons first front => rfl
  rw [walk, order, List.foldlM_append] at walked
  obtain ⟨before, walkedFront, walkedTail⟩ := bind_eq_ok_iff.mp walked
  cases eq_of_foldlM_isIdle idle walkedTail
  rw [walk, trail, List.foldlM_append, starts, walkedFront]
  show [name.toList].foldlM disk.step place = _
  simp

/-- A path names something in a directory: it is a path to the directory, or
nothing if that is the current one, with the name below it. It makes no difference
whether something has the name, or whether the name is too long for that. -/
structure Names (disk : Disk) (path : Path) (directory : Location) (name : String) : Prop where
  isName : Path.isName name.toList = true
  plain : '/' ∉ name.toList
  inside : disk.node? directory = some .directory
  below : ∃ outer : Path, path = outer.join name ∧
    (outer.text = "" ∧ directory = disk.current ∨ disk.locate outer = .ok directory)

/-- A path that names something in a directory leads to where the name leads from
there. -/
theorem Names.walk_trail {disk : Disk} {path : Path} {directory : Location} {name : String}
    (names : disk.Names path directory name) :
    disk.walk path.trail = disk.step directory name.toList := by
  obtain ⟨outer, rfl, ⟨empty, rfl⟩ | located⟩ := names.below
  · have alone : (outer.join name).trail = [name.toList] := by
      rw [Path.join, empty]
      exact Path.allPieces_of_plain names.plain
    rw [alone, walk, List.headD_cons, start_of_isName disk names.isName]
    simp
  · obtain ⟨followable, walked⟩ := locate_eq_ok_iff.mp located
    exact walk_join followable.nonempty names.plain walked

/-! ## From a file to its backup -/

/-- With a suffix after it, a name is still looked up in the same directory. -/
theorem names_suffixed {disk : Disk} {path suffixed : Path} {place : Location}
    {front idle tail : List (List Char)} {name suffix : List Char}
    (located : disk.locate path = .ok place)
    (order : path.trail = front ++ (idle ++ name :: tail)) (alone : front = [] → idle = [])
    (idleBefore : ∀ piece ∈ idle, Path.isIdle piece = true) (named : Path.isName name = true)
    (idleAfter : ∀ piece ∈ tail, Path.isIdle piece = true)
    (stillNamed : Path.isName (name ++ suffix) = true) (plain : '/' ∉ name ++ suffix)
    (ends : suffixed.trail = front ++ [name ++ suffix]) :
    ∃ directory, place = directory ++ [String.ofList name] ∧
      disk.Names suffixed directory (String.ofList (name ++ suffix)) := by
  obtain ⟨followable, walked⟩ := locate_eq_ok_iff.mp located
  rw [walk, order, List.foldlM_append] at walked
  obtain ⟨before, walkedFront, walked⟩ := bind_eq_ok_iff.mp walked
  rw [List.foldlM_append] at walked
  obtain ⟨directory, walkedIdle, walked⟩ := bind_eq_ok_iff.mp walked
  obtain ⟨found, stepped, walkedTail⟩ := bind_eq_ok_iff.mp walked
  cases eq_of_foldlM_isIdle idleBefore walkedIdle
  cases eq_of_foldlM_isIdle idleAfter walkedTail
  obtain ⟨inside, followed⟩ := step_eq_ok_iff.mp stepped
  refine ⟨before, eq_of_follow_of_isName named followed, ?_, ?_, inside, ?_⟩
  · rwa [String.toList_ofList]
  · rwa [String.toList_ofList]
  · cases front with
    | nil =>
      -- Nothing is before the name, so it is looked up in the current directory.
      rw [alone rfl] at walkedFront
      refine ⟨⟨""⟩, ?_, .inl ⟨rfl, ?_⟩⟩
      · have text := Path.text_of_trail ends
        rw [Path.joinPieces, List.flatMap_nil, List.append_nil] at text
        obtain ⟨written⟩ := suffixed
        exact congrArg Path.mk (String.toList_injective (by rw [text, String.toList_ofList]))
      · exact (Except.ok.inj walkedFront).symm.trans (start_of_isName disk named)
    | cons first front =>
      obtain ⟨outer, ⟨rest, begins⟩, pieces, joined⟩ := Path.exists_outer order (by simp) ends
      have nonempty : outer.text.toList ≠ [] := by
        intro empty
        rw [Path.trail, empty] at pieces
        simp [Path.allPieces, Path.pieces] at pieces
      refine ⟨outer, joined, .inr (locate_eq_ok_iff.mpr ⟨followable.of_append begins nonempty, ?_⟩)⟩
      have around : (first :: front).foldlM disk.step (disk.start first) = .ok before := walkedFront
      rw [walk, pieces, ← List.cons_append, List.foldlM_append, List.cons_append, List.headD_cons,
        around]
      show [[]].foldlM disk.step before = _
      have stays := follow_of_isIdle (show Path.isIdle [] = true from rfl) before
      simpa using step_eq_ok_iff.mpr ⟨inside, stays⟩

/-- A backup path names the suffixed name where the name of its path was looked
up, in a directory. Without such a name, the suffix is looked up in the place that
the path leads to, which is a directory or the one around it. -/
theorem names_backup_or_below {disk : Disk} {path : Path} {place : Location}
    (located : disk.locate path = .ok place) :
    (∃ directory name, place = directory ++ [name] ∧
        disk.Names path.backup directory (name ++ Path.backupSuffix)) ∨
      (disk.walk path.backup.trail = disk.step place Path.backupSuffix.toList ∧
        ∃ directory, disk.node? directory = some .directory ∧
          (place = directory ∨ place = directory.dropLast)) := by
  cases Path.backupTrail path with
  | named front idle tail name order alone idleBefore named idleAfter backup =>
    have plain : '/' ∉ name ++ Path.backupSuffix.toList := by
      have all := Path.slash_not_mem_allPieces path.text.toList
      rw [← Path.trail, order] at all
      exact Path.slash_not_mem_suffixed (all name (by simp))
    obtain ⟨directory, equal, names⟩ := names_suffixed located order alone idleBefore named
      idleAfter (Path.isName_append_suffix name) plain backup
    refine .inl ⟨directory, String.ofList name, equal, ?_⟩
    rwa [String.ofList_append, String.ofList_toList] at names
  | nameless front tail last order nameless onlyIdle idleAfter backup =>
    obtain ⟨followable, walked⟩ := locate_eq_ok_iff.mp located
    refine .inr ⟨?_, ?_⟩
    · rw [backup]
      exact walk_join followable.nonempty (by decide) walked
    · -- The last piece that is not idle starts from a directory.
      rw [walk, order, List.foldlM_append] at walked
      obtain ⟨directory, -, walked⟩ := bind_eq_ok_iff.mp walked
      obtain ⟨found, stepped, walkedAfter⟩ := bind_eq_ok_iff.mp walked
      cases eq_of_foldlM_isIdle idleAfter walkedAfter
      obtain ⟨inside, followed⟩ := step_eq_ok_iff.mp stepped
      exact ⟨directory, inside, follow_of_not_isName nameless followed⟩

/-- The backup of a file is the suffixed name beside it. -/
theorem locate_backup {disk : Disk} {path : Path} {place backup : Location}
    (located : disk.locate path = .ok place) (other : disk.node? place ≠ some .directory)
    (backed : disk.locate path.backup = .ok backup) :
    ∃ directory name, place = directory ++ [name] ∧
      backup = directory ++ [name ++ Path.backupSuffix] := by
  obtain ⟨-, walkedBackup⟩ := locate_eq_ok_iff.mp backed
  rcases names_backup_or_below located with ⟨directory, name, equal, names⟩ | ⟨same, -⟩
  · rw [names.walk_trail] at walkedBackup
    refine ⟨directory, name, equal, ?_⟩
    rw [eq_of_follow_of_isName names.isName (step_eq_ok_iff.mp walkedBackup).2,
      String.ofList_toList]
  · rw [same] at walkedBackup
    exact absurd (step_eq_ok_iff.mp walkedBackup).1 other

/-- A file and its backup are two files. -/
theorem backup_ne {disk : Disk} {path : Path} {place backup : Location}
    (located : disk.locate path = .ok place) (other : disk.node? place ≠ some .directory)
    (backed : disk.locate path.backup = .ok backup) : backup ≠ place := by
  obtain ⟨directory, name, rfl, rfl⟩ := locate_backup located other backed
  intro same
  have names := List.append_cancel_left same
  rw [List.cons.injEq] at names
  have longer := congrArg (fun name => name.toList.length) names.1
  simp [Path.backupSuffix] at longer

/-! ## Replacing a file -/

/-- The places of a file and of its backup. -/
structure Places (disk : Disk) (path : Path) (file backup : Location) : Prop where
  located : disk.locate path = .ok file
  backedUp : disk.locate path.backup = .ok backup
  apart : backup ≠ file

/-- A file has got a new text and its backup the previous one, and everything
else is as it was. -/
structure Replaced (file backup : Location) (previous updated : String)
    (before after : Disk) : Prop where
  wasFile : ∃ content, before.node? file = some (.file content)
  wasFree : before.node? backup ≠ some .directory
  directories : SameDirectories before after
  nodes : ∀ place, after.node? place =
    if place = file then some (.ofText updated)
    else if place = backup then some (.ofText previous)
    else before.node? place

/-- A file that was there is replaced by the two writes. -/
theorem replaced_of_write {before kept after : Disk} {path : Path} {place : Location}
    {content : ByteArray} {previous updated : String} (located : before.locate path = .ok place)
    (here : before.node? place = some (.file content))
    (backedUp : before.write path.backup previous = .ok kept)
    (wrote : kept.write path updated = .ok after) :
    ∃ backup, Places before path place backup ∧
      Replaced place backup previous updated before after := by
  have same := sameDirectories_write backedUp
  have directories := same.trans (sameDirectories_write wrote)
  obtain ⟨backup, locatedBackup, free, rfl⟩ := write_eq_ok_iff.mp backedUp
  obtain ⟨again, locatedAgain, freeAgain, rfl⟩ := write_eq_ok_iff.mp wrote
  -- The first write has not moved the file.
  rw [same.locate_eq_ok_iff, located] at locatedAgain
  cases locatedAgain
  have notDirectory : before.node? place ≠ some .directory := by
    rw [here]
    simp
  refine ⟨backup, ⟨located, locatedBackup, backup_ne located notDirectory locatedBackup⟩,
    ⟨content, here⟩, free.2, directories, ?_⟩
  intro spot
  rw [node?_set, node?_set]

namespace Replaced

variable {path : Path} {file backup : Location} {previous updated : String} {before after : Disk}

theorem find?_file (replaced : Replaced file backup previous updated before after)
    (places : Places before path file backup) :
    after.find? path = some (.ofText updated) := by
  have located := (replaced.directories.locate_eq_ok_iff path file).mpr places.located
  refine find?_eq_some_iff.mpr ⟨file, located, ?_⟩
  rw [replaced.nodes, if_pos rfl]

theorem find?_backup (replaced : Replaced file backup previous updated before after)
    (places : Places before path file backup) :
    after.find? path.backup = some (.ofText previous) := by
  have located := (replaced.directories.locate_eq_ok_iff path.backup backup).mpr places.backedUp
  refine find?_eq_some_iff.mpr ⟨backup, located, ?_⟩
  rw [replaced.nodes, if_neg places.apart, if_pos rfl]

end Replaced

end KeyInstall.Disk
