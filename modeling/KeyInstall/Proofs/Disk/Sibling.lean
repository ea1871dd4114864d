import KeyInstall.Proofs.Disk.Backup
import KeyInstall.Proofs.Disk.Twins

/-!
# Backups beside their files

Whatever there is on a disk lies in a directory, so a path that leads to a file, or
to nothing, ends with a name in one (`names_backup`). So where the backup of a file
goes is known before it is written: its path leads to the suffixed name beside the
file unless it, or that name, is too long (`locate_backup_eq`), and never to the
file or to a directory around it (`backup_beside`).
-/

namespace KeyInstall.Disk

variable {disk : Disk} {path : Path} {place : Location}

/-! ## Names of backups -/

/-- A path that does not lead to a directory ends with a name in one, and its
backup path names the suffixed name there. -/
theorem names_backup (located : disk.locate path = .ok place)
    (other : disk.node? place ≠ some .directory) :
    ∃ directory name, place = directory ++ [name] ∧
      disk.Names path.backup directory (name ++ Path.backupSuffix) := by
  rcases names_backup_or_below located with named | ⟨-, directory, inside, around⟩
  · exact named
  · -- Without a name, the path ends at a directory or at what is around one.
    rcases around with rfl | rfl
    · exact absurd inside other
    · exact absurd (disk.inside directory _ inside) other

/-! ## Refused writes -/

theorem write_of_locate_error {fault : DiskFault} (text : String)
    (failed : disk.locate path = .error fault) : disk.write path text = .error fault :=
  write_eq_error_iff.mpr (.inl failed)

theorem write_of_directory (text : String) (located : disk.locate path = .ok place)
    (occupied : disk.node? place = some .directory) :
    disk.write path text = .error .isDirectory :=
  write_eq_error_iff.mpr (.inr ⟨place, located, occupied, rfl⟩)

/-! ## Places of backups -/

theorem locate_eq (nonempty : path.text.toList ≠ []) (noNul : '\x00' ∉ path.text.toList) :
    disk.locate path =
      if pathLimit < Text.byteSize path.text.toList then .error .nameTooLong
      else disk.walk path.trail := by
  have usable : ¬ (path.text.toList = [] ∨ '\x00' ∈ path.text.toList) := by
    rintro (empty | nul)
    · exact nonempty empty
    · exact noNul nul
  simp only [locate, if_neg usable]

/-- Where a path leads that names something in a directory. -/
theorem Names.locate_eq {directory : Location} {name : String}
    (names : disk.Names path directory name) (nonempty : path.text.toList ≠ [])
    (noNul : '\x00' ∉ path.text.toList) :
    disk.locate path =
      if pathLimit < Text.byteSize path.text.toList then .error .nameTooLong
      else if nameLimit < Text.byteSize name.toList then .error .nameTooLong
      else .ok (directory ++ [name]) := by
  rw [Disk.locate_eq nonempty noNul, names.walk_trail, step_of_directory names.inside,
    follow_of_isName names.isName, String.ofList_toList]

/-- Where the backup of a file goes. -/
theorem locate_backup_eq (located : disk.locate path = .ok place)
    (other : disk.node? place ≠ some .directory) :
    ∃ directory name, place = directory ++ [name] ∧
      disk.Names path.backup directory (name ++ Path.backupSuffix) ∧
      disk.locate path.backup =
        if pathLimit < Text.byteSize path.backup.text.toList then .error .nameTooLong
        else if nameLimit < Text.byteSize (name ++ Path.backupSuffix).toList then
          .error .nameTooLong
        else .ok (directory ++ [name ++ Path.backupSuffix]) := by
  obtain ⟨directory, name, rfl, names⟩ := names_backup located other
  obtain ⟨followable, -⟩ := locate_eq_ok_iff.mp located
  exact ⟨directory, name, rfl, names, names.locate_eq (Path.backup_nonempty followable.nonempty)
    (Path.backup_noNul followable.nonempty followable.noNul)⟩

/-! ## Backups beside their files -/

/-- The backup of a path to the file `name` in `directory` lies beside it. -/
structure BackedUpBeside (disk : Disk) (path : Path) (directory : Location)
    (name : String) : Prop where
  /-- The backup path is a path to the same directory with the suffixed name below it. -/
  sibling : disk.Names path.backup directory (name ++ ".bak")
  /-- It leads there, if it and the name have a length that can be looked up at all. -/
  lookup : disk.locate path.backup =
    if 4095 < Text.byteSize path.backup.text.toList ∨ 255 < Text.byteSize (name ++ ".bak").toList
    then .error .nameTooLong
    else .ok (directory ++ [name ++ ".bak"])
  /-- That is neither the file nor a directory around it. -/
  apart : ¬ directory ++ [name ++ ".bak"] <+: directory ++ [name]

/-- However a path to a file is spelled, its backup lies beside the file. -/
theorem backup_beside {directory : Location} {name : String}
    {content : ByteArray} (located : disk.locate path = .ok (directory ++ [name]))
    (file : disk.node? (directory ++ [name]) = some (.file content)) :
    BackedUpBeside disk path directory name := by
  obtain ⟨around, last, equal, names, lookup⟩ := locate_backup_eq located (by simp [file])
  obtain ⟨rfl, rfl⟩ := List.append_singleton_inj.mp equal
  refine ⟨names, ?_, ?_⟩
  · rw [lookup]
    by_cases long : pathLimit < Text.byteSize path.backup.text.toList
    · rw [if_pos long]
      exact (if_pos (.inl long)).symm
    · rw [if_neg long]
      exact if_congr (or_iff_right long).symm rfl rfl
  · intro within
    have same := within.eq_of_length (by simp)
    have longer := (List.append_singleton_inj.mp same).2
    simp at longer

/-- A disk with a directory beside a file. -/
def roundaboutDisk : Disk where
  current := ["home"]
  nodes := [(["home"], .directory), (["home", "a"], .directory),
    (["home", "mcp.json"], .ofText "\x7b\x7d")]
  inside := inside_of_nodes rfl

/-- The way there leads through the directory, and the backup lies beside the file. -/
theorem backup_beside_roundabout :
    roundaboutDisk.locate ⟨"./a//.././/mcp.json"⟩ = .ok (["home"] ++ ["mcp.json"]) ∧
      roundaboutDisk.node? (["home"] ++ ["mcp.json"]) = some (.ofText "\x7b\x7d") ∧
      BackedUpBeside roundaboutDisk ⟨"./a//.././/mcp.json"⟩ ["home"] "mcp.json" :=
  ⟨rfl, rfl, backup_beside rfl rfl⟩

end KeyInstall.Disk
