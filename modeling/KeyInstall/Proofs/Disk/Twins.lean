import KeyInstall.Proofs.Disk.Lookup

/-!
# Disks that differ in one file

Two disks with the same things at every place but one, where each has a file of
its own, are twins (`TwinsAt`). A walk asks what a place is and never what a file
holds, so on both of them every path leads to the same place, or stops at the
same fault (`TwinsAt.locate_eq`), and the same writes are refused
(`TwinsAt.write_eq_error_iff`).
-/

namespace KeyInstall.Disk

/-- Two disks that differ at most in what the file at `place` holds. -/
structure TwinsAt (place : Location) (first second : Disk) : Prop where
  current : second.current = first.current
  firstFile : ∃ content, first.node? place = some (.file content)
  secondFile : ∃ content, second.node? place = some (.file content)
  elsewhere : ∀ other, other ≠ place → second.node? other = first.node? other

namespace TwinsAt

variable {place : Location} {first second : Disk}

theorem step_eq (twins : TwinsAt place first second) (here : Location) (piece : List Char) :
    second.step here piece = first.step here piece := by
  by_cases same : here = place
  · obtain ⟨one, onFirst⟩ := twins.firstFile
    obtain ⟨two, onSecond⟩ := twins.secondFile
    rw [step, step, same, onFirst, onSecond]
  · rw [step, step, twins.elsewhere here same]

theorem locate_eq (twins : TwinsAt place first second) (path : Path) :
    second.locate path = first.locate path := by
  have steps : second.step = first.step := funext fun here => funext (twins.step_eq here)
  have starts : second.start = first.start := by
    funext piece
    rw [start, start, twins.current]
  simp only [locate, walk, steps, starts]

/-- Other paths lead to the same things. -/
theorem find?_eq (twins : TwinsAt place first second) {path : Path}
    (other : first.locate path ≠ .ok place) : second.find? path = first.find? path := by
  rw [find?, find?, twins.locate_eq]
  cases located : first.locate path with
  | error fault => rfl
  | ok spot =>
    refine twins.elsewhere spot ?_
    rintro rfl
    exact other located

theorem node?_eq_directory_iff (twins : TwinsAt place first second) (spot : Location) :
    second.node? spot = some .directory ↔ first.node? spot = some .directory := by
  by_cases same : spot = place
  · obtain ⟨one, onFirst⟩ := twins.firstFile
    obtain ⟨two, onSecond⟩ := twins.secondFile
    simp [same, onFirst, onSecond]
  · rw [twins.elsewhere spot same]

end TwinsAt

/-- A write is refused where its path cannot be followed or leads to a directory. -/
theorem write_eq_error_iff {disk : Disk} {path : Path} {text : String} {fault : DiskFault} :
    disk.write path text = .error fault ↔ disk.locate path = .error fault ∨
      ∃ place, disk.locate path = .ok place ∧ disk.node? place = some .directory ∧
        fault = .isDirectory := by
  cases located : disk.locate path with
  | error other => simp [write, located, bind, Except.bind]
  | ok place =>
    by_cases occupied : disk.node? place = some .directory
    · have noRoom : ¬ disk.Free place := fun free => free.2 occupied
      simp [write, located, bind, Except.bind, occupied, noRoom, eq_comm]
    · rw [write_of_locate text located occupied]
      simp [occupied]

/-- Twins refuse the same writes. -/
theorem TwinsAt.write_eq_error_iff {place : Location} {first second : Disk}
    (twins : TwinsAt place first second) (path : Path) (text : String) (fault : DiskFault) :
    second.write path text = .error fault ↔ first.write path text = .error fault := by
  rw [Disk.write_eq_error_iff, Disk.write_eq_error_iff, twins.locate_eq]
  simp only [twins.node?_eq_directory_iff]

end KeyInstall.Disk
