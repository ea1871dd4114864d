import KeyInstall.Path
import KeyInstall.Table
import KeyInstall.Text.Size

/-!
# Disks

Files and directories, each at its location: the list of names from the root
down. Looking a path up walks along its pieces from the root or from the current
directory, and each step needs a directory to start from, so a slash after a
file leads nowhere. A path that is too long leads nowhere either, even if it has
only short names, or none.

There are no links: a location names one thing, and two paths lead to the same
thing exactly when they lead to the same location.
-/

namespace KeyInstall

/-- The names from the root down to a file or directory. -/
abbrev Location := List String

/-- What is found at a location. -/
inductive Node where
  | file (content : ByteArray)
  | directory

/-- Files are the same if their bytes are. -/
instance : DecidableEq Node
  | .file first, .file second =>
    if same : first.data = second.data then .isTrue (congrArg Node.file (ByteArray.ext same))
    else .isFalse fun equal => same (congrArg ByteArray.data (Node.file.inj equal))
  | .directory, .directory => .isTrue rfl
  | .file _, .directory => .isFalse nofun
  | .directory, .file _ => .isFalse nofun

/-- Why a file cannot be read or written. -/
inductive DiskFault where
  | notFound
  | notDirectory
  | isDirectory
  | nameTooLong
  | notUtf8
  deriving DecidableEq, Repr

/-- The wording of the operating system. -/
def DiskFault.message : DiskFault → String
  | .notFound => "No such file or directory (os error 2)"
  | .notDirectory => "Not a directory (os error 20)"
  | .isDirectory => "Is a directory (os error 21)"
  | .nameTooLong => "File name too long (os error 36)"
  | .notUtf8 => "stream did not contain valid UTF-8"

/-- The text of a file, if it is one and holds text. -/
def Node.text : Node → Except DiskFault String
  | .directory => .error .isDirectory
  | .file content =>
    match String.fromUTF8? content with
    | some text => .ok text
    | none => .error .notUtf8

/-- The file that holds a text. -/
def Node.ofText (text : String) : Node := .file text.toUTF8

/-- What was written is read. -/
theorem Node.text_ofText (text : String) : (Node.ofText text).text = .ok text := by
  have whole : String.fromUTF8? text.toByteArray = some text := by
    simp only [String.fromUTF8?]
    exact dif_pos text.isValidUTF8
  simp [Node.ofText, Node.text, whole]

/-- What entries have at a location. The root is always a directory. -/
def Disk.nodeAt (nodes : Table Location Node) (location : Location) : Option Node :=
  if location = [] then some .directory else Table.get? location nodes

/-- Files and directories, and the directory that relative paths start from. -/
structure Disk where
  current : Location
  nodes : Table Location Node
  /-- Whatever there is lies in a directory. -/
  inside : ∀ location node, Disk.nodeAt nodes location = some node →
    Disk.nodeAt nodes location.dropLast = some .directory

namespace Disk

/-- A disk on which nothing is. -/
def empty (current : Location) : Disk where
  current := current
  nodes := []
  inside := by
    intro location node here
    by_cases root : location = []
    · rw [root]
      rfl
    · rw [nodeAt, if_neg root] at here
      cases here

/-- What is at a location. -/
def node? (disk : Disk) (location : Location) : Option Node := nodeAt disk.nodes location

/-- A location in a directory, with room for a file: no directory is there. -/
def Free (disk : Disk) (location : Location) : Prop :=
  disk.node? location.dropLast = some .directory ∧ disk.node? location ≠ some .directory

instance (disk : Disk) (location : Location) : Decidable (disk.Free location) :=
  inferInstanceAs (Decidable (_ ∧ _))

/-- The root is a directory. -/
theorem ne_nil_of_node? {disk : Disk} {location : Location}
    (other : disk.node? location ≠ some .directory) : location ≠ [] := by
  rintro rfl
  exact other rfl

/-- A place other than the root holds what was put there, every other place
what it held. -/
theorem nodeAt_set {nodes : Table Location Node} {location : Location} (below : location ≠ [])
    (node : Node) (other : Location) :
    nodeAt (Table.set location node nodes) other =
      if other = location then some node else nodeAt nodes other := by
  by_cases equal : other = location
  · simp [nodeAt, equal, below]
  · by_cases root : other = []
    · simp [nodeAt, root, Ne.symm below]
    · simp [nodeAt, equal, root, Table.get?_set_of_ne equal]

/-- Puts something where there is room. -/
def set (disk : Disk) (location : Location) (node : Node) (free : disk.Free location) : Disk where
  current := disk.current
  nodes := Table.set location node disk.nodes
  inside := by
    intro spot found here
    have below := ne_nil_of_node? free.2
    rw [nodeAt_set below] at here ⊢
    by_cases around : spot.dropLast = location
    · -- A file was there, or nothing, so nothing lies in it.
      rw [if_pos around]
      by_cases same : spot = location
      · have shorter := congrArg List.length (same ▸ around : location.dropLast = location)
        rw [List.length_dropLast] at shorter
        have long := List.length_pos_iff.mpr below
        omega
      · rw [if_neg same] at here
        exact absurd (around ▸ disk.inside spot found here) free.2
    · rw [if_neg around]
      by_cases same : spot = location
      · exact same ▸ free.1
      · rw [if_neg same] at here
        exact disk.inside spot found here

/-- What was put somewhere is there, and everything else is as it was. -/
theorem node?_set (disk : Disk) {location : Location} (free : disk.Free location) (node : Node)
    (other : Location) : (disk.set location node free).node? other =
      if other = location then some node else disk.node? other :=
  nodeAt_set (ne_nil_of_node? free.2) node other

/-- Puts something at a location, if there is room for it. -/
def put (disk : Disk) (location : Location) (node : Node) : Disk :=
  if free : disk.Free location then disk.set location node free else disk

/-- A disk with one empty directory, which is the current one, in those around it. -/
def ofDirectory (location : Location) : Disk :=
  (List.range location.length).foldl
    (fun disk depth => disk.put (location.take (depth + 1)) .directory) (empty location)

/-! ## Looking paths up -/

/-- The number of bytes that a name may have. -/
def nameLimit : Nat := 255

/-- The number of bytes that a whole path may have, as it is written. -/
def pathLimit : Nat := 4095

/-- Where one piece of a path leads from a directory. What it leads to need not
exist. -/
def follow (here : Location) (piece : List Char) : Except DiskFault Location :=
  if Path.isIdle piece then .ok here
  else if piece = ['.', '.'] then .ok here.dropLast
  else if nameLimit < Text.byteSize piece then .error .nameTooLong
  else .ok (here ++ [String.ofList piece])

/-- Where one piece of a path leads from a location, which must be a directory. -/
def step (disk : Disk) (here : Location) (piece : List Char) : Except DiskFault Location :=
  match disk.node? here with
  | none => .error .notFound
  | some (.file _) => .error .notDirectory
  | some .directory => follow here piece

/-- The location that a path starts from: the root if it begins with a slash. -/
def start (disk : Disk) (first : List Char) : Location :=
  if first = [] then [] else disk.current

/-- Where pieces lead from where their first one starts. -/
def walk (disk : Disk) (pieces : List (List Char)) : Except DiskFault Location :=
  pieces.foldlM disk.step (disk.start (pieces.headD []))

/-- The location that a path leads to, whether or not something is there. -/
def locate (disk : Disk) (path : Path) : Except DiskFault Location :=
  let text := path.text.toList
  if text = [] ∨ '\x00' ∈ text then .error .notFound
  else if pathLimit < Text.byteSize text then .error .nameTooLong
  else disk.walk path.trail

/-- What a path leads to. A path that cannot be followed leads to nothing. -/
def find? (disk : Disk) (path : Path) : Option Node :=
  match disk.locate path with
  | .ok location => disk.node? location
  | .error _ => none

/-! ## Writing -/

/-- Writes a text to the file that a path leads to, which is created if it is
not there. Where a path leads, there is a directory or there is room. -/
def write (disk : Disk) (path : Path) (text : String) : Except DiskFault Disk := do
  let location ← disk.locate path
  if free : disk.Free location then return disk.set location (.ofText text) free
  else .error .isDirectory

/-! ## Preparing a disk -/

/-- Follows one piece and makes the directory that it names, if nothing is
there. -/
def enter (state : Disk × Location) (piece : List Char) : Disk × Location :=
  let (disk, here) := state
  if Path.isIdle piece then (disk, here)
  else if piece = ['.', '.'] then (disk, here.dropLast)
  else
    let next := here ++ [String.ofList piece]
    match disk.node? next with
    | some _ => (disk, next)
    | none => (disk.put next .directory, next)

/-- Makes the directory that a path names, and those on the way. -/
def makeDirectory (disk : Disk) (path : Path) : Disk :=
  (path.trail.foldl enter (disk, disk.start (path.trail.headD []))).1

/-- Puts a file where a path says, and makes the directories on the way. -/
def place (disk : Disk) (path : Path) (content : ByteArray) : Disk :=
  let pieces := path.trail
  let (disk, here) := pieces.dropLast.foldl enter (disk, disk.start (pieces.headD []))
  disk.put (here ++ [String.ofList (pieces.getLast?.getD [])]) (.file content)

/-- The entries that are not at a location or below it. -/
def nodesOutside (disk : Disk) (location : Location) : Table Location Node :=
  disk.nodes.filter fun entry => !location.isPrefixOf entry.1

/-- Without what is at a location and below it. -/
def without (disk : Disk) (location : Location) : Disk where
  current := disk.current
  nodes := disk.nodesOutside location
  inside := by
    intro spot node here
    by_cases root : spot.dropLast = []
    · rw [root]
      rfl
    · have below : spot ≠ [] := by
        rintro rfl
        exact root rfl
      rw [nodeAt, if_neg below, nodesOutside,
        Table.get?_filter (fun place => !location.isPrefixOf place)] at here
      split at here
      · rename_i kept
        have around := disk.inside spot node (by rw [nodeAt, if_neg below, here])
        rw [nodeAt, if_neg root] at around ⊢
        rw [nodesOutside, Table.get?_filter (fun place => !location.isPrefixOf place), if_pos]
        · exact around
        · rw [Bool.not_eq_true', Bool.eq_false_iff, Ne, List.isPrefixOf_iff_prefix] at kept ⊢
          intro within
          exact kept (within.trans (List.dropLast_prefix spot))
      · cases here

/-- Removes what a path leads to, and everything below it. -/
def remove (disk : Disk) (path : Path) : Disk :=
  match disk.locate path with
  | .ok location => disk.without location
  | .error _ => disk

/-! ## Listing -/

/-- The order of a listing: a directory before what is in it, names by their
characters. -/
def precedes : Location → Location → Bool
  | [], _ => true
  | _ :: _, [] => false
  | a :: as, b :: bs => if a = b then precedes as bs else decide (a < b)

/-- Everything below the current directory, by relative location, in order. -/
def listing (disk : Disk) : List (Location × Node) :=
  (disk.nodes.filterMap fun (location, node) =>
    if disk.current.isPrefixOf location ∧ disk.current ≠ location then
      some (location.drop disk.current.length, node)
    else none).mergeSort fun a b => precedes a.1 b.1

end Disk

end KeyInstall
