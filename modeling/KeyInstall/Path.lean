/-!
# Paths

A path is the text that a person gave, and it is shown as it was given. Its
*components* say what it means: slashes that follow one another count as one,
and a dot counts only at the very front of a relative path.

`Path.backup` is the path beside a file where its previous content is kept: the
name with `.bak` after it, in the same directory. It is made from the text, so
everything before the name stays as it was written.
-/

namespace KeyInstall

/-- A path as it was written. -/
structure Path where
  text : String
  deriving DecidableEq, Repr

/-- One step of the meaning of a path. -/
inductive Component where
  | root
  | current
  | parent
  | normal (name : String)
  deriving DecidableEq, Repr

namespace Path

/-! ## Pieces between slashes -/

/-- The pieces of a text between its slashes: the first one and the others. -/
def pieces : List Char → List Char × List (List Char)
  | [] => ([], [])
  | c :: rest =>
    let (first, others) := pieces rest
    if c = '/' then ([], first :: others) else (c :: first, others)

/-- All pieces of a text. -/
def allPieces (text : List Char) : List (List Char) := (pieces text).1 :: (pieces text).2

/-- The pieces of a path. -/
def trail (path : Path) : List (List Char) := allPieces path.text.toList

/-- The text with the given pieces. -/
def joinPieces (first : List Char) (others : List (List Char)) : List Char :=
  first ++ others.flatMap ('/' :: ·)

/-- Nothing is lost between the slashes. -/
theorem joinPieces_pieces (text : List Char) :
    joinPieces (pieces text).1 (pieces text).2 = text := by
  induction text with
  | nil => rfl
  | cons c rest ih =>
    by_cases slash : c = '/'
    · simpa [pieces, joinPieces, slash] using ih
    · simpa [pieces, joinPieces, slash] using ih

/-- Pieces without slashes are found again in their text. -/
theorem pieces_joinPieces {first : List Char} {others : List (List Char)}
    (plain : '/' ∉ first) (plainOthers : ∀ piece ∈ others, '/' ∉ piece) :
    pieces (joinPieces first others) = (first, others) := by
  induction others generalizing first with
  | nil =>
    induction first with
    | nil => rfl
    | cons c rest ih =>
      simp only [List.mem_cons, not_or] at plain
      have inner := ih plain.2
      simp only [joinPieces, List.flatMap_nil, List.append_nil] at inner
      simp [joinPieces, pieces, inner, Ne.symm plain.1]
  | cons piece others ih =>
    induction first with
    | nil =>
      have inner := ih (plainOthers piece (by simp)) (fun other member =>
        plainOthers other (List.mem_cons_of_mem _ member))
      simp only [joinPieces] at inner
      simp [joinPieces, pieces, inner]
    | cons c rest inside =>
      simp only [List.mem_cons, not_or] at plain
      have inner := inside plain.2
      simp only [joinPieces] at inner
      simp only [joinPieces, List.cons_append, pieces, inner, Ne.symm plain.1, if_false]

/-- A piece that goes nowhere: nothing, or a dot. -/
def isIdle (piece : List Char) : Bool := piece == [] || piece == ['.']

/-- A piece that is the name of something. -/
def isName (piece : List Char) : Bool := !isIdle piece && piece != ['.', '.']

/-! ## Components -/

/-- The component of a piece that is not the first one. -/
def laterComponent? (piece : List Char) : Option Component :=
  if isIdle piece then none
  else if piece = ['.', '.'] then some .parent
  else some (.normal (String.ofList piece))

/-- The component of the first piece. An empty one is the root if a slash
follows it, and a dot is kept. -/
def firstComponent? (first : List Char) (others : List (List Char)) : Option Component :=
  if first = [] then (if others = [] then none else some .root)
  else if first = ['.'] then some .current
  else laterComponent? first

/-- What a path means, step by step. -/
def components (path : Path) : List Component :=
  let (first, others) := pieces path.text.toList
  (firstComponent? first others).toList ++ others.filterMap laterComponent?

/-! ## Longer paths -/

/-- A name below a path. -/
def join (path : Path) (name : String) : Path :=
  match path.text.toList.getLast? with
  | none => ⟨name⟩
  | some c => if c = '/' then ⟨path.text ++ name⟩ else ⟨path.text ++ "/" ++ name⟩

/-- What is put after a name. -/
def backupSuffix : String := ".bak"

/-- The path beside a file where its previous content is kept. What follows the
name is dropped; a path that does not end in a name gets a new name below it. -/
def backup (path : Path) : Path :=
  let (first, others) := pieces path.text.toList
  match others.reverse.dropWhile isIdle with
  | [] =>
    if isName first then ⟨String.ofList (first ++ backupSuffix.toList)⟩
    else path.join backupSuffix
  | last :: before =>
    if isName last then
      ⟨String.ofList (joinPieces first
        ((before.dropWhile isIdle).reverse ++ [last ++ backupSuffix.toList]))⟩
    else path.join backupSuffix

/-! ## Default places -/

/-- Where the key file is looked for, below a home directory. -/
def defaultKeyFile (home : Path) : Path := (home.join ".easygrid").join "api-key"

/-- Where the configuration file is looked for, below a home directory. -/
def defaultConfigFile (home : Path) : Path := (home.join ".cursor").join "mcp.json"

end Path

end KeyInstall
