import KeyInstall.Path

/-!
# The pieces of a backup path

`Path.trail` lists all pieces of a path, and `backupTrail` says how those of
`Path.backup` come from those of the path: a name that only idle pieces follow
gets the suffix, and the idle pieces around it are dropped; a path without such
a name is followed by one more piece (`trail_join`).
-/

namespace KeyInstall.Path

/-! ## All pieces of a text -/

theorem allPieces_slash (rest : List Char) : allPieces ('/' :: rest) = [] :: allPieces rest := by
  simp [allPieces, pieces]

theorem allPieces_append_slash (text rest : List Char) :
    allPieces (text ++ '/' :: rest) = allPieces text ++ allPieces rest := by
  induction text with
  | nil => exact allPieces_slash rest
  | cons c text ih =>
    by_cases slash : c = '/'
    · rw [slash, List.cons_append, allPieces_slash, allPieces_slash, ih, List.cons_append]
    · simp only [allPieces, List.cons_append, List.cons.injEq] at ih
      simp [allPieces, pieces, slash, ih]

theorem allPieces_of_plain {text : List Char} (plain : '/' ∉ text) : allPieces text = [text] := by
  have whole := pieces_joinPieces plain (List.forall_mem_nil ('/' ∉ ·))
  rw [joinPieces, List.flatMap_nil, List.append_nil] at whole
  rw [allPieces, whole]

/-- No slash is left in a piece. -/
theorem slash_not_mem_allPieces (text : List Char) :
    ∀ piece ∈ allPieces text, '/' ∉ piece := by
  induction text with
  | nil => simp [allPieces, pieces]
  | cons c text ih =>
    by_cases slash : c = '/'
    · rw [slash, allPieces_slash]
      simpa using ih
    · simp only [allPieces, List.mem_cons, forall_eq_or_imp] at ih
      simp only [allPieces, pieces, slash, if_false, List.mem_cons, forall_eq_or_imp, not_or]
      exact ⟨⟨Ne.symm slash, ih.1⟩, ih.2⟩

/-- A text is made up of its pieces. -/
theorem text_of_trail {path : Path} {first : List Char} {others : List (List Char)}
    (order : trail path = first :: others) : path.text.toList = joinPieces first others := by
  rw [trail, allPieces, List.cons.injEq] at order
  rw [← order.1, ← order.2, joinPieces_pieces]

theorem mem_iff_mem_allPieces {text : List Char} {c : Char} (other : c ≠ '/') :
    c ∈ text ↔ ∃ piece ∈ allPieces text, c ∈ piece := by
  have whole := joinPieces_pieces text
  have slashed : c ∈ joinPieces (pieces text).1 (pieces text).2 ↔
      ∃ piece ∈ allPieces text, c ∈ piece := by
    simp [joinPieces, allPieces, other]
  rw [whole] at slashed
  exact slashed

/-! ## A name below a path -/

/-- A path with a name below it has the pieces of the path, but for an empty one
after its last slash, and then the name. -/
theorem trail_join {path : Path} (nonempty : path.text.toList ≠ []) {name : String}
    (plain : '/' ∉ name.toList) :
    ∃ front tail, front ≠ [] ∧ trail path = front ++ tail ∧
      (∀ piece ∈ tail, isIdle piece = true) ∧
      trail (path.join name) = front ++ [name.toList] := by
  obtain ⟨before, last, ends⟩ : ∃ before last, path.text.toList = before ++ [last] :=
    ⟨_, _, (List.dropLast_concat_getLast nonempty).symm⟩
  have getLast : path.text.toList.getLast? = some last := by simp [ends]
  have nonempty : ∀ text, allPieces text ≠ [] := fun text => List.cons_ne_nil _ _
  -- A path that ends with a slash gets the name at once, any other one with a slash between.
  by_cases slash : last = '/'
  · refine ⟨allPieces before, [[]], nonempty before, ?_, by simp [isIdle], ?_⟩
    · rw [trail, ends, slash]
      exact allPieces_append_slash before []
    · rw [trail, join, getLast]
      simp only [slash, if_true, String.toList_append, ends, List.append_assoc,
        List.singleton_append, allPieces_append_slash, allPieces_of_plain plain]
  · refine ⟨trail path, [], nonempty _, by simp, by simp, ?_⟩
    rw [trail, join, getLast]
    simp only [slash, if_false, String.toList_append, List.append_assoc, trail]
    rw [show "/".toList = ['/'] from rfl, List.singleton_append, allPieces_append_slash,
      allPieces_of_plain plain]

/-- A path that ends with a name of its own, after the pieces that another path
begins with, is that name below a path that the other one begins with. -/
theorem exists_outer {path named : Path} {first name : List Char}
    {front later : List (List Char)} (order : trail path = first :: (front ++ later))
    (more : later ≠ []) (ends : trail named = first :: (front ++ [name])) :
    ∃ outer : Path, (∃ rest, path.text.toList = outer.text.toList ++ rest) ∧
      trail outer = first :: (front ++ [[]]) ∧ named = outer.join (String.ofList name) := by
  have plain := slash_not_mem_allPieces path.text.toList
  rw [← trail, order, List.forall_mem_cons] at plain
  have plainFront : ∀ piece ∈ front, '/' ∉ piece := fun piece member =>
    plain.2 piece (List.mem_append_left _ member)
  have whole := text_of_trail order
  have text := text_of_trail ends
  refine ⟨⟨String.ofList (joinPieces first front ++ ['/'])⟩, ?_, ?_, ?_⟩
  · cases later with
    | nil => exact absurd rfl more
    | cons piece later =>
      refine ⟨piece ++ later.flatMap ('/' :: ·), ?_⟩
      rw [whole, String.toList_ofList]
      simp [joinPieces]
  · rw [trail, String.toList_ofList, allPieces_append_slash, allPieces,
      pieces_joinPieces plain.1 plainFront]
    rfl
  · obtain ⟨written⟩ := named
    rw [join, String.toList_ofList, List.getLast?_concat]
    refine congrArg Path.mk (String.toList_injective ?_)
    rw [text]
    simp [joinPieces]

/-! ## The path of a backup -/

theorem trail_joinPieces {first : List Char} {others : List (List Char)} (plain : '/' ∉ first)
    (plainOthers : ∀ piece ∈ others, '/' ∉ piece) :
    trail ⟨String.ofList (joinPieces first others)⟩ = first :: others := by
  rw [trail, String.toList_ofList, allPieces, pieces_joinPieces plain plainOthers]

theorem slash_not_mem_suffixed {name : List Char} (plain : '/' ∉ name) :
    '/' ∉ name ++ backupSuffix.toList := by
  rw [List.mem_append, not_or]
  exact ⟨plain, by decide⟩

/-- A piece is a name if it is not empty and none of the two kinds of dots. -/
theorem isName_iff {piece : List Char} :
    isName piece = true ↔ piece ≠ [] ∧ piece ≠ ['.'] ∧ piece ≠ ['.', '.'] := by
  simp [isName, isIdle, and_assoc]

theorem isIdle_of_isName {piece : List Char} (named : isName piece = true) :
    isIdle piece = false := by
  obtain ⟨nonempty, here, -⟩ := isName_iff.mp named
  simp [isIdle, nonempty, here]

/-- With the suffix after it, every piece is a name. -/
theorem isName_append_suffix (piece : List Char) :
    isName (piece ++ backupSuffix.toList) = true := by
  have long : 4 ≤ (piece ++ backupSuffix.toList).length := by
    rw [List.length_append]
    exact Nat.le_add_left 4 _
  rw [isName_iff]
  refine ⟨?_, ?_, ?_⟩ <;>
  · intro short
    rw [short] at long
    exact absurd long (by decide)

/-- The idle pieces at the end of a list can be told from those before them. -/
theorem exists_idle_tail (pieces : List (List Char)) :
    ∃ tail, pieces = (pieces.reverse.dropWhile isIdle).reverse ++ tail ∧
      ∀ piece ∈ tail, isIdle piece = true := by
  refine ⟨(pieces.reverse.takeWhile isIdle).reverse, ?_, ?_⟩
  · rw [← List.reverse_append, List.takeWhile_append_dropWhile, List.reverse_reverse]
  · intro piece member
    exact List.all_eq_true.mp List.all_takeWhile piece (List.mem_reverse.mp member)

/-- A backup path is made from the pieces of the path. -/
theorem backup_eq {path : Path} {first : List Char} {others : List (List Char)}
    (order : trail path = first :: others) :
    path.backup =
      match others.reverse.dropWhile isIdle with
      | [] =>
        if isName first then ⟨String.ofList (first ++ backupSuffix.toList)⟩
        else path.join backupSuffix
      | last :: before =>
        if isName last then
          ⟨String.ofList (joinPieces first
            ((before.dropWhile isIdle).reverse ++ [last ++ backupSuffix.toList]))⟩
        else path.join backupSuffix := by
  rw [trail, allPieces, List.cons.injEq] at order
  obtain ⟨rfl, rfl⟩ := order
  rfl

/-- How the pieces of a path end, and what its backup is then. -/
inductive BackupTrail (path : Path) : Prop
  /-- A name that only idle pieces follow gets the suffix, and the idle pieces
  around it are dropped. -/
  | named (front idle tail : List (List Char)) (name : List Char)
    (order : trail path = front ++ (idle ++ name :: tail)) (alone : front = [] → idle = [])
    (idleBefore : ∀ piece ∈ idle, isIdle piece = true) (named : isName name = true)
    (idleAfter : ∀ piece ∈ tail, isIdle piece = true)
    (backup : trail path.backup = front ++ [name ++ backupSuffix.toList])
  /-- If the last piece that is not idle is no name, or all are idle, the backup is a
  name below the path. -/
  | nameless (front tail : List (List Char)) (last : List Char)
    (order : trail path = front ++ last :: tail) (nameless : isName last = false)
    (onlyIdle : isIdle last = true → front = [])
    (idleAfter : ∀ piece ∈ tail, isIdle piece = true)
    (backup : path.backup = path.join backupSuffix)

theorem backupTrail (path : Path) : BackupTrail path := by
  obtain ⟨first, others, order⟩ : ∃ first others, trail path = first :: others := ⟨_, _, rfl⟩
  have plain := slash_not_mem_allPieces path.text.toList
  rw [← trail, order, List.forall_mem_cons] at plain
  obtain ⟨plainFirst, plainOthers⟩ := plain
  obtain ⟨tail, ends, idleTail⟩ := exists_idle_tail others
  have backup := backup_eq order
  -- The name is looked for among the pieces after the first one, from the end on.
  split at backup
  · rename_i allIdle
    rw [allIdle, List.reverse_nil, List.nil_append] at ends
    rw [ends] at order
    split at backup
    · rename_i named
      have alone := trail_joinPieces (slash_not_mem_suffixed plainFirst)
        (List.forall_mem_nil ('/' ∉ ·))
      rw [joinPieces, List.flatMap_nil, List.append_nil] at alone
      exact .named [] [] tail first order (fun _ => rfl) (List.forall_mem_nil _) named idleTail
        (by rw [backup, alone, List.nil_append])
    · rename_i nameless
      exact .nameless [] tail first order (eq_false_of_ne_true nameless) (fun _ => rfl) idleTail
        backup
  · rename_i last before next
    have moves : isIdle last = false := by
      have kept := List.head_dropWhile_not isIdle (l := others.reverse) (by rw [next]; simp)
      simpa only [next, List.head_cons] using kept
    obtain ⟨idle, between, idleBetween⟩ := exists_idle_tail before.reverse
    rw [List.reverse_reverse] at between
    rw [next, List.reverse_cons, between] at ends
    split at backup
    · rename_i named
      refine .named (first :: (before.dropWhile isIdle).reverse) idle tail last ?_ (by simp)
        idleBetween named idleTail ?_
      · rw [order, ends]
        simp
      · rw [backup]
        refine trail_joinPieces plainFirst ?_
        intro piece member
        rcases List.mem_append.mp member with member | member
        · exact plainOthers piece (by rw [ends]; simp [member])
        · rw [List.mem_singleton.mp member]
          exact slash_not_mem_suffixed (plainOthers last (by rw [ends]; simp))
    · rename_i nameless
      refine .nameless (first :: ((before.dropWhile isIdle).reverse ++ idle)) tail last ?_
        (eq_false_of_ne_true nameless) (by simp [moves]) idleTail backup
      rw [order, ends]
      simp

/-! ## The text of a backup path -/

/-- A backup path has the pieces of its path, one of them with the suffix after
it, or the suffix alone. -/
theorem mem_trail_backup {path : Path} (nonempty : path.text.toList ≠ []) {piece : List Char}
    (member : piece ∈ path.backup.trail) :
    piece ∈ path.trail ∨ piece = backupSuffix.toList ∨
      ∃ name ∈ path.trail, piece = name ++ backupSuffix.toList := by
  cases backupTrail path with
  | named front idle tail name order alone idleBefore named idleAfter backup =>
    rw [backup, List.mem_append, List.mem_singleton] at member
    rcases member with outer | rfl
    · exact .inl (order ▸ List.mem_append_left _ outer)
    · exact .inr (.inr ⟨name, by simp [order], rfl⟩)
  | nameless front tail last order nameless onlyIdle idleAfter backup =>
    obtain ⟨front, tail, -, order, -, joined⟩ :=
      trail_join nonempty (show '/' ∉ backupSuffix.toList by decide)
    rw [backup, joined, List.mem_append, List.mem_singleton] at member
    rcases member with outer | rfl
    · exact .inl (order ▸ List.mem_append_left _ outer)
    · exact .inr (.inl rfl)

/-- A backup path ends with its suffix. -/
theorem suffix_mem_trail_backup {path : Path} (nonempty : path.text.toList ≠ []) :
    ∃ name, name ++ backupSuffix.toList ∈ path.backup.trail := by
  cases backupTrail path with
  | named front idle tail name order alone idleBefore named idleAfter backup =>
    exact ⟨name, by simp [backup]⟩
  | nameless front tail last order nameless onlyIdle idleAfter backup =>
    obtain ⟨front, tail, -, -, -, joined⟩ :=
      trail_join nonempty (show '/' ∉ backupSuffix.toList by decide)
    exact ⟨[], by simp [backup, joined]⟩

theorem backup_nonempty {path : Path} (nonempty : path.text.toList ≠ []) :
    path.backup.text.toList ≠ [] := by
  obtain ⟨name, member⟩ := suffix_mem_trail_backup nonempty
  intro empty
  rw [trail, empty] at member
  simp [allPieces, pieces, backupSuffix] at member

theorem backup_noNul {path : Path} (nonempty : path.text.toList ≠ [])
    (noNul : '\x00' ∉ path.text.toList) : '\x00' ∉ path.backup.text.toList := by
  have other : '\x00' ≠ '/' := by decide
  have plainSuffix : '\x00' ∉ backupSuffix.toList := by decide
  have plain : ∀ piece ∈ path.trail, '\x00' ∉ piece := fun piece member nul =>
    noNul ((mem_iff_mem_allPieces other).mpr ⟨piece, member, nul⟩)
  intro nul
  obtain ⟨piece, member, nul⟩ := (mem_iff_mem_allPieces other).mp nul
  rcases mem_trail_backup nonempty member with inside | rfl | ⟨name, inside, rfl⟩
  · exact plain piece inside nul
  · exact plainSuffix nul
  · rcases List.mem_append.mp nul with nul | nul
    · exact plain name inside nul
    · exact plainSuffix nul

end KeyInstall.Path
