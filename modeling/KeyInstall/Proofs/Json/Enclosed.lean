import KeyInstall.Json.Parser
import KeyInstall.Proofs.Json.Number

/-!
# Items between brackets

What `readItems` and `readEnclosed` give, in both directions: every item comes
from the reader of an item (`exists_run_of_mem_readEnclosed`), and items that
are written one after the other, with commas and layout between them, are read
as those items (`readEnclosed_items`).
-/

namespace KeyInstall.Json

/-! ## Layout -/

/-- Layout and nothing else. -/
def AreLayout (line : List Char) : Prop := ∀ c ∈ line, isLayout c = true

theorem skipLayout_append {line : List Char} (blank : AreLayout line)
    (text : List Char) : skipLayout (line ++ text) = skipLayout text :=
  List.dropWhile_append_of_pos blank

theorem skipLayout_cons {c : Char} (mark : isLayout c = false) (text : List Char) :
    skipLayout (c :: text) = c :: text := by
  simp [skipLayout, mark]

/-- Layout ends a number. -/
theorem endsNumber_of_isLayout {c : Char} (layout : isLayout c = true) (rest : List Char) :
    EndsNumber (c :: rest) := by
  refine endsNumber_cons rest ?_
  simp only [isLayout, Bool.or_eq_true, beq_iff_eq] at layout
  rcases layout with ((rfl | rfl) | rfl) | rfl <;> decide

/-! ## Enclosures -/

/-- The closing bracket is mistaken for nothing that stands before it. -/
structure Enclosure.Clear (enclosure : Enclosure) : Prop where
  notLayout : isLayout enclosure.close = false
  notComma : enclosure.close ≠ ','
  ends : ∀ rest, EndsNumber (enclosure.close :: rest)

theorem listEnclosure_clear : listEnclosure.Clear :=
  ⟨rfl, by simp [listEnclosure], fun rest => endsNumber_cons rest (by simp [listEnclosure])⟩

theorem objectEnclosure_clear : objectEnclosure.Clear :=
  ⟨rfl, by simp [objectEnclosure], fun rest => endsNumber_cons rest (by simp [objectEnclosure])⟩

variable {α : Type} {item : Reader α} {enclosure : Enclosure}

/-! ## Between items -/

/-- Before another item there is a comma. -/
theorem skipLayout_of_comma {text rest : List Char}
    (read : readSeparator enclosure text = .ok (.comma, rest)) :
    ∃ tail, skipLayout text = ',' :: tail ∧ rest = skipLayout tail := by
  unfold readSeparator at read
  split at read
  · cases read
  · rename_i c tail next
    split at read
    · cases read
    · split at read
      · rename_i comma
        split at read
        · cases read
        · cases read
          exact ⟨tail, comma ▸ next, rfl⟩
      · cases read

/-- The end of a container is its closing bracket. -/
theorem skipLayout_of_close {text rest : List Char}
    (read : readSeparator enclosure text = .ok (.close, rest)) :
    skipLayout text = enclosure.close :: rest := by
  unfold readSeparator at read
  split at read
  · cases read
  · rename_i c tail next
    split at read
    · rename_i close
      cases read
      rw [next, close]
    · split at read
      · split at read
        · cases read
        · cases read
      · cases read

theorem readSeparator_close {text tail : List Char}
    (next : skipLayout text = enclosure.close :: tail) :
    readSeparator enclosure text = .ok (.close, tail) := by
  simp only [readSeparator, next, if_true]

theorem readSeparator_comma {text tail : List Char} (clear : enclosure.close ≠ ',')
    (next : skipLayout text = ',' :: tail)
    (goesOn : (skipLayout tail).head? ≠ some enclosure.close) :
    readSeparator enclosure text = .ok (.comma, skipLayout tail) := by
  simp only [readSeparator, next, if_neg clear.symm, if_true, if_neg goesOn]

/-! ## One item after the other -/

section

variable {text rest next : List Char} {value : α} {fault : Fault}

theorem readItems_of_error (failed : item.run text = .error fault) :
    readItems item enclosure text = .error fault := by
  rw [readItems]
  split
  · rename_i other again
    rw [failed] at again
    cases again
    rfl
  · rename_i again
    rw [failed] at again
    cases again

theorem readItems_of_unseparated (found : item.run text = .ok (value, rest))
    (failed : readSeparator enclosure rest = .error fault) :
    readItems item enclosure text = .error fault := by
  rw [readItems]
  split
  · simp_all
  · rename_i again
    rw [found] at again
    cases again
    split <;> simp_all

theorem readItems_of_close (found : item.run text = .ok (value, rest))
    (closed : readSeparator enclosure rest = .ok (.close, next)) :
    readItems item enclosure text = .ok ([value], next) := by
  rw [readItems]
  split
  · simp_all
  · rename_i again
    rw [found] at again
    cases again
    split <;> simp_all

theorem readItems_of_comma (found : item.run text = .ok (value, rest))
    (more : readSeparator enclosure rest = .ok (.comma, next)) :
    readItems item enclosure text =
      (readItems item enclosure next).map fun (values, last) => (value :: values, last) := by
  rw [readItems]
  split
  · simp_all
  · rename_i again
    rw [found] at again
    cases again
    split <;> simp_all

end

/-! ## Items come from their reader -/

theorem exists_run_of_mem_readItems {text rest : List Char} {values : List α}
    (read : readItems item enclosure text = .ok (values, rest)) :
    ∀ value ∈ values, ∃ before after, item.run before = .ok (value, after) := by
  fun_induction readItems item enclosure text generalizing values with
  | case1 => cases read
  | case2 => cases read
  | case3 text first more found last closed =>
    cases read
    intro value member
    rw [List.mem_singleton] at member
    exact ⟨text, more, member ▸ found⟩
  | case4 text first more found next separated _ ih =>
    obtain ⟨inner, innerRead, rfl⟩ := mapValue_eq_ok_iff.mp read
    intro value member
    rcases List.mem_cons.mp member with rfl | member
    · exact ⟨text, more, found⟩
    · exact ih innerRead value member

/-- The first item is the one at the front of the text. -/
theorem exists_run_of_readItems {text rest : List Char} {values : List α}
    (read : readItems item enclosure text = .ok (values, rest)) :
    ∃ first others after, values = first :: others ∧ item.run text = .ok (first, after) := by
  unfold readItems at read
  split at read
  · cases read
  · rename_i first more found
    split at read
    · cases read
    · cases read
      exact ⟨first, [], more, rfl, found⟩
    · obtain ⟨inner, -, rfl⟩ := mapValue_eq_ok_iff.mp read
      exact ⟨first, inner, more, rfl, found⟩

/-- Every item of a container comes from the reader of an item. -/
theorem exists_run_of_mem_readEnclosed {text rest : List Char} {values : List α}
    (read : readEnclosed item enclosure text = .ok (values, rest)) :
    ∀ value ∈ values, ∃ before after, item.run before = .ok (value, after) := by
  unfold readEnclosed at read
  split at read
  · simp at read
  · split at read
    · simp only [Except.ok.injEq, Prod.mk.injEq] at read
      simp [← read.1]
    · exact exists_run_of_mem_readItems read

/-! ## Items that are written are read -/

/-- The text of the items after the first one, each with the comma and the
layout before it. -/
def itemsText (line : List Char) (write : α → List Char) (items : List α) : List Char :=
  items.flatMap fun value => ',' :: (line ++ write value)

/-- What an item reader needs of a written item: its text begins with a mark
that does not close the container, and is read as the item. -/
structure Legible (item : Reader α) (enclosure : Enclosure) (write : α → List Char)
    (value : α) : Prop where
  mark : ∃ c more, write value = c :: more ∧ isLayout c = false ∧ c ≠ enclosure.close
  reads : ∀ rest, EndsNumber rest → item.run (write value ++ rest) = .ok (value, rest)

variable {write : α → List Char} {line closing : List Char}

/-- After an item comes a comma, layout or the closing bracket. -/
theorem endsNumber_itemsText (clear : enclosure.Clear) (line : List Char)
    (write : α → List Char) (blank : AreLayout closing) (items : List α)
    (rest : List Char) :
    EndsNumber (itemsText line write items ++ (closing ++ enclosure.close :: rest)) := by
  cases items with
  | nil =>
    cases closing with
    | nil => exact clear.ends rest
    | cons c closing => exact endsNumber_of_isLayout (blank c List.mem_cons_self) _
  | cons value items => exact endsNumber_cons _ (by simp)

theorem readItems_items (clear : enclosure.Clear) (blankLine : AreLayout line)
    (blankClosing : AreLayout closing) (rest : List Char) {first : α}
    {items : List α} (legible : ∀ value ∈ first :: items, Legible item enclosure write value) :
    readItems item enclosure (write first ++
      (itemsText line write items ++ (closing ++ enclosure.close :: rest))) =
        .ok (first :: items, rest) := by
  induction items generalizing first with
  | nil =>
    have found := (legible first List.mem_cons_self).reads _
      (endsNumber_itemsText clear line write blankClosing [] rest)
    refine readItems_of_close found (readSeparator_close ?_)
    rw [itemsText, List.flatMap_nil, List.nil_append, skipLayout_append blankClosing,
      skipLayout_cons clear.notLayout]
  | cons second items ih =>
    have found := (legible first List.mem_cons_self).reads _
      (endsNumber_itemsText clear line write blankClosing (second :: items) rest)
    have later := ih fun value member => legible value (List.mem_cons_of_mem _ member)
    obtain ⟨c, more, equal, mark, other⟩ :=
      (legible second (List.mem_cons_of_mem _ List.mem_cons_self)).mark
    have next : skipLayout (itemsText line write (second :: items) ++
        (closing ++ enclosure.close :: rest)) = ',' :: (line ++ (write second ++
          (itemsText line write items ++ (closing ++ enclosure.close :: rest)))) := by
      rw [itemsText, List.flatMap_cons, ← itemsText, List.cons_append, List.cons_append,
        skipLayout_cons rfl]
      simp only [List.append_assoc]
    have token : skipLayout (line ++ (write second ++ (itemsText line write items ++
        (closing ++ enclosure.close :: rest)))) = write second ++
          (itemsText line write items ++ (closing ++ enclosure.close :: rest)) := by
      rw [skipLayout_append blankLine, equal, List.cons_append, skipLayout_cons mark]
    have goesOn : (skipLayout (line ++ (write second ++ (itemsText line write items ++
        (closing ++ enclosure.close :: rest))))).head? ≠ some enclosure.close := by
      rw [token, equal]
      simpa using other
    rw [readItems_of_comma found (readSeparator_comma clear.notComma next goesOn), token, later]
    rfl

/-- Items that are written in a container are read as those items. -/
theorem readEnclosed_items (clear : enclosure.Clear)
    (blankLine : AreLayout line) (blankClosing : AreLayout closing) (rest : List Char) {first : α}
    {items : List α} (legible : ∀ value ∈ first :: items, Legible item enclosure write value) :
    readEnclosed item enclosure (line ++ (write first ++
      (itemsText line write items ++ (closing ++ enclosure.close :: rest)))) =
        .ok (first :: items, rest) := by
  have items := readItems_items clear blankLine blankClosing rest legible
  obtain ⟨c, more, equal, mark, other⟩ := (legible first List.mem_cons_self).mark
  rw [readEnclosed, skipLayout_append blankLine]
  rw [equal, List.cons_append] at items ⊢
  rw [skipLayout_cons mark]
  simp only [other, if_false]
  exact items

/-- An empty container has no items. -/
theorem readEnclosed_nil (item : Reader α) (clear : enclosure.Clear) (rest : List Char) :
    readEnclosed item enclosure (enclosure.close :: rest) = .ok ([], rest) := by
  rw [readEnclosed, skipLayout_cons clear.notLayout]
  simp

end KeyInstall.Json
