import KeyInstall.Proofs.Document.Obstacle

/-!
# An entry that is refused

Objects on the way down to an entry are created one by one, and each of them
could be left behind by an installation that is refused further down. None is
(`install_of_error`): below an object that had to be created nothing is in the
way, so whatever is refused is refused among the objects that were there.

So an entry is written as a whole or not at all (`install_all_or_nothing`). It
is refused for the outermost value that is in its way.
-/

namespace KeyInstall.Document

variable {α : Type} {key : String} {level : Level} {fields : Table String Json}

/-- What is under a key that holds an object is that object. -/
theorem get?_of_fieldsUnder? {value : Json} {inner : Table String Json}
    (here : Table.get? key fields = some value) (found : fieldsUnder? key fields = some inner) :
    value = .object inner := by
  rw [fieldsUnder?, here] at found
  cases value with
  | object fields =>
    cases found
    rfl
  | null | bool | number | string | array => simp [Json.fields?] at found

/-- Work that leaves what it fails on, and that does not fail on nothing, leaves
the fields around it when it fails. -/
theorem within_snd_of_error {work : Table String Json → Except Level α × Table String Json}
    {failed : Level}
    (keeps : ∀ inner, (work inner).1 = .error failed → (work inner).2 = inner)
    (starts : (work []).1 ≠ .error failed)
    (refused : (within key level work fields).1 = .error failed) :
    (within key level work fields).2 = fields := by
  cases found : fieldsUnder? key fields with
  | none => rw [within_of_obstacle work found]
  | some inner =>
    rw [within_of_fields work found] at refused ⊢
    cases here : Table.get? key fields with
    | none =>
      -- The object was created, so the work started from no fields.
      rw [fieldsUnder?, here] at found
      cases found
      exact absurd refused starts
    | some value =>
      rw [keeps inner refused]
      exact Table.set_eq_self (here.trans (congrArg some (get?_of_fieldsUnder? here found)))

theorem writeEntry_snd_of_error {name : ServerName} {entry : Entry} {server : Table String Json}
    {failed : Level} (refused : (writeEntry name entry server).1 = .error failed) :
    (writeEntry name entry server).2 = server := by
  cases found : fieldsUnder? headersKey server with
  | none => rw [writeEntry_of_obstacle name entry found]
  | some headers => simp [writeEntry_of_fields name entry found] at refused

/-- The work itself decides what is left: an object that was created for work that is refused
stays behind. -/
example : within "a" .root (fun inner => ((.error .servers : Except Level Unit), inner)) [] =
    (.error .servers, [("a", .object [])]) := rfl

/-- Nothing is in the way of an entry that is new. -/
theorem writeEntry_nil (name : ServerName) (entry : Entry) :
    (writeEntry name entry []).1 = .ok name := by
  rw [writeEntry_of_fields name entry (show fieldsUnder? headersKey [] = some [] from rfl)]

theorem installIn_snd_of_error {entry : Entry} {root : Json} {failed : Level}
    (refused : (installIn entry root).1 = .error failed) : (installIn entry root).2 = root := by
  cases root with
  | object fields =>
    rw [installIn_object] at refused ⊢
    refine congrArg Json.object (within_snd_of_error ?_ ?_ refused)
    · intro servers below
      refine within_snd_of_error ?_ ?_ below
      · intro server
        exact writeEntry_snd_of_error
      · rw [writeEntry_nil]
        simp
    · rw [within_of_fields _ (show fieldsUnder? _ [] = some [] from rfl), writeEntry_nil]
      simp
  | null | bool | number | string | array => rfl

/-- An entry that is refused leaves the document as it was. -/
theorem install_of_error {entry : Entry} {document : Document} {failure : Failure}
    (refused : (document.install entry).1 = .error failure) :
    document.install entry = (.error failure, document) := by
  refine Prod.ext refused ?_
  rw [install_eq] at refused ⊢
  cases result : (installIn entry document.root).1 with
  | ok name =>
    rw [result] at refused
    simp [Except.mapError] at refused
  | error failed =>
    show Document.mk document.path (installIn entry document.root).2 = document
    rw [installIn_snd_of_error result]

/-! ## All or nothing -/

/-- An entry is refused for the first level that is obstructed. -/
theorem install_eq_error_iff {entry : Entry} {document : Document} {failure : Failure} :
    (document.install entry).1 = .error failure ↔
      ∃ level, FirstWithout (Unobstructed document.root) (levels document.root) level ∧
        failure = .unexpectedShape document.path level.label := by
  rw [install_eq]
  cases result : (installIn entry document.root).1 with
  | ok name =>
    have clear := (installIn_eq_ok_iff.mp result).2
    constructor
    · intro refused
      simp [Except.mapError] at refused
    · rintro ⟨level, first, -⟩
      exact absurd clear first.not_forall
  | error level =>
    have first := installIn_eq_error_iff.mp result
    simp only [Except.mapError, Except.error.injEq]
    constructor
    · rintro rfl
      exact ⟨level, first, rfl⟩
    · rintro ⟨other, again, rfl⟩
      rw [first.unique again]

/-- A level is obstructed if there is something at it that is no object. -/
theorem not_unobstructed_iff {root : Json} {level : Level} :
    ¬ Unobstructed root level ↔
      ∃ value, valueAt? root level = some value ∧ ∀ fields, value ≠ .object fields := by
  simp [Unobstructed]

/-- An entry is refused exactly if some level is obstructed. -/
theorem exists_error_iff {entry : Entry} {document : Document} :
    (∃ failure, (document.install entry).1 = .error failure) ↔
      ∃ level ∈ levels document.root, ¬ Unobstructed document.root level := by
  constructor
  · rintro ⟨failure, refused⟩
    obtain ⟨level, first, -⟩ := install_eq_error_iff.mp refused
    exact ⟨level, first.mem, first.lacks⟩
  · rintro ⟨level, member, obstructed⟩
    cases result : (document.install entry).1 with
    | error failure => exact ⟨failure, rfl⟩
    | ok name =>
      have clear := (installIn_eq_ok_iff.mp (install_eq_ok_iff.mp result)).2
      exact absurd (clear level member) obstructed

/-- An entry is written as a whole or not at all. -/
structure AllOrNothing (entry : Entry) (document : Document) : Prop where
  /-- It is refused exactly if something at one of its levels is no object. -/
  refused : (∃ failure, (document.install entry).1 = .error failure) ↔
    ∃ level ∈ levels document.root, ∃ value, valueAt? document.root level = some value ∧
      ∀ fields, value ≠ .object fields
  /-- The outermost of these levels is told, and nothing else ever is. -/
  told : ∀ failure, (document.install entry).1 = .error failure ↔
    ∃ level, FirstWithout (Unobstructed document.root) (levels document.root) level ∧
      failure = .unexpectedShape document.path level.label
  /-- How the levels are told, from the outside in. -/
  labels : (levels document.root).map Level.label =
    ["(root)", "mcpServers", "mcpServers." ++ document.target.text,
      "mcpServers." ++ document.target.text ++ ".headers"]
  /-- Nothing that was created on the way down is left behind. -/
  untouched : ∀ failure, (document.install entry).1 = .error failure →
    (document.install entry).2 = document

/-- Whatever stands in a document, an entry is written into it as a whole or not at all. -/
theorem install_all_or_nothing (entry : Entry) (document : Document) :
    AllOrNothing entry document where
  refused := by
    simp only [exists_error_iff, not_unobstructed_iff]
  told _ := install_eq_error_iff
  labels := by
    show ["(root)", "mcpServers", Level.label (.server document.target),
      Level.label (.headers document.target)] = _
    cases document.target <;> rfl
  untouched failure refused := by
    rw [install_of_error refused]

end KeyInstall.Document
