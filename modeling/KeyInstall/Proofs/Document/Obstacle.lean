import KeyInstall.Proofs.Document.Levels

/-!
# What is in the way of an entry

An entry is written through four levels, and it is refused at the outermost one
where something else than an object stands (`installIn_eq_error_iff`). If no
level is obstructed, it is written (`installIn_eq_ok_iff`).
-/

namespace KeyInstall

/-! ## The first without a property -/

/-- The first of some things that does not have a property. -/
inductive FirstWithout {α : Type} (p : α → Prop) : List α → α → Prop
  | here {x : α} {rest : List α} : ¬ p x → FirstWithout p (x :: rest) x
  | later {x found : α} {rest : List α} : p x → FirstWithout p rest found →
      FirstWithout p (x :: rest) found

namespace FirstWithout

variable {α : Type} {p : α → Prop} {first second : List α} {found other : α}

theorem unique (one : FirstWithout p first found) (two : FirstWithout p first other) :
    found = other := by
  induction one with
  | here lacks =>
    cases two with
    | here _ => rfl
    | later has _ => exact absurd has lacks
  | later has _ ih =>
    cases two with
    | here lacks => exact absurd has lacks
    | later _ rest => exact ih rest

theorem mem (one : FirstWithout p first found) : found ∈ first := by
  induction one with
  | here _ => exact List.mem_cons_self
  | later _ _ ih => exact List.mem_cons_of_mem _ ih

theorem lacks (one : FirstWithout p first found) : ¬ p found := by
  induction one with
  | here lacks => exact lacks
  | later _ _ ih => exact ih

/-- There is a first one only if not all have the property. -/
theorem not_forall (one : FirstWithout p first found) : ¬ ∀ x ∈ first, p x :=
  fun all => one.lacks (all found one.mem)

theorem append_left (one : FirstWithout p first found) (second : List α) :
    FirstWithout p (first ++ second) found := by
  induction one with
  | here lacks => exact .here lacks
  | later has _ ih => exact .later has ih

theorem append_right (all : ∀ x ∈ first, p x) (one : FirstWithout p second found) :
    FirstWithout p (first ++ second) found := by
  induction first with
  | nil => exact one
  | cons x rest ih =>
    exact .later (all x List.mem_cons_self) (ih fun y member => all y (List.mem_cons_of_mem _ member))

end FirstWithout

namespace Document

/-! ## Levels -/

/-- What stands at a level of a value, if anything does. -/
def valueAt? (root : Json) : Level → Option Json
  | .root => some root
  | .servers => root.field? serversKey
  | .server name => serverOf? root name
  | .headers name => (serverOf? root name).bind (Json.field? headersKey)

/-- Nothing but an object stands at a level. Null is something. -/
def Unobstructed (root : Json) (level : Level) : Prop :=
  ∀ value, valueAt? root level = some value → ∃ fields, value = .object fields

/-- The levels that an entry is written through, from the outside in. -/
def levels (root : Json) : List Level :=
  [.root, .servers, .server (targetOf root), .headers (targetOf root)]

variable {key : String} {root : Json} {level : Level} {fields inner : Table String Json}

/-- A level that holds the field of an object is unobstructed if there are fields
to work on under its key. -/
theorem unobstructed_of_fields (holds : valueAt? root level = Table.get? key fields)
    (found : fieldsUnder? key fields = some inner) : Unobstructed root level := by
  intro value here
  rw [holds] at here
  rw [fieldsUnder?, here] at found
  cases value with
  | object fields => exact ⟨fields, rfl⟩
  | null | bool | number | string | array => simp [Json.fields?] at found

theorem obstructed_of_obstacle (holds : valueAt? root level = Table.get? key fields)
    (obstacle : fieldsUnder? key fields = none) : ¬ Unobstructed root level := by
  intro clear
  rw [fieldsUnder?] at obstacle
  cases here : Table.get? key fields with
  | none => simp [here] at obstacle
  | some value =>
    obtain ⟨inner, rfl⟩ := clear value (holds.trans here)
    simp [here, Json.fields?] at obstacle

theorem unobstructed_root (fields : Table String Json) : Unobstructed (.object fields) .root := by
  rintro value ⟨⟩
  exact ⟨fields, rfl⟩

/-! ## Refusals -/

/-- How an installation ends is a matter of the first level that is obstructed. -/
inductive InstallEnd (root : Json) : Except Level ServerName → Prop
  | refused {level : Level} : FirstWithout (Unobstructed root) (levels root) level →
      InstallEnd root (.error level)
  | written : (∀ level ∈ levels root, Unobstructed root level) →
      InstallEnd root (.ok (targetOf root))

theorem installEnd (entry : Entry) (root : Json) : InstallEnd root (installIn entry root).1 := by
  cases root with
  | object fields =>
    have outside := unobstructed_root fields
    rw [installIn_object]
    -- From the outside in: the fields found at one level hold the next one.
    have first : valueAt? (.object fields) .servers = Table.get? serversKey fields := rfl
    cases found : fieldsUnder? serversKey fields with
    | none =>
      rw [within_of_obstacle _ found]
      exact .refused (.later outside (.here (obstructed_of_obstacle first found)))
    | some servers =>
      have servers_clear := unobstructed_of_fields first found
      rw [within_of_fields _ found]
      have second : valueAt? (.object fields) (.server (targetOf (.object fields))) =
          Table.get? (targetOf (.object fields)).text servers :=
        bind_field?_of_fields found _
      cases below : fieldsUnder? (targetOf (.object fields)).text servers with
      | none =>
        rw [within_of_obstacle _ below]
        exact .refused (.later outside (.later servers_clear
          (.here (obstructed_of_obstacle second below))))
      | some server =>
        have server_clear := unobstructed_of_fields second below
        rw [within_of_fields _ below]
        have third : valueAt? (.object fields) (.headers (targetOf (.object fields))) =
            Table.get? headersKey server := by
          rw [valueAt?, show serverOf? _ _ = _ from second]
          exact bind_field?_of_fields below _
        cases deepest : fieldsUnder? headersKey server with
        | none =>
          rw [writeEntry_of_obstacle _ entry deepest]
          exact .refused (.later outside (.later servers_clear (.later server_clear
            (.here (obstructed_of_obstacle third deepest)))))
        | some headers =>
          rw [writeEntry_of_fields _ entry deepest]
          have headers_clear := unobstructed_of_fields third deepest
          refine .written ?_
          simp only [levels, List.forall_mem_cons]
          exact ⟨outside, servers_clear, server_clear, headers_clear, List.forall_mem_nil _⟩
  | null | bool | number | string | array =>
    refine .refused (.here fun clear => ?_)
    obtain ⟨fields, equal⟩ := clear _ rfl
    cases equal

/-- An entry is refused at the outermost level that is obstructed. -/
theorem installIn_eq_error_iff {entry : Entry} :
    (installIn entry root).1 = .error level ↔
      FirstWithout (Unobstructed root) (levels root) level := by
  have ends := installEnd entry root
  generalize (installIn entry root).1 = result at ends ⊢
  cases ends with
  | refused first =>
    constructor
    · rintro ⟨⟩
      exact first
    · intro other
      rw [first.unique other]
  | written clear => exact ⟨fun same => (by cases same), fun first => absurd clear first.not_forall⟩

/-- An entry is written exactly if no level is obstructed, and then to the target. -/
theorem installIn_eq_ok_iff {entry : Entry} {name : ServerName} :
    (installIn entry root).1 = .ok name ↔
      name = targetOf root ∧ ∀ level ∈ levels root, Unobstructed root level := by
  have ends := installEnd entry root
  generalize (installIn entry root).1 = result at ends ⊢
  cases ends with
  | refused first => exact ⟨fun same => (by cases same), fun both => absurd both.2 first.not_forall⟩
  | written clear =>
    constructor
    · rintro ⟨⟩
      exact ⟨rfl, clear⟩
    · rintro ⟨rfl, -⟩
      rfl

end Document

end KeyInstall
