import Mathlib.Data.List.Nodup
import KeyInstall.Program
import KeyInstall.Proofs.CommandLine.Given

/-!
# Spellings of a command line

What a command line asks for are `Wish`es, and there are many ways to spell them
(`Spelled`): a value stands in the argument of its setting or in the next one, a
switch has a long and a short name, short names go together in one argument, and
nothing has to follow a separator. All spellings of the same wishes, in any
order, are accepted and run alike (`spellings_agree`).

A reading that is given wishes one by one stands for choices at each point: those
that it would finish with. Every spelling of a wish adds that wish to them.
-/

namespace KeyInstall.CommandLine

/-! ## Wishes -/

/-- The flags that change a run. -/
inductive Switch where
  | dryRun
  | verbose
  deriving DecidableEq, Repr

def Switch.flag : Switch → Flag
  | .dryRun => .dryRun
  | .verbose => .verbose

/-- The short name of a switch. -/
def Switch.letter : Switch → Char
  | .dryRun => 'n'
  | .verbose => 'v'

/-- One thing that a command line asks for. -/
inductive Wish where
  | setting (setting : Setting) (value : String)
  | switch (switch : Switch)
  deriving DecidableEq, Repr

/-- The option that a wish is about. -/
def Wish.option : Wish → Known
  | .setting named _ => .setting named
  | .switch named => .flag named.flag

/-- A value is not empty, and not to be taken for an option. -/
def Wish.Plain : Wish → Prop
  | .setting _ value => value ≠ "" ∧ value.toList.head? ≠ some '-'
  | .switch _ => True

/-- Choices with one more wish. -/
def Choices.grant (choices : Choices) : Wish → Choices
  | .setting setting value => choices.withValue setting value
  | .switch .dryRun => { choices with dryRun := true }
  | .switch .verbose => { choices with verbose := true }

/-- The choices that wishes make. -/
def Choices.ofWishes (wishes : List Wish) : Choices := wishes.foldl Choices.grant .empty

/-- How wishes are spelled as arguments. -/
inductive Spelled : List Wish → List String → Prop
  | nil : Spelled [] []
  | separator : Spelled [] ["--"]
  | joined (setting : Setting) (value : String) {wishes : List Wish} {rest : List String} :
      Spelled wishes rest →
      Spelled (.setting setting value :: wishes) (("--" ++ setting.name ++ "=" ++ value) :: rest)
  | apart (setting : Setting) (value : String) {wishes : List Wish} {rest : List String} :
      Spelled wishes rest →
      Spelled (.setting setting value :: wishes) (("--" ++ setting.name) :: value :: rest)
  | long (switch : Switch) {wishes : List Wish} {rest : List String} : Spelled wishes rest →
      Spelled (.switch switch :: wishes) (("--" ++ switch.flag.name) :: rest)
  /-- One letter, or several together. -/
  | short {switches : List Switch} {wishes : List Wish} {rest : List String} : switches ≠ [] →
      Spelled wishes rest →
      Spelled (switches.map .switch ++ wishes)
        (String.ofList ('-' :: switches.map Switch.letter) :: rest)

/-! ## Wishes that are new -/

/-- An option is not given yet. -/
def Choices.Lacks (choices : Choices) : Known → Prop
  | .setting setting => choices.value? setting = none
  | .flag flag => choices.has flag = false

/-- Wishes for different options, none of which is given yet. -/
structure Choices.Awaits (choices : Choices) (wishes : List Wish) : Prop where
  once : (wishes.map Wish.option).Nodup
  lacks : ∀ wish ∈ wishes, choices.Lacks wish.option

theorem value?_grant_switch (choices : Choices) (switch : Switch) :
    (choices.grant (.switch switch)).value? = choices.value? := by
  funext setting
  cases switch <;> cases setting <;> rfl

theorem has_grant_switch (choices : Choices) (switch : Switch) (flag : Flag) :
    (choices.grant (.switch switch)).has flag = (choices.has flag || flag == switch.flag) := by
  cases switch <;> cases flag <;> simp [Choices.grant, Choices.has, Switch.flag]

theorem lacks_grant {choices : Choices} {wish : Wish} {other : Known}
    (lacks : choices.Lacks other) (different : wish.option ≠ other) :
    (choices.grant wish).Lacks other := by
  cases wish with
  | setting setting value =>
    cases other with
    | setting other =>
      have unequal : setting ≠ other := fun same => different (congrArg Known.setting same)
      exact (value?_withValue choices setting other value).trans ((if_neg unequal).trans lacks)
    | flag flag => exact (congrFun (has_withValue choices setting value) flag).trans lacks
  | switch switch =>
    cases other with
    | setting other => exact (congrFun (value?_grant_switch choices switch) other).trans lacks
    | flag flag =>
      have unequal : flag ≠ switch.flag := fun same => different (congrArg Known.flag same.symm)
      have before : choices.has flag = false := lacks
      show (choices.grant (.switch switch)).has flag = false
      rw [has_grant_switch, before, beq_false_of_ne unequal]
      rfl

variable {choices : Choices} {wish : Wish} {wishes others : List Wish}

/-- A wish that is awaited and granted leaves the others awaited. -/
theorem Choices.Awaits.grant (awaits : choices.Awaits (wish :: wishes)) :
    choices.Lacks wish.option ∧ (choices.grant wish).Awaits wishes := by
  obtain ⟨once, lacks⟩ := awaits
  rw [List.map_cons, List.nodup_cons] at once
  refine ⟨lacks wish List.mem_cons_self, once.2, ?_⟩
  intro other member
  refine lacks_grant (lacks other (List.mem_cons_of_mem wish member)) ?_
  intro same
  exact once.1 (same ▸ List.mem_map_of_mem (f := Wish.option) member)

theorem Choices.awaits_of_nodup (once : (wishes.map Wish.option).Nodup) :
    Choices.empty.Awaits wishes := by
  refine ⟨once, ?_⟩
  intro wish _
  cases wish with
  | setting setting value => cases setting <;> rfl
  | switch switch => cases switch <;> rfl

/-! ## Reading one wish -/

variable {progress : Progress}

theorem put_of_lacks {setting : Setting} {value : String} (lacks : choices.value? setting = none)
    (nonempty : value ≠ "") : choices.put setting value = .ok (choices.withValue setting value) := by
  simp [Choices.put, lacks, nonempty]

theorem ofText_plain {value : String} (plain : value.toList.head? ≠ some '-') :
    Argument.ofText value = .plain value := by
  unfold Argument.ofText
  split <;> simp_all

theorem ofName?_setting (setting : Setting) :
    Known.ofName? setting.name = some (.setting setting) := by
  cases setting <;> decide

theorem ofName?_switch (switch : Switch) :
    Known.ofName? switch.flag.name = some (.flag switch.flag) := by
  cases switch <;> decide

/-- A switch is granted by reading its flag. -/
theorem readFlag_switch {switch : Switch} (finishes : progress.finish = .ok choices)
    (lacks : choices.Lacks (.flag switch.flag)) :
    readFlag switch.flag progress = .ok (.next ⟨choices.grant (.switch switch), none⟩) := by
  cases switch with
  | dryRun =>
    have off : choices.dryRun = false := lacks
    simp [readFlag, Switch.flag, finishes, bind, Except.bind, off, pure, Except.pure, Choices.grant]
  | verbose =>
    have off : choices.verbose = false := lacks
    simp [readFlag, Switch.flag, finishes, bind, Except.bind, off, pure, Except.pure, Choices.grant]

/-- So are several switches, by their letters. -/
theorem readFlags_switches {switches : List Switch} (finishes : progress.finish = .ok choices)
    (awaits : choices.Awaits (switches.map .switch ++ wishes)) :
    ∃ next, readFlags (switches.map Switch.letter) progress = .ok (.next next) ∧
      next.finish = .ok ((switches.map Wish.switch).foldl Choices.grant choices) ∧
      ((switches.map Wish.switch).foldl Choices.grant choices).Awaits wishes := by
  induction switches generalizing progress choices with
  | nil => exact ⟨progress, rfl, finishes, awaits⟩
  | cons switch switches ih =>
    obtain ⟨lacks, later⟩ := awaits.grant
    have letter : Flag.ofLetter? switch.letter = some switch.flag := by cases switch <;> decide
    have granted : Progress.finish ⟨choices.grant (.switch switch), none⟩ =
        .ok (choices.grant (.switch switch)) := rfl
    obtain ⟨next, read, finished, awaited⟩ := ih granted later
    refine ⟨next, ?_, finished, awaited⟩
    rw [List.map_cons, readFlags, letter]
    simp only [readFlag_switch finishes lacks, read]

/-! ## Reading all wishes -/

theorem readFrom_next {text : String} {rest : List String} {next : Progress}
    (read : readArgument text rest progress = .ok (.next next)) :
    readFrom progress (text :: rest) = readFrom next rest := by
  rw [readFrom, read]

/-- The name of a setting is read, and the setting waits for its value. -/
theorem readArgument_name {rest : List String} (setting : Setting)
    (finishes : progress.finish = .ok choices) :
    readArgument ("--" ++ setting.name) rest progress =
      .ok (.next ⟨choices, some (setting, none)⟩) := by
  simp only [readArgument, ofText_eq_name_iff.mpr rfl, readLong, ofName?_setting, finishes, bind,
    Except.bind, pure, Except.pure]

theorem readArgument_joined {rest : List String} {setting : Setting} {value : String}
    (finishes : progress.finish = .ok choices)
    (put : choices.put setting value = .ok (choices.withValue setting value)) :
    readArgument ("--" ++ setting.name ++ "=" ++ value) rest progress =
      .ok (.next ⟨choices.withValue setting value, none⟩) := by
  simp only [readArgument, ofText_eq_joined_iff.mpr rfl, readLong, ofName?_setting, finishes, put,
    bind, Except.bind, pure, Except.pure]

/-- A reading goes on through every spelling of wishes that it awaits, and ends
with the choices that they make. -/
theorem readFrom_spelled {arguments : List String} (spelled : Spelled wishes arguments)
    (plain : ∀ wish ∈ wishes, wish.Plain) (awaits : choices.Awaits wishes)
    (finishes : progress.finish = .ok choices) :
    readFrom progress arguments = .ok (.run (wishes.foldl Choices.grant choices)) := by
  induction spelled generalizing progress choices with
  | nil =>
    rw [readFrom, finishes]
    rfl
  | separator =>
    have read : readArgument "--" [] progress = .ok (.next progress) := rfl
    rw [readFrom_next read, readFrom, finishes]
    rfl
  | @joined setting value wishes rest _ ih =>
    obtain ⟨lacks, later⟩ := awaits.grant
    rw [List.forall_mem_cons] at plain
    have put := put_of_lacks lacks plain.1.1
    rw [readFrom_next (readArgument_joined finishes put)]
    exact ih plain.2 later rfl
  | @apart setting value wishes rest _ ih =>
    obtain ⟨lacks, later⟩ := awaits.grant
    rw [List.forall_mem_cons] at plain
    have put := put_of_lacks lacks plain.1.1
    have value : readArgument value rest ⟨choices, some (setting, none)⟩ =
        .ok (.next ⟨choices, some (setting, some value)⟩) := by
      simp only [readArgument, ofText_plain plain.1.2, readPlain]
    rw [readFrom_next (readArgument_name setting finishes), readFrom_next value]
    -- The value belongs to the choices as soon as the reading finishes.
    exact ih plain.2 later put
  | @long switch wishes rest _ ih =>
    obtain ⟨lacks, later⟩ := awaits.grant
    rw [List.forall_mem_cons] at plain
    have read : readArgument ("--" ++ switch.flag.name) rest progress =
        .ok (.next ⟨choices.grant (.switch switch), none⟩) := by
      simp only [readArgument, ofText_flag, readLong, ofName?_switch,
        readFlag_switch finishes lacks]
    rw [readFrom_next read]
    exact ih plain.2 later rfl
  | @short switches wishes rest nonempty _ ih =>
    obtain ⟨next, read, finished, later⟩ := readFlags_switches finishes awaits
    rw [List.forall_mem_append] at plain
    have shape : Argument.ofText (String.ofList ('-' :: switches.map Switch.letter)) =
        .letters (switches.map Switch.letter) := by
      cases switches with
      | nil => contradiction
      | cons switch switches =>
        exact ofText_letters (by cases switch <;> decide)
    have letters : readArgument (String.ofList ('-' :: switches.map Switch.letter)) rest progress =
        .ok (.next next) := by
      simp only [readArgument, shape, read]
    rw [readFrom_next letters, List.foldl_append]
    exact ih plain.2 later finished

/-! ## What is read -/

theorem value?_foldl_grant (awaits : choices.Awaits wishes) (setting : Setting) (value : String) :
    (wishes.foldl Choices.grant choices).value? setting = some value ↔
      choices.value? setting = some value ∨ .setting setting value ∈ wishes := by
  induction wishes generalizing choices with
  | nil => simp
  | cons wish wishes ih =>
    obtain ⟨lacks, later⟩ := awaits.grant
    rw [List.foldl_cons, ih later, List.mem_cons]
    cases wish with
    | setting named given =>
      have free : choices.value? named = none := lacks
      show (choices.withValue named given).value? setting = some value ∨ _ ↔ _
      rw [value?_withValue]
      by_cases same : named = setting
      · subst same
        simp [free, eq_comm]
      · simp [same, Ne.symm same]
    | switch switch => simp [value?_grant_switch]

theorem has_foldl_grant (choices : Choices) (wishes : List Wish) (switch : Switch) :
    (wishes.foldl Choices.grant choices).has switch.flag = true ↔
      choices.has switch.flag = true ∨ .switch switch ∈ wishes := by
  induction wishes generalizing choices with
  | nil => simp
  | cons wish wishes ih =>
    rw [List.foldl_cons, ih, List.mem_cons]
    cases wish with
    | setting named given =>
      show (choices.withValue named given).has switch.flag = true ∨ _ ↔ _
      simp [has_withValue]
    | switch other =>
      rw [has_grant_switch]
      cases switch <;> cases other <;> simp [Switch.flag]

theorem grant_comm {first second : Wish} (different : first.option ≠ second.option)
    (choices : Choices) :
    (choices.grant first).grant second = (choices.grant second).grant first := by
  cases first with
  | setting named given =>
    cases second with
    | setting other given' =>
      have unequal : named ≠ other := fun same => different (congrArg Known.setting same)
      cases named <;> cases other <;> simp_all [Choices.grant, Choices.withValue]
    | switch switch => cases named <;> cases switch <;> rfl
  | switch switch =>
    cases second with
    | setting other given => cases other <;> cases switch <;> rfl
    | switch other => cases switch <;> cases other <;> rfl

/-- Wishes for different options make the same choices in any order. -/
theorem ofWishes_perm (once : (wishes.map Wish.option).Nodup) (perm : wishes.Perm others) :
    Choices.ofWishes wishes = Choices.ofWishes others := by
  refine perm.foldl_eq' ?_ Choices.empty
  intro first member second member' choices
  by_cases same : first.option = second.option
  · rw [List.inj_on_of_nodup_map once member member' same]
  · exact grant_comm same choices

/-! ## Spellings of the same wishes -/

/-- Two command lines are accepted with the choices that wishes make, and no run
tells them apart. -/
structure RunAlike (wishes : List Wish) (arguments arguments' : List String) (choices : Choices) :
    Prop where
  accepted : read arguments = .ok (.run choices)
  accepted' : read arguments' = .ok (.run choices)
  values : ∀ setting value,
    choices.value? setting = some value ↔ .setting setting value ∈ wishes
  switches : ∀ switch : Switch, choices.has switch.flag = true ↔ .switch switch ∈ wishes
  /-- The exit code, the outputs and the disk are the same. -/
  run : ∀ surroundings, Program.run surroundings arguments' = Program.run surroundings arguments

theorem read_spelled {arguments : List String} (spelled : Spelled wishes arguments)
    (once : (wishes.map Wish.option).Nodup) (plain : ∀ wish ∈ wishes, wish.Plain) :
    read arguments = .ok (.run (.ofWishes wishes)) :=
  readFrom_spelled spelled plain (Choices.awaits_of_nodup once) rfl

/-- Wishes for different options, with plain values, are granted however they are
spelled, and in whatever order. -/
theorem spellings_agree {arguments arguments' : List String}
    (once : (wishes.map Wish.option).Nodup) (plain : ∀ wish ∈ wishes, wish.Plain)
    (perm : wishes.Perm others) (spelled : Spelled wishes arguments)
    (spelled' : Spelled others arguments') :
    ∃ choices, RunAlike wishes arguments arguments' choices := by
  have once' : (others.map Wish.option).Nodup := (perm.map Wish.option).nodup_iff.mp once
  have plain' : ∀ wish ∈ others, wish.Plain :=
    fun wish member => plain wish (perm.mem_iff.mpr member)
  have accepted := read_spelled spelled once plain
  have accepted' := read_spelled spelled' once' plain'
  rw [← ofWishes_perm once perm] at accepted'
  have awaits := Choices.awaits_of_nodup once
  refine ⟨.ofWishes wishes, accepted, accepted', ?_, ?_, ?_⟩
  · intro setting value
    have nothing : Choices.empty.value? setting ≠ some value := by cases setting <;> nofun
    exact (value?_foldl_grant awaits setting value).trans (or_iff_right nothing)
  · intro switch
    have off : ¬ Choices.empty.has switch.flag = true := by cases switch <;> nofun
    exact (has_foldl_grant .empty wishes switch).trans (or_iff_right off)
  · intro surroundings
    rw [Program.run, Program.run, accepted, accepted']

/-- A value that is the name of a setting, and one with an equals sign in it. -/
def variedWishes : List Wish :=
  [.setting .url "config", .switch .dryRun, .switch .verbose, .setting .keyFile "a=b c"]

theorem spellings_agree_varied :
    Spelled variedWishes ["--url", "config", "-nv", "--key-file=a=b c"] ∧
      ∃ choices, RunAlike variedWishes ["--url", "config", "-nv", "--key-file=a=b c"]
        ["--key-file", "a=b c", "--verbose", "--url=config", "-n", "--"] choices := by
  have once : (variedWishes.map Wish.option).Nodup := by decide
  have plain : ∀ wish ∈ variedWishes, wish.Plain := by
    simp [variedWishes, Wish.Plain]
  have perm : variedWishes.Perm [.setting .keyFile "a=b c", .switch .verbose,
      .setting .url "config", .switch .dryRun] := by decide
  have spelled : Spelled variedWishes ["--url", "config", "-nv", "--key-file=a=b c"] :=
    .apart .url "config" (@Spelled.short [.dryRun, .verbose] _ _ (by simp)
      (.joined .keyFile "a=b c" .nil))
  have spelled' : Spelled [.setting .keyFile "a=b c", .switch .verbose, .setting .url "config",
      .switch .dryRun] ["--key-file", "a=b c", "--verbose", "--url=config", "-n", "--"] :=
    .apart .keyFile "a=b c" (.long .verbose (.joined .url "config"
      (@Spelled.short [.dryRun] _ _ (by simp) .separator)))
  exact ⟨spelled, spellings_agree once plain perm spelled spelled'⟩

end KeyInstall.CommandLine
