import KeyInstall.CommandLine.Reader
import KeyInstall.Json.Fault

/-!
# What a command line gives

A command line that is accepted gives what can be read off its arguments,
whatever their order (`read_given`): a flag is chosen exactly if an argument
names it, and a setting has exactly the value that stands after its name. One
argument is read at a time, and `Reads` says all that it can do.
-/

namespace KeyInstall.CommandLine

open Json (bind_eq_ok_iff)

/-! ## Arguments and their shapes -/

/-- The text of an argument. -/
def Argument.text : Argument → String
  | .separator => "--"
  | .long name none => "--" ++ name
  | .long name (some value) => "--" ++ name ++ "=" ++ value
  | .letters flags => String.ofList ('-' :: flags)
  | .plain given => given

theorem text_splitValue (text : List Char) :
    (splitValue text).text = String.ofList ('-' :: '-' :: text) := by
  have whole := List.takeWhile_append_dropWhile (p := (· ≠ '=')) (l := text)
  have head : ∀ c value, text.dropWhile (· ≠ '=') = c :: value → c = '=' := by
    intro c value ends
    have equals := List.head?_dropWhile_not (· ≠ '=') text
    rw [ends] at equals
    simpa using equals
  rw [splitValue]
  apply String.toList_inj.mp
  -- What is left after the name is nothing, or a value after an equals sign.
  generalize text.takeWhile (· ≠ '=') = name at whole ⊢
  generalize text.dropWhile (· ≠ '=') = after at whole head ⊢
  subst whole
  cases after with
  | nil => simp [Argument.text]
  | cons c value =>
    cases head c value rfl
    simp [Argument.text]

/-- Nothing is lost in the shape of an argument. -/
theorem text_ofText (text : String) : (Argument.ofText text).text = text := by
  apply String.toList_inj.mp
  unfold Argument.ofText
  split
  · rename_i two
    rw [two]
    rfl
  · rename_i name _ two
    rw [text_splitValue, two, String.toList_ofList]
  · rename_i letter more _ _ one
    rw [one, Argument.text, String.toList_ofList]
  · rfl

theorem ofText_long {name : List Char} (nonempty : name ≠ []) :
    Argument.ofText (String.ofList ('-' :: '-' :: name)) = splitValue name := by
  rw [Argument.ofText, String.toList_ofList]
  cases name with
  | nil => contradiction
  | cons c rest => rfl

theorem ofText_letters {letter : Char} {more : List Char} (other : letter ≠ '-') :
    Argument.ofText (String.ofList ('-' :: letter :: more)) = .letters (letter :: more) := by
  rw [Argument.ofText, String.toList_ofList]
  split <;> simp_all

/-- Flags are letters after one dash, and not after two. -/
theorem flags_of_letters {text : String} {flags : List Char}
    (shape : Argument.ofText text = .letters flags) : flags ≠ [] ∧ flags.head? ≠ some '-' := by
  unfold Argument.ofText at shape
  split at shape
  · cases shape
  · cases shape
  · rename_i letter more _ single _
    cases shape
    refine ⟨List.cons_ne_nil _ _, ?_⟩
    rintro ⟨⟩
    exact single rfl
  · cases shape

/-- The shapes of the texts that name an option. -/
theorem ofText_flag (flag : Flag) :
    Argument.ofText ("--" ++ flag.name) = .long flag.name none := by
  cases flag <;> decide

theorem ofText_eq_name_iff {setting : Setting} {text : String} :
    Argument.ofText text = .long setting.name none ↔ text = "--" ++ setting.name := by
  constructor
  · intro shape
    rw [← text_ofText text, shape]
    rfl
  · rintro rfl
    cases setting <;> decide

theorem ofText_eq_joined_iff {setting : Setting} {value text : String} :
    Argument.ofText text = .long setting.name (some value) ↔
      text = "--" ++ setting.name ++ "=" ++ value := by
  constructor
  · intro shape
    rw [← text_ofText text, shape]
    rfl
  rintro rfl
  have plain : ∀ c ∈ setting.name.toList, decide (c ≠ '=') = true := by
    refine List.all_eq_true.mp ?_
    cases setting <;> rfl
  have text : "--" ++ setting.name ++ "=" ++ value =
      String.ofList ('-' :: '-' :: (setting.name.toList ++ '=' :: value.toList)) := by
    apply String.toList_inj.mp
    simp
  rw [text, ofText_long (by simp), splitValue, List.takeWhile_append_of_pos plain,
    List.dropWhile_append_of_pos plain]
  simp

/-! ## Naming options -/

/-- An argument names a flag: by its long name, or by its letter after one dash,
alone or among others. -/
def Flag.NamedBy (flag : Flag) (argument : String) : Prop :=
  argument = "--" ++ flag.name ∨
    ∃ letters, argument = String.ofList ('-' :: letters) ∧ letters.head? ≠ some '-' ∧
      ∃ letter ∈ letters, Flag.ofLetter? letter = some flag

/-- Where arguments give a value to a setting: in the argument with its name, or
in the one after it. -/
inductive Gives (setting : Setting) (value : String) : List String → Prop
  | joined (rest : List String) : Gives setting value (("--" ++ setting.name ++ "=" ++ value) :: rest)
  | apart (rest : List String) : Gives setting value (("--" ++ setting.name) :: value :: rest)
  | later (argument : String) {rest : List String} : Gives setting value rest →
      Gives setting value (argument :: rest)

/-- The flags that a shape names. -/
def Argument.Names (argument : Argument) (flag : Flag) : Prop :=
  match argument with
  | .long name none => name = flag.name
  | .letters flags => ∃ letter ∈ flags, Flag.ofLetter? letter = some flag
  | _ => False

theorem namedBy_iff {flag : Flag} {text : String} :
    flag.NamedBy text ↔ (Argument.ofText text).Names flag := by
  constructor
  · rintro (rfl | ⟨letters, rfl, other, letter, member, named⟩)
    · rw [ofText_flag]
      rfl
    · cases letters with
      | nil => cases member
      | cons first more =>
        rw [ofText_letters (by simpa using other)]
        exact ⟨letter, member, named⟩
  · intro names
    have whole := text_ofText text
    cases shape : Argument.ofText text with
    | separator | plain =>
      rw [shape] at names
      cases names
    | long name value =>
      rw [shape] at names whole
      cases value with
      | none => exact .inl (names ▸ whole.symm)
      | some value => cases names
    | letters flags =>
      rw [shape] at names whole
      exact .inr ⟨flags, whole.symm, (flags_of_letters shape).2, names⟩

theorem gives_cons_iff {setting : Setting} {value text : String} {rest : List String} :
    Gives setting value (text :: rest) ↔ text = "--" ++ setting.name ++ "=" ++ value ∨
      (text = "--" ++ setting.name ∧ rest.head? = some value) ∨ Gives setting value rest := by
  constructor
  · intro gives
    cases gives with
    | joined => exact .inl rfl
    | apart => exact .inr (.inl ⟨rfl, rfl⟩)
    | later _ gives => exact .inr (.inr gives)
  · rintro (rfl | ⟨rfl, next⟩ | gives)
    · exact .joined rest
    · obtain ⟨tail, rfl⟩ := List.head?_eq_some_iff.mp next
      exact .apart tail
    · exact .later text gives

/-! ## Choices -/

/-- A flag is chosen. -/
def Choices.has (choices : Choices) : Flag → Bool
  | .dryRun => choices.dryRun
  | .verbose => choices.verbose
  | .help | .version => false

theorem value?_withValue (choices : Choices) (setting other : Setting) (value : String) :
    (choices.withValue setting value).value? other =
      if setting = other then some value else choices.value? other := by
  cases setting <;> cases other <;> rfl

theorem has_withValue (choices : Choices) (setting : Setting) (value : String) :
    (choices.withValue setting value).has = choices.has := by
  cases setting <;> funext flag <;> cases flag <;> rfl

/-- A setting gets its value only once. -/
theorem put_eq_ok {choices after : Choices} {setting : Setting} {value : String}
    (put : choices.put setting value = .ok after) :
    choices.value? setting = none ∧ after = choices.withValue setting value := by
  unfold Choices.put at put
  split at put
  · cases put
  · rename_i free
    split at put
    · cases put
    · exact ⟨by simpa using free, (Except.ok.inj put).symm⟩

/-- The value that a setting has got so far. -/
def Progress.given? (progress : Progress) (setting : Setting) : Option String :=
  match progress.unfinished with
  | some (named, some value) =>
    if named = setting then some value else progress.choices.value? setting
  | _ => progress.choices.value? setting

/-- No setting is left without a value, and the one that is unfinished has none
yet. -/
structure Progress.Ready (progress : Progress) : Prop where
  complete : ∀ setting, progress.unfinished ≠ some (setting, none)
  once : ∀ setting value, progress.unfinished = some (setting, some value) →
    progress.choices.value? setting = none

/-- A reading is finished with what it has got so far. -/
theorem finish_eq_ok {progress : Progress} {choices : Choices}
    (finished : progress.finish = .ok choices) :
    progress.Ready ∧ choices.has = progress.choices.has ∧ choices.value? = progress.given? := by
  unfold Progress.finish at finished
  cases open_ : progress.unfinished with
  | none =>
    rw [open_] at finished
    cases finished
    refine ⟨⟨by simp [open_], by simp [open_]⟩, rfl, ?_⟩
    funext setting
    simp [Progress.given?, open_]
  | some both =>
    obtain ⟨setting, value⟩ := both
    rw [open_] at finished
    cases value with
    | none => cases finished
    | some value =>
      obtain ⟨free, rfl⟩ := put_eq_ok finished
      refine ⟨⟨by simp [open_], ?_⟩, has_withValue _ _ _, ?_⟩
      · intro other given same
        rw [open_] at same
        cases same
        exact free
      · funext other
        simp only [Progress.given?, open_, value?_withValue]

/-! ## Reading one argument -/

/-- Flags are chosen in addition to what was given, and nothing is unfinished. -/
structure Marked (before : Progress) (flags : List Flag) (after : Progress) : Prop where
  ready : before.Ready
  finished : after.unfinished = none
  values : after.choices.value? = before.given?
  chosen : ∀ flag, after.choices.has flag = true ↔ before.choices.has flag = true ∨ flag ∈ flags

theorem marked_of_readFlag {flag : Flag} {before after : Progress}
    (read : readFlag flag before = .ok (.next after)) : Marked before [flag] after := by
  unfold readFlag at read
  obtain ⟨choices, finished, read⟩ := bind_eq_ok_iff.mp read
  obtain ⟨ready, has, values⟩ := finish_eq_ok finished
  cases flag with
  | help | version => cases read
  | dryRun | verbose =>
    simp only at read
    split at read
    · cases read
    · cases read
      refine ⟨ready, rfl, ?_, ?_⟩
      · rw [← values]
        funext setting
        cases setting <;> rfl
      · intro other
        rw [← has]
        cases other <;> simp [Choices.has]

theorem Marked.append {before middle after : Progress} {first second : List Flag}
    (one : Marked before first middle) (two : Marked middle second after) :
    Marked before (first ++ second) after := by
  refine ⟨one.ready, two.finished, ?_, ?_⟩
  · rw [two.values, ← one.values]
    funext setting
    simp [Progress.given?, one.finished]
  · intro flag
    rw [two.chosen, one.chosen, List.mem_append, or_assoc]

theorem marked_of_readFlags {letters : List Char} {before after : Progress} (nonempty : letters ≠ [])
    (read : readFlags letters before = .ok (.next after)) :
    ∃ flags, Marked before flags after ∧
      ∀ flag, flag ∈ flags ↔ ∃ letter ∈ letters, Flag.ofLetter? letter = some flag := by
  induction letters generalizing before with
  | nil => contradiction
  | cons letter letters ih =>
    rw [readFlags] at read
    split at read
    · cases read
    · rename_i flag named
      split at read
      · cases read
      · cases read
      · rename_i middle first
        have here := marked_of_readFlag first
        have same : ∀ other, other ∈ [flag] ↔ Flag.ofLetter? letter = some other := by
          intro other
          rw [named, List.mem_singleton, Option.some.injEq, eq_comm]
        by_cases last : letters = []
        · subst last
          cases read
          exact ⟨[flag], here, by simpa using same⟩
        · obtain ⟨flags, there, others⟩ := ih last read
          refine ⟨[flag] ++ flags, here.append there, ?_⟩
          intro other
          rw [List.mem_append, same, others]
          simp

/-- All that reading one argument can do, in front of the others. -/
inductive Reads (text : String) (rest : List String) (before : Progress) : Progress → Prop
  /-- It names flags. -/
  | flags {flags : List Flag} {after : Progress} : Marked before flags after →
    (∀ flag, flag ∈ flags ↔ flag.NamedBy text) →
    (∀ setting value, Argument.ofText text ≠ .long (Setting.name setting) value) →
    Reads text rest before after
  /-- It is the name of a setting, which waits for its value. -/
  | name (setting : Setting) {choices : Choices} :
    Argument.ofText text = .long setting.name none → before.finish = .ok choices →
    Reads text rest before ⟨choices, some (setting, none)⟩
  /-- It is the name of a setting with its value. -/
  | joined (setting : Setting) (value : String) {choices after : Choices} :
    Argument.ofText text = .long setting.name (some value) → before.finish = .ok choices →
    choices.put setting value = .ok after → Reads text rest before ⟨after, none⟩
  /-- It is the value of the setting that waits for one. -/
  | value (setting : Setting) : before.unfinished = some (setting, none) →
    Argument.ofText text = .plain text →
    Reads text rest before ⟨before.choices, some (setting, some text)⟩
  /-- It ends the arguments. -/
  | separator : Argument.ofText text = .separator → rest = [] → Reads text rest before before

/-- A name belongs to one option. -/
theorem Flag.name_ne (flag : Flag) (setting : Setting) : flag.name ≠ setting.name := by
  cases flag <;> cases setting <;> decide

theorem Setting.name_inj {setting other : Setting} :
    setting.name = other.name ↔ setting = other := by
  cases setting <;> cases other <;> decide

theorem name_of_ofName? {name : String} {known : Known}
    (found : Known.ofName? name = some known) : known.name = name := by
  have named := List.find?_some found
  simpa using named

theorem reads_of_readArgument {text : String} {rest : List String} {before after : Progress}
    (read : readArgument text rest before = .ok (.next after)) : Reads text rest before after := by
  have whole := text_ofText text
  unfold readArgument at read
  cases shape : Argument.ofText text with
  | separator =>
    rw [shape] at read
    cases rest with
    | nil =>
      cases read
      exact .separator shape rfl
    | cons extra rest => cases read
  | plain given =>
    rw [shape] at read whole
    obtain rfl : given = text := whole
    simp only [readPlain] at read
    split at read
    · rename_i setting waits
      cases read
      exact .value setting waits shape
    · cases read
  | letters letters =>
    rw [shape] at read
    obtain ⟨flags, marked, same⟩ := marked_of_readFlags (flags_of_letters shape).1 read
    refine .flags marked ?_ (by simp [shape])
    intro flag
    rw [same, namedBy_iff, shape]
    rfl
  | long name value =>
    rw [shape] at read whole
    simp only [readLong] at read
    cases found : Known.ofName? name with
    | none =>
      rw [found] at read
      cases read
    | some known =>
      have named := name_of_ofName? found
      rw [found] at read
      cases known with
      | setting setting =>
        cases value with
        | none =>
          obtain ⟨choices, finished, read⟩ := bind_eq_ok_iff.mp read
          cases read
          exact .name setting (by rw [shape, ← named]; rfl) finished
        | some value =>
          obtain ⟨choices, finished, read⟩ := bind_eq_ok_iff.mp read
          obtain ⟨put, done, read⟩ := bind_eq_ok_iff.mp read
          cases read
          exact .joined setting value (by rw [shape, ← named]; rfl) finished done
      | flag flag =>
        cases value with
        | some value => cases read
        | none =>
          refine .flags (marked_of_readFlag read) ?_ ?_
          · intro other
            rw [namedBy_iff, shape, List.mem_singleton]
            show other = flag ↔ name = other.name
            rw [← named]
            cases flag <;> cases other <;> decide
          · intro setting value same
            rw [shape, ← named] at same
            exact flag.name_ne setting (Argument.long.inj same).1

/-! ## What one argument gives -/

theorem not_namedBy_of_setting {setting : Setting} {value : Option String} {text : String}
    (shape : Argument.ofText text = .long setting.name value) (flag : Flag) :
    ¬ flag.NamedBy text := by
  rw [namedBy_iff, shape]
  cases value with
  | none => exact fun same => flag.name_ne setting same.symm
  | some value => exact id

theorem has_of_reads {text : String} {rest : List String} {before after : Progress}
    (reads : Reads text rest before after) (flag : Flag) :
    after.choices.has flag = true ↔ before.choices.has flag = true ∨ flag.NamedBy text := by
  cases reads with
  | flags marked same _ => rw [marked.chosen, same]
  | name setting shape finished =>
    rw [(finish_eq_ok finished).2.1]
    exact (or_iff_left (not_namedBy_of_setting shape flag)).symm
  | joined setting value shape finished put =>
    rw [(put_eq_ok put).2, has_withValue, (finish_eq_ok finished).2.1]
    exact (or_iff_left (not_namedBy_of_setting shape flag)).symm
  | value setting waits shape | separator shape _ =>
    have unnamed : ¬ flag.NamedBy text := by
      rw [namedBy_iff, shape]
      exact id
    exact (or_iff_left unnamed).symm

/-- What a setting has got, or is about to get from the next argument. -/
def Progress.Receives (progress : Progress) (setting : Setting) (value : String)
    (arguments : List String) : Prop :=
  progress.given? setting = some value ∨
    progress.unfinished = some (setting, none) ∧ arguments.head? = some value

theorem receives_of_reads {text : String} {rest : List String} {before after : Progress}
    (reads : Reads text rest before after) (ready : rest = [] → after.Ready)
    (once : ∀ setting value, after.unfinished = some (setting, some value) →
      after.choices.value? setting = none) (setting : Setting) (value : String) :
    after.Receives setting value rest ↔ before.Receives setting value (text :: rest) ∨
      text = "--" ++ setting.name ++ "=" ++ value ∨
      (text = "--" ++ setting.name ∧ rest.head? = some value) := by
  simp only [Progress.Receives, ← ofText_eq_name_iff, ← ofText_eq_joined_iff]
  cases reads with
  | flags marked _ other =>
    have given : after.given? setting = before.given? setting := by
      rw [← marked.values, Progress.given?, marked.finished]
    simp [given, marked.finished, marked.ready.complete, other]
  | @name named choices shape finished =>
    obtain ⟨before_ready, -, values⟩ := finish_eq_ok finished
    have given : (⟨choices, some (named, none)⟩ : Progress).given? setting =
        before.given? setting := by
      rw [← values, Progress.given?]
    simp [given, shape, before_ready.complete, Setting.name_inj]
  | @joined named given choices after shape finished put =>
    obtain ⟨before_ready, -, values⟩ := finish_eq_ok finished
    obtain ⟨free, rfl⟩ := put_eq_ok put
    have got : (⟨choices.withValue named given, none⟩ : Progress).given? setting =
        if named = setting then some given else before.given? setting := by
      rw [← values, Progress.given?, value?_withValue]
    rw [values] at free
    by_cases same : named = setting
    · subst same
      simp [got, shape, before_ready.complete, free]
    · simp [got, shape, before_ready.complete, Setting.name_inj, same]
  | value named waits shape =>
    have free := once named text rfl
    have got : (⟨before.choices, some (named, some text)⟩ : Progress).given? setting =
        if named = setting then some text else before.given? setting := by
      simp only [Progress.given?, waits]
    have nothing : before.given? named = none := by
      simpa only [Progress.given?, waits] using free
    by_cases same : named = setting
    · subst same
      simp [got, shape, waits, nothing]
    · simp [got, shape, waits, same]
  | separator shape last =>
    subst last
    simp [shape, (ready rfl).complete]

/-! ## Reading all arguments -/

/-- Only flags answer, and not with a run. -/
theorem not_answer_run {text : String} {rest : List String} {progress : Progress}
    {choices : Choices} : readArgument text rest progress ≠ .ok (.answer (.run choices)) := by
  have oneFlag : ∀ flag progress, readFlag flag progress ≠ .ok (.answer (.run choices)) := by
    intro flag progress read
    obtain ⟨finished, -, read⟩ := bind_eq_ok_iff.mp read
    cases flag with
    | help | version => cases read
    | dryRun | verbose =>
      simp only at read
      split at read <;> cases read
  have flags : ∀ letters progress, readFlags letters progress ≠ .ok (.answer (.run choices)) := by
    intro letters
    induction letters with
    | nil => exact fun progress read => by cases read
    | cons letter letters ih =>
      intro progress read
      rw [readFlags] at read
      split at read
      · cases read
      · split at read
        · cases read
        · rename_i request answered
          cases read
          exact oneFlag _ _ answered
        · exact ih _ read
  intro read
  unfold readArgument at read
  split at read
  · unfold readLong at read
    split at read
    · cases read
    · exact oneFlag _ _ read
    · cases read
    · obtain ⟨finished, -, read⟩ := bind_eq_ok_iff.mp read
      cases read
    · obtain ⟨finished, -, read⟩ := bind_eq_ok_iff.mp read
      obtain ⟨put, -, read⟩ := bind_eq_ok_iff.mp read
      cases read
  · exact flags _ _ read
  · unfold readPlain at read
    split at read <;> cases read
  · split at read <;> cases read

/-- A reading that is accepted goes on after its first argument. -/
theorem exists_next {text : String} {rest : List String} {progress : Progress}
    {choices : Choices} (read : readFrom progress (text :: rest) = .ok (.run choices)) :
    ∃ next, Reads text rest progress next ∧ readFrom next rest = .ok (.run choices) := by
  rw [readFrom] at read
  split at read
  · cases read
  · rename_i request answered
    cases read
    exact absurd answered not_answer_run
  · rename_i next one
    exact ⟨next, reads_of_readArgument one, read⟩

theorem finish_of_readFrom {progress : Progress} {choices : Choices}
    (read : readFrom progress [] = .ok (.run choices)) : progress.finish = .ok choices := by
  rw [readFrom] at read
  cases finished : progress.finish with
  | error fault =>
    rw [finished] at read
    cases read
  | ok choices =>
    rw [finished] at read
    cases read
    rfl

/-- Where the reading is accepted, the setting that is unfinished has no value
yet. -/
theorem once_of_readFrom {progress : Progress} {arguments : List String} {choices : Choices}
    (read : readFrom progress arguments = .ok (.run choices)) (setting : Setting) (value : String)
    (given : progress.unfinished = some (setting, some value)) :
    progress.choices.value? setting = none := by
  cases arguments with
  | nil => exact (finish_eq_ok (finish_of_readFrom read)).1.once setting value given
  | cons text rest =>
    obtain ⟨next, reads, later⟩ := exists_next read
    cases reads with
    | flags marked => exact marked.ready.once setting value given
    | name _ _ finished | joined _ _ _ finished _ =>
      exact (finish_eq_ok finished).1.once setting value given
    | value named waits =>
      rw [waits] at given
      cases given
    | separator _ last =>
      subst last
      exact (finish_eq_ok (finish_of_readFrom later)).1.once setting value given

theorem has_of_readFrom {arguments : List String} {progress : Progress} {choices : Choices}
    (read : readFrom progress arguments = .ok (.run choices)) (flag : Flag) :
    choices.has flag = true ↔ progress.choices.has flag = true ∨
      ∃ argument ∈ arguments, flag.NamedBy argument := by
  induction arguments generalizing progress with
  | nil =>
    rw [(finish_eq_ok (finish_of_readFrom read)).2.1]
    simp
  | cons text rest ih =>
    obtain ⟨next, reads, later⟩ := exists_next read
    rw [ih later, has_of_reads reads, or_assoc]
    simp only [List.mem_cons, or_and_right, exists_or, exists_eq_left]

theorem value?_of_readFrom {arguments : List String} {progress : Progress} {choices : Choices}
    (read : readFrom progress arguments = .ok (.run choices)) (setting : Setting)
    (value : String) :
    choices.value? setting = some value ↔
      progress.Receives setting value arguments ∨ Gives setting value arguments := by
  induction arguments generalizing progress with
  | nil =>
    obtain ⟨ready, -, values⟩ := finish_eq_ok (finish_of_readFrom read)
    have nothing : ¬ Gives setting value [] := nofun
    rw [values, Progress.Receives]
    simp [nothing]
  | cons text rest ih =>
    obtain ⟨next, reads, later⟩ := exists_next read
    have ready : rest = [] → next.Ready := by
      rintro rfl
      exact (finish_eq_ok (finish_of_readFrom later)).1
    rw [ih later, receives_of_reads reads ready (once_of_readFrom later), gives_cons_iff]
    simp only [or_assoc]

/-- A command line that is accepted gives the flags that its arguments name, and
each setting the value that stands after its name. -/
theorem read_given {arguments : List String} {choices : Choices}
    (accepted : read arguments = .ok (.run choices)) :
    (∀ flag, choices.has flag = true ↔ ∃ argument ∈ arguments, flag.NamedBy argument) ∧
      ∀ setting value, choices.value? setting = some value ↔ Gives setting value arguments := by
  constructor
  · intro flag
    have start : Progress.start.choices.has flag = false := by cases flag <;> rfl
    rw [has_of_readFrom accepted, start]
    simp
  · intro setting value
    have start : ¬ Progress.start.Receives setting value arguments := by
      cases setting <;> simp [Progress.Receives, Progress.start, Progress.given?, Choices.empty,
        Choices.value?]
    rw [value?_of_readFrom accepted, or_iff_right start]

end KeyInstall.CommandLine
