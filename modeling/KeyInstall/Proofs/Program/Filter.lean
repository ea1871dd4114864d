import KeyInstall.Program
import KeyInstall.Proofs.CommandLine.Given

/-!
# Asking for a log

A flag asks for the details of a run. Without it a text from outside may ask for
something else, and what that is the library says (`Program.Asks`). The flag, and the
names of the two most talkative levels, ask for all that is told
(`Program.Asks.detailed`).
-/

namespace KeyInstall

/-! ## Filters -/

namespace LogFilter

variable {filter : LogFilter}

/-- A filter shows all that can be told. -/
def Detailed (filter : LogFilter) : Prop := ∀ event, filter.shows event = true

/-- A filter shows nothing of it. -/
def Silent (filter : LogFilter) : Prop := ∀ event, filter.shows event = false

theorem Detailed.filter_shows (detailed : filter.Detailed) (events : List Event) :
    events.filter filter.shows = events :=
  List.filter_eq_self.mpr fun event _ => detailed event

theorem Silent.filter_shows (silent : filter.Silent) (events : List Event) :
    events.filter filter.shows = [] := by
  refine List.filter_eq_nil_iff.mpr fun event _ => ?_
  rw [silent event]
  decide

theorem silent_off : off.Silent := fun _ => rfl

/-- Every event is a detail. -/
theorem detailed_upTo {level : Severity} (atLeast : Severity.debug.rank ≤ level.rank) :
    (upTo level).Detailed := fun _ => decide_eq_true atLeast

/-- The name of a level asks for that level, in any letter case. -/
theorem ofName?_of_toLower {text : String} {level : Severity} (named : text.toLower = level.name) :
    ofName? text = some (upTo level) := by
  cases level <;> simp [ofName?, named, Severity.name, Severity.all]

end LogFilter

theorem LogLibrary.lenient_debug (library : LogLibrary) :
    library.lenient "debug" = LogFilter.upTo .debug :=
  library.lenient_name (LogFilter.ofName?_of_toLower (by decide +kernel))

theorem LogLibrary.lenient_warn (library : LogLibrary) :
    library.lenient "warn" = LogFilter.upTo .warn :=
  library.lenient_name (LogFilter.ofName?_of_toLower (by decide +kernel))

namespace Program

open CommandLine (Choices Flag)

/-! ## Asking for a log -/

/-- The flag that asks for a log is there. -/
def Flagged (arguments : List String) : Prop :=
  ∃ argument ∈ arguments, Flag.verbose.NamedBy argument

/-- The filter that arguments and a text from outside ask for. -/
inductive Asks (library : LogLibrary) (arguments : List String) (logLevel : Option String) :
    LogFilter → Prop
  /-- The flag asks for the details, whatever the text asks for. -/
  | flag : Flagged arguments → Asks library arguments logLevel (.upTo .debug)
  /-- Else the text is asked, if there is one and all of it is understood. -/
  | outside {text : String} {filter : LogFilter} : ¬ Flagged arguments → logLevel = some text →
      library.strict text = some filter → Asks library arguments logLevel filter
  | unasked : ¬ Flagged arguments → (∀ text, logLevel = some text → library.strict text = none) →
      Asks library arguments logLevel (.upTo .warn)

/-- All that is told is asked for, by the flag or from outside. -/
def LogWanted (arguments : List String) (logLevel : Option String) : Prop :=
  Flagged arguments ∨
    ∃ text, logLevel = some text ∧ (text.toLower = "debug" ∨ text.toLower = "trace")

variable {library : LogLibrary} {arguments : List String} {choices : Choices}
  {logLevel : Option String} {filter : LogFilter}

theorem verbose_iff (accepted : CommandLine.read arguments = .ok (.run choices)) :
    choices.verbose = true ↔ Flagged arguments :=
  (CommandLine.read_given accepted).1 .verbose

theorem asks_logFilter (accepted : CommandLine.read arguments = .ok (.run choices))
    (library : LogLibrary) (logLevel : Option String) :
    Asks library arguments logLevel (logFilter library choices logLevel) := by
  unfold logFilter
  split
  · rename_i verbose
    rw [library.lenient_debug]
    exact .flag ((verbose_iff accepted).mp verbose)
  · rename_i quiet
    have unflagged := mt (verbose_iff accepted).mpr quiet
    cases understood : logLevel.bind library.strict with
    | some filter =>
      obtain ⟨text, asked, understood⟩ := Option.bind_eq_some_iff.mp understood
      exact .outside unflagged asked understood
    | none =>
      rw [Option.getD_none, library.lenient_warn]
      exact .unasked unflagged fun text asked => Option.bind_eq_none_iff.mp understood text asked

/-- Where a log is wanted, all of it is shown. -/
theorem Asks.detailed (asks : Asks library arguments logLevel filter)
    (wanted : LogWanted arguments logLevel) : filter.Detailed := by
  have named : ∀ {text : String}, text.toLower = "debug" ∨ text.toLower = "trace" →
      ∃ level, Severity.debug.rank ≤ level.rank ∧
        library.strict text = some (LogFilter.upTo level) := by
    rintro text (debug | trace)
    · exact ⟨.debug, by decide, library.strict_name (LogFilter.ofName?_of_toLower debug)⟩
    · exact ⟨.trace, by decide, library.strict_name (LogFilter.ofName?_of_toLower trace)⟩
  cases asks with
  | flag => exact LogFilter.detailed_upTo (Nat.le_refl _)
  | outside unflagged asked understood =>
    obtain ⟨text, again, name⟩ := wanted.resolve_left unflagged
    obtain rfl := Option.some.inj (asked.symm.trans again)
    obtain ⟨level, atLeast, again⟩ := named name
    obtain rfl := Option.some.inj (understood.symm.trans again)
    exact LogFilter.detailed_upTo atLeast
  | unasked unflagged unread =>
    obtain ⟨text, asked, name⟩ := wanted.resolve_left unflagged
    obtain ⟨_, -, understood⟩ := named name
    rw [unread text asked] at understood
    cases understood

end Program

end KeyInstall
