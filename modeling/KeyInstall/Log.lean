import KeyInstall.Document

/-!
# Logs

What a run does is told in events. Each has a line in the log, and an origin: where
in the program it comes from, how much it matters, and what it tells of. A filter
goes by the origin alone when it shows an event or does not (`LogFilter.shows`).

Which filter a text asks for is for a library to say (`LogLibrary`). All that is
relied on is that it knows the names of the levels.
-/

namespace KeyInstall

/-! ## Events -/

/-- What a run has done. -/
inductive Event where
  | usingFiles (keyFile configFile : Path)
  | resolvedPaths (keyFile configFile : Path)
  | readKey (keyFile : Path) (length : Nat)
  | appliedEntry (server : ServerName)
  | wroteBackup (backupFile : Path)
  | wroteConfig (configFile : Path) (server : ServerName)
  deriving DecidableEq, Repr

namespace Event

/-- What is said of an event in general. -/
def message : Event → String
  | .usingFiles .. => "using files"
  | .resolvedPaths .. => "resolved paths"
  | .readKey .. => "read API key"
  | .appliedEntry .. => "applied EasyGrid entry"
  | .wroteBackup .. => "wrote backup"
  | .wroteConfig .. => "wrote config"

/-- The name of an entry, in quotes. -/
def quoted (server : ServerName) : String := "\"" ++ server.text ++ "\""

/-- What is said of this event, by names. -/
def values : Event → List (String × String)
  | .usingFiles keyFile configFile =>
    [("key_file", keyFile.text), ("config_file", configFile.text)]
  | .resolvedPaths keyFile configFile =>
    [("key_file", keyFile.text), ("config_file", configFile.text)]
  | .readKey keyFile length => [("path", keyFile.text), ("len", toString length)]
  | .appliedEntry server => [("server", quoted server)]
  | .wroteBackup backupFile => [("path", backupFile.text)]
  | .wroteConfig configFile server => [("path", configFile.text), ("server", quoted server)]

/-- The part of the program that tells an event. -/
def target : Event → String
  | .usingFiles .. => "easygrid_cursor_mcp"
  | .readKey .. => "easygrid_cursor_mcp::easygrid::api_key"
  | .appliedEntry .. => "easygrid_cursor_mcp::cursor::mcp_json"
  | .resolvedPaths .. | .wroteBackup .. | .wroteConfig .. => "easygrid_cursor_mcp::commands::update"

/-- The log line of an event, without the time and the colours that a log puts to it. -/
def line (event : Event) : String :=
  "DEBUG " ++ event.message ++
    String.join (event.values.map fun (name, value) => " " ++ name ++ "=" ++ value)

end Event

/-! ## Filters -/

/-- How much an event matters. -/
inductive Severity where
  | error
  | warn
  | info
  | debug
  | trace
  deriving DecidableEq, Repr

namespace Severity

/-- Every severity, from the gravest one on. -/
def all : List Severity := [.error, .warn, .info, .debug, .trace]

/-- The place among all of them. -/
def rank : Severity → Nat
  | .error => 1
  | .warn => 2
  | .info => 3
  | .debug => 4
  | .trace => 5

/-- What a severity is called. -/
def name : Severity → String
  | .error => "error"
  | .warn => "warn"
  | .info => "info"
  | .debug => "debug"
  | .trace => "trace"

end Severity

/-- All that a filter can tell an event by. -/
structure Origin where
  target : String
  severity : Severity
  /-- The names of what is said. -/
  fields : List String
  deriving DecidableEq, Repr

/-- Where an event comes from. All of them are details. -/
def Event.origin (event : Event) : Origin :=
  ⟨event.target, .debug, "message" :: event.values.map (·.1)⟩

/-- Shows some events and not others, by their origins. -/
abbrev LogFilter := Origin → Bool

namespace LogFilter

/-- Whether an event is shown. -/
def shows (filter : LogFilter) (event : Event) : Bool := filter event.origin

/-- Shows nothing. -/
def off : LogFilter := fun _ => false

/-- Shows what matters at least as much as a level. -/
def upTo (level : Severity) : LogFilter := fun origin => origin.severity.rank ≤ level.rank

/-- The filter that the name of a level asks for, in any letter case. -/
def ofName? (text : String) : Option LogFilter :=
  if text.toLower = "off" then some off
  else (Severity.all.find? fun level => level.name == text.toLower).map upTo

end LogFilter

/-! ## The library -/

/-- What a library makes of the texts that ask for a log. -/
structure LogLibrary where
  /-- The filter that a text asks for, as far as the text is understood. -/
  lenient : String → LogFilter
  /-- The filter that a text asks for, if all of it is understood. -/
  strict : String → Option LogFilter
  /-- The names of levels are understood. -/
  lenient_name : ∀ {text : String} {filter : LogFilter},
    LogFilter.ofName? text = some filter → lenient text = filter
  strict_name : ∀ {text : String} {filter : LogFilter},
    LogFilter.ofName? text = some filter → strict text = some filter

/-- A library that understands the name of a level and nothing else. -/
def LogLibrary.names : LogLibrary where
  lenient text := (LogFilter.ofName? text).getD (.upTo .error)
  strict := LogFilter.ofName?
  lenient_name := by
    intro text filter named
    rw [named]
    rfl
  strict_name := id

/-! ## Texts -/

/-- The lines of the events that are shown. -/
def logText (filter : LogFilter) (events : List Event) : String :=
  String.join ((events.filter filter.shows).map fun event => event.line ++ "\n")

end KeyInstall
