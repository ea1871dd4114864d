import KeyInstall.Failure
import KeyInstall.Json.Parser
import KeyInstall.Json.Writer

/-!
# Configuration documents

A document is a JSON value with the path that it came from. `Document.install`
writes a key, an endpoint and a description into one server entry of it:

* the entry is `easygrid-mcp` if the document has that one and no `easygrid`,
  and `easygrid` in every other case (`Document.target`);
* the objects on the way down to it are created where they are absent;
* where something else than an object is in the way, that level is refused, and
  the document is returned as it then stands.

Keys that are present keep their places, and new ones go to the end.
-/

namespace KeyInstall

/-! ## Names -/

/-- The entries that may hold the key. -/
inductive ServerName where
  | easygrid
  | easygridMcp
  deriving DecidableEq, Repr

/-- The key of an entry. -/
def ServerName.text : ServerName → String
  | .easygrid => "easygrid"
  | .easygridMcp => "easygrid-mcp"

/-- The key under which the entries stand. -/
def serversKey : String := "mcpServers"

/-- The key of an entry's headers. -/
def headersKey : String := "headers"

/-- The header that carries the key. -/
def keyHeader : String := "X-MCP-API-Key"

/-- What is written into an entry. -/
structure Entry where
  apiKey : String
  url : String
  description : String
  deriving DecidableEq, Repr

/-- The endpoint of a local server. -/
def Entry.defaultUrl : String := "http://localhost:8080/api/mcp/v1"

/-- What the entry is called in an editor. -/
def Entry.defaultDescription : String := "EasyGrid CRUD - MCP HTTP"

/-- The entry of a local server. -/
def Entry.ofKey (apiKey : String) : Entry :=
  ⟨apiKey, Entry.defaultUrl, Entry.defaultDescription⟩

/-- The objects on the way down to the key, from the outside in. -/
inductive Level where
  | root
  | servers
  | server (name : ServerName)
  | headers (name : ServerName)
  deriving DecidableEq, Repr

/-- How a level is called in a message. -/
def Level.label : Level → String
  | .root => "(root)"
  | .servers => serversKey
  | .server name => serversKey ++ "." ++ name.text
  | .headers name => serversKey ++ "." ++ name.text ++ "." ++ headersKey

/-! ## Documents -/

/-- A JSON value and the path that it came from. -/
structure Document where
  path : Path
  root : Json
  deriving Repr

namespace Document

/-- Reads the text of a document. The path is for messages only. -/
def parse (path : Path) (text : String) : Except Failure Document :=
  match Json.parse text with
  | .error error => .error (.invalidConfig path error)
  | .ok root => .ok ⟨path, root⟩

/-- Reads the document at a path. -/
def read (disk : Disk) (path : Path) : Except Failure Document :=
  readText disk path (.missingConfig path) >>= parse path

/-- The text of a document. -/
def render (document : Document) : String := document.root.render

/-! ## The entry to write to -/

/-- The entry that is written to, among the entries that there are. -/
def targetAmong (servers : Table String Json) : ServerName :=
  if (Table.get? ServerName.easygrid.text servers).isNone ∧
      (Table.get? ServerName.easygridMcp.text servers).isSome then .easygridMcp
  else .easygrid

/-- The entry of a value that is written to. -/
def targetOf (root : Json) : ServerName :=
  match (root.field? serversKey).bind Json.fields? with
  | some servers => targetAmong servers
  | none => .easygrid

/-- The entry of a document that is written to. -/
def target (document : Document) : ServerName := targetOf document.root

/-! ## Writing the entry -/

/-- Works on the object under a key, which is created if the key is absent. If
something else is there, `level` is refused. The fields are returned as the
work leaves them, also when it fails. -/
def within {α : Type} (key : String) (level : Level)
    (work : Table String Json → Except Level α × Table String Json)
    (fields : Table String Json) : Except Level α × Table String Json :=
  match Table.get? key fields with
  | none =>
    let (result, inner) := work []
    (result, Table.set key (.object inner) fields)
  | some (.object inner) =>
    let (result, inner) := work inner
    (result, Table.set key (.object inner) fields)
  | some _ => (.error level, fields)

/-- Sets the header that carries the key. -/
def writeHeader (apiKey : String) (headers : Table String Json) :
    Except Level Unit × Table String Json :=
  (.ok (), Table.set keyHeader (.string apiKey) headers)

/-- Writes the fields of an entry: the headers, then the endpoint and the
description. -/
def writeEntry (name : ServerName) (entry : Entry) (server : Table String Json) :
    Except Level ServerName × Table String Json :=
  match within headersKey (.headers name) (writeHeader entry.apiKey) server with
  | (.error level, server) => (.error level, server)
  | (.ok (), server) =>
    (.ok name,
      Table.set "description" (.string entry.description)
        (Table.set "url" (.string entry.url) server))

/-- Writes an entry into a value and tells which one it was, or which level is
in the way. -/
def installIn (entry : Entry) (root : Json) : Except Level ServerName × Json :=
  match root with
  | .object fields =>
    let name := targetOf root
    let (result, fields) :=
      within serversKey .servers
        (within name.text (.server name) (writeEntry name entry)) fields
    (result, .object fields)
  | _ => (.error .root, root)

/-- Writes an entry into a document. The document is returned as it is left, in
either case. -/
def install (entry : Entry) (document : Document) :
    Except Failure ServerName × Document :=
  let (result, root) := installIn entry document.root
  (result.mapError fun level => .unexpectedShape document.path level.label,
    { document with root })

end Document

end KeyInstall
