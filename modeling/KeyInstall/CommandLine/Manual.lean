/-!
# The manual

What is printed when a command line asks for help or for the version.
-/

namespace KeyInstall.CommandLine

/-- The name and the version of the program. -/
def versionText : String := "easygrid-cursor-mcp 0.1.0\n"

/-- What the program does and which options it takes. -/
def helpText : String :=
  "Inject the EasyGrid API key into Cursor's mcp.json\n" ++
  "\n" ++
  "Usage: easygrid-cursor-mcp [OPTIONS]\n" ++
  "\n" ++
  "Options:\n" ++
  "      --key-file <KEY_FILE>        API key file (default: ~/.easygrid/api-key)\n" ++
  "      --config <CONFIG>            Cursor MCP config file (default: ~/.cursor/mcp.json)\n" ++
  "      --url <URL>                  MCP endpoint written to the entry\n" ++
  "      --description <DESCRIPTION>  Description written to the entry\n" ++
  "  -n, --dry-run                    Show the resulting config without writing anything\n" ++
  "  -v, --verbose                    Print debug logs to stderr\n" ++
  "  -h, --help                       Print help\n" ++
  "  -V, --version                    Print version\n"

end KeyInstall.CommandLine
