/-
What the program says about itself.
-/
import LiveFiles.Command.LogLevel

namespace LiveFiles.Command

def versionText : String := "filesync 0.1.0\n"

def aboutLines : List String :=
  ["Keep a live, cached view of files and print every change.", "", "Usage: filesync [OPTIONS] [PATH]...", ""]

def levelChoices : String :=
  "[possible values: " ++ ", ".intercalate (LogLevel.all.map LogLevel.name) ++ "]"

/-- one line for each argument -/
def shortHelp : List String :=
  aboutLines ++
  ["Arguments:",
   "  [PATH]...  Files to watch, in addition to `[watch].paths`",
   "",
   "Options:",
   "      --config <PATH>      Path to the config file (TOML)",
   "      --once               Print the initial snapshots and exit instead of watching",
   "      --log-level <LEVEL>  Logging level (error, warn, info, debug, trace) " ++ levelChoices,
   "      --dry-run            Parse + validate config and print it, but don't watch anything",
   "  -h, --help               Print help (see more with '--help')",
   "  -V, --version            Print version"]

/-- a line of a longer explanation -/
def indented (s : String) : String := "          " ++ s

/-- every argument explained -/
def longHelp : List String :=
  aboutLines ++
  ["Arguments:",
   "  [PATH]...",
   indented "Files to watch, in addition to `[watch].paths`",
   "",
   "Options:",
   "      --config <PATH>",
   indented "Path to the config file (TOML).",
   indented "",
   indented ("If omitted, `FileSync.toml` in the current directory is used when it exists; otherwise built-in defaults " ++
     "apply."),
   "",
   "      --once",
   indented "Print the initial snapshots and exit instead of watching",
   "",
   "      --log-level <LEVEL>",
   indented "Logging level (error, warn, info, debug, trace).",
   indented "",
   indented "If omitted, `FILESYNC_LOG` or a default level will be used.",
   indented "",
   indented levelChoices,
   "",
   "      --dry-run",
   indented "Parse + validate config and print it, but don't watch anything",
   "",
   "  -h, --help",
   indented "Print help (see a summary with '-h')",
   "",
   "  -V, --version",
   indented "Print version"]

def helpText (long : Bool) : String := "\n".intercalate (if long then longHelp else shortHelp) ++ "\n"

end LiveFiles.Command
