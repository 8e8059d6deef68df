/-
How much is logged. A message is written if its level is at most as verbose as the chosen one; the choice on the
command line goes before the environment, and without either it is `info`.
-/
import LiveFiles.Text.Blank
import LiveFiles.Text.Lowercase

namespace LiveFiles.Command

inductive LogLevel where
  | error
  | warn
  | info
  | debug
  | trace
  deriving DecidableEq, Repr

namespace LogLevel

/-- most urgent first -/
def all : List LogLevel := [.error, .warn, .info, .debug, .trace]

/-- the name in lower case, as given on the command line -/
def name : LogLevel → String
  | .error => "error"
  | .warn => "warn"
  | .info => "info"
  | .debug => "debug"
  | .trace => "trace"

/-- the name with a capital -/
def title : LogLevel → String
  | .error => "Error"
  | .warn => "Warn"
  | .info => "Info"
  | .debug => "Debug"
  | .trace => "Trace"

/-- the name as it stands in a log line -/
def tag : LogLevel → String
  | .error => "ERROR"
  | .warn => "WARN"
  | .info => "INFO"
  | .debug => "DEBUG"
  | .trace => "TRACE"

def rank : LogLevel → Nat
  | .error => 0
  | .warn => 1
  | .info => 2
  | .debug => 3
  | .trace => 4

def ofName? (s : String) : Option LogLevel := all.find? (·.name = s)

/-- The level that free text asks for: case and blanks around it do not count, and `warning` is another word for `warn`. -/
def ofText? (s : String) : Option LogLevel :=
  let word := Text.lowercase (Text.trim s)
  if word = "warning" then some .warn else ofName? word

/-- the level in force -/
def choose (flag : Option LogLevel) (environment : Option String) : LogLevel :=
  flag.getD ((environment.bind ofText?).getD .info)

/-- messages of level `l` are written when `limit` is in force -/
def shows (limit l : LogLevel) : Bool := l.rank ≤ limit.rank

end LogLevel

end LiveFiles.Command
