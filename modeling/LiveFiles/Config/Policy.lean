/-
What to do with a write to a path that nobody watches.
-/
import LiveFiles.Text.Blank
import LiveFiles.Text.Lowercase

namespace LiveFiles

/-- writes to paths that nobody watches go to the disk only, or are refused -/
inductive WritePolicy where
  | allow
  | reject
  deriving DecidableEq, Repr

namespace WritePolicy

/-- the name with a capital, as in reports -/
def title : WritePolicy → String
  | .allow => "Allow"
  | .reject => "Reject"

def ofName? (s : String) : Option WritePolicy :=
  if s = "allow" then some .allow else if s = "reject" then some .reject else none

/-- Read a policy from free text: case and blanks around it do not count. A refusal quotes the text as it was compared. -/
def parse (s : String) : Except String WritePolicy :=
  let word := Text.lowercase (Text.trim s)
  match ofName? word with
  | some p => .ok p
  | none => .error s!"invalid unwatched_writes: {word} (expected \"allow\" or \"reject\")"

end WritePolicy

end LiveFiles
