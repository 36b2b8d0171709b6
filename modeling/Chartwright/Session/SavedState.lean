import Chartwright.Json.Printer
import Chartwright.Json.Reader
import Chartwright.Wire.Entity
/-!
What is saved of a session, and the file it is saved as: a JSON object with the text and the styles
by node. Members that are missing in a file have defaults, and those that are not known are ignored.
-/
namespace Chartwright

/-- The text of a new session. -/
def defaultCode : Text :=
  ("flowchart LR\n    A[Start] --> B\x7bDecision\x7d\n    B -->|Yes| C[Process]\n" ++
    "    B -->|No| D[End]\n    C --> D").toList

/-- A text with the styles that were set for its nodes, in the order in which they were set
first. -/
structure SavedState where
  code : Text
  styles : List (Text × Style)
deriving DecidableEq, Repr

/-- Why a file holds no saved state. -/
inductive StateFault where
  | notJson | wrongShape
deriving DecidableEq, Repr

/-- Why no state is read from a file: it holds none, or goes beyond what is read. -/
inductive StateError where
  | invalid (fault : StateFault)
  | tooLong (e : Integer.TooLong)
  | tooDeep (innermost : Json.Container)
deriving DecidableEq, Repr

namespace SavedState

def toJson (s : SavedState) : Json :=
  .ofMembers [("code", .text s.code),
    ("node_styles", .object (s.styles.map fun (id, style) => (id, style.setToJson)))]

def check : Check SavedState :=
  Check.record .notObject fun ms =>
    SavedState.mk <$> Check.fieldOr "code" defaultCode Check.text ms <*>
      Check.fieldOr "node_styles" [] (Check.mappingOf (Style.check .notObject)) ms

/-- The content of the file. -/
def write (s : SavedState) : Json.Printed := s.toJson.write .file

/-- The state that the content of a file describes. -/
def read (content : Text) : Except StateError SavedState :=
  match Json.read content with
  | .error (.refused _ _) => .error (.invalid .notJson)
  | .error (.tooLong e) => .error (.tooLong e)
  | .error (.tooDeep innermost) => .error (.tooDeep innermost)
  | .ok j =>
    match check j with
    | .sound s => .ok s
    | .faulty _ => .error (.invalid .wrongShape)

end SavedState
end Chartwright
